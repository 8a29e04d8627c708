import ServeModel.Runtime.Engine

-- The pending entries of a consumer group as the server keeps them, and how they are claimed.
namespace Engine

open Queue

-- An entry that has been handed out, and the time since its consumer got or renewed it.
structure Pending where
  id : String
  consumer : String
  idleMs : Nat
  fields : RedisValue

namespace Pending

def claimedBy (consumer : String) (e : Pending) : Pending :=
  { e with consumer, idleMs := 0 }

def reply (e : Pending) : RedisValue :=
  .array [.bulkString e.id.toUTF8, e.fields]

def row (e : Pending) : RedisValue :=
  .array [.bulkString e.id.toUTF8, .bulkString e.consumer.toUTF8, .int e.idleMs, .int 1]

end Pending

structure Autoclaim where
  claimed : List Pending
  entries : List Pending
  next : String

-- The server looks at so many entries and no more, and claims those that have been idle for long.
def autoclaim (consumer : String) (minIdleMs : Nat) : Nat → Nat → List Pending → Autoclaim
  | attempts + 1, count + 1, e :: es =>
    if e.idleMs < minIdleMs then
      let r := autoclaim consumer minIdleMs attempts (count + 1) es
      { r with entries := e :: r.entries }
    else
      let r := autoclaim consumer minIdleMs attempts count es
      { r with claimed := e.claimedBy consumer :: r.claimed, entries := e.claimedBy consumer :: r.entries }
  | _, _, es => ⟨[], es, (es.head?.map (·.id)).getD "0-0"⟩

-- What a server answers, whether it knows `XAUTOCLAIM` or not.
def serverExec (modern : Bool) : Command → List Pending → Except String RedisValue × List Pending
  | .xautoclaim _ _ consumer minIdleMs start count, s =>
    if modern then
      let (done, s) := if start = "0-0" then ([], s) else s.span (·.id ≠ start)
      let r := autoclaim consumer minIdleMs (10 * count) count s
      (.ok (.array [.bulkString r.next.toUTF8, .array (r.claimed.map (·.reply)), .array []]), done ++ r.entries)
    else (.error "ERR unknown command 'XAUTOCLAIM'", s)
  | .xpending _ _ count, s => (.ok (.array ((s.take count).map (·.row))), s)
  | .xclaim _ _ consumer minIdleMs ids, s =>
    let takes (e : Pending) := e.id ∈ ids ∧ minIdleMs ≤ e.idleMs
    (.ok (.array ((s.filter takes).map (·.reply))), s.map fun e => if takes e then e.claimedBy consumer else e)
  | .xreadgroup .., s => (.ok .nil, s)

section Rounds

-- The consumers that are alive, and the least idle time of an entry that is claimed.
variable (live : String → Prop) (minIdleMs : Nat)

-- Time goes by: the live consumers renew what they hold, acknowledge it, or get new entries.
inductive Later : List Pending → List Pending → Prop
  | fresh : (∀ e ∈ new, live e.consumer ∧ e.idleMs < minIdleMs) → Later [] new
  | renewed : live e.consumer → idleMs < minIdleMs → Later es es' → Later (e :: es) ({ e with idleMs } :: es')
  | acked : live e.consumer → Later es es' → Later (e :: es) es'
  | abandoned : ¬live e.consumer → e.idleMs ≤ idleMs → Later es es' → Later (e :: es) ({ e with idleMs } :: es')

end Rounds

end Engine
