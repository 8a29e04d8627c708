import ServeModel.Lib.Double
import ServeModel.Runtime.Basic

namespace Scheduler

-- The two hashes of the reserved memory store. Their values are written by Lua scripts, so they are
-- numbers of the double format.
@[ext]
structure MemoryStore where
  accounted : Nat → Option Nat
  active : Nat → Option Nat

namespace MemoryStore

def empty : MemoryStore where
  accounted _ := none
  active _ := none

def set (store : MemoryStore) (id accounted active : Nat) : MemoryStore where
  accounted := Function.update store.accounted id (some accounted)
  active := Function.update store.active id (some active)

def delete (store : MemoryStore) (id : Nat) : MemoryStore where
  accounted := Function.update store.accounted id none
  active := Function.update store.active id none

-- The script of `try_reserve_idle`. The reply is the list of Lua numbers that it returns.
def reserveIdle (id floor delta : Nat) (store : MemoryStore) : List Int × MemoryStore :=
  let accountedCurrent := (store.accounted id).getD 0
  let activeCurrent := (store.active id).getD 0
  if activeCurrent > 0 then
    ([0, accountedCurrent, activeCurrent], store)
  else
    let delta := Double.round delta
    let updatedAccounted := Double.round (max accountedCurrent (Double.round floor) + delta)
    ([1, updatedAccounted, delta], store.set id updatedAccounted delta)

def decrement (id amount : Nat) (store : MemoryStore) : List Int × MemoryStore :=
  let amount := Double.round amount
  match store.accounted id, store.active id with
  | none, none => ([-1, 0], store)
  | accountedRaw, activeRaw =>
    let accountedCurrent := accountedRaw.getD 0
    let activeCurrent := activeRaw.getD 0
    if activeCurrent > amount then
      let activeAfter := Double.round (activeCurrent - amount)
      let accountedAfter := max (Double.round (accountedCurrent - amount)) activeAfter
      ([accountedAfter, activeAfter], store.set id accountedAfter activeAfter)
    else
      ([0, 0], store.delete id)

end MemoryStore

-- How Redis turns a Lua number into an integer reply. Outside the range of 64 bit integers the result of
-- the conversion is some integer of that range.
def IntegerReply (n i : Int) : Prop :=
  -2 ^ 63 ≤ i ∧ i < 2 ^ 63 ∧ (n < 2 ^ 63 → i = n)

-- How an active amount reads back: exactly, as long as its decimal text is exact.
def ReadsBack (stored read : Nat) : Prop :=
  if stored ≤ 2 ^ 53 then read = stored else 0 < read

section Store

variable {τ : Type}

def getActiveMany (resourceIds : List Nat) : RoleM τ (List (Nat × Nat)) := do
  Routine.ofExcept (← RoleM.perform (.hmgetActive resourceIds))

def activeOf (active : List (Nat × Nat)) (resourceId : Nat) : Nat :=
  (active.lookup resourceId).getD 0

def tryReserveIdle (resourceId observedUsedMb memoryMb : Nat) : RoleM τ (Option Nat) := do
  if 2 ^ 63 ≤ observedUsedMb then
    throw <| .msg s!"scheduler: observed used memory overflow for resource '{resourceId}'"
  if 2 ^ 63 ≤ memoryMb then
    throw <| .msg s!"scheduler: reserved memory increment overflow for resource '{resourceId}'"
  let updated ← Routine.ofExcept (← RoleM.perform (.reserveIdle resourceId observedUsedMb memoryMb))
  match updated with
  | 1 :: rest =>
    match rest with
    | [] => throw <| .msg s!"scheduler: invalid idle reservation response for resource '{resourceId}'"
    | accounted :: _ =>
      if accounted < 0 then
        throw <| .msg s!"scheduler: reserved memory became negative for resource '{resourceId}'"
      else
        return some accounted.toNat
  | _ => return none

def decrement (resourceId memoryMb : Nat) : RoleM τ (Option Nat) := do
  if 2 ^ 63 ≤ memoryMb then
    throw <| .msg s!"scheduler: reserved memory decrement overflow for resource '{resourceId}'"
  let updated ← Routine.ofExcept (← RoleM.perform (.decrementReserved resourceId memoryMb))
  match updated with
  | [] =>
    throw <| .msg s!"scheduler: invalid reserved memory decrement response for resource '{resourceId}'"
  | accountedAfter :: _ =>
    if accountedAfter < 0 then return none else return some accountedAfter.toNat

end Store

end Scheduler
