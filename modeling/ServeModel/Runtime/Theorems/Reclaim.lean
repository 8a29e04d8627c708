import ServeModel.Runtime.Pending
import ServeModel.Runtime.Theorems.Pass

-- Whether the messages of a consumer that is gone find another one.
namespace Engine

open List hiding count

open Queue

variable {host : Host (List Pending)} {input : InputStreamSpec} {live : String → Prop} [DecidablePred live]
  {s t front back : List Pending} {e x : Pending}

section Claim

-- The entries after a claim.
def reclaimed (modern : Bool) (consumer : String) (minIdleMs count : Nat) (s : List Pending) : List Pending :=
  if modern then (autoclaim consumer minIdleMs (10 * count) count s).entries
  else s.map fun e =>
    if e.id ∈ (s.take count).map (·.id) ∧ minIdleMs ≤ e.idleMs then e.claimedBy consumer else e

theorem valueToString_toUTF8 (text : String) : valueToString (.bulkString text.toUTF8) = some text := by
  exact dif_pos text.isValidUTF8

theorem parseXpendingIds_rows (s : List Pending) : parseXpendingIds (.array (s.map (·.row))) = s.map (·.id) := by
  rw [parseXpendingIds, filterMap_map]
  exact (filterMap_congr fun e _ => valueToString_toUTF8 e.id).trans (congrFun filterMap_eq_map' s)

theorem claimIdleMessages_state (h : host.exec = serverExec modern) :
    (eval (claimIdleMessages host key group consumer minIdleMs "0-0" count) w).2.state =
      reclaimed modern consumer minIdleMs count w.state := by
  rw [claimIdleMessages, eval_ok eval_command, h]
  cases modern
  case true =>
    simp only [serverExec, if_true]
    split <;> rfl
  case false =>
    simp only [serverExec, Bool.false_eq_true, if_false]
    rw [if_neg (by decide), eval_ok eval_command, h]
    simp only [serverExec, parseXpendingIds_rows]
    split
    case isTrue hn =>
      have hn : (w.state.take count).map (·.id) = [] := hn
      simp only [reclaimed, hn, List.not_mem_nil, false_and, if_false, Bool.false_eq_true, List.map_id']
      rfl
    case isFalse =>
      rw [eval_ok eval_command, h]
      rfl

theorem reclaimIdle_state (h : host.exec = serverExec modern) : (eval (reclaimIdle host input) w).2.state =
    reclaimed modern host.consumer input.reclaimIdleMs input.maxDequeueItems w.state := by
  rw [← claimIdleMessages_state h, reclaimIdle]
  cases hr : eval (claimIdleMessages host _ _ host.consumer input.reclaimIdleMs "0-0" input.maxDequeueItems) w
  case mk r w' =>
    cases r
    case error => rw [eval_error hr]
    case ok => rw [eval_ok hr]; rfl

end Claim

section Window

-- What is claimed lies in the window, and is no longer held by a consumer that is gone.
theorem autoclaim_front (hc : live consumer) (hi : minIdleMs ≤ e.idleMs) (hw : front.length < attempts)
    (hl : ∀ x ∈ front, live x.consumer → x.idleMs < minIdleMs) :
    ∃ front' e' back', (autoclaim consumer minIdleMs attempts count (front ++ e :: back)).entries =
        front' ++ e' :: back' ∧ front'.length = front.length ∧
      (e' = e.claimedBy consumer ∨
        e' = e ∧ front'.countP (¬live ·.consumer) + count ≤ front.countP (¬live ·.consumer)) := by
  induction front generalizing attempts count
  case nil =>
    obtain ⟨attempts, rfl⟩ := Nat.exists_eq_add_one_of_ne_zero (Nat.ne_of_gt hw)
    cases count
    case zero => exact ⟨[], e, back, rfl, rfl, .inr ⟨rfl, Nat.le_refl _⟩⟩
    case succ count =>
      refine ⟨[], _, (autoclaim consumer minIdleMs attempts count back).entries, ?_, rfl, .inl rfl⟩
      simp only [List.nil_append, autoclaim, if_neg (Nat.not_lt.mpr hi)]
  case cons x front ih =>
    obtain ⟨attempts, rfl⟩ := Nat.exists_eq_add_one_of_ne_zero (Nat.ne_of_gt (Nat.zero_lt_of_lt hw))
    have hw := Nat.lt_of_succ_lt_succ hw
    obtain ⟨hx, hl⟩ := List.forall_mem_cons.mp hl
    cases count
    case zero => exact ⟨x :: front, e, back, rfl, rfl, .inr ⟨rfl, Nat.le_refl _⟩⟩
    case succ count =>
      by_cases hlt : x.idleMs < minIdleMs
      case pos =>
        obtain ⟨front', e', back', h, hlen, hcount⟩ := @ih attempts (count + 1) hw hl
        refine ⟨x :: front', e', back', ?_, congrArg (· + 1) hlen, hcount.imp_right fun ⟨he, hle⟩ => ⟨he, ?_⟩⟩
        · simp only [List.cons_append, autoclaim, if_pos hlt, h]
        · simp only [List.countP_cons]
          omega
      case neg =>
        -- the entry has been idle for long, so that nobody renews it
        have hx : ¬live x.consumer := fun h => hlt (hx h)
        obtain ⟨front', e', back', h, hlen, hcount⟩ := @ih attempts count hw hl
        refine ⟨x.claimedBy consumer :: front', e', back', ?_, congrArg (· + 1) hlen,
          hcount.imp_right fun ⟨he, hle⟩ => ⟨he, ?_⟩⟩
        · simp only [List.cons_append, autoclaim, if_neg hlt, h]
        · rw [List.countP_cons_of_neg (by simp [Pending.claimedBy, hc]), List.countP_cons_of_pos (by simpa using hx)]
          omega

theorem ids_autoclaim :
    (autoclaim consumer minIdleMs attempts count s).entries.map (·.id) = s.map (·.id) := by
  fun_induction autoclaim consumer minIdleMs attempts count s
  case case3 => rfl
  all_goals
    rename_i ih
    exact congrArg (_ :: ·) ih

theorem getElem_autoclaim {i : Nat} (h : attempts ≤ i) :
    (autoclaim consumer minIdleMs attempts count s).entries[i]? = s[i]? := by
  fun_induction autoclaim consumer minIdleMs attempts count s generalizing i
  case case3 => rfl
  all_goals
    rename_i ih
    cases i
    case zero => cases h
    case succ i => exact ih (Nat.le_of_succ_le_succ h)

-- How far into the entries a claim looks.
def reach (modern : Bool) (count : Nat) : Nat :=
  if modern then 10 * count else count

theorem reclaimed_front (hc : live consumer) (hi : minIdleMs ≤ e.idleMs) (hw : front.length < reach modern count)
    (hl : ∀ x ∈ front, live x.consumer → x.idleMs < minIdleMs) :
    ∃ front' e' back', reclaimed modern consumer minIdleMs count (front ++ e :: back) = front' ++ e' :: back' ∧
      front'.length = front.length ∧
      (e' = e.claimedBy consumer ∨
        e' = e ∧ front'.countP (¬live ·.consumer) + count ≤ front.countP (¬live ·.consumer)) := by
  cases modern
  case true => exact autoclaim_front hc hi hw hl
  case false =>
    have hm : e ∈ (front ++ e :: back).take count :=
      List.mem_take_iff_getElem.mpr ⟨front.length, by simpa [reach] using hw, by simp⟩
    have hm := List.mem_map_of_mem (f := (·.id)) hm
    simp only [reclaimed, Bool.false_eq_true, if_false, List.map_append, List.map_cons] at hm ⊢
    exact ⟨_, _, _, rfl, List.length_map _, .inl (if_pos ⟨hm, hi⟩)⟩

theorem ids_map {f : Pending → Pending} (h : ∀ e, (f e).id = e.id) : (s.map f).map (·.id) = s.map (·.id) := by
  rw [map_map]
  exact map_congr_left fun e _ => h e

theorem ids_reclaimed : (reclaimed modern consumer minIdleMs count s).map (·.id) = s.map (·.id) := by
  cases modern
  case true => exact ids_autoclaim
  case false =>
    refine ids_map fun e => ?_
    split <;> rfl

-- Beyond the window nothing is claimed.
theorem getElem_reclaimed {i : Nat} (hu : (s.map (·.id)).Nodup) (h : reach modern count ≤ i) :
    (reclaimed modern consumer minIdleMs count s)[i]? = s[i]? := by
  cases modern
  case true => exact getElem_autoclaim h
  case false =>
    simp only [reclaimed, Bool.false_eq_true, if_false, List.getElem?_map]
    cases hx : s[i]?
    case none => rfl
    case some x =>
      rw [Option.map_some, if_neg]
      rintro ⟨hm, -⟩
      rw [← List.take_append_drop count s, List.map_append] at hu
      refine (List.nodup_append.mp hu).right.right _ hm x.id (List.mem_map_of_mem ?_) rfl
      refine List.mem_of_getElem? (i := i - count) ?_
      rw [List.getElem?_drop, Nat.add_sub_cancel' (show count ≤ i from h), hx]

omit [DecidablePred live] in
-- What the live consumers do in the meantime only moves the entry to the front.
theorem Later.split (h : Later live minIdleMs (front ++ e :: back) t) (he : ¬live e.consumer)
    [DecidablePred live] : ∃ front' idleMs back', t = front' ++ { e with idleMs } :: back' ∧ e.idleMs ≤ idleMs ∧
      front'.length ≤ front.length ∧ front'.countP (¬live ·.consumer) = front.countP (¬live ·.consumer) ∧
      ∀ x ∈ front', live x.consumer → x.idleMs < minIdleMs := by
  induction front generalizing t
  case nil =>
    cases h
    case abandoned hle _ => exact ⟨[], _, _, rfl, hle, Nat.le_refl _, rfl, by simp⟩
    all_goals exact absurd ‹live e.consumer› he
  case cons y front ih =>
    cases h
    case renewed hlt hy h =>
      obtain ⟨front', i, back', rfl, hi, hlen, hcount, hl⟩ := ih h
      refine ⟨_ :: front', i, back', rfl, hi, Nat.succ_le_succ hlen, ?_, forall_mem_cons.mpr ⟨fun _ => hlt, hl⟩⟩
      simp only [countP_cons, hcount]
    case acked hy h =>
      obtain ⟨front', i, back', rfl, hi, hlen, hcount, hl⟩ := ih h
      refine ⟨front', i, back', rfl, hi, Nat.le_succ_of_le hlen, ?_, hl⟩
      rw [hcount, countP_cons_of_neg (by simp [hy])]
    case abandoned hy _ h =>
      obtain ⟨front', i, back', rfl, hi, hlen, hcount, hl⟩ := ih h
      refine ⟨_ :: front', i, back', rfl, hi, Nat.succ_le_succ hlen, ?_,
        forall_mem_cons.mpr ⟨fun h => absurd h hy, hl⟩⟩
      simp only [countP_cons, hcount]

end Window

section Rounds

variable {id : String} {run : Nat → List Pending}

-- A live consumer reclaims after some time has gone by.
def Round (live : String → Prop) (modern : Bool) (input : InputStreamSpec) (s s' : List Pending) : Prop :=
  ∃ (t : List Pending) (host : Host (List Pending)) (calls : List Call), Later live input.reclaimIdleMs s t ∧
    (t.map (·.id)).Nodup ∧ host.exec = serverExec modern ∧ live host.consumer ∧
    s' = (eval (reclaimIdle host input) ⟨t, calls⟩).2.state

-- In every run of rounds the message ends up with a live consumer.
def Reclaimed (live : String → Prop) (modern : Bool) (input : InputStreamSpec) (id : String)
    (s : List Pending) : Prop :=
  ∀ run : Nat → List Pending, run 0 = s → (∀ n, Round live modern input (run n) (run (n + 1))) →
    ∃ n, ∀ x ∈ run n, x.id = id → live x.consumer

-- The message is abandoned, within the window, behind so many others that are.
def Waits (live : String → Prop) [DecidablePred live] (modern : Bool) (input : InputStreamSpec) (id : String)
    (rank : Nat) (s : List Pending) : Prop :=
  ∃ front e back, s = front ++ e :: back ∧ e.id = id ∧ ¬live e.consumer ∧ input.reclaimIdleMs ≤ e.idleMs ∧
    front.length < reach modern input.maxDequeueItems ∧ front.countP (¬live ·.consumer) = rank

theorem Round.waits (h : Round live modern input s s') (hw : Waits live modern input id rank s) :
    (∀ x ∈ s', x.id = id → live x.consumer) ∨ ∃ r < rank, Waits live modern input id r s' := by
  obtain ⟨t, host, calls, hl, hu, hx, hc, rfl⟩ := h
  obtain ⟨front, e, back, rfl, rfl, he, hi, hf, rfl⟩ := hw
  obtain ⟨front', idleMs, back', rfl, hle, hlen, hcount, hl⟩ := hl.split he
  rw [reclaimIdle_state hx]
  rw [← ids_reclaimed] at hu
  obtain ⟨front'', e', back'', heq, hlen', h⟩ :=
    reclaimed_front (e := { e with idleMs }) hc (Nat.le_trans hi hle) (Nat.lt_of_le_of_lt hlen hf) hl
  rw [heq] at hu ⊢
  have hmem : e' ∈ front'' ++ e' :: back'' := List.mem_append_right _ List.mem_cons_self
  obtain rfl | ⟨rfl, h⟩ := h
  · refine .inl fun x hx hid => ?_
    rw [List.inj_on_of_nodup_map hu hx hmem hid]
    exact hc
  · refine .inr ⟨_, ?_, front'', _, back'', rfl, rfl, he, Nat.le_trans hi hle, by omega, rfl⟩
    have : 0 < input.maxDequeueItems := by cases modern <;> simp [reach] at hf <;> omega
    omega

theorem Waits.reclaimed (hw : Waits live modern input id rank (run n))
    (h : ∀ n, Round live modern input (run n) (run (n + 1))) : ∃ n, ∀ x ∈ run n, x.id = id → live x.consumer := by
  induction rank using Nat.strong_induction_on generalizing n
  case h rank ih =>
    obtain hc | ⟨r, hr, hw⟩ := (h n).waits hw
    · exact ⟨_, hc⟩
    · exact ih r hr hw

def renew (live : String → Prop) [DecidablePred live] (e : Pending) : Pending :=
  if live e.consumer then { e with idleMs := 0 } else e

theorem Later.renew (hm : 0 < minIdleMs) : Later live minIdleMs s (s.map (renew live)) := by
  induction s
  case nil => exact .fresh nofun
  case cons e s ih =>
    by_cases he : live e.consumer
    case pos => simpa [Engine.renew, he] using Later.renewed he hm ih
    case neg => simpa [Engine.renew, he] using Later.abandoned he (Nat.le_refl _) ih

def server (modern : Bool) (consumer : String) : Host (List Pending) where
  exec := serverExec modern
  backgroundTasks s := (.ok (), s)
  dispatch _ _ stats s := (.ok stats, s)
  json _ := none
  keyStart := ""
  consumer := consumer

-- The run in which every live consumer keeps what it has.
def kept (live : String → Prop) [DecidablePred live] (modern : Bool) (consumer : String) (input : InputStreamSpec)
    (s : List Pending) : Nat → List Pending
  | 0 => s
  | n + 1 => reclaimed modern consumer input.reclaimIdleMs input.maxDequeueItems
      ((kept live modern consumer input s n).map (renew live))

theorem not_reclaimed (hm : 0 < input.reclaimIdleMs) (hc : live consumer)
    (hu : ((front ++ e :: back).map (·.id)).Nodup) (he : ¬live e.consumer)
    (hw : reach modern input.maxDequeueItems ≤ front.length) :
    ¬Reclaimed live modern input e.id (front ++ e :: back) := by
  intro h
  let run := kept live modern consumer input (front ++ e :: back)
  have hr : ∀ s : List Pending, (s.map (renew live)).map (·.id) = s.map (·.id) := by
    refine fun s => ids_map fun e => ?_
    rw [renew]
    split <;> rfl
  have hids : ∀ n, ((run n).map (·.id)).Nodup := by
    intro n
    induction n
    case zero => exact hu
    case succ n ih =>
      rw [← hr, ← ids_reclaimed] at ih
      exact ih
  have hat : ∀ n, (run n)[front.length]? = some e := by
    intro n
    induction n
    case zero => simp [run, kept]
    case succ n ih =>
      have hu := hids n
      rw [← hr] at hu
      refine (getElem_reclaimed hu hw).trans ?_
      rw [getElem?_map, ih, Option.map_some, renew, if_neg he]
  obtain ⟨n, hn⟩ := h run rfl fun n => by
    refine ⟨(run n).map (renew live), server modern consumer, [], .renew hm,
      (hr _).symm ▸ hids n, rfl, hc, ?_⟩
    rw [reclaimIdle_state rfl]
    rfl
  exact he (hn e (mem_of_getElem? (hat n)) rfl)

theorem reclaimed_iff (hm : 0 < input.reclaimIdleMs) (hc : ∃ consumer, live consumer)
    (hu : ((front ++ e :: back).map (·.id)).Nodup) (he : ¬live e.consumer) (hi : input.reclaimIdleMs ≤ e.idleMs) :
    Reclaimed live modern input e.id (front ++ e :: back) ↔
      front.length < reach modern input.maxDequeueItems := by
  refine ⟨fun h => ?_, fun hw run h0 h => ?_⟩
  · obtain ⟨consumer, hc⟩ := hc
    by_contra hw
    exact not_reclaimed hm hc hu he (Nat.le_of_not_lt hw) h
  · exact Waits.reclaimed (n := 0) ⟨front, e, back, h0, rfl, he, hi, hw, rfl⟩ h

-- The entry stands behind ten that are kept, or behind one.
def abandoned : Pending :=
  ⟨"11", "dead", 60000, .nil⟩

def held (id : String) : Pending :=
  ⟨id, "live", 0, .nil⟩

def oneAtATime : InputStreamSpec :=
  { inputOf "a" with maxDequeueItems := 1 }

theorem reclaimed_behind_one : Reclaimed (· = "live") true oneAtATime "11" ([held "1"] ++ abandoned :: []) := by
  refine (reclaimed_iff (e := abandoned) ?_ ⟨"live", ?_⟩ ?_ ?_ ?_).mpr ?_
  all_goals decide

theorem not_reclaimed_behind_ten : ¬Reclaimed (· = "live") true oneAtATime "11"
    (["1", "2", "3", "4", "5", "6", "7", "8", "9", "10"].map held ++ abandoned :: []) :=
  not_reclaimed (e := abandoned) (by decide) rfl (by decide) (by decide) (by decide)

end Rounds

end Engine
