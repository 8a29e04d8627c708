import ServeModel.ZarrIo.Theorems.PoolLayout
import ServeModel.ZarrIo.Theorems.Submit

namespace ZarrIo

open List hiding beq_eq_decide

namespace BufferPool

section Places

variable (p : BufferPool) (id : Nat)

-- The call holds an id whose flag is set.
def Call.takes : Call → Bool
  | building _ j | releasing j => j = id
  | _ => false

-- The call holds an id whose flag is not set.
def Call.frees : Call → Bool
  | marking _ _ j | pushing j => j = id
  | _ => false

def queued : Nat :=
  p.freeHotIds.count id + p.freeWarmIds.count id

def leased : Nat :=
  p.leases.countP (·.id = id)

def inTransit : Nat :=
  p.calls.countP (·.takes id) + p.calls.countP (·.frees id)

-- How many times an id is in the pool.
def place : Nat :=
  p.queued id + p.leased id + p.inTransit id

def taken : Nat :=
  p.leased id + p.calls.countP (·.takes id)

def free : Nat :=
  p.queued id + p.calls.countP (·.frees id)

theorem place_eq : p.place id = p.taken id + p.free id := by
  simp only [place, taken, free, inTransit]
  omega

end Places

-- No two leases share a byte, every lease is some bytes of a slab, and no id gets lost or is there twice.
structure Safe (alignment : Nat) (p : BufferPool) : Prop where
  apart : p.leases.Pairwise Lease.Apart
  within : ∀ l ∈ p.leases, ∃ f slab, p.fastPath = some f ∧ f.HasSlab slab ∧ l.baseAddr = slab.baseAddr ∧
    l.stop ≤ slab.totalLen ∧ (l.baseAddr + l.start) % alignment = 0 ∧ l.start + l.requested ≤ l.stop
  once : ∀ f, p.fastPath = some f → p.shutdown = false → ∀ id, 1 ≤ id → id ≤ f.totalBuffers → p.place id = 1

-- The allocator gives the two slabs different bytes.
def AllocatesApart (cfg : BufferPoolConfig) : Action → Prop
  | .initializeIfNeeded hint hotPtr warmPtr => ∀ f, buildFastPath cfg hint hotPtr warmPtr = .ok f → f.SlabsApart
  | _ => True

-- The buffers of the pool are not empty, or something is asked for.
def Sized (p : BufferPool) : Action → Prop
  | .acquire requested => ∀ f, p.fastPath = some f → 0 < f.pooledBufferBytes ∨ 0 < requested
  | _ => True

section Invariant

variable {alignment : Nat} {f : FastPoolState} {p p' : BufferPool} {id i requested : Nat} {call : Call}

def Call.Fits (f : FastPoolState) : Call → Prop
  | popping _ requested | marking _ requested _ | building requested _ | checkingWarm requested =>
    requested ≤ f.pooledBufferBytes ∧ 0 < f.pooledBufferBytes
  | _ => True

structure Ready (alignment : Nat) (f : FastPoolState) (p : BufferPool) : Prop where
  fastPath : p.fastPath = some f
  spec : FastSpec alignment f
  apart : f.SlabsApart
  length : p.leasedSlots.length = f.totalBuffers
  place_le : ∀ id, p.place id ≤ 1
  inRange : ∀ id, 0 < p.place id → 1 ≤ id ∧ id ≤ f.totalBuffers
  once : p.shutdown = false → ∀ id, 1 ≤ id → id ≤ f.totalBuffers → p.place id = 1
  hot : ∀ id ∈ p.freeHotIds, id ≤ f.hotSlabBuffers
  warm : ∀ id ∈ p.freeWarmIds, f.hotSlabBuffers < id
  set : ∀ id, 0 < p.taken id → p.leasedSlots[id - 1]? = some true
  unset : ∀ id, 0 < p.free id → p.leasedSlots[id - 1]? = some false
  handles : ∀ l ∈ p.leases, buildPooledHandleForId f l.requested l.id = .ok l ∧ l.requested ≤ f.pooledBufferBytes
  calls : ∀ call ∈ p.calls, call.Fits f

variable (hr : Ready alignment f p)

include hr

theorem Ready.lease_inRange (hl : l ∈ p.leases) : 1 ≤ l.id ∧ l.id ≤ f.totalBuffers := by
  have : 0 < p.leases.countP (·.id = l.id) := countP_pos_iff.mpr ⟨l, hl, by simp⟩
  apply hr.inRange
  simp only [place, leased]
  omega

theorem Ready.nodup_leases : (p.leases.map (·.id)).Nodup := by
  refine nodup_iff_count_le_one.mpr fun id => ?_
  have := hr.place_le id
  simp only [place, leased] at this
  have he : (p.leases.map (·.id)).count id = p.leases.countP (·.id = id) := by
    rw [count_eq_countP, countP_map]
    rfl
  omega

theorem Ready.leases_apart (hl : l ∈ p.leases) (hl' : l' ∈ p.leases) (h : l.id ≠ l'.id) :
    l.Apart l' := by
  have hb := (hr.handles l hl).1
  have hb' := (hr.handles l' hl').1
  have ⟨h₁, h₂⟩ := hr.lease_inRange hl
  have ⟨h₁', h₂'⟩ := hr.lease_inRange hl'
  cases Nat.lt_or_gt_of_ne h
  case inl hlt => exact hr.spec.apart_of_lt hr.apart h₁ h₂' hlt hb hb'
  case inr hlt => exact (hr.spec.apart_of_lt hr.apart h₁' h₂ hlt hb' hb).symm

theorem Ready.safe : Safe alignment p where
  apart := (pairwise_map.mp hr.nodup_leases).imp_of_mem fun hl hl' h => hr.leases_apart hl hl' h
  within l hl := by
    have ⟨hb, hle⟩ := hr.handles l hl
    have ⟨h₁, h₂⟩ := hr.lease_inRange hl
    have ⟨_, _, slab, hslab, hw⟩ := hr.spec.handle_eq_ok h₁ h₂ hb
    have := hw.length
    exact ⟨f, slab, hr.fastPath, hslab, hw.baseAddr, hw.inside, hw.aligned, by omega⟩
  once f' hf := by
    cases hr.fastPath.symm.trans hf
    exact hr.once

-- A step that moves ids about without a change of the flags.
theorem Ready.keep (hfast : p'.fastPath = p.fastPath) (hslots : p'.leasedSlots = p.leasedSlots)
    (hshut : p'.shutdown = false → p.shutdown = false) (htaken : ∀ id, p'.taken id = p.taken id)
    (hfree : ∀ id, p'.free id = p.free id) (hhot : ∀ id ∈ p'.freeHotIds, id ≤ f.hotSlabBuffers)
    (hwarm : ∀ id ∈ p'.freeWarmIds, f.hotSlabBuffers < id)
    (hhandles : ∀ l ∈ p'.leases, buildPooledHandleForId f l.requested l.id = .ok l ∧
      l.requested ≤ f.pooledBufferBytes)
    (hcalls : ∀ call ∈ p'.calls, call.Fits f) : Ready alignment f p' := by
  have hplace : ∀ id, p'.place id = p.place id := fun id => by simp only [place_eq, htaken, hfree]
  constructor
  case fastPath => exact hfast.trans hr.fastPath
  case spec => exact hr.spec
  case apart => exact hr.apart
  case length => exact hslots ▸ hr.length
  case place_le => exact fun id => hplace id ▸ hr.place_le id
  case inRange => exact fun id h => hr.inRange id (hplace id ▸ h)
  case once => exact fun hs id h₁ h₂ => hplace id ▸ hr.once (hshut hs) id h₁ h₂
  case hot => exact hhot
  case warm => exact hwarm
  case set => exact fun id h => hslots ▸ hr.set id (htaken id ▸ h)
  case unset => exact fun id h => hslots ▸ hr.unset id (hfree id ▸ h)
  case handles => exact hhandles
  case calls => exact hcalls

omit hr

theorem taken_setCall (c : Call) (j : Nat) (hc : p.calls[i]? = some old) :
    (p.setCall i c).taken j + (old.takes j).toNat = p.taken j + (c.takes j).toNat := by
  have := countP_set (b := c) (·.takes j) hc
  simp only [taken, leased, setCall]
  omega

theorem free_setCall (c : Call) (j : Nat) (hc : p.calls[i]? = some old) :
    (p.setCall i c).free j + (old.frees j).toNat = p.free j + (c.frees j).toNat := by
  have := countP_set (b := c) (·.frees j) hc
  simp only [free, queued, setCall]
  omega

theorem fits_setCall (h : ∀ call ∈ p.calls, call.Fits f) (hc : call.Fits f) :
    ∀ c ∈ (p.setCall i call).calls, c.Fits f := by
  intro c hm
  cases mem_or_eq_of_mem_set hm
  case inl hm => exact h c hm
  case inr he => exact he ▸ hc

include hr

theorem Ready.goOn (hc : p.calls[i]? = some old) (hold : ∀ id, old.takes id = false ∧ old.frees id = false)
    (hnew : ∀ id, call.takes id = false ∧ call.frees id = false) (hfits : call.Fits f) :
    Ready alignment f (p.setCall i call) := by
  refine hr.keep rfl rfl (fun h => h) (fun id => ?_)
    (fun id => ?_) hr.hot hr.warm hr.handles (fits_setCall hr.calls hfits)
  · simpa [hold, hnew] using taken_setCall call id hc
  · simpa [hold, hnew] using free_setCall call id hc

omit hr in
theorem place_pos_of_call (hm : call ∈ p.calls) (h : call.takes id ∨ call.frees id) : 0 < p.place id := by
  simp only [place, inTransit]
  cases h
  case inl h =>
    have : 0 < p.calls.countP (·.takes id) := countP_pos_iff.mpr ⟨call, hm, h⟩
    omega
  case inr h =>
    have : 0 < p.calls.countP (·.frees id) := countP_pos_iff.mpr ⟨call, hm, h⟩
    omega

theorem Ready.enter (hnew : ∀ id, call.takes id = false ∧ call.frees id = false) (hfits : call.Fits f) :
    Ready alignment f { p with calls := p.calls ++ [call] } := by
  refine hr.keep rfl rfl (fun h => h) (fun j => ?_) (fun j => ?_) hr.hot hr.warm hr.handles (fun c hc => ?_)
  · simp [taken, leased, hnew]
  · simp [free, queued, hnew]
  · cases mem_append.mp hc
    case inl hc => exact hr.calls c hc
    case inr hc => exact mem_singleton.mp hc ▸ hfits

theorem Ready.slotIndexForId_eq (h : 0 < p.place id) : p.slotIndexForId f id = .ok (id - 1) := by
  have ⟨hge, hle⟩ := hr.inRange id h
  have := hr.length
  rw [slotIndexForId, hr.spec.hotStartId, if_neg (by omega), if_neg (by omega)]

-- The flag of the slot says which kind of places an id is in. Here it changes along with them.
theorem Ready.flag (b : Bool) (id : Nat) (hc : p.calls[i]? = some old)
    (hold : ∀ j, old.takes j = (!b && id == j) ∧ old.frees j = (b && id == j))
    (hnew : ∀ j, call.takes j = (b && id == j) ∧ call.frees j = (!b && id == j)) (hfits : call.Fits f) :
    p.leasedSlots[id - 1]? = some !b ∧
      Ready alignment f { p.setCall i call with leasedSlots := p.leasedSlots.set (id - 1) b } := by
  have ht := fun j => taken_setCall call j hc
  have hf := fun j => free_setCall call j hc
  simp only [hold, hnew] at ht hf
  have hpos : 0 < p.place id := by
    apply place_pos_of_call (mem_of_getElem? hc)
    cases b <;> simp [hold]
  have hone : p.taken id + p.free id ≤ 1 := place_eq p id ▸ hr.place_le id
  have hplace : ∀ j, (p.setCall i call).place j = p.place j := by
    intro j
    have := ht j
    have := hf j
    rw [place_eq, place_eq]
    cases b <;> simp at * <;> omega
  have ⟨hge, hle⟩ := hr.inRange id hpos
  have hthis : (p.leasedSlots.set (id - 1) b)[id - 1]? = some b :=
    getElem?_set_self (by rw [hr.length]; omega)
  have hother : ∀ j, j ≠ id → 0 < p.place j → (p.leasedSlots.set (id - 1) b)[j - 1]? = p.leasedSlots[j - 1]? := by
    intro j hj hpos
    have := hr.inRange j hpos
    exact getElem?_set_ne (by omega)
  refine ⟨?_, { hr with length := ?_, place_le := ?_, inRange := ?_, once := ?_, set := ?_, unset := ?_, calls := ?_ }⟩
  · have := ht id
    have := hf id
    cases b
    case false =>
      simp at *
      exact hr.set id (by omega)
    case true =>
      simp at *
      exact hr.unset id (by omega)
  · simpa using hr.length
  · exact fun j => hplace j ▸ hr.place_le j
  · exact fun j h => hr.inRange j (hplace j ▸ h)
  · exact fun hs j h₁ h₂ => hplace j ▸ hr.once hs j h₁ h₂
  · intro j h
    change 0 < (p.setCall i call).taken j at h
    have hj := ht j
    by_cases he : j = id
    case pos =>
      subst he
      cases b
      case false => simp at hj; omega
      case true => exact hthis
    case neg =>
      simp only [beq_false_of_ne (Ne.symm he), Bool.and_false, Bool.toNat_false] at hj
      rw [hother j he (by rw [place_eq]; omega)]
      exact hr.set j (by omega)
  · intro j h
    change 0 < (p.setCall i call).free j at h
    have hj := hf j
    by_cases he : j = id
    case pos =>
      subst he
      cases b
      case true => simp at hj; omega
      case false => exact hthis
    case neg =>
      simp only [beq_false_of_ne (Ne.symm he), Bool.and_false, Bool.toNat_false] at hj
      rw [hother j he (by rw [place_eq]; omega)]
      exact hr.unset j (by omega)
  · exact fits_setCall hr.calls hfits

-- A call goes on while an id moves between it and one of the queues.
theorem Ready.requeue {hot warm : List Nat} (hc : p.calls[i]? = some old)
    (htakes : ∀ j, call.takes j = old.takes j)
    (hfrees : ∀ j, hot.count j + warm.count j + (call.frees j).toNat = p.queued j + (old.frees j).toNat)
    (hhot : ∀ id ∈ hot, id ≤ f.hotSlabBuffers) (hwarm : ∀ id ∈ warm, f.hotSlabBuffers < id) (hfits : call.Fits f) :
    Ready alignment f { p.setCall i call with freeHotIds := hot, freeWarmIds := warm } := by
  refine hr.keep rfl rfl (fun h => h) (fun j => ?_) (fun j => ?_) hhot hwarm hr.handles (fits_setCall hr.calls hfits)
  · have hs := taken_setCall call j hc
    rw [htakes] at hs
    exact Nat.add_right_cancel hs
  · have hs := free_setCall call j hc
    have := hfrees j
    simp only [free, queued, setCall] at hs this ⊢
    omega

theorem Ready.popHot {rest : List Nat} (hc : p.calls[i]? = some (.popping false requested))
    (hq : p.freeHotIds = id :: rest) :
    Ready alignment f { p.setCall i (.marking false requested id) with freeHotIds := rest } := by
  have hhot := hr.hot
  rw [hq] at hhot
  refine hr.requeue hc (fun _ => rfl) (fun j => ?_) (fun j hj => hhot j (.tail _ hj)) hr.warm
    (hr.calls _ (mem_of_getElem? hc) :)
  simp only [Call.frees, queued, hq, count_cons, beq_eq_decide]
  cases decide (id = j) <;> simp only [setCall] <;> grind

theorem Ready.popWarm {rest : List Nat} (hc : p.calls[i]? = some (.popping true requested))
    (hq : p.freeWarmIds = id :: rest) :
    Ready alignment f { p.setCall i (.marking true requested id) with freeWarmIds := rest } := by
  have hwarm := hr.warm
  rw [hq] at hwarm
  refine hr.requeue hc (fun _ => rfl) (fun j => ?_) hr.hot (fun j hj => hwarm j (.tail _ hj))
    (hr.calls _ (mem_of_getElem? hc) :)
  simp only [Call.frees, queued, hq, count_cons, beq_eq_decide]
  cases decide (id = j) <;> simp only [setCall] <;> grind

theorem Ready.build (hc : p.calls[i]? = some (.building requested id)) :
    ∃ l, buildPooledHandleForId f requested id = .ok l ∧
      Ready alignment f { p.setCall i (.returned (.ok ())) with leases := p.leases ++ [l] } := by
  have hm := mem_of_getElem? hc
  have ⟨hle, hb⟩ : requested ≤ f.pooledBufferBytes ∧ 0 < f.pooledBufferBytes := hr.calls _ hm
  have ⟨h₁, h₂⟩ := hr.inRange id (place_pos_of_call hm (.inl (by simp [Call.takes])))
  have ⟨l, hl⟩ := hr.spec.exists_handle requested h₁ h₂ hb
  have ⟨hid, hreq, _⟩ := hr.spec.handle_eq_ok h₁ h₂ hl
  refine ⟨l, hl, hr.keep rfl rfl (fun h => h) (fun j => ?_) (fun j => ?_) hr.hot hr.warm (fun l' hl' => ?_)
    (fits_setCall hr.calls trivial)⟩
  · have hs := taken_setCall (.returned (.ok ())) j hc
    simp only [Call.takes, taken, leased, setCall, countP_append, countP_singleton, hid] at hs ⊢
    by_cases hj : id = j
    all_goals simp [hj] at hs ⊢; omega
  · exact free_setCall _ j hc
  · cases mem_append.mp hl'
    case inl hl' => exact hr.handles l' hl'
    case inr hl' =>
      cases mem_singleton.mp hl'
      rw [hid, hreq]
      exact ⟨hl, hle⟩

section Release

omit hr

theorem countP_eraseIdx {l : List α} {a : α} (q : α → Bool) (h : l[i]? = some a) :
    (l.eraseIdx i).countP q + (q a).toNat = l.countP q := by
  have ⟨hi, ha⟩ := List.getElem?_eq_some_iff.mp h
  have hp := (getElem_cons_eraseIdx_perm hi).countP_eq q
  rw [countP_cons, ha] at hp
  cases hq : q a <;> simpa [hq] using hp

-- A queue has room for an id of its slab that is not in it.
theorem length_lt_of_range {q : List Nat} (first : Nat) (hn : q.Nodup) (hq : ∀ j ∈ q, first ≤ j ∧ j < first + n)
    (hid : first ≤ id ∧ id < first + n) (hm : id ∉ q) : q.length < n := by
  have hsub : id :: q ⊆ List.range' first n := by
    intro j hj
    rw [mem_range'_1]
    cases hj
    case head => exact hid
    case tail hj => exact hq j hj
  have := (subperm_of_subset (nodup_cons.mpr ⟨hm, hn⟩) hsub).length_le
  rw [length_range', length_cons] at this
  omega

variable {k : Nat} {l : Lease} (hl : p.leases[k]? = some l)

include hl

theorem leased_eraseIdx (j : Nat) :
    (p.leases.eraseIdx k).countP (·.id = j) + (decide (l.id = j)).toNat = p.leased j :=
  countP_eraseIdx _ hl

include hr

theorem Ready.release : Ready alignment f { p with
    leases := p.leases.eraseIdx k, calls := p.calls ++ [.releasing l.id] } := by
  refine hr.keep rfl rfl (fun h => h) (fun j => ?_) (fun j => ?_) hr.hot hr.warm (fun l' hl' => ?_) (fun c hc => ?_)
  · have := leased_eraseIdx hl j
    simp only [taken, leased, countP_append, countP_singleton, Call.takes] at this ⊢
    by_cases hj : l.id = j
    all_goals simp [hj] at this ⊢; omega
  · simp [free, queued, Call.frees]
  · exact hr.handles l' (mem_of_mem_eraseIdx hl')
  · cases mem_append.mp hc
    case inl hc => exact hr.calls c hc
    case inr hc =>
      cases mem_singleton.mp hc
      trivial

-- After the shutdown the id of a lease that comes back is not used again.
theorem Ready.drop (hs : p.shutdown = true) : Ready alignment f { p with leases := p.leases.eraseIdx k } := by
  have hle : ∀ j, taken { p with leases := p.leases.eraseIdx k } j ≤ p.taken j := by
    intro j
    have := leased_eraseIdx hl j
    simp only [taken, leased] at this ⊢
    omega
  have hplace : ∀ j, place { p with leases := p.leases.eraseIdx k } j ≤ p.place j := by
    intro j
    rw [place_eq, place_eq]
    exact Nat.add_le_add_right (hle j) _
  exact { hr with
    place_le := fun j => le_trans (hplace j) (hr.place_le j)
    inRange := fun j h => hr.inRange j (lt_of_lt_of_le h (hplace j))
    once := fun h => by simp [hs] at h
    set := fun j h => hr.set j (lt_of_lt_of_le h (hle j))
    handles := fun l' hl' => hr.handles l' (mem_of_mem_eraseIdx hl') }

end Release

section Push

omit hr in
theorem place_pos_of_queued (h : id ∈ p.freeHotIds ∨ id ∈ p.freeWarmIds) : 0 < p.place id := by
  simp only [place, queued]
  cases h
  case inl h | inr h =>
    have := count_pos_iff.mpr h
    omega

omit hr in
theorem frees_push (id j : Nat) :
    (Call.frees j (.returned (.ok ()))).toNat + [id].count j = (Call.frees j (.pushing id)).toNat := by
  simp only [Call.frees, count_singleton, beq_eq_decide]
  cases decide (id = j) <;> rfl

theorem Ready.nodup {ids : List Nat} (h : ∀ id, ids.count id ≤ p.queued id) : ids.Nodup := by
  refine nodup_iff_count_le_one.mpr fun id => ?_
  have := h id
  have := hr.place_le id
  simp only [place] at this
  omega

variable (hc : p.calls[i]? = some (.pushing id))

include hc

theorem Ready.not_queued : id ∉ p.freeHotIds ∧ id ∉ p.freeWarmIds := by
  have := hr.place_le id
  have : 0 < p.calls.countP (·.frees id) :=
    countP_pos_iff.mpr ⟨_, mem_of_getElem? hc, by simp [Call.frees]⟩
  simp only [place, queued, inTransit] at *
  exact ⟨count_eq_zero.mp (by omega), count_eq_zero.mp (by omega)⟩

theorem Ready.pushHot (h : id ≤ f.hotSlabBuffers) : p.freeHotIds.length < f.hotSlabBuffers ∧
    Ready alignment f { p.setCall i (.returned (.ok ())) with freeHotIds := p.freeHotIds ++ [id] } := by
  have ⟨hge, _⟩ := hr.inRange id (place_pos_of_call (mem_of_getElem? hc) (.inr (by simp [Call.frees])))
  refine ⟨length_lt_of_range 1 (hr.nodup fun _ => Nat.le_add_right _ _) (fun j hj => ?_) (by omega)
    (hr.not_queued hc).1, ?_⟩
  · have := hr.hot j hj
    have := hr.inRange j (place_pos_of_queued (.inl hj))
    omega
  · refine hr.requeue hc (fun _ => rfl) (fun j => ?_)
      (forall_mem_append.mpr ⟨hr.hot, by simpa using h⟩) hr.warm trivial
    have := frees_push id j
    simp only [count_append, queued, setCall]
    omega

theorem Ready.pushWarm (h : f.hotSlabBuffers < id) : p.freeWarmIds.length < f.warmSlabBuffers ∧
    Ready alignment f { p.setCall i (.returned (.ok ())) with freeWarmIds := p.freeWarmIds ++ [id] } := by
  have ⟨_, hle⟩ := hr.inRange id (place_pos_of_call (mem_of_getElem? hc) (.inr (by simp [Call.frees])))
  rw [FastPoolState.totalBuffers] at hle
  refine ⟨length_lt_of_range (f.hotSlabBuffers + 1) (hr.nodup fun _ => Nat.le_add_left _ _) (fun j hj => ?_) (by omega)
    (hr.not_queued hc).2, ?_⟩
  · have := hr.warm j hj
    have := hr.inRange j (place_pos_of_queued (.inr hj))
    simp only [FastPoolState.totalBuffers] at this
    omega
  · refine hr.requeue hc (fun _ => rfl)
      (fun j => ?_) hr.hot (forall_mem_append.mpr ⟨hr.warm, by simpa using h⟩) trivial
    have := frees_push id j
    simp only [count_append, queued, setCall]
    omega

end Push

end Invariant

section Steps

variable {alignment : Nat} {f : FastPoolState} {p p' : BufferPool}
variable (hr : Ready alignment f p)

include hr

theorem Ready.stepAcquire (hs : p.Sized act) (h : p.stepAcquire f act = some p') : Ready alignment f p' := by
  cases act
  all_goals simp only [BufferPool.stepAcquire, bind, Option.bind_eq_some_iff, reduceCtorEq] at h
  case acquire requested =>
    split at h
    case isTrue => cases h
    case isFalse =>
      cases h
      split
      case isTrue hle =>
        have := hs f hr.fastPath
        exact hr.enter (fun _ => ⟨rfl, rfl⟩) ⟨hle, by omega⟩
      case isFalse => exact hr.enter (fun _ => ⟨rfl, rfl⟩) trivial
  case pop i =>
    have ⟨call, hc, h⟩ := h
    split at h
    case h_1 requested =>
      split at h
      case h_1 =>
        cases h
        exact hr.goOn hc (fun _ => ⟨rfl, rfl⟩) (fun _ => ⟨rfl, rfl⟩) (hr.calls _ (mem_of_getElem? hc) :)
      case h_2 id rest hq =>
        cases h
        exact hr.popHot hc hq
    case h_2 requested =>
      split at h
      case h_1 =>
        cases h
        exact hr.goOn hc (fun _ => ⟨rfl, rfl⟩) (fun _ => ⟨rfl, rfl⟩) trivial
      case h_2 id rest hq =>
        cases h
        exact hr.popWarm hc hq
    case h_3 => cases h
  case mark i =>
    have ⟨call, hc, h⟩ := h
    split at h
    case h_1 warm requested id =>
      have hm := mem_of_getElem? hc
      have hfits : Call.Fits f (.building requested id) := hr.calls (.marking warm requested id) hm
      have ⟨hslot, hr'⟩ := hr.flag true id hc (fun _ => ⟨rfl, by simp [Call.frees, beq_eq_decide]⟩)
        (fun _ => ⟨by simp [Call.takes, beq_eq_decide], rfl⟩) hfits
      rw [hr.slotIndexForId_eq (place_pos_of_call hm (.inr (by simp [Call.frees])))] at h
      simp only [hslot, Bool.not_true, if_true] at h
      cases h
      exact hr'
    case h_2 => cases h
  case build i =>
    have ⟨call, hc, h⟩ := h
    split at h
    case h_1 requested id =>
      have ⟨l, hl, hr'⟩ := hr.build hc
      rw [hl] at h
      cases h
      exact hr'
    case h_2 => cases h
  case checkWarm i =>
    have ⟨call, hc, h⟩ := h
    split at h
    case h_1 requested =>
      split at h
      case isTrue =>
        cases h
        exact hr.goOn hc (fun _ => ⟨rfl, rfl⟩) (fun _ => ⟨rfl, rfl⟩) (hr.calls _ (mem_of_getElem? hc) :)
      case isFalse =>
        cases h
        exact hr.goOn hc (fun _ => ⟨rfl, rfl⟩) (fun _ => ⟨rfl, rfl⟩) trivial
    case h_2 => cases h

theorem Ready.stepRelease (h : p.stepRelease f act = some p') : Ready alignment f p' := by
  cases act
  all_goals simp only [BufferPool.stepRelease, bind, Option.bind_eq_some_iff, reduceCtorEq] at h
  case release k =>
    have ⟨l, hl, h⟩ := h
    split at h
    case isTrue hs =>
      cases h
      exact hr.drop hl hs
    case isFalse =>
      cases h
      exact hr.release hl
  case unmark i =>
    have ⟨call, hc, h⟩ := h
    split at h
    case h_1 id =>
      have hm := mem_of_getElem? hc
      have hfits : Call.Fits f (.pushing id) := trivial
      have ⟨hslot, hr'⟩ := hr.flag false id hc (fun _ => ⟨by simp [Call.takes, beq_eq_decide], rfl⟩)
        (fun _ => ⟨rfl, by simp [Call.frees, beq_eq_decide]⟩) hfits
      rw [hr.slotIndexForId_eq (place_pos_of_call hm (.inl (by simp [Call.takes])))] at h
      simp only [hslot, Bool.not_false, if_true] at h
      cases h
      exact hr'
    case h_2 => cases h
  case push i =>
    have ⟨call, hc, h⟩ := h
    split at h
    case h_1 id =>
      rw [hr.spec.hotIdMax] at h
      cases Nat.lt_or_ge f.hotSlabBuffers id
      case inl hlt =>
        have ⟨hroom, hr'⟩ := hr.pushWarm hc hlt
        rw [if_neg (by omega), if_pos ⟨hlt, hroom⟩] at h
        cases h
        exact hr'
      case inr hle =>
        have ⟨hroom, hr'⟩ := hr.pushHot hc hle
        rw [if_pos ⟨hle, hroom⟩] at h
        cases h
        exact hr'
    case h_2 => cases h

theorem Ready.step (hs : p.Sized act) (h : p.step cfg act = some p') : Ready alignment f p' := by
  have hcalls (h : (p.stepAcquire f act).or (p.stepRelease f act) = some p') : Ready alignment f p' := by
    cases Option.or_eq_some_iff.mp h
    case inl h => exact hr.stepAcquire hs h
    case inr h => exact hr.stepRelease h.2
  cases act
  all_goals simp only [BufferPool.step, hr.fastPath, reduceCtorEq] at h
  case warmup ready | shutdownState | shutdownSlabs =>
    split at h
    case isTrue =>
      cases h
      exact { hr with fastPath := rfl }
    case isFalse => cases h
  case shutdown =>
    split at h
    case isTrue => cases h
    case isFalse =>
      cases h
      exact { hr with fastPath := rfl, once := fun h => by cases h }
  all_goals exact hcalls h

end Steps

section Runs

variable {cfg : BufferPoolConfig} {f : FastPoolState} {p p' : BufferPool} {act : Action} {first n id : Nat}

theorem count_idsOf : (idsOf first n).count id = if first ≤ id ∧ id < first + n then 1 else 0 := by
  have he : (List.range n).map (first + ·) = List.range' first n := by
    rw [range_eq_range', map_add_range']
    simp
  rw [idsOf, count_reverse, he, (nodup_range').count]
  simp only [mem_range'_1]

theorem initialized_ready (hcalls : p.calls = []) (hleases : p.leases = [])
    (hf : FastSpec alignment f) (ha : f.SlabsApart) : Ready alignment f (p.initialized f) := by
  have hfree : ∀ id, (p.initialized f).free id = if 1 ≤ id ∧ id ≤ f.totalBuffers then 1 else 0 := by
    intro id
    simp only [free, queued, initialized, hcalls, countP_nil, count_idsOf, hf.hotStartId, hf.hotIdMax,
      FastPoolState.totalBuffers]
    grind
  have htaken : ∀ id, (p.initialized f).taken id = 0 := by
    intro id
    simp [taken, leased, initialized, hcalls, hleases]
  have hplace : ∀ id, (p.initialized f).place id = if 1 ≤ id ∧ id ≤ f.totalBuffers then 1 else 0 := by
    intro id
    rw [place_eq, htaken, hfree, Nat.zero_add]
  constructor
  case fastPath => rfl
  case spec => exact hf
  case apart => exact ha
  case length => simp [initialized]
  case place_le =>
    intro id
    rw [hplace]
    split <;> omega
  case inRange =>
    intro id h
    rw [hplace] at h
    split at h
    case isTrue hid => exact hid
    case isFalse => omega
  case once => exact fun _ id h₁ h₂ => by rw [hplace, if_pos ⟨h₁, h₂⟩]
  case hot =>
    intro id h
    have := count_pos_iff.mpr h
    simp only [initialized, count_idsOf, hf.hotStartId] at this
    split at this <;> omega
  case warm =>
    intro id h
    have := count_pos_iff.mpr h
    simp only [initialized, count_idsOf, hf.hotIdMax] at this
    split at this <;> omega
  case set =>
    intro id h
    rw [htaken] at h
    cases h
  case unset =>
    intro id h
    rw [hfree] at h
    split at h
    case isTrue => exact getElem?_replicate_of_lt (by omega)
    case isFalse => cases h
  case handles => simp [initialized, hleases]
  case calls => simp [initialized, hcalls]

def Inv (cfg : BufferPoolConfig) (p : BufferPool) : Prop :=
  (p.fastPath = none ∧ p.calls = [] ∧ p.leases = []) ∨ ∃ f, Ready cfg.poolAlignment.alignmentBytes f p

theorem Inv.start : Inv cfg BufferPool.start :=
  .inl ⟨rfl, rfl, rfl⟩

theorem Inv.step (hi : Inv cfg p) (ha : AllocatesApart cfg act) (hs : p.Sized act)
    (h : p.step cfg act = some p') : Inv cfg p' := by
  cases hi
  case inr hr =>
    have ⟨f, hr⟩ := hr
    exact .inr ⟨f, hr.step hs h⟩
  case inl hi =>
    have ⟨hf, hcalls, hleases⟩ := hi
    cases act
    all_goals simp only [BufferPool.step, hf, reduceCtorEq] at h
    case initializeIfNeeded hint hotPtr warmPtr =>
      split at h
      case isTrue => cases h
      case isFalse =>
        have ⟨f, hb, he⟩ := Option.map_eq_some_iff.mp h
        have hb := Except.toOption_eq_some.mp hb
        subst he
        exact .inr ⟨f, initialized_ready hcalls hleases (buildFastPath_eq_ok hb) (ha f hb)⟩
    all_goals
      split at h
      all_goals
        cases h
        try exact .inl ⟨rfl, hcalls, hleases⟩

theorem Inv.safe (hi : Inv cfg p) : Safe cfg.poolAlignment.alignmentBytes p := by
  cases hi
  case inr hr =>
    have ⟨f, hr⟩ := hr
    exact hr.safe
  case inl hi =>
    have ⟨hf, _, hleases⟩ := hi
    constructor
    case apart | within => simp [hleases]
    case once => simp [hf]

open Transition Relation

-- In a run that asks for no empty buffer the leases do not alias, and every id has its one place.
theorem leases_never_alias
    (h : ReflTransGen (Moves (step cfg) fun p act => AllocatesApart cfg act ∧ p.Sized act) start p) :
    Safe cfg.poolAlignment.alignmentBytes p :=
  (Transition.invariant (fun hi ⟨_, ⟨ha, hs⟩, h⟩ => Inv.step hi ha hs h) Inv.start h).safe

instance {f : FastPoolState} : Decidable f.SlabsApart :=
  inferInstanceAs (Decidable (∀ slab ∈ f.warmSlab, _ ∨ _))

instance : Decidable (AllocatesApart cfg act) :=
  match act with
  | .initializeIfNeeded hint hotPtr warmPtr =>
    match hb : buildFastPath cfg hint hotPtr warmPtr with
    | .ok f => decidable_of_iff f.SlabsApart (by simp [AllocatesApart, hb])
    | .error e => isTrue (by simp [AllocatesApart, hb])
  | .acquire _ | .pop _ | .mark _ | .build _ | .checkWarm _ | .release _ | .unmark _ | .push _ | .warmup _
  | .shutdown | .shutdownState | .shutdownSlabs => isTrue trivial

instance : Decidable (p.Sized act) :=
  match act with
  | .acquire requested => inferInstanceAs (Decidable (∀ f ∈ p.fastPath, 0 < f.pooledBufferBytes ∨ 0 < requested))
  | .initializeIfNeeded _ _ _ | .pop _ | .mark _ | .build _ | .checkWarm _ | .release _ | .unmark _ | .push _
  | .warmup _ | .shutdown | .shutdownState | .shutdownSlabs => isTrue trivial

-- One buffer in each of the two slabs.
def twoBuffers (poolBufferBytes : SizeOverride) : BufferPoolConfig where
  maxPoolBuffers := 2
  maxPoolBytes := 8192
  poolBufferBytes
  hotSlabBuffers := .fixed 1
  warmSlabBuffers := .fixed 1
  bufferSizingPolicy := .firstWriteModelAwareAuto
  modelProfileHint := none
  minHotSlabBuffers := 1
  maxWarmToHotRatio := 1
  globalFallbackChunkBytes := 0
  poolAlignment := .align4KiB

theorem leases_never_alias_twoBuffers : ∃ p, ReflTransGen (Moves (step (twoBuffers (.fixed 100)))
      fun p act => AllocatesApart (twoBuffers (.fixed 100)) act ∧ p.Sized act) start p ∧
    p.leases.map (fun l => (l.baseAddr + l.start, l.baseAddr + l.stop)) = [(4096, 4196), (20480, 20580)] ∧
    Safe (twoBuffers (.fixed 100)).poolAlignment.alignmentBytes p := by
  have h : ReflTransGen (Moves (step (twoBuffers (.fixed 100)))
      fun p act => AllocatesApart (twoBuffers (.fixed 100)) act ∧ p.Sized act) start _ := reachable_of_runs [
    .initializeIfNeeded ⟨1, 100⟩ 1000 20000, .warmup true, .acquire 80, .acquire 100, .pop 0, .pop 1, .checkWarm 1,
    .pop 1, .mark 1, .mark 0, .build 0, .build 1] rfl
  exact ⟨_, h, rfl, leases_never_alias h⟩

-- The buffers of the pool are empty, and so is the buffer that is asked for: the id is taken out of the queue for
-- good.
theorem lease_lost_of_empty : ∃ p, ReflTransGen (Moves (step (twoBuffers .auto))
      fun _ act => AllocatesApart (twoBuffers .auto) act) start p ∧
    p.shutdown = false ∧ p.place 1 = 0 ∧ ¬Safe (twoBuffers .auto).poolAlignment.alignmentBytes p := by
  have h : ReflTransGen (Moves (step (twoBuffers .auto)) fun _ act => AllocatesApart (twoBuffers .auto) act) start _ :=
    reachable_of_runs [.initializeIfNeeded ⟨1, 0⟩ 1000 20000, .acquire 0, .pop 0, .mark 0, .build 0] rfl
  refine ⟨_, h, rfl, rfl, fun hs => ?_⟩
  cases hs.once _ rfl rfl 1 (by decide) (by decide)

end Runs

end BufferPool

end ZarrIo
