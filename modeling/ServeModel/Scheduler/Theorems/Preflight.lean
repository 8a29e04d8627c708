import Mathlib.Data.List.Rotate
import ServeModel.Scheduler.Theorems.Accounting

-- The queue's preflight and the placement come to the same verdict on the same reservations.
namespace Scheduler

open Routine List Nat

namespace MemoryStore

variable {id floor delta amount memoryMb : Nat} {resource : ResourceInfo} {store : MemoryStore}

-- The reserved memory store as a scheduler finds it that has it to itself.
def exec : Machine Op MemoryStore
  | _, .hmgetActive ids, s, r, s' => s' = s ∧ ∃ reply, r = .ok reply ∧ ActiveReply s ids reply
  | _, .reserveIdle id floor delta, s, r, s' =>
    ∃ values, r = .ok values ∧ List.Forall₂ IntegerReply (s.reserveIdle id floor delta).1 values ∧
      s' = (s.reserveIdle id floor delta).2
  | _, .decrementReserved id amount, s, r, s' =>
    ∃ values, r = .ok values ∧ List.Forall₂ IntegerReply (s.decrement id amount).1 values ∧
      s' = (s.decrement id amount).2
  | _, _, s, _, s' => s' = s

theorem exists_integerReply (h : -2 ^ 63 ≤ n) : ∃ i, IntegerReply n i := by
  by_cases hn : n < 2 ^ 63
  case pos => exact ⟨n, h, hn, fun _ => rfl⟩
  case neg => exact ⟨0, by decide, by decide, fun h => absurd h hn⟩

theorem exists_integerReplies (h : ∀ n ∈ values, -2 ^ 63 ≤ n) :
    ∃ reply, List.Forall₂ IntegerReply values reply := by
  induction values
  case nil => exact ⟨[], .nil⟩
  case cons n values hi =>
    have ⟨i, hn⟩ := exists_integerReply (h n (by simp))
    have ⟨reply, hr⟩ := hi fun n hn => h n (by simp [hn])
    exact ⟨i :: reply, .cons hn hr⟩

theorem le_reserveIdle (store : MemoryStore) (id floor delta : Nat) :
    ∀ n ∈ (store.reserveIdle id floor delta).1, -2 ^ 63 ≤ n := by
  intro n hn
  simp only [reserveIdle] at hn
  split at hn <;> simp at hn <;> omega

theorem le_decrement (store : MemoryStore) (id amount : Nat) :
    ∀ n ∈ (store.decrement id amount).1, -2 ^ 63 ≤ n := by
  intro n hn
  simp only [decrement] at hn
  split at hn
  case h_1 => simp at hn; omega
  case h_2 => split at hn <;> simp at hn <;> omega

theorem exec_total : Machine.Total exec := by
  intro ρ op s
  have ⟨r⟩ := op.reply_nonempty
  cases op
  case hmgetActive ids => exact ⟨_, s, rfl, _, rfl, activeReply_filterMap s ids⟩
  case reserveIdle id floor delta =>
    have ⟨values, h⟩ := exists_integerReplies (s.le_reserveIdle id floor delta)
    exact ⟨_, _, values, rfl, h, rfl⟩
  case decrementReserved id amount =>
    have ⟨values, h⟩ := exists_integerReplies (s.le_decrement id amount)
    exact ⟨_, _, values, rfl, h, rfl⟩
  all_goals exact ⟨r, s, rfl⟩

def Idle (store : MemoryStore) (id : Nat) : Prop :=
  (store.active id).getD 0 = 0

-- The total that a reservation on this resource would account for is a 64 bit integer.
def Fits (store : MemoryStore) (memoryMb : Nat) (resource : ResourceInfo) : Prop :=
  Double.round (max ((store.accounted resource.resourceId).getD 0) (Double.round resource.usedMemoryMb) +
    Double.round memoryMb) < 2 ^ 63

theorem Fits.used_lt (h : store.Fits memoryMb resource) :
    resource.usedMemoryMb < 2 ^ 63 := by
  by_contra hn
  have hu := Double.round_mono (not_lt.mp hn)
  rw [Double.round_pow] at hu
  have ht := Double.round_mono (le_trans hu (le_trans (le_max_right
    ((store.accounted resource.resourceId).getD 0) _) (le_add_right _ (Double.round memoryMb))))
  rw [Double.round_pow] at ht
  exact absurd h (not_lt.mpr ht)

end MemoryStore

open ResourceReservationTable (reserve prepareResourceRequirements resourceAvailabilitySnapshot)

theorem ReadsBack.eq_zero_iff {stored read : Nat} (h : ReadsBack stored read) : read = 0 ↔ stored = 0 := by
  unfold ReadsBack at h
  split at h <;> omega

theorem activeOf_cons (entry : Nat × Nat) (reply : List (Nat × Nat)) (id : Nat) :
    activeOf (entry :: reply) id = if id = entry.1 then entry.2 else activeOf reply id := by
  unfold activeOf
  rw [lookup_cons]
  split <;> simp_all

-- Whatever the large amounts read back as, the reply tells the idle resources from the busy ones.
theorem activeOf_eq_zero_iff {id : Nat}
    (h : ActiveReply store ids reply) (hi : id ∈ ids) : activeOf reply id = 0 ↔ store.Idle id := by
  have hf : id ∈ ids.filter (store.active · |>.isSome) ∨ store.Idle id := by
    cases ha : store.active id
    case none => exact .inr (by simp [MemoryStore.Idle, ha])
    case some => exact .inl (mem_filter.mpr ⟨hi, by simp [ha]⟩)
  unfold ActiveReply at h
  generalize ids.filter (store.active · |>.isSome) = fields at h hf
  induction h
  case nil => exact iff_of_true rfl <| hf.resolve_left (by simp)
  case cons field entry fields reply hx _ hi =>
    have ⟨he, stored, hs, hr⟩ := hx
    rw [activeOf_cons]
    split
    case isTrue hid =>
      rw [hr.eq_zero_iff, hid, he, MemoryStore.Idle, hs, Option.getD_some]
    case isFalse hid =>
      exact hi <| hf.imp_left fun hm => (mem_cons.mp hm).resolve_left (he ▸ hid)

section Tally

variable {view : ResourceAvailabilityView} {request payload : SchedulePayload}

def ResourceAvailabilityView.isReady (view : ResourceAvailabilityView) (payload : SchedulePayload)
    (resource : ResourceInfo) : Bool :=
  isAvailable payload view.memoryUtilizationPercent resource &&
    activeOf view.activeReservedMemoryMb resource.resourceId = 0

-- The resources that can take the request now or later.
def ResourceAvailabilityView.capable (view : ResourceAvailabilityView) (payload : SchedulePayload) : Nat :=
  view.resources.countP (isAvailable payload view.memoryUtilizationPercent) +
    view.resources.countP (isLoading payload view.memoryUtilizationPercent)

theorem foldl_tally (view : ResourceAvailabilityView) (payload : SchedulePayload)
    (resources : List ResourceInfo) (t : Tally) :
    let t' := resources.foldl (view.tally payload) t
    t'.ready = t.ready + resources.countP (view.isReady payload) ∧
    t'.ready + t'.temporarilyBlocked = t.ready + t.temporarilyBlocked +
      (resources.countP (isAvailable payload view.memoryUtilizationPercent) +
        resources.countP (isLoading payload view.memoryUtilizationPercent)) ∧
    t'.hasWarmWorker = (t.hasWarmWorker ||
      resources.any fun r => view.isReady payload r && resourceHasWarmWorkflow r payload) := by
  induction resources generalizing t
  case nil => simp
  case cons resource resources hi =>
    have ⟨hr, hb, hw⟩ := hi (view.tally payload t resource)
    simp only [foldl_cons, hr, hw, countP_cons, any_cons] at hb ⊢
    rw [hb]
    unfold ResourceAvailabilityView.tally ResourceAvailabilityView.isReady isAvailable isLoading
    cases resourceEligibilityForRequest resource payload view.memoryUtilizationPercent
    case available =>
      by_cases ha : activeOf view.activeReservedMemoryMb resource.resourceId = 0
      case pos => simp [ha, Bool.or_assoc]; omega
      case neg => simp [ha, pos_of_ne_zero ha]; omega
    case temporarilyUnavailable reason => cases reason; simp; omega
    case ineligible => simp

theorem evaluateCandidateStatus_of_ok (view : ResourceAvailabilityView)
    (h : resolveResourceConfig view.knownProfiles request view.resources = .ok (config, payload)) :
    view.evaluateCandidateStatus request =
      if config.gpusRequired ≤ view.resources.countP (view.isReady (resolved config payload)) then
        .eligible <| view.resources.any fun r =>
          view.isReady (resolved config payload) r && resourceHasWarmWorkflow r (resolved config payload)
      else if config.gpusRequired ≤ view.capable (resolved config payload) then .temporarilyBlocked
      else .eligible false := by
  have ⟨hr, hb, hw⟩ := foldl_tally view (resolved config payload) view.resources {}
  simp only [zero_add, Bool.false_or] at hr hb hw
  simp only [ResourceAvailabilityView.evaluateCandidateStatus, h, ge_iff_le, hb, hw]
  rw [hr]
  rfl

end Tally

section Placement

theorem rotateTier_perm (cursor : Nat) (tier : List ResourceInfo) : (rotateTier cursor tier).Perm tier :=
  (rotate_perm _ _).trans (perm_insertionSort _ tier)

theorem placementOrder_perm : (placementOrder payload cursor candidates).Perm candidates := by
  simp only [placementOrder, partition_eq_filter_filter]
  exact ((rotateTier_perm _ _).append (rotateTier_perm _ _)).trans (filter_append_perm _ candidates)

-- A warm candidate, if there is one, takes the first place.
theorem placementOrder_warm_first (cursor : Nat) (h : candidates.any (resourceHasWarmWorkflow · payload)) :
    ∃ first rest, placementOrder payload cursor candidates = first :: rest ∧
      resourceHasWarmWorkflow first payload := by
  have ⟨warm, hc, hw⟩ := any_eq_true.mp h
  simp only [placementOrder, partition_eq_filter_filter]
  have hp := rotateTier_perm cursor (candidates.filter (resourceHasWarmWorkflow · payload))
  have hm := hp.mem_iff.mpr (mem_filter.mpr ⟨hc, hw⟩)
  cases ht : rotateTier cursor (candidates.filter (resourceHasWarmWorkflow · payload))
  case nil => rw [ht] at hm; cases hm
  case cons first rest =>
    have hf := hp.mem_iff.mp (ht ▸ mem_cons_self)
    exact ⟨first, _, rfl, (mem_filter.mp hf).right⟩

variable {τ : Type} {t : τ} {store : MemoryStore} {mem : Nat}

theorem wp_releaseClaims_alone (ids : List Nat) :
    wp (.alone MemoryStore.exec) (releaseClaims mem ids) (fun x _ _ => x = .ok ()) t store := by
  induction ids generalizing t store
  case nil => rfl
  case cons id ids hi =>
    simp only [releaseClaims, wp_bind, wp_observe]
    apply wp_alone_iff.mpr
    intro _ _ _ _
    exact hi

theorem reserveIdle_idle {id : Nat} (floor delta : Nat) (h : store.Idle id) :
    store.reserveIdle id floor delta =
      let total := Double.round (max ((store.accounted id).getD 0) (Double.round floor) + Double.round delta)
      ([1, (total : Int), Double.round delta], store.set id total (Double.round delta)) := by
  unfold MemoryStore.Idle at h
  simp [MemoryStore.reserveIdle, h]

-- A reservation of an idle resource fails for no other reason than that a total is out of range.
theorem wp_tryReserveIdle_alone {resource : ResourceInfo} (hi : store.Idle resource.resourceId)
    (hm : mem < 2 ^ 63) :
    wp (.alone MemoryStore.exec) (tryReserveIdle resource.resourceId resource.usedMemoryMb mem)
      (fun x _ store' =>
        ((∃ total, x = .ok (some total)) ∧ ∃ total active, store' = store.set resource.resourceId total active) ∨
        ((∃ e, x = .error e ∧ e.kind = .other) ∧ ¬store.Fits mem resource)) t store := by
  simp only [tryReserveIdle, wp_bind, wp_ite]
  split
  case isTrue hu => exact .inr ⟨⟨_, rfl, rfl⟩, fun hf => absurd hf.used_lt (not_lt.mpr hu)⟩
  case isFalse =>
    rw [if_neg (not_le.mpr hm), RoleM.wp_perform_alone]
    rintro r store' ⟨values, hr, hv, hs⟩
    subst hr hs
    rw [reserveIdle_idle _ _ hi] at hv
    obtain ⟨v, w, hvalues, htotal⟩ := values_of_granted hv
    subst hvalues
    simp only [andThen_ok, wp_bind, wp_ofExcept, wp_ite]
    split
    case isTrue hneg =>
      refine .inr ⟨⟨_, rfl, rfl⟩, fun hf => ?_⟩
      have := htotal.2.2 (by exact_mod_cast hf)
      omega
    case isFalse =>
      refine .inl ⟨⟨_, rfl⟩, ?_⟩
      rw [reserveIdle_idle _ _ hi]
      exact ⟨_, _, rfl⟩

def ResourceInfo.target (resource : ResourceInfo) : ReservedResource :=
  ⟨resource.streamName, resource.resourceId⟩

theorem wp_claimResources_alone (claimed : List ReservedResource)
    (hn : (candidates.map ResourceInfo.resourceId).Nodup) (hi : ∀ c ∈ candidates, store.Idle c.resourceId)
    (hm : mem < 2 ^ 63) :
    wp (.alone MemoryStore.exec) (claimResources mem claimed candidates)
      (fun x _ _ => x = .ok (claimed ++ candidates.map ResourceInfo.target) ∨
        ((∃ e, x = .error e ∧ e.kind = .other) ∧ ∃ c ∈ candidates, ¬store.Fits mem c)) t store := by
  induction candidates generalizing claimed t store
  case nil => exact .inl (by simp)
  case cons candidate rest ih =>
    rw [map_cons, nodup_cons] at hn
    simp only [claimResources, wp_bind, wp_observe]
    refine wp_mono (fun x t store' h => ?_) (wp_tryReserveIdle_alone (hi candidate (by simp)) hm)
    cases h
    case inl h =>
      obtain ⟨⟨total, hx⟩, accounted, active, hs⟩ := h
      subst hx hs
      -- the other candidates are other resources, so they are as they were
      have hne : ∀ c ∈ rest, c.resourceId ≠ candidate.resourceId := fun c hc he =>
        hn.left (he ▸ mem_map_of_mem hc)
      have hidle : ∀ c ∈ rest, (store.set candidate.resourceId accounted active).Idle c.resourceId := by
        intro c hc
        simpa [MemoryStore.Idle, MemoryStore.set, hne c hc] using hi c (by simp [hc])
      rw [andThen_ok]
      refine wp_mono (fun x _ _ h => ?_) (ih (claimed ++ [candidate.target]) hn.right hidle)
      apply h.imp
      · intro h
        simpa using h
      · rintro ⟨he, c, hc, hf⟩
        refine ⟨he, c, by simp [hc], ?_⟩
        simpa [MemoryStore.Fits, MemoryStore.set, hne c hc] using hf
    case inr h =>
      obtain ⟨⟨e, hx, hk⟩, hf⟩ := h
      subst hx
      simp only [andThen_ok, wp_bind]
      refine wp_mono (fun x _ _ h => ?_) (wp_releaseClaims_alone _)
      subst h
      exact .inr ⟨⟨e, rfl, hk⟩, candidate, by simp, hf⟩

end Placement

section Verdict

variable {table : ResourceReservationTable} {request payload : SchedulePayload} {config : ResourceConfig}
  {store : MemoryStore} {active : List (Nat × Nat)}

abbrev ReserveResult := Except Failure (SchedulePayload × List ReservedResource)

-- No total that placing the request could come to is out of range.
def ResourceReservationTable.Accountable (table : ResourceReservationTable) (store : MemoryStore)
    (request : SchedulePayload) : Prop :=
  ∀ config payload, table.prepareResourceRequirements request = .ok (config, payload) →
    ∀ resource ∈ table.resources, isAvailable payload table.memoryUtilizationPercent resource →
      store.Idle resource.resourceId → store.Fits payload.memoryMb resource

-- How the verdict of the preflight relates to what a reservation comes to.
structure Agreement (table : ResourceReservationTable) (store : MemoryStore) (request : SchedulePayload)
    (status : QueueCandidateStatus) (x : ReserveResult) : Prop where
  blocked : status = .temporarilyBlocked ↔ ∃ e, x = .error e ∧ isReservationBlockedError e
  eligible : (∃ warm, status = .eligible warm) ↔
    (∃ y, x = .ok y) ∨ ∃ e, x = .error e ∧ ¬isReservationBlockedError e
  warm : status = .eligible true → table.Accountable store request →
    ∃ payload resource rest, x = .ok (payload, ⟨resource.streamName, resource.resourceId⟩ :: rest) ∧
      resource ∈ table.resources ∧ resourceHasWarmWorkflow resource payload

theorem Agreement.of_blocked (h : status = .temporarilyBlocked) :
    Agreement table store request status (.error reservationBlockedError) := by
  subst h
  constructor <;> simp [reservationBlockedError, isReservationBlockedError]

theorem Agreement.of_failed (h : status = .eligible false) (he : e.kind = .other) :
    Agreement table store request status (.error e) := by
  subst h
  constructor <;> simp [isReservationBlockedError, he]

def ResourceReservationTable.viewOf (table : ResourceReservationTable) (active : List (Nat × Nat)) :
    ResourceAvailabilityView where
  resources := table.resources
  activeReservedMemoryMb := active
  memoryUtilizationPercent := table.memoryUtilizationPercent
  knownProfiles := table.knownProfiles

theorem Agreement.of_claimed {claimed : Except Failure (List ReservedResource)} {warm : Bool}
    (hp : table.prepareResourceRequirements request = .ok (config, payload))
    (h : (∃ targets, claimed = .ok targets) ∨ ∃ e, claimed = .error e ∧ e.kind = .other)
    (hw : (∀ r ∈ table.resources, isAvailable payload table.memoryUtilizationPercent r →
        store.Idle r.resourceId → store.Fits payload.memoryMb r) → warm →
      ∃ resource rest, claimed = .ok (resource.target :: rest) ∧ resource ∈ table.resources ∧
        resourceHasWarmWorkflow resource payload) :
    Agreement table store request (.eligible warm) (claimed.map (payload, ·)) where
  blocked := by
    cases h
    case inl h => have ⟨_, h⟩ := h; simp [h, Except.map]
    case inr h => have ⟨_, h, hk⟩ := h; simp [h, Except.map, isReservationBlockedError, hk]
  eligible := by
    cases h
    case inl h => have ⟨_, h⟩ := h; simp [h, Except.map]
    case inr h => have ⟨_, h, hk⟩ := h; simp [h, Except.map, isReservationBlockedError, hk]
  warm he hf := by
    have ⟨resource, rest, h, hr, hwarm⟩ := hw (hf config payload hp) (QueueCandidateStatus.eligible.inj he)
    exact ⟨payload, resource, rest, by rw [h]; rfl, hr, hwarm⟩

@[simp]
theorem viewOf_resources : (table.viewOf active).resources = table.resources := rfl

@[simp]
theorem viewOf_memoryUtilizationPercent :
    (table.viewOf active).memoryUtilizationPercent = table.memoryUtilizationPercent := rfl

theorem selectCandidateResources_eq (resources : List ResourceInfo) (payload : SchedulePayload)
    (limit neededGpus : Nat) :
    selectCandidateResources resources payload limit neededGpus =
      if neededGpus ≤ resources.countP (isAvailable payload limit) then
        .ok (resources.filter (isAvailable payload limit))
      else if neededGpus ≤ resources.countP (isAvailable payload limit) +
          resources.countP (isLoading payload limit) then .error reservationBlockedError
      else .error <| .msg "not enough workers can satisfy the requested requirements" := by
  simp only [selectCandidateResources, ge_iff_le, ← countP_eq_length_filter]

-- A second look at the same reservations leaves the same candidates.
theorem filter_isReady (h : ActiveReply store (table.resources.map (·.resourceId)) active)
    (h' : ActiveReply store (table.resources.map (·.resourceId)) again) :
    (table.resources.filter (isAvailable payload table.memoryUtilizationPercent)).filter
        (fun candidate => activeOf again candidate.resourceId = 0) =
      table.resources.filter ((table.viewOf active).isReady payload) := by
  rw [filter_filter]
  apply filter_congr
  intro r hr
  have hm : r.resourceId ∈ table.resources.map (·.resourceId) := mem_map_of_mem hr
  have hiff := (activeOf_eq_zero_iff h' hm).trans (activeOf_eq_zero_iff h hm).symm
  rw [ResourceAvailabilityView.isReady, Bool.and_comm, decide_eq_decide.mpr hiff]
  rfl

theorem memoryMb_lt_of_isAvailable (h : isAvailable payload limit resource) : payload.memoryMb < 2 ^ 58 := by
  have hs : resourceMatchesStaticRequirements resource payload limit = true := by
    cases hs : resourceMatchesStaticRequirements resource payload limit
    case true => rfl
    case false => simp [isAvailable, resourceEligibilityForRequest, hs] at h
  unfold resourceMatchesStaticRequirements at hs
  split at hs
  case isTrue => cases hs
  case isFalse hu => exact lt_of_le_of_lt (not_lt.mp hu) (resource.usableMemoryMb_lt limit)

-- Enough resources are ready: they are claimed in the order of placement.
theorem wp_claim_ready (hn : 0 < n) (h : ActiveReply store (table.resources.map (·.resourceId)) active)
    (hr : n ≤ table.resources.countP ((table.viewOf active).isReady payload)) :
    wp (.alone MemoryStore.exec) (claimResources payload.memoryMb []
        ((placementOrder payload cursor
          (table.resources.filter ((table.viewOf active).isReady payload))).take n))
      (fun x _ _ =>
        ((∃ targets, x = .ok targets) ∨ ∃ e, x = .error e ∧ e.kind = .other) ∧
        ((∀ r ∈ table.resources, isAvailable payload table.memoryUtilizationPercent r →
            store.Idle r.resourceId → store.Fits payload.memoryMb r) →
          (table.resources.any fun r => (table.viewOf active).isReady payload r &&
            resourceHasWarmWorkflow r payload) →
          ∃ resource rest, x = .ok (resource.target :: rest) ∧ resource ∈ table.resources ∧
            resourceHasWarmWorkflow resource payload)) t store := by
  generalize hc : table.resources.filter ((table.viewOf active).isReady payload) = candidates
  have hp : (placementOrder payload cursor candidates).Perm candidates := placementOrder_perm
  have hready : ∀ r ∈ candidates, r ∈ table.resources ∧
      isAvailable payload table.memoryUtilizationPercent r ∧ store.Idle r.resourceId := by
    intro r hm
    rw [← hc, mem_filter, ResourceAvailabilityView.isReady, Bool.and_eq_true, decide_eq_true_eq] at hm
    have ⟨hr, ha, hi⟩ := hm
    exact ⟨hr, ha, (activeOf_eq_zero_iff h (mem_map_of_mem hr)).mp hi⟩
  have htake : ∀ r ∈ (placementOrder payload cursor candidates).take n, r ∈ candidates :=
    fun r hm => hp.mem_iff.mp (mem_of_mem_take hm)
  have hnodup : (((placementOrder payload cursor candidates).take n).map ResourceInfo.resourceId).Nodup := by
    have hs : (candidates.map ResourceInfo.resourceId).Nodup := by
      rw [← hc]
      exact table.resourceMap.nodup.sublist (filter_sublist.map _)
    exact ((hp.map _).nodup_iff.mpr hs).sublist ((take_sublist _ _).map _)
  have hmem : payload.memoryMb < 2 ^ 63 := by
    have hlen : 0 < candidates.length := by
      rw [← hc, ← countP_eq_length_filter]
      omega
    have ⟨r, hr⟩ := exists_mem_of_length_pos hlen
    have := memoryMb_lt_of_isAvailable (hready r hr).2.1
    omega
  refine wp_mono (fun x _ _ hx => ?_)
    (wp_claimResources_alone [] hnodup (fun c hm => (hready c (htake c hm)).2.2) hmem)
  cases hx
  case inr hx =>
    have ⟨he, c, hm, hf⟩ := hx
    refine ⟨.inr he, fun hfits _ => ?_⟩
    have ⟨hr, ha, hi⟩ := hready c (htake c hm)
    exact absurd (hfits c hr ha hi) hf
  case inl hx =>
    refine ⟨.inl ⟨_, hx⟩, fun _ hw => ?_⟩
    have hany : candidates.any (resourceHasWarmWorkflow · payload) := by
      rw [← hc, any_filter]
      exact hw
    have ⟨first, rest, ho, hwarm⟩ := placementOrder_warm_first cursor hany
    rw [ho] at hx hp
    obtain ⟨n, rfl⟩ := exists_eq_add_one_of_ne_zero hn.ne'
    exact ⟨first, _, hx, (hready first (hp.mem_iff.mp mem_cons_self)).1, hwarm⟩

theorem wp_getActiveMany_alone :
    wp (.alone MemoryStore.exec) (getActiveMany ids) Q t store ↔
      ∀ reply, ActiveReply store ids reply → Q (.ok reply) t store := by
  simp only [getActiveMany, wp_bind, RoleM.wp_perform_alone]
  constructor
  · intro h reply hr
    exact h _ store ⟨rfl, reply, rfl, hr⟩
  · intro h r s' ⟨hs, reply, hr, ha⟩
    subst hs hr
    exact h reply ha

theorem wp_reserve_agrees (h : ActiveReply store (table.resources.map (·.resourceId)) active) :
    wp (.alone MemoryStore.exec) (reserve request)
      (fun x _ _ => Agreement table store request
        ((table.viewOf active).evaluateCandidateStatus request) x) table store := by
  have hspec := resolveResourceConfig_spec table.knownProfiles request table.resources
  simp only [reserve, wp_bind, wp_get, andThen_ok,
    wp_ofExcept]
  cases hr : resolveResourceConfig table.knownProfiles request table.resources
  case error e =>
    rw [prepareResourceRequirements, hr]
    rw [hr] at hspec
    refine .of_failed ?_ hspec
    simp [ResourceAvailabilityView.evaluateCandidateStatus, ResourceReservationTable.viewOf, hr]
  case ok found =>
    rw [hr] at hspec
    have hprep : table.prepareResourceRequirements request = .ok (found.1, resolved found.1 found.2) := by
      rw [prepareResourceRequirements, hr]
      rfl
    have hstatus := evaluateCandidateStatus_of_ok (table.viewOf active) hr
    generalize hq : resolved found.1 found.2 = payload at hprep hstatus
    have hmem : payload.memoryMb = found.1.memoryMb := by rw [← hq]; rfl
    simp only [hprep, andThen_ok, wp_bind, wp_getActiveMany_alone, wp_ofExcept]
    intro again ha
    have hready : table.resources.countP ((table.viewOf active).isReady payload) ≤
        table.resources.countP (isAvailable payload table.memoryUtilizationPercent) :=
      countP_mono_left fun r _ hr => (Bool.and_eq_true _ _ ▸ hr).1
    rw [selectCandidateResources_eq]
    simp only [ResourceAvailabilityView.capable, viewOf_resources, viewOf_memoryUtilizationPercent] at hstatus
    by_cases hA : found.1.gpusRequired ≤
        table.resources.countP (isAvailable payload table.memoryUtilizationPercent)
    case neg =>
      have hR : ¬found.1.gpusRequired ≤ table.resources.countP ((table.viewOf active).isReady payload) :=
        fun hR => hA (le_trans hR hready)
      simp only [hstatus, hA, hR, if_false]
      split
      case isTrue hL => exact .of_blocked (by simp only [hL, if_true])
      case isFalse hL => exact .of_failed (by simp only [hL, if_false]) rfl
    case pos =>
      rw [if_pos hA, andThen_ok]
      simp only [filter_isReady h ha, ← countP_eq_length_filter, hA, and_true, wp_ite,
        wp_bind]
      by_cases hR : found.1.gpusRequired ≤ table.resources.countP ((table.viewOf active).isReady payload)
      case neg =>
        rw [if_pos (not_le.mp hR)]
        refine .of_blocked ?_
        simp only [hstatus, hR, le_trans hA (le_add_right _ _), if_false, if_true]
      case pos =>
        rw [if_neg (not_lt.mpr hR), wp_modify, andThen_ok, wp_bind, ← hmem]
        refine wp_mono (fun x _ _ hx => ?_) (wp_claim_ready hspec.1 h hR)
        obtain ⟨hx, hwarm⟩ := hx
        simp only [hstatus, hR, if_true]
        have hagree := Agreement.of_claimed hprep hx hwarm
        cases x <;> exact hagree

-- The preflight of a request, followed by its placement with nobody else in between.
def preflightThenReserve (request : SchedulePayload) :
    RoleM ResourceReservationTable (QueueCandidateStatus × ReserveResult) := do
  let view ← resourceAvailabilitySnapshot
  let result ← Routine.observe (reserve request)
  return (view.evaluateCandidateStatus request, result)

theorem preflight_agrees_with_reserve (table : ResourceReservationTable) (store : MemoryStore)
    (request : SchedulePayload) :
    (preflightThenReserve request).Returns MemoryStore.exec table store fun x _ _ =>
      ∃ status result, x = .ok (status, result) ∧ Agreement table store request status result := by
  rw [returns_iff_wp MemoryStore.exec_total]
  simp only [preflightThenReserve, resourceAvailabilitySnapshot, wp_bind,
    wp_get, andThen_ok, wp_getActiveMany_alone, wp_pure, wp_observe]
  intro active h
  exact wp_mono (fun x _ _ hx => ⟨_, x, rfl, hx⟩) (wp_reserve_agrees h)

-- A warm worker that reports more memory in use than a signed integer can hold.
def overfullGpu : ResourceInfo :=
  { gpu 0 (2 ^ 20) with usedMemoryMb := 2 ^ 63, modelCacheWorkflowIds := ["forecast"] }

def overfull : ResourceReservationTable where
  resourceMap := ⟨[overfullGpu], by decide⟩
  memoryUtilizationPercent := 80
  rrCursor := 0
  knownProfiles := []

def warmRequest : SchedulePayload where
  runId := "r"
  workflow := "forecast"
  workflowId := some "forecast"
  resourceProfile := some { gpusRequired := some 1, memoryMb := some 1024 }

def MemoryStore.reading : Oracle Op MemoryStore
  | _, .hmgetActive ids, s => some (.ok (ids.filterMap fun id => (s.active id).map (id, ·)), s)
  | _, _, _ => none

theorem MemoryStore.reading_sound : Oracle.Sound reading exec := by
  intro ρ op s r s' h
  cases op <;> cases h
  exact ⟨rfl, _, rfl, activeReply_filterMap _ _⟩

def overflows : (Except Failure (QueueCandidateStatus × Except Failure α) × τ) × σ → Bool
  | ((.ok (status, .error e), _), _) =>
    status = .eligible true ∧ e = .msg "scheduler: observed used memory overflow for resource '0'"
  | _ => false

theorem warm_preflight_reserve_fails :
    ∃ e table' store', (preflightThenReserve warmRequest).Ends MemoryStore.exec overfull .empty
      (.ok (.eligible true, .error e)) table' store' ∧
      e = .msg "scheduler: observed used memory overflow for resource '0'" := by
  have h : (((preflightThenReserve warmRequest).toProg overfull).run MemoryStore.reading 10 .empty).any
      overflows := by
    decide +kernel
  obtain ⟨⟨⟨x, table'⟩, store'⟩, hs, hp⟩ := (Option.any_eq_true _ _).mp h
  rcases x with _ | ⟨status, e | _⟩ <;> try cases hp
  obtain ⟨hst, he⟩ := of_decide_eq_true hp
  subst hst
  exact ⟨e, table', store', Prog.ends_of_run MemoryStore.reading_sound hs, he⟩

end Verdict

end Scheduler
