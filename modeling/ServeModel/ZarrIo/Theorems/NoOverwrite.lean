import ServeModel.ZarrIo.Theorems.Close

namespace ZarrIo

open List hiding count

open RowMajor

variable {fl : Floats}

section Distinct

variable {cfg : PlannerConfig fl} {dims : List String}

theorem indicesAt_injective (hn : ∀ set ∈ sets, set.Nodup)
    (hp : Within ps (sets.map List.length)) (hq : Within qs (sets.map List.length))
    (h : indicesAt sets ps = indicesAt sets qs) : ps = qs := by
  induction sets generalizing ps qs
  case nil =>
    cases hp
    cases hq
    rfl
  case cons set sets hi =>
    rw [map_cons] at hp hq
    cases hp
    case cons p ps hlp hp =>
      cases hq
      case cons q qs hlq hq =>
        simp only [indicesAt, zipWith_cons_cons, List.cons.injEq, getElem?_eq_getElem hlp,
          getElem?_eq_getElem hlq, Option.getD_some] at h
        have hpq : p = q := (List.Nodup.getElem_inj_iff (hn set mem_cons_self)).mp h.1
        rw [hpq, hi (fun set hs => hn set (mem_cons_of_mem _ hs)) hp hq h.2]

theorem PlanSpec.map_length (h : PlanSpec cfg registered coords dims) :
    (dims.map (stepIndices cfg coords registered)).map List.length = dims.map coords.axisLen := by
  rw [map_map]
  exact map_congr_left fun dim hd => (h.parallel dim hd).length

theorem within_of_lt_comboCount (hk : k < comboCount coords dims) :
    Within (position (dims.map coords.axisLen) k) (dims.map coords.axisLen) := by
  apply within_position
  intro n hn
  apply Nat.pos_of_ne_zero
  intro hz
  have : comboCount coords dims = 0 := prod_eq_zero (hz ▸ hn)
  omega

theorem PlanSpec.comboIndices_injective (h : PlanSpec cfg registered coords dims)
    (hd : ∀ dim ∈ dims, (stepIndices cfg coords registered dim).Nodup)
    (hk : k < comboCount coords dims) (hk' : k' < comboCount coords dims)
    (he : comboIndices cfg registered coords dims k = comboIndices cfg registered coords dims k') : k = k' := by
  have hp := indicesAt_injective (forall_mem_map.mpr hd) (h.map_length ▸ within_of_lt_comboCount hk)
    (h.map_length ▸ within_of_lt_comboCount hk') he
  rw [← offset_position hk, hp, offset_position hk']

theorem PlanSpec.within_comboIndices (h : PlanSpec cfg registered coords dims) (hk : k < comboCount coords dims) :
    Within (comboIndices cfg registered coords dims k) (dims.map registered.axisLen) := by
  have hw := within_of_lt_comboCount hk
  rw [comboIndices, indicesAt]
  generalize position (dims.map coords.axisLen) k = ps at hw
  have hpar := h.parallel
  clear h hk
  induction dims generalizing ps
  case nil => simp [Within]
  case cons dim dims hi =>
    cases hw
    case cons p ps hp hw =>
      refine .cons ?_ (hi ps hw fun dim hd => hpar dim (mem_cons_of_mem _ hd))
      obtain ⟨step, axis, hs, ha, hf⟩ := (hpar dim mem_cons_self).found
      rw [CoordMap.axisLen_of_get hs, CoordValues.len] at hp
      have hi := hf.length_eq ▸ hp
      obtain ⟨w, hw, _⟩ := hf.get hp hi
      rw [CoordMap.axisLen_of_get ha, CoordValues.len]
      simpa [List.getElem?_eq_getElem hi] using (List.getElem?_eq_some_iff.mp hw).1

variable {registration : ArrayRegistration fl} {req : InferenceWriteRequest fl}

theorem nodup_arrayIds (hn : names.Nodup)
    (h : List.Forall₂ (fun name id => registration.arrayNames.idxOf? name = some id) names arrayIds) :
    arrayIds.Nodup := by
  induction h
  case nil => exact .nil
  case cons name id names ids hid h hi =>
    have ⟨hname, hn⟩ := nodup_cons.mp hn
    refine nodup_cons.mpr ⟨fun hm => hname ?_, hi hn⟩
    have ⟨name', hm, hid'⟩ := h.exists_of_mem_right hm
    have he : name = name' := by
      have ⟨_, h₁, _⟩ := idxOf?_eq_some_iff.mp hid
      have ⟨_, h₂, _⟩ := idxOf?_eq_some_iff.mp hid'
      exact h₁.symm.trans h₂
    exact he ▸ hm

-- No two values of an axis of the request stand for one registered value.
def DistinctSteps (cfg : PlannerConfig fl) (registration : ArrayRegistration fl)
    (req : InferenceWriteRequest fl) : Prop :=
  ∀ dims, resolveActiveParallelDims cfg.parallelCoordsConfig registration.coords = .ok dims →
    ∀ dim ∈ dims, (stepIndices cfg req.coords registration.coords dim).Nodup

theorem Planned.nodup_chunkIds (h : Planned cfg registration req arrayIds batch)
    (hd : DistinctSteps cfg registration req) : batch.chunkIds.Nodup := by
  have ⟨st, hst, hp⟩ := h.planned
  have ⟨dims, hplan, hbatch⟩ := planBatch_eq_ok hst hp
  have ⟨_, hnames, hlen⟩ := validateRequest_eq_ok h.validated
  have hids := resolveArrayIds_eq_ok h.resolved
  rw [hbatch.layout, nodup_flatMap]
  constructor
  case left =>
    intro array _
    refine List.Nodup.map_on (fun k hk k' hk' he => ?_) nodup_range
    rw [mem_range] at hk hk'
    have hoff := (ChunkId.mk.inj he).2
    exact hplan.comboIndices_injective (hd dims hplan.active) hk hk'
      (offset_injective (hplan.within_comboIndices hk) (hplan.within_comboIndices hk') hoff)
  case right =>
    have hn : ((arrayIds.zip (req.arrayNames.zip req.arrays)).map Prod.fst).Nodup := by
      rw [map_fst_zip (by rw [length_zip, hlen, Nat.min_self, hids.length_eq])]
      exact nodup_arrayIds hnames hids
    apply (pairwise_map.mp hn).imp
    intro a b hne id ha hb
    have ⟨k, _, hk⟩ := mem_map.mp ha
    have ⟨k', _, hk'⟩ := mem_map.mp hb
    exact hne (ChunkId.mk.inj (hk.trans hk'.symm)).1

end Distinct

-- The job has not given its id back and has not committed it.
def FlushPhase.holdsId : FlushPhase → Bool
  | writing | written | failed => true
  | _ => false

-- The ids of a batch are those of its tasks, and no two of them are the same.
structure PlannedWriteBatch.Distinct (batch : PlannedWriteBatch) : Prop where
  chunkIds : batch.chunkIds = batch.tasks.map (·.chunkId)
  nodup : batch.chunkIds.Nodup

theorem PlannedWriteBatch.Distinct.task_unique {batch : PlannedWriteBatch} (h : batch.Distinct) {t t' : Nat}
    (ht : batch.tasks[t]? = some task) (ht' : batch.tasks[t']? = some task')
    (he : task.chunkId = task'.chunkId) : t = t' := by
  have hlt : t < batch.chunkIds.length := by
    rw [h.chunkIds, length_map]
    exact (List.getElem?_eq_some_iff.mp ht).1
  refine (getElem?_inj hlt h.nodup).mp ?_
  rw [h.chunkIds, getElem?_map, getElem?_map, ht, ht', Option.map_some, Option.map_some, he]

namespace WriteCall

-- The ids that a rollback has yet to come to.
def pendingIds (call : WriteCall) : List ChunkId :=
  call.rollback.getD call.batch.chunkIds

-- The task with this id, with a number of jobs, has not been rolled back.
def Keeps (call : WriteCall) (count t : Nat) (chunkId : ChunkId) : Prop :=
  ∃ task, call.batch.tasks[t]? = some task ∧ task.chunkId = chunkId ∧ (count = 0 → chunkId ∈ call.pendingIds)

theorem Keeps.congr {call call' : WriteCall} (hb : call'.batch = call.batch)
    (hp : call'.pendingIds = call.pendingIds) : call'.Keeps count t chunkId ↔ call.Keeps count t chunkId := by
  rw [Keeps, Keeps, hb, hp]

end WriteCall

namespace Coordinator

variable {numThreads : Nat} {Plans : PlannedWriteBatch → Prop} {s s' : Coordinator} {c t c' t' : Nat}
  {call call' : WriteCall} {j : Nat} {job job' : FlushJob} {chunkId : ChunkId}

-- A task of an unfinished write owns its id: it has no job and the rollback has not come to it, or its job is not
-- done with the id.
structure Owns (s : Coordinator) (c t : Nat) (chunkId : ChunkId) : Prop where
  pending : ∃ call, s.calls[c]? = some call ∧ call.Keeps (s.jobCount c t) t chunkId
  held : ∀ job ∈ s.jobs, job.isFor c t → job.phase.holdsId

-- What the chunk registry is for.
structure NoOverwrite (s : Coordinator) : Prop where
  once : (s.files.map Prod.fst).Nodup
  disjoint : Disjoint s.registry.reserved s.registry.committed
  owned : ∀ chunkId, chunkId ∈ s.registry.reserved ↔ ∃ c t, s.Owns c t chunkId
  kept : ∀ chunkId ∈ s.files.map Prod.fst, chunkId ∈ s.registry.reserved ∪ s.registry.committed

theorem eq_of_countP_le_one {p : α → Bool} {l : List α} {a b : α} (h : l.countP p ≤ 1)
    (hi : l[i]? = some a) (hj : l[j]? = some b) (ha : p a) (hb : p b) : i = j := by
  induction l generalizing i j
  case nil => cases hi
  case cons x l hind =>
    have hpos {k : Nat} {c : α} (hk : l[k]? = some c) (hc : p c) : 0 < l.countP p :=
      countP_pos_iff.mpr ⟨c, mem_of_getElem? hk, hc⟩
    rw [countP_cons] at h
    cases i
    case zero =>
      cases j
      case zero => rfl
      case succ j =>
        cases hi
        have := hpos hj hb
        simp only [ha, if_true] at h
        omega
    case succ i =>
      cases j
      case zero =>
        cases hj
        have := hpos hi ha
        simp only [hb, if_true] at h
        omega
      case succ j => rw [hind (by omega) hi hj]

section Owners

theorem owns_congr {s₁ : Coordinator} (h : s₁.Owns c t chunkId ↔ p) (hc : s'.calls = s₁.calls)
    (hj : s'.jobs = s₁.jobs) : s'.Owns c t chunkId ↔ p := by
  have hcount : s'.jobCount c t = s₁.jobCount c t := by rw [jobCount, jobCount, hj]
  rw [← h]
  exact ⟨fun h => ⟨hcount ▸ hc ▸ h.pending, hj ▸ h.held⟩, fun h => ⟨hcount ▸ hc ▸ h.pending, hj ▸ h.held⟩⟩

theorem pending_setCall (call' : WriteCall) {p : WriteCall → Prop} (hc : s.calls[c']? = some call)
    (hk : c = c' → (p call' ↔ p call)) :
    (∃ call, (s.setCall c' call').calls[c]? = some call ∧ p call) ↔ ∃ call, s.calls[c]? = some call ∧ p call := by
  have hlt := (List.getElem?_eq_some_iff.mp hc).1
  by_cases he : c' = c
  case pos =>
    subst he
    rw [hc]
    simp [setCall, hlt, hk rfl]
  case neg => simp [setCall, he]

theorem owns_setCall (hc : s.calls[c']? = some call) (hb : call'.batch = call.batch)
    (hp : call'.pendingIds = call.pendingIds) :
    (s.setCall c' call').Owns c t chunkId ↔ s.Owns c t chunkId := by
  have hk :=
    pending_setCall call' (c := c) (p := (·.Keeps (s.jobCount c t) t chunkId)) hc fun _ => WriteCall.Keeps.congr hb hp
  exact ⟨fun h => ⟨hk.mp h.pending, h.held⟩, fun h => ⟨hk.mpr h.pending, h.held⟩⟩

theorem mem_setPhase (hj : s.jobs[j]? = some job) :
    job' ∈ (s.setPhase j job phase).jobs ↔ job' = { job with phase } ∨ ∃ i, i ≠ j ∧ s.jobs[i]? = some job' := by
  have hlt := (List.getElem?_eq_some_iff.mp hj).1
  simp only [List.mem_iff_getElem?, setPhase, List.getElem?_set]
  grind

theorem held_setPhase (hj : s.jobs[j]? = some job) (hp : phase.holdsId = job.phase.holdsId) :
    (∀ job' ∈ (s.setPhase j job phase).jobs, job'.isFor c t → job'.phase.holdsId) ↔
      ∀ job ∈ s.jobs, job.isFor c t → job.phase.holdsId := by
  constructor
  case mp =>
    intro h job' hm hf
    have ⟨i, hi⟩ := mem_iff_getElem?.mp hm
    by_cases he : i = j
    case pos =>
      subst he
      cases hj.symm.trans hi
      exact hp ▸ h _ ((mem_setPhase hj).mpr (.inl rfl)) hf
    case neg => exact h job' ((mem_setPhase hj).mpr (.inr ⟨i, he, hi⟩)) hf
  case mpr =>
    intro h
    exact forall_mem_setPhase h fun hf => hp.trans (h job (mem_of_getElem? hj) hf)

theorem owns_setPhase (hj : s.jobs[j]? = some job) (hp : phase.holdsId = job.phase.holdsId) :
    (s.setPhase j job phase).Owns c t chunkId ↔ s.Owns c t chunkId := by
  have hcount : (s.setPhase j job phase).jobCount c t = s.jobCount c t := jobCount_setPhase hj c t
  have hh := held_setPhase (c := c) (t := t) hj hp
  exact ⟨fun h => ⟨hcount ▸ h.pending, hh.mp h.held⟩, fun h => ⟨hcount.symm ▸ h.pending, hh.mpr h.held⟩⟩

-- The owners of an id are one task.
def Single (s : Coordinator) : Prop :=
  ∀ {c t c' t' : Nat} {chunkId : ChunkId}, s.Owns c t chunkId → s.Owns c' t' chunkId → c = c' ∧ t = t'

variable (hi : Inv s)
include hi

theorem Inv.job_unique {i : Nat} (hj : s.jobs[j]? = some job) (hi' : s.jobs[i]? = some job')
    (hf : job.isFor c t) (hf' : job'.isFor c t) : j = i := by
  have hmem := mem_of_getElem? hj
  have hlt := hi.calls.called job hmem
  have hcall : job.call = c := by
    simp only [FlushJob.isFor, Bool.and_eq_true, beq_iff_eq] at hf
    exact hf.1
  have ha := hi.calls.accounted _ _ (getElem?_eq_getElem (hcall ▸ hlt))
  have := ha.count_le t
  exact eq_of_countP_le_one (p := FlushJob.isFor c t) (l := s.jobs) (by rw [jobCount] at this; split at this <;> omega)
    hj hi' hf hf'

theorem Inv.owns_job (hj : s.jobs[j]? = some job) (hp : job.phase.holdsId) :
    s.Owns job.call job.task job.chunkId := by
  have hmem := mem_of_getElem? hj
  have hself : job.isFor job.call job.task := by simp [FlushJob.isFor]
  obtain ⟨call, task, hc, ht, hid, _⟩ := hi.flushes job hmem
  refine ⟨⟨call, hc, task, ht, hid.symm, fun hz => ?_⟩, fun job' hm hf => ?_⟩
  · exact absurd hself (countP_eq_zero.mp hz job hmem)
  · obtain ⟨i, hi'⟩ := mem_iff_getElem?.mp hm
    cases hi.job_unique hj hi' hself hf
    cases hj.symm.trans hi'
    exact hp

theorem Inv.owns_settle (hs : s.Single) (hj : s.jobs[j]? = some job) (hp : job.phase.holdsId)
    (hp' : phase.holdsId = false) :
    (s.setPhase j job phase).Owns c t chunkId ↔ s.Owns c t chunkId ∧ chunkId ≠ job.chunkId := by
  have hcount : (s.setPhase j job phase).jobCount c t = s.jobCount c t := jobCount_setPhase hj c t
  have hown := hi.owns_job hj hp
  constructor
  case mp =>
    intro h
    have hne : ¬job.isFor c t := fun hf => by
      have : phase.holdsId := h.held _ ((mem_setPhase hj).mpr (.inl rfl)) hf
      rw [hp'] at this
      cases this
    have ho : s.Owns c t chunkId := by
      refine ⟨hcount ▸ h.pending, fun job' hm hf => ?_⟩
      obtain ⟨i, hi'⟩ := mem_iff_getElem?.mp hm
      by_cases he : i = j
      case pos =>
        subst he
        cases hj.symm.trans hi'
        exact absurd hf hne
      case neg => exact h.held job' ((mem_setPhase hj).mpr (.inr ⟨i, he, hi'⟩)) hf
    refine ⟨ho, fun he => hne ?_⟩
    obtain ⟨hc, ht⟩ := hs ho (he ▸ hown)
    simp [FlushJob.isFor, hc, ht]
  case mpr =>
    rintro ⟨h, hne⟩
    refine ⟨hcount.symm ▸ h.pending, forall_mem_setPhase h.held fun hf => ?_⟩
    simp only [FlushJob.isFor, Bool.and_eq_true, beq_iff_eq] at hf
    obtain ⟨call, hc, task, ht, hid, _⟩ := h.pending
    obtain ⟨call', hc', task', ht', hid', _⟩ := hown.pending
    rw [hf.1, hc, Option.some.injEq] at hc'
    subst hc'
    rw [hf.2, ht, Option.some.injEq] at ht'
    subst ht'
    exact absurd (hid.symm.trans hid') hne

theorem Inv.owns_spawn {i : Nat} (call' : WriteCall) (job : FlushJob) (hc : s.calls[c']? = some call)
    (hd : call.batch.Distinct)
    (hw : call.scope.workers[i]? = some (CopyWorker.enqueuing t')) (ht : t' ∉ call.handed)
    (hb : call'.batch = call.batch) (hr : call'.pendingIds = call.pendingIds)
    (hjob : job.call = c' ∧ job.task = t') (hp : job.phase.holdsId) :
    Owns { s.setCall c' call' with jobs := s.jobs ++ [job] } c t chunkId ↔ s.Owns c t chunkId := by
  have ha := hi.calls.accounted c' call hc
  have hzero : s.jobCount c' t' = 0 := by
    have := ha.once t'
    rw [count_eq_zero_of_not_mem ht] at this
    have : 0 < call.scope.workers.countP (SubmitWrite.holding t') :=
      countP_pos_iff.mpr ⟨_, mem_of_getElem? hw, by simp [SubmitWrite.holding]⟩
    simp only [SubmitWrite.owed] at *
    split at * <;> omega
  have hpending : call.pendingIds = call.batch.chunkIds := by
    cases hb : call.rollback
    case none => simp [WriteCall.pendingIds, hb]
    case some ids => cases (ha.rollback ids hb).1 _ (mem_of_getElem? hw)
  have hfor : job.isFor c t ↔ c = c' ∧ t = t' := by
    simp only [FlushJob.isFor, hjob.1, hjob.2, Bool.and_eq_true, beq_iff_eq]
    exact and_congr eq_comm eq_comm
  have hcount : jobCount { s.setCall c' call' with jobs := s.jobs ++ [job] } c t =
      s.jobCount c t + if job.isFor c t then 1 else 0 := jobCount_append rfl c t
  have hk (n : Nat) :=
    pending_setCall call' (c := c) (p := (·.Keeps n t chunkId)) hc fun _ => WriteCall.Keeps.congr hb hr
  by_cases he : c = c' ∧ t = t'
  case neg =>
    rw [if_neg (mt hfor.mp he), Nat.add_zero] at hcount
    constructor
    case mp => exact fun h => ⟨(hk _).mp (hcount ▸ h.pending), fun job' hm => h.held job' (mem_append_left _ hm)⟩
    case mpr =>
      refine fun h => ⟨hcount.symm ▸ (hk _).mpr h.pending, fun job' hm hf => ?_⟩
      cases mem_append.mp hm
      case inl hm => exact h.held job' hm hf
      case inr hm => exact absurd (hfor.mp (mem_singleton.mp hm ▸ hf)) he
  case pos =>
    rw [he.1, he.2] at hcount hk ⊢
    have hnone := countP_eq_zero.mp hzero
    constructor
    case mp =>
      refine fun h => ⟨?_, fun job' hm hf => absurd hf (hnone job' hm)⟩
      obtain ⟨call₁, hc₁, task, htask, hid, _⟩ := (hk _).mp h.pending
      cases hc.symm.trans hc₁
      refine ⟨call, hc, task, htask, hid, fun _ => ?_⟩
      rw [hpending, hd.chunkIds, mem_map]
      exact ⟨task, mem_of_getElem? htask, hid⟩
    case mpr =>
      refine fun h => ⟨(hk _).mpr ?_, fun job' hm hf => ?_⟩
      · obtain ⟨call₁, hc₁, task, htask, hid, hin⟩ := h.pending
        exact ⟨call₁, hc₁, task, htask, hid, fun _ => hin hzero⟩
      · cases mem_append.mp hm
        case inl hm => exact absurd hf (hnone job' hm)
        case inr hm => exact mem_singleton.mp hm ▸ hp

theorem Inv.owns_rollback {rest : List ChunkId} {chunkId₀ : ChunkId} (hs : s.Single) (hc : s.calls[c']? = some call)
    (hd : call.batch.Distinct) (hb : call.rollback = some (chunkId₀ :: rest)) :
    (s.setCall c' { call with rollback := some rest }).Owns c t chunkId ↔
      s.Owns c t chunkId ∧ (chunkId₀ ∉ call.dispatched → chunkId ≠ chunkId₀) := by
  have ha := hi.calls.accounted c' call hc
  obtain ⟨hw, hsuffix⟩ := ha.rollback _ hb
  have hnodup := nodup_cons.mp (hd.nodup.sublist hsuffix.sublist)
  have hhanded : call.handed = [] := by
    by_contra hne
    obtain ⟨t, ht⟩ := exists_mem_of_ne_nil _ hne
    obtain ⟨i, hi⟩ := ha.handed t ht
    cases hw _ (mem_of_getElem? hi)
  have hids : call.pendingIds = chunkId₀ :: rest := by simp [WriteCall.pendingIds, hb]
  -- an id that has not been dispatched belongs to a task without a job
  have hown (hn : chunkId₀ ∉ call.dispatched) : ∃ t₀, s.Owns c' t₀ chunkId₀ ∧ s.jobCount c' t₀ = 0 := by
    have hmem : chunkId₀ ∈ call.batch.chunkIds := hsuffix.subset mem_cons_self
    rw [hd.chunkIds] at hmem
    obtain ⟨task, hm, hid⟩ := mem_map.mp hmem
    obtain ⟨t₀, htask⟩ := mem_iff_getElem?.mp hm
    have hzero : s.jobCount c' t₀ = 0 := by
      by_contra hpos
      have := ha.tracked t₀ task htask (Nat.pos_of_ne_zero hpos)
      simp [hhanded, hid, hn] at this
    refine ⟨t₀, ⟨⟨call, hc, task, htask, hid, fun _ => hids ▸ mem_cons_self⟩, fun job hm hf => ?_⟩, hzero⟩
    exact absurd hf (countP_eq_zero.mp hzero job hm)
  by_cases he : c = c'
  case neg =>
    have hk := pending_setCall { call with rollback := some rest } (p := (·.Keeps (s.jobCount c t) t chunkId)) hc
      fun h => absurd h he
    constructor
    case mp =>
      intro h
      have ho : s.Owns c t chunkId := ⟨hk.mp h.pending, h.held⟩
      refine ⟨ho, fun hn hid => ?_⟩
      obtain ⟨t₀, ho₀, _⟩ := hown hn
      exact he (hs ho (hid ▸ ho₀)).1
    case mpr => exact fun h => ⟨hk.mpr h.1.pending, h.1.held⟩
  case pos =>
    subst he
    have hlt := (List.getElem?_eq_some_iff.mp hc).1
    have hc' :
        (s.setCall c { call with rollback := some rest }).calls[c]? = some { call with rollback := some rest } := by
      simp [setCall, hlt]
    constructor
    case mp =>
      intro h
      obtain ⟨call₁, hc₁, task, htask, hid, hin⟩ := h.pending
      cases hc'.symm.trans hc₁
      have ho : s.Owns c t chunkId :=
        ⟨⟨call, hc, task, htask, hid, fun hz => hids ▸ mem_cons_of_mem _ (hin hz)⟩, h.held⟩
      refine ⟨ho, fun hn hid => ?_⟩
      obtain ⟨t₀, ho₀, hz⟩ := hown hn
      obtain ⟨_, ht⟩ := hs ho (hid ▸ ho₀)
      exact hnodup.1 (hid ▸ hin (ht ▸ hz))
    case mpr =>
      rintro ⟨h, hne⟩
      obtain ⟨call₁, hc₁, task, htask, hid, hin⟩ := h.pending
      cases hc.symm.trans hc₁
      refine ⟨⟨_, hc', task, htask, hid, fun hz => ?_⟩, h.held⟩
      cases mem_cons.mp (hids ▸ hin hz)
      case inr hm => exact hm
      case inl he =>
        -- it has been dispatched, so that the task has a job
        have hdisp : chunkId₀ ∈ call.dispatched := by
          by_contra hn
          exact hne hn he
        obtain ⟨t₁, task₁, htask₁, hid₁, hpos⟩ := ha.dispatched _ hdisp
        have := hd.task_unique htask htask₁ (by rw [hid, hid₁, he])
        rw [this] at hz
        exact absurd hz (Nat.ne_of_gt hpos)

theorem Inv.owns_reserve (hd : batch.Distinct) :
    Owns { s with calls := s.calls ++ [.start numThreads queueCapacity batch] } c t chunkId ↔
      s.Owns c t chunkId ∨ c = s.calls.length ∧ ∃ task, batch.tasks[t]? = some task ∧ task.chunkId = chunkId := by
  constructor
  case mp =>
    intro h
    have ⟨call, hc, hk⟩ := h.pending
    simp only [getElem?_append] at hc
    split at hc
    case isTrue => exact .inl ⟨⟨call, hc, hk⟩, h.held⟩
    case isFalse hlt =>
      have hlen := (List.getElem?_eq_some_iff.mp hc).1
      have hcall := mem_singleton.mp (mem_of_getElem? hc)
      subst hcall
      have ⟨task, htask, hid, _⟩ := hk
      rw [length_singleton] at hlen
      exact .inr ⟨by omega, task, htask, hid⟩
  case mpr =>
    intro h
    cases h
    case inl h =>
      have ⟨call, hc, hk⟩ := h.pending
      have hlt := (List.getElem?_eq_some_iff.mp hc).1
      exact ⟨⟨call, (getElem?_append_left hlt).trans hc, hk⟩, h.held⟩
    case inr h =>
      have ⟨hc, task, htask, hid⟩ := h
      subst hc
      refine ⟨⟨_, getElem?_concat_length, task, htask, hid, fun _ => ?_⟩, fun job hm hf => ?_⟩
      · show chunkId ∈ batch.chunkIds
        rw [hd.chunkIds, mem_map]
        exact ⟨task, mem_of_getElem? htask, hid⟩
      · have := hi.calls.called job hm
        simp only [FlushJob.isFor, Bool.and_eq_true, beq_iff_eq] at hf
        omega

end Owners

-- What a step does to the ids: a batch reserves its own, or a task gives one up.
inductive IdStep (Plans : PlannedWriteBatch → Prop) (s s' : Coordinator) : Prop
  | reserve (batch : PlannedWriteBatch) : (Plans batch) → (s.registry.reserveManyIds batch.chunkIds = .ok s'.registry) →
      (∀ {c t chunkId}, s'.Owns c t chunkId ↔ s.Owns c t chunkId ∨
        c = s.calls.length ∧ ∃ task, batch.tasks[t]? = some task ∧ task.chunkId = chunkId) → IdStep Plans s s'
  | keep : (s'.registry = s.registry) → (∀ {c t chunkId}, s'.Owns c t chunkId ↔ s.Owns c t chunkId) → IdStep Plans s s'
  | release (chunkId₀ : ChunkId) : (s'.registry = s.registry.releaseFailedId chunkId₀) →
      (∀ {c t chunkId}, s'.Owns c t chunkId ↔ s.Owns c t chunkId ∧ chunkId ≠ chunkId₀) → IdStep Plans s s'
  | commit (chunkId₀ : ChunkId) : (s'.registry = s.registry.markCommittedId chunkId₀) →
      (∀ {c t chunkId}, s'.Owns c t chunkId ↔ s.Owns c t chunkId ∧ chunkId ≠ chunkId₀) → IdStep Plans s s'

theorem Step.batches_plans (h : Step numThreads Plans s s') (hp : ∀ batch ∈ s.batches, Plans batch) :
    ∀ batch ∈ s'.batches, Plans batch := by
  cases h.batches_eq
  case inl he => rwa [he]
  case inr he =>
    have ⟨batch, hplans, he⟩ := he
    rw [he, forall_mem_append]
    exact ⟨hp, forall_mem_singleton.mpr hplans⟩

theorem Step.idStep (h : Step numThreads Plans s s') (hi : Inv s) (hs : s.Single)
    (hd : ∀ batch, Plans batch → batch.Distinct)
    (hp : ∀ batch ∈ s.batches, Plans batch) : IdStep Plans s s' := by
  have hdist {c : Nat} {call : WriteCall} (hc : s.calls[c]? = some call) : call.batch.Distinct :=
    hd _ (hp _ (mem_map_of_mem (mem_of_getElem? hc)))
  have hcall {c : Nat} {call call' : WriteCall} (hc : s.calls[c]? = some call) (hb : call'.batch = call.batch)
      (hr : call'.pendingIds = call.pendingIds) : IdStep Plans s (s.setCall c call') :=
    .keep rfl (owns_setCall hc hb hr)
  cases h
  case reserve batch reg queueCapacity hplans hr =>
    exact .reserve batch hplans hr (owns_congr (hi.owns_reserve (hd batch hplans)) rfl rfl)
  case copy hc _ _ _ _ | markCopied hc _ _ | track hc _ _ _ | acknowledge hc _ _ _ _ | fail hc _ _ =>
    exact hcall hc rfl rfl
  case spawn c call t task bytes i hc hw ht htask hl =>
    exact .keep rfl (owns_congr (hi.owns_spawn { call with handed := t :: call.handed }
      ⟨c, t, task.batchId, task.chunkId, bytes, .writing⟩
      hc (hdist hc) hw ht rfl rfl ⟨rfl, rfl⟩ rfl) rfl rfl)
  case rollback hc _ _ hb => exact hcall hc rfl (by simp [WriteCall.pendingIds, hb])
  case rollbackNext c call chunkId rest hc hb =>
    have hown {c' t : Nat} {chunkId' : ChunkId} :
        (s.setCall c { call with rollback := some rest }).Owns c' t chunkId' ↔
          s.Owns c' t chunkId' ∧ (chunkId ∉ call.dispatched → chunkId' ≠ chunkId) :=
      hi.owns_rollback hs hc (hdist hc) hb
    by_cases hm : chunkId ∈ call.dispatched
    case pos => exact .keep (by simp [hm]) (owns_congr (hown.trans (by simp [hm])) rfl rfl)
    case neg => exact .release chunkId (by simp [hm]) (owns_congr (hown.trans (by simp [hm])) rfl rfl)
  case write hj hp | defer hj hp | dropGuard hj hp =>
    exact .keep rfl (owns_congr (owns_setPhase hj (by rw [hp]; rfl)) rfl rfl)
  case writeFails hj hp | returnLease hj hp => exact .keep rfl (owns_setPhase hj (by rw [hp]; rfl))
  case commit hj hp =>
    exact .commit _ rfl (owns_congr (hi.owns_settle hs hj (by rw [hp]; rfl) rfl) rfl rfl)
  case release hj hp =>
    exact .release _ rfl (owns_congr (hi.owns_settle hs hj (by rw [hp]; rfl) rfl) rfl rfl)
  all_goals exact .keep rfl (owns_congr Iff.rfl rfl rfl)

theorem reserveManyIds_eq_ok {r r' : ChunkRegistry} (h : r.reserveManyIds ids = .ok r') :
    (∀ id ∈ ids, id ∉ r.reserved ∧ id ∉ r.committed) ∧ r' = { r with reserved := r.reserved ∪ ids.toFinset } := by
  simp only [ChunkRegistry.reserveManyIds] at h
  split at h
  case h_1 => cases h
  case h_2 hf =>
    cases h
    refine ⟨fun id hm => ?_, rfl⟩
    simpa using find?_eq_none.mp hf id hm

structure Agrees (s : Coordinator) : Prop where
  single : s.Single
  disjoint : Disjoint s.registry.reserved s.registry.committed
  owned : ∀ chunkId, chunkId ∈ s.registry.reserved ↔ ∃ c t, s.Owns c t chunkId

theorem IdStep.agrees (h : IdStep Plans s s') (hd : ∀ batch, Plans batch → batch.Distinct) (hr : Agrees s) :
    Agrees s' := by
  cases h
  case keep hreg hown =>
    constructor
    case single => exact fun h h' => hr.single (hown.mp h) (hown.mp h')
    case disjoint => exact hreg ▸ hr.disjoint
    case owned =>
      intro chunkId
      simp only [hreg, hr.owned, hown]
  case release chunkId₀ hreg hown =>
    constructor
    case single => exact fun h h' => hr.single (hown.mp h).1 (hown.mp h').1
    case disjoint =>
      rw [hreg]
      exact Finset.disjoint_of_subset_left (Finset.erase_subset _ _) hr.disjoint
    case owned =>
      intro chunkId
      simp only [hreg, ChunkRegistry.releaseFailedId, Finset.mem_erase, hr.owned, hown]
      grind
  case commit chunkId₀ hreg hown =>
    constructor
    case single => exact fun h h' => hr.single (hown.mp h).1 (hown.mp h').1
    case disjoint =>
      rw [hreg]
      refine Finset.disjoint_insert_right.mpr ⟨Finset.notMem_erase _ _, ?_⟩
      exact Finset.disjoint_of_subset_left (Finset.erase_subset _ _) hr.disjoint
    case owned =>
      intro chunkId
      simp only [hreg, ChunkRegistry.markCommittedId, Finset.mem_erase, hr.owned, hown]
      grind
  case reserve batch hplans hres hown =>
    have hdist := hd batch hplans
    have ⟨hfree, hreg⟩ := reserveManyIds_eq_ok hres
    have hmem {t : Nat} {task : ChunkTask} (ht : batch.tasks[t]? = some task) : task.chunkId ∈ batch.chunkIds :=
      hdist.chunkIds ▸ mem_map_of_mem (mem_of_getElem? ht)
    -- an id that has an owner cannot be reserved
    have hnew {c t t' : Nat} {chunkId : ChunkId} {task : ChunkTask} (ho : s.Owns c t chunkId)
        (ht : batch.tasks[t']? = some task) (hid : task.chunkId = chunkId) : False :=
      (hfree chunkId (hid ▸ hmem ht)).1 ((hr.owned chunkId).mpr ⟨c, t, ho⟩)
    constructor
    case single =>
      intro c t c' t' chunkId h h'
      cases hown.mp h
      case inl ho =>
        cases hown.mp h'
        case inl ho' => exact hr.single ho ho'
        case inr ho' =>
          have ⟨_, task, ht, hid⟩ := ho'
          exact (hnew ho ht hid).elim
      case inr ho =>
        have ⟨hc, task, ht, hid⟩ := ho
        cases hown.mp h'
        case inl ho' => exact (hnew ho' ht hid).elim
        case inr ho' =>
          have ⟨hc', task', ht', hid'⟩ := ho'
          exact ⟨hc.trans hc'.symm, hdist.task_unique ht ht' (hid.trans hid'.symm)⟩
    case disjoint =>
      rw [hreg]
      refine Finset.disjoint_union_left.mpr ⟨hr.disjoint, Finset.disjoint_left.mpr fun id hm => ?_⟩
      exact (hfree id (mem_toFinset.mp hm)).2
    case owned =>
      intro chunkId
      rw [hreg, Finset.mem_union, hr.owned, mem_toFinset]
      constructor
      case mp =>
        intro h
        cases h
        case inl h =>
          have ⟨c, t, ho⟩ := h
          exact ⟨c, t, hown.mpr (.inl ho)⟩
        case inr h =>
          rw [hdist.chunkIds] at h
          have ⟨task, hm, hid⟩ := mem_map.mp h
          have ⟨t, ht⟩ := mem_iff_getElem?.mp hm
          exact ⟨_, t, hown.mpr (.inr ⟨rfl, task, ht, hid⟩)⟩
      case mpr =>
        intro ⟨c, t, h⟩
        cases hown.mp h
        case inl ho => exact .inl ⟨c, t, ho⟩
        case inr ho =>
          have ⟨_, task, ht, hid⟩ := ho
          exact .inr (hid ▸ hmem ht)

-- A file belongs to a committed id or to a job that is about to commit its id.
def FileKept (s : Coordinator) (chunkId : ChunkId) : Prop :=
  chunkId ∈ s.registry.committed ∨ ∃ job ∈ s.jobs, job.phase = .written ∧ job.chunkId = chunkId

theorem FileKept.step (hk : s.FileKept chunkId) (h : Step numThreads Plans s s') : s'.FileKept chunkId := by
  cases hk
  case inl hm => exact .inl (h.committed_subset hm)
  case inr hj =>
    have ⟨job, hm, hp, hid⟩ := hj
    have hphase {j : Nat} {job₀ : FlushJob} {phase : FlushPhase} (hj : s.jobs[j]? = some job₀)
        (hne : job₀.phase ≠ .written) :
        job ∈ (s.setPhase j job₀ phase).jobs := by
      have ⟨i, hi⟩ := mem_iff_getElem?.mp hm
      refine (mem_setPhase hj).mpr (.inr ⟨i, fun he => ?_, hi⟩)
      subst he
      cases hj.symm.trans hi
      exact hne hp
    cases h
    case spawn => exact .inr ⟨job, mem_append_left _ hm, hp, hid⟩
    case write hj hp' | writeFails hj hp' | release hj hp' | defer hj hp' | returnLease hj hp' | dropGuard hj hp' =>
      exact .inr ⟨job, hphase hj (by simp [hp']), hp, hid⟩
    case commit j job₀ hj hp' =>
      by_cases he : job₀.chunkId = chunkId
      case pos => exact .inl (he ▸ Finset.mem_insert_self _ _)
      case neg =>
        have ⟨i, hi⟩ := mem_iff_getElem?.mp hm
        refine .inr ⟨job, (mem_setPhase hj).mpr (.inr ⟨i, fun hij => ?_, hi⟩), hp, hid⟩
        subst hij
        cases hj.symm.trans hi
        exact he hid
    all_goals exact .inr ⟨job, hm, hp, hid⟩

theorem Step.mem_files (h : Step numThreads Plans s s') :
    s'.files = s.files ∨ ∃ (j : Nat) (job : FlushJob), s.jobs[j]? = some job ∧ job.phase = .writing ∧
      s'.files = s.files ++ [(job.chunkId, job.bytes)] ∧ { job with phase := .written } ∈ s'.jobs := by
  cases h
  case write j job hj hp => exact .inr ⟨j, job, hj, hp, rfl, (mem_setPhase hj).mpr (.inl rfl)⟩
  all_goals exact .inl rfl

-- A job that has yet to write has the only claim to its file.
theorem Inv.not_fileKept (hi : Inv s) (hr : Agrees s) (hj : s.jobs[j]? = some job) (hp : job.phase = .writing) :
    ¬s.FileKept job.chunkId := by
  have hown := hi.owns_job hj (by rw [hp]; rfl)
  intro hk
  cases hk
  case inl hm => exact Finset.disjoint_left.mp hr.disjoint ((hr.owned _).mpr ⟨_, _, hown⟩) hm
  case inr hw =>
    have ⟨job', hm, hp', hid⟩ := hw
    have ⟨i, hi'⟩ := mem_iff_getElem?.mp hm
    have hown' := hi.owns_job hi' (by rw [hp']; rfl)
    have ⟨hc, ht⟩ := hr.single hown (hid ▸ hown')
    cases hi.job_unique (c := job.call) (t := job.task) hj hi' (by simp [FlushJob.isFor])
      (by simp [FlushJob.isFor, hc, ht])
    cases hj.symm.trans hi'
    rw [hp] at hp'
    cases hp'

-- What holds of every reachable state if no batch has an id twice.
structure Exclusive (Plans : PlannedWriteBatch → Prop) (s : Coordinator) : Prop extends Agrees s where
  inv : Inv s
  plans : ∀ batch ∈ s.batches, Plans batch
  once : (s.files.map Prod.fst).Nodup
  kept : ∀ chunkId ∈ s.files.map Prod.fst, s.FileKept chunkId

theorem Exclusive.start : Exclusive Plans start where
  single h := by
    obtain ⟨_, hc, _⟩ := h.pending
    simp [Coordinator.start] at hc
  disjoint := by simp [Coordinator.start]
  owned _ := by
    refine ⟨fun h => by simp [Coordinator.start] at h, ?_⟩
    rintro ⟨_, _, h⟩
    obtain ⟨_, hc, _⟩ := h.pending
    simp [Coordinator.start] at hc
  inv := .start
  plans := by simp [Coordinator.start, batches]
  once := by simp [Coordinator.start]
  kept := by simp [Coordinator.start]

theorem Exclusive.step (he : Exclusive Plans s) (hd : ∀ batch, Plans batch → batch.Distinct)
    (h : Step numThreads Plans s s') : Exclusive Plans s' := by
  have hreg := (h.idStep he.inv he.single hd he.plans).agrees hd he.toAgrees
  have hkept (chunkId : ChunkId) (hm : chunkId ∈ s.files.map Prod.fst) : s'.FileKept chunkId :=
    (he.kept chunkId hm).step h
  refine { hreg with inv := he.inv.step h, plans := h.batches_plans he.plans, once := ?_, kept := ?_ }
  · cases h.mem_files
    case inl hf => exact hf ▸ he.once
    case inr hf =>
      have ⟨j, job, hj, hp, hf, _⟩ := hf
      rw [hf, map_append, map_singleton, nodup_append]
      refine ⟨he.once, nodup_singleton _, fun a ha b hb hab => ?_⟩
      rw [hab, mem_singleton.mp hb] at ha
      exact he.inv.not_fileKept he.toAgrees hj hp (he.kept _ ha)
  · cases h.mem_files
    case inl hf => exact hf ▸ hkept
    case inr hf =>
      have ⟨j, job, hj, hp, hf, hw⟩ := hf
      rw [hf, map_append, forall_mem_append]
      exact ⟨hkept, forall_mem_singleton.mpr (.inr ⟨_, hw, rfl, rfl⟩)⟩

theorem Exclusive.noOverwrite (he : Exclusive Plans s) : NoOverwrite s where
  once := he.once
  disjoint := he.disjoint
  owned := he.owned
  kept chunkId hm := by
    rw [Finset.mem_union]
    cases he.kept chunkId hm
    case inl hc => exact .inr hc
    case inr hw =>
      have ⟨job, hj, hp, hid⟩ := hw
      have ⟨j, hj⟩ := mem_iff_getElem?.mp hj
      exact .inl ((he.owned chunkId).mpr ⟨_, _, hid ▸ he.inv.owns_job hj (by rw [hp]; rfl)⟩)

theorem Reachable.exclusive (h : Reachable numThreads Plans s) (hd : ∀ batch, Plans batch → batch.Distinct) :
    Exclusive Plans s := by
  induction h
  case refl => exact .start
  case tail h hi => exact hi.step hd h

-- In a run whose requests have no two values that stand for one registered value no chunk is written twice, and
-- the registry is right about the ids.
theorem no_overwrite {cfg : PlannerConfig fl} {registration : ArrayRegistration fl}
    (hr : Reachable numThreads (fun batch => ∃ req arrayIds, Planned cfg registration req arrayIds batch ∧
      DistinctSteps cfg registration req) s) : NoOverwrite s := by
  refine (hr.exclusive fun batch hp => ?_).noOverwrite
  have ⟨req, arrayIds, hplan, hd⟩ := hp
  have ⟨st, hst, hb⟩ := hplan.planned
  have ⟨_, _, hbatch⟩ := planBatch_eq_ok hst hb
  exact ⟨hbatch.chunkIds, hplan.nodup_chunkIds hd⟩

theorem no_overwrite_twoChunks : ∃ s,
    Reachable 1 (fun batch => ∃ req arrayIds, Planned splitByTime.planner temperature req arrayIds batch ∧
      DistinctSteps splitByTime.planner temperature req) s ∧
      s.files.map Prod.fst = [⟨0, 0⟩, ⟨0, 1⟩] ∧ NoOverwrite s := by
  have hd : DistinctSteps splitByTime.planner temperature (writeOf timeAndLat) := by
    intro dims h
    have : Except.ok ["time"] = Except.ok dims := h
    cases this
    decide
  have h₁ := @alone_submits (fun batch => ∃ req arrayIds, Planned splitByTime.planner temperature req arrayIds batch ∧
    DistinctSteps splitByTime.planner temperature req) ⟨{⟨0, 0⟩, ⟨0, 1⟩}, ∅⟩ twoChunks 1 (fun _ _ => 0) taskAt
    ⟨_, _, planned_timeAndLat, hd⟩ rfl rfl fun t ht => by interval_cases t <;> rfl
  have h₂ := h₁.trans (flushes (j := 0) rfl rfl)
  have h₃ : Reachable 1 _ _ := h₂.trans (flushes (j := 1) rfl rfl)
  exact ⟨_, h₃, rfl, no_overwrite h₃⟩

def timeTwice : CoordMap noFloats where
  entries := [("time", .i64 [0, 0]), ("lat", .i64 [0, 1])]
  nodup := by decide

def sameChunk (k : Nat) : ChunkTask :=
  { taskAt k with chunkId := ⟨0, 0⟩, tupleKey := [0, 0] }

def chunkTwice : PlannedWriteBatch where
  batchId := 1
  chunkIds := [⟨0, 0⟩, ⟨0, 0⟩]
  tasks := [sameChunk 0, sameChunk 1]

theorem planned_timeTwice : Planned splitByTime.planner temperature (writeOf timeTwice) [0] chunkTwice where
  validated := rfl
  resolved := rfl
  planned := ⟨_, .init, rfl⟩

-- A request that has a time twice is accepted, and both of its tasks write the chunk of that time.
theorem overwrite_timeTwice : Registered temperature ∧ ∃ s,
    Reachable 1 (fun batch => ∃ req arrayIds, Planned splitByTime.planner temperature req arrayIds batch) s ∧
      s.files.map Prod.fst = [⟨0, 0⟩, ⟨0, 0⟩] ∧ ¬NoOverwrite s := by
  have h₁ := @alone_submits (fun batch => ∃ req arrayIds, Planned splitByTime.planner temperature req arrayIds batch)
    ⟨{⟨0, 0⟩}, ∅⟩ chunkTwice 1 (fun _ _ => 0) sameChunk ⟨_, _, planned_timeTwice⟩ rfl rfl
    fun t ht => by interval_cases t <;> rfl
  have h₂ := h₁.trans (flushes (j := 0) rfl rfl)
  have h₃ : Reachable 1 _ _ := h₂.trans (flushes (j := 1) rfl rfl)
  refine ⟨registered_temperature, _, h₃, rfl, fun h => ?_⟩
  have : [(⟨0, 0⟩ : ChunkId), ⟨0, 0⟩].Nodup := h.once
  revert this
  decide

end Coordinator

end ZarrIo
