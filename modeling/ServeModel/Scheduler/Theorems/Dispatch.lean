import ServeModel.Scheduler.Fleet

namespace Scheduler

-- The dispatched payload names the parent that the request was decoded with.
def SchedulePayload.Carried (payload : SchedulePayload) : Prop :=
  (payload.rawPayload.get "parent_run_id").bind Json.asStr = payload.parentRunId

section StageContext

theorem field_advanceItems (h : key ≠ "items") :
    Json.field key (advanceItems stage fs) = Json.field key fs := by
  induction fs
  case nil => rfl
  case cons f fs hi =>
    simp only [advanceItems, Json.field]
    split_ifs
    case pos hk hi => exact absurd (hk.trans hi) h
    case neg => rfl
    case neg => exact hi

theorem get_advanceStageContextForDispatch (hc : key ≠ "stage_context") (hi : key ≠ "items") :
    (advanceStageContextForDispatch stage (.obj root)).get key = Json.field key root := by
  simp only [advanceStageContextForDispatch]
  split
  case h_1 => rfl
  case h_2 =>
    split
    case h_1 => rfl
    case h_2 => exact Json.field_setField_of_ne hc
    case h_3 => exact (Json.field_setField_of_ne hc).trans (field_advanceItems hi)

end StageContext

section Outputs

variable {payload : SchedulePayload} {target : ReservedResource}

def dispatchRoot (payload : SchedulePayload) : Json.Fields :=
  match payload.rawPayload with
  | .obj fields => fields
  | raw => Json.literal [("raw", raw)]

theorem field_dispatchRoot_parent :
    (Json.field "parent_run_id" (dispatchRoot payload)).bind Json.asStr =
      (payload.rawPayload.get "parent_run_id").bind Json.asStr := by
  unfold dispatchRoot
  split
  case h_1 h => simp [h, Json.get, Json.asObject]
  case h_2 h =>
    have hn : payload.rawPayload.asObject = none := by
      cases hr : payload.rawPayload <;> first | rfl | exact absurd hr (h _)
    simp [hn, Json.get, Json.literal, Json.setField, Json.field]

theorem get_dispatchPayload (hp : key ≠ "resource_profile") (hc : key ≠ "stage_context")
    (hi : key ≠ "items") :
    (dispatchPayload payload target).get key = Json.field key (Json.setField "memory_mb"
      (.nat payload.memoryMb) (Json.setField "resource_id" (.nat target.resourceId)
        (dispatchRoot payload))) := by
  rw [dispatchPayload, get_advanceStageContextForDispatch hc hi]
  split
  case h_1 => exact Json.field_setField_of_ne hp
  case h_2 => rfl

-- The release of the worker on a reserved GPU.
def releaseOf (runId : String) (payload : SchedulePayload) (target : ReservedResource) :
    ReleasePayload where
  runId := runId
  parentRunId := ((payload.rawPayload.get "parent_run_id").bind Json.asStr).filter (· ≠ "")
  memoryMb := payload.memoryMb
  resourceId := target.resourceId

theorem filterMap_workerRelease_outputs (role : SchedulerRole) (targets : List ReservedResource)
    (runId : String) (payload : SchedulePayload) :
    (buildDispatchOutputs role targets runId payload).filterMap workerRelease =
      targets.map (releaseOf runId payload) := by
  rw [buildDispatchOutputs, List.filterMap_map, ← List.filterMap_eq_map]
  refine List.filterMap_congr fun target _ => ?_
  simp [workerRelease, Wire.encode, get_dispatchPayload, field_dispatchRoot_parent, Json.nat, Json.asNat,
    releaseOf]

theorem Release.parent_of_carried (h : payload.Carried) :
    Release.parent ⟨n, releaseOf runId payload target⟩ = payload.parentRunId.bind Text.nonBlank := by
  rw [Release.parent, releaseOf, h]
  cases payload.parentRunId
  case none => rfl
  case some p =>
    by_cases hp : p = ""
    case pos => subst hp; rfl
    case neg => simp [Option.filter, hp]

end Outputs

section Decode

variable {payload : SchedulePayload}

theorem withWorkflow_parentRunId : (withWorkflow payload).parentRunId = payload.parentRunId := by
  unfold withWorkflow
  split <;> rfl

theorem withWorkflow_rawPayload : (withWorkflow payload).rawPayload = payload.rawPayload := by
  unfold withWorkflow
  split <;> rfl

theorem withDefault_optional_asStr
    (h : Json.withDefault none (Json.optional Json.asStr) j? = some v) : v = j?.bind Json.asStr := by
  rcases j? with _ | j
  case none => exact (Option.some.inj h).symm
  case some =>
    cases j <;> simp_all [Json.withDefault, Json.optional, Json.asStr]

theorem decode_parentRunId (h : SchedulePayload.decode (.obj fields) = some payload) :
    payload.parentRunId = (Json.field "parent_run_id" fields).bind Json.asStr := by
  simp only [SchedulePayload.decode, Json.structFields, Option.bind_eq_bind, Option.bind_some,
    Option.bind_eq_some_iff] at h
  obtain ⟨_, _, _, _, _, _, parent, hp, _, _, _, _, _, _, _, _, _, _, h⟩ := h
  rw [← Option.some.inj h]
  exact withDefault_optional_asStr hp

-- An admitted request is what the decoder makes of its text; the text itself is kept beside it.
theorem decodeSchedulePayload_ok (h : decodeSchedulePayload raw runId = .ok payload) :
    raw.json = some payload.rawPayload ∧ ∃ decoded,
      SchedulePayload.decode payload.rawPayload = some decoded ∧
      payload.parentRunId = decoded.parentRunId := by
  simp only [decodeSchedulePayload] at h
  split at h
  case isTrue => cases h
  case isFalse =>
    cases hj : raw.json
    case none => simp [hj] at h
    case some parsed =>
      cases hd : SchedulePayload.decode parsed
      case none => simp [hj, hd] at h
      case some decoded =>
        simp only [hj, hd] at h
        generalize hw : withWorkflow _ = admitted at h
        split at h
        case isTrue => cases h
        case isFalse =>
          cases hv : validateScheduleResourceProfile admitted
          case error => simp [hv, bind, Except.bind] at h
          case ok =>
            simp only [hv] at h
            cases h
            subst hw
            rw [withWorkflow_rawPayload, withWorkflow_parentRunId]
            exact ⟨rfl, decoded, hd, rfl⟩

-- A request that came as an object is dispatched with its parent.
theorem carried_of_decode (h : decodeSchedulePayload raw runId = .ok payload)
    (hj : payload.rawPayload = .obj fields) : payload.Carried := by
  have ⟨_, decoded, hd, hp⟩ := decodeSchedulePayload_ok h
  rw [hj] at hd
  rw [SchedulePayload.Carried, hp, decode_parentRunId hd, hj]
  rfl

end Decode

section Resolve

variable {table : ResourceReservationTable} {payload resolved : SchedulePayload} {config : ResourceConfig}

-- A resolved request keeps its identity and asks for some GPUs and some memory.
structure Prepared (payload resolved : SchedulePayload) (config : ResourceConfig) : Prop where
  gpus_pos : 0 < config.gpusRequired
  memory_pos : 0 < config.memoryMb
  memoryMb : resolved.memoryMb = config.memoryMb
  rawPayload : resolved.rawPayload = payload.rawPayload
  parentRunId : resolved.parentRunId = payload.parentRunId

theorem uniformWorkerExecutorClass_error
    (h : uniformWorkerExecutorClass workflow seen resources = .error e) : e.kind = .other := by
  induction resources generalizing seen
  case nil => cases h
  case cons worker rest hi =>
    unfold uniformWorkerExecutorClass at h
    split at h
    case h_1 => cases h; rfl
    case h_2 =>
      split at h
      case isTrue => exact hi h
      case isFalse => cases h; rfl

-- A request is resolved, or else it is turned down for good.
def Resolution (payload : SchedulePayload) : Except Failure (ResourceConfig × SchedulePayload) → Prop
  | .error e => e.kind = .other
  | .ok (config, resolved) =>
    0 < config.gpusRequired ∧ 0 < config.memoryMb ∧ resolved.rawPayload = payload.rawPayload ∧
      resolved.parentRunId = payload.parentRunId

theorem resolveResourceConfig_spec (profiles : List Profile) (payload : SchedulePayload)
    (resources : List ResourceInfo) : Resolution payload (resolveResourceConfig profiles payload resources) := by
  unfold resolveResourceConfig
  cases payload.resourceProfile
  case some profile =>
    dsimp only
    cases profile.gpusRequired
    case none => exact rfl
    case some gpus =>
      cases profile.memoryMb
      case none => exact rfl
      case some memory =>
        dsimp only
        split
        case isTrue => exact rfl
        case isFalse hg =>
          split
          case isTrue => exact rfl
          case isFalse hm => exact ⟨Nat.pos_of_ne_zero hg, Nat.pos_of_ne_zero hm, rfl, rfl⟩
  case none =>
    cases lookupKnownProfileResources profiles payload
    case none => exact rfl
    case some profile =>
      dsimp only
      cases profile.peakMemoryMib
      case none => exact rfl
      case some memory =>
        dsimp only
        split
        case isTrue => exact rfl
        case isFalse hg =>
          split
          case isTrue => exact rfl
          case isFalse hm =>
            split
            case h_1 => exact ⟨Nat.pos_of_ne_zero hg, Nat.pos_of_ne_zero hm, rfl, rfl⟩
            case h_2 =>
              cases hu : uniformWorkerExecutorClass payload.workflow none resources
              case error => exact uniformWorkerExecutorClass_error hu
              case ok => exact ⟨Nat.pos_of_ne_zero hg, Nat.pos_of_ne_zero hm, rfl, rfl⟩

theorem prepare_ok (h : table.prepareResourceRequirements payload = .ok (config, resolved)) :
    Prepared payload resolved config := by
  have hs := resolveResourceConfig_spec table.knownProfiles payload table.resources
  cases hr : resolveResourceConfig table.knownProfiles payload table.resources
  case error => rw [ResourceReservationTable.prepareResourceRequirements, hr] at h; cases h
  case ok found =>
    rw [ResourceReservationTable.prepareResourceRequirements, hr] at h
    cases h
    rw [hr] at hs
    have ⟨hg, hm, hw, hp⟩ := hs
    exact ⟨hg, hm, rfl, hw, hp⟩

end Resolve

end Scheduler
