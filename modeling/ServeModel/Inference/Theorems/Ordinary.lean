import ServeModel.Inference.Process

-- Only a hook, or the loading of one, ends the process: the checks of the worker raise ordinary exceptions.
namespace Inference

open Python

-- A computation that does not end the process.
def Ordinary {α : Type} (x : M α) : Prop :=
  x ≠ .error .fatal

namespace Ordinary

variable (env : Env)

theorem pure : Ordinary (Pure.pure a : M α) := nofun

theorem error (h : e ≠ .fatal) : Ordinary (.error e : M α) := by
  simpa [Ordinary] using h

theorem bind (h : Ordinary x) (hf : ∀ a, Ordinary (f a)) : Ordinary (x >>= f) := by
  cases x
  case ok a => exact hf a
  case error e => simpa [Ordinary, Bind.bind, Except.bind] using h

theorem ite [Decidable p] (hx : Ordinary x) (hy : Ordinary y) : Ordinary (if p then x else y) := by
  split <;> assumption

theorem truth (v : Value) : Ordinary (truth v) := by
  rw [Inference.truth, raising]
  cases v.truth <;> simp [Except.mapError, Ordinary]

theorem str (v : Value) : Ordinary (env.str v) := by
  rw [Env.str.eq_def]
  split <;> simp [Ordinary]

theorem raiseIf (e? : Option String) : Ordinary (raiseIf e?) := by
  cases e?
  case none => exact pure
  case some e => exact error nofun

theorem orElse (v w : Value) : Ordinary (orElse v w) :=
  bind (truth v) fun _ => ite pure pure

theorem stripped (v : Value) (text : String) : Ordinary (env.stripped v text) :=
  bind (orElse _ _) fun _ => bind (str env _) fun _ => pure

theorem isSuccessStatus (v : Value) : Ordinary (isSuccessStatus env v) := by
  refine bind (stripped env _ _) fun a => ?_
  split <;> exact pure

theorem nextPluginStage (payload : Dict) : Ordinary (nextPluginStage payload) := by
  refine bind (truth _) fun a => ite ?_ pure
  split <;> exact pure

theorem validateFanoutHandoff (payload result : Dict) : Ordinary (validateFanoutHandoff env payload result) := by
  refine bind (isSuccessStatus env _) fun _ => ite (bind (truth _) fun _ => ite ?_ pure) pure
  exact bind (nextPluginStage _) fun _ => ite (error nofun) pure

theorem isOneOf (v : Value) (texts : List String) : Ordinary (isOneOf v texts) := by
  rw [Inference.isOneOf.eq_def]
  split
  case h_1 | h_2 => exact error nofun
  case h_3 => exact pure

theorem persistDecision (item : JobItem) : Ordinary (persistDecision env item) := by
  have hp : Ordinary (shouldPersistRunStatusAfterExecute env item.payload item.result) := by
    refine bind (isSuccessStatus env _) fun _ => ite pure (bind (nextPluginStage _) fun a => ?_)
    split
    case h_1 => exact pure
    case h_2 => exact bind (isOneOf _ _) fun _ => pure
  have hm : Ordinary (shouldMarkPublicationSkippedAfterExecuteFailure env item.payload item.result) :=
    bind (isSuccessStatus env _) fun _ => ite pure (ite pure (bind (nextPluginStage _) fun _ => pure))
  exact bind hp fun _ => ite (bind hm fun _ => pure) pure

theorem persistAll (items : List JobItem) : Ordinary (persistAll env items).2 := by
  induction items
  case nil => exact pure
  case cons item items hi =>
    have hd := persistDecision env item
    rw [Inference.persistAll]
    split
    case h_1 e he => exact error fun h => hd (h ▸ he)
    case h_2 | h_3 => exact hi

theorem firstTrue (vs : List Value) : Ordinary (firstTrue vs) := by
  fun_induction Inference.firstTrue
  case case1 => exact pure
  case case2 v => exact orElse _ _
  case case3 hi => exact bind (truth _) fun _ => ite pure hi

theorem resolveStorage (storage : Dict) (provider : String) (path : Value) :
    Ordinary (resolveStorage env storage provider path) := by
  rw [Inference.resolveStorage.eq_def]
  split
  case h_1 => exact bind (stripped env _ _) fun _ => bind (truth _) fun _ => ite pure pure
  case h_2 =>
    refine bind (stripped env _ _) fun _ => bind (stripped env _ _) fun _ => bind (truth _) fun _ => ?_
    exact bind (truth _) fun _ => ite pure pure
  case h_3 => exact pure

theorem outputPublicationFromEnv (workflowId runId : Value) :
    Ordinary (outputPublicationFromEnv env workflowId runId) := by
  refine bind (truth _) fun _ => bind (truth _) fun _ => ite pure ?_
  split
  case h_2 => exact pure
  case h_1 =>
    refine bind (truth _) fun _ => ite pure ?_
    split
    case h_2 => exact pure
    case h_1 =>
      refine bind (stripped env _ _) fun _ => bind (orElse _ _) fun _ => bind (str env _) fun _ => ?_
      refine bind (resolveStorage env _ _ _) fun a => ?_
      split <;> exact pure

theorem batchItemCompletionPayload (batchPayload itemPayload : Dict) :
    Ordinary (batchItemCompletionPayload env batchPayload itemPayload) := by
  refine bind (raiseIf _) fun _ => bind (firstTrue _) fun _ => bind (str env _) fun _ =>
    bind (ite pure ?_) fun _ => pure
  exact bind (firstTrue _) fun _ => bind (str env _) fun _ => bind (outputPublicationFromEnv env _ _) fun _ => pure

theorem jobItems (batchPayload : Dict) (entries : List Value) : Ordinary (jobItems env batchPayload entries) := by
  have hj (entry : Value) : Ordinary (jobItem env batchPayload entry) := by
    rw [jobItem.eq_def]
    split
    case h_2 => exact pure
    case h_1 =>
      refine bind (stripped env _ _) fun _ => bind (truth _) fun _ => ite pure ?_
      split
      case h_1 => exact bind (batchItemCompletionPayload env _ _) fun _ => pure
      case h_2 => exact pure
  induction entries
  case nil => exact pure
  case cons entry es hi => exact bind (hj entry) fun _ => bind hi fun _ => pure

theorem forM {xs : List α} (h : ∀ x, Ordinary (f x)) : Ordinary (xs.forM f) := by
  induction xs
  case nil => exact pure
  case cons x xs hi => exact bind (h x) fun _ => hi

theorem checkedItems (runId : String) (payload result : Dict) : Ordinary (checkedItems env runId payload result) := by
  refine bind (validateFanoutHandoff env _ _) fun _ => ?_
  split
  case h_1 => exact bind (jobItems env _ _) fun _ => bind (forM fun _ => validateFanoutHandoff env _ _) fun _ => pure
  case h_2 => exact pure

end Ordinary

end Inference
