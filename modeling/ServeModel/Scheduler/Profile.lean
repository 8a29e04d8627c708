import ServeModel.Scheduler.Payload

namespace Scheduler

-- A row of the known profiles, with the fields that matching and reservation read.
structure Profile where
  workflow : String
  model : Option String := none
  prognosticModel : Option String := none
  diagnosticModel : Option String := none
  profileType : Option String := none
  gpusUsed : Nat
  peakMemoryUsed : String
  deriving DecidableEq

def parseMib (raw : String) : Option Nat :=
  match Text.words raw with
  | [] => none
  | value :: rest => do
    let value ← Text.parseUnsigned 64 value
    match rest with
    | [] => some value
    | unit :: _ => if Text.eqIgnoreAsciiCase unit "MiB" then some value else none

def Profile.peakMemoryMib (p : Profile) : Option Nat :=
  parseMib p.peakMemoryUsed

def payloadStringField (v : Json) (key : String) : Option String :=
  let direct := ((v.get key).bind Json.asStr).bind Text.nonBlank
  direct <|> (((v.get "parameters").bind (·.get key)).bind Json.asStr).bind Text.nonBlank

def profileModelField (p : Profile) : Option String :=
  p.model.bind Text.nonBlank

def profileDiagnosticField (p : Profile) : Option String :=
  p.diagnosticModel.bind Text.nonBlank

def profilePrognosticField (p : Profile) : Option String :=
  p.prognosticModel.bind Text.nonBlank

def isUnconstrainedProfile (p : Profile) : Bool :=
  (profileModelField p).isNone && (profileDiagnosticField p).isNone &&
    (profilePrognosticField p).isNone

-- The only element of a list. More than one match is ambiguous and counts as none.
def unique : List α → Option α
  | [a] => some a
  | _ => none

-- The rows of a workflow. A workflow `<name>-fanout` without rows of its own falls back on the ensemble
-- rows of `<name>`.
def workflowProfiles (profiles : List Profile) (workflow : String) : List Profile :=
  match profiles.filter fun p => Text.nonBlank p.workflow = some workflow with
  | [] =>
    match Text.stripEnd "-fanout" workflow with
    | none => []
    | some base =>
      profiles.filter fun p => Text.nonBlank p.workflow = some base && p.profileType = some "ensemble"
  | direct => direct

def matchProfileForPayload (profiles : List Profile) (payload : SchedulePayload) : Option Profile := do
  let workflow ← Text.nonBlank payload.workflow
  let v := payload.rawPayload
  let diagnostic := payloadStringField v "diagnostic_model" <|>
    payloadStringField v "diagnostic_model_type"
  let prognostic := payloadStringField v "prognostic_model" <|>
    payloadStringField v "prognostic_model_type"
  let model := payloadStringField v "model" <|> payloadStringField v "model_type"
  let candidates := workflowProfiles profiles workflow
  let defaults := candidates.filter isUnconstrainedProfile
  let matched ←
    match diagnostic, prognostic with
    | some d, some p => unique <| candidates.filter fun c =>
        profileDiagnosticField c = some d && profilePrognosticField c = some p
    | _, _ =>
      match model with
      | some m =>
        match candidates.filter fun c => profileModelField c = some m with
        | [] => unique defaults
        | specific => unique specific
      | none =>
        match defaults with
        | [] => unique candidates
        | _ => unique defaults
  if matched.peakMemoryMib.isSome then some matched else none

def lookupKnownProfileResources (profiles : List Profile) (payload : SchedulePayload) : Option Profile :=
  (Text.nonBlank payload.workflow).bind fun _ => matchProfileForPayload profiles payload

end Scheduler
