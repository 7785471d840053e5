import VllmObserver.Stages.Registry
import VllmObserver.Stages.Deadline
import VllmObserver.Lib.Runs
import Mathlib.Data.List.Perm.Subperm

/-! # The lifetime of registry entries

A run of EngineCore adds requests, schedules them behind the deadline guard,
aborts them and returns outputs. Only a finished output takes an entry out of
the registry, so the entries are those of live requests in every run that ends
no registered request in another way. -/
namespace VllmObserver.Stages
open VllmObserver.Lib VllmObserver.Core

/-- The state of EngineCore, and the requests that were added and have neither
been reported finished nor been aborted or dropped. -/
structure EngineState where
  registry : Registry := Dict.empty
  requests : Requests := Dict.empty
  droppedTotal : ℕ := 0
  live : List String := []

inductive EngineOp where
  | addRequest (request : Request) (now : ℚ)
  | schedule (guard : Guard) (numScheduledTokens : Dict String ℤ) (now duration : ℚ)
  | abort (requestIds : List String)
  | execute (requestIds : List String) (started ended : ℚ)
  | step (outputs : List Output)

/-- The ids that the outputs report finished. -/
def finishedIds (outputs : List Output) : List String :=
  (outputs.filter (·.finished)).filterMap Output.requestId

theorem mem_finishedIds {outputs : List Output} {id : String} : id ∈ finishedIds outputs ↔
    ∃ output ∈ outputs, output.finished = true ∧ output.requestId = some id := by
  simp [finishedIds, and_assoc]

section Run
variable (reader : Reader) (dumps : Record → Except PyError String)

def EngineState.apply (s : EngineState) : EngineOp → EngineState
  | .addRequest request now =>
    { s with
      requests := s.requests.set request.requestId request
      registry := s.registry.observedAddRequest request.requestId now
      live := s.live.insert request.requestId }
  | .schedule guard numScheduledTokens now duration =>
    let dropped := dropExpired reader guard s.requests
    { registry := s.registry.observedSchedule numScheduledTokens now duration
      requests := s.requests.finish dropped
      droppedTotal := s.droppedTotal + dropped.length
      live := s.live.filter fun requestId => decide (requestId ∉ dropped) }
  | .abort requestIds =>
    { s with
      requests := s.requests.finish requestIds
      live := s.live.filter fun requestId => decide (requestId ∉ requestIds) }
  | .execute requestIds started ended =>
    { s with registry := s.registry.recordExecute requestIds started ended }
  | .step outputs =>
    { s with
      registry := (attachOutputs dumps s.registry outputs).1
      requests := s.requests.finish (finishedIds outputs)
      live := s.live.filter fun requestId => decide (requestId ∉ finishedIds outputs) }

/-- Every entry belongs to a live request. -/
def Covered (s : EngineState) : Prop := ∀ requestId ∈ s.registry.keys, requestId ∈ s.live

/-- The step ends no registered request but through a finished output, and that
under an id that is not empty. -/
def Sparing (s : EngineState) : EngineOp → Prop
  | .schedule guard _ _ _ =>
    ∀ requestId ∈ dropExpired reader guard s.requests, requestId ∉ s.registry.keys
  | .abort requestIds => ∀ requestId ∈ requestIds, requestId ∉ s.registry.keys
  | .step outputs => "" ∈ finishedIds outputs → "" ∉ s.registry.keys
  | _ => True

/-- One sparing step keeps the registry covered. -/
theorem Covered.step {s : EngineState} {op : EngineOp} (h : Covered s)
    (hs : Sparing reader s op) : Covered (s.apply reader dumps op) := by
  intro requestId hk
  cases op with
  | addRequest request now =>
    rcases Registry.mem_keys_observedAddRequest.mp hk with rfl | hk
    · exact List.mem_insert_self
    · exact List.mem_insert_of_mem (h _ hk)
  | schedule guard tokens now duration =>
    have hkeys : requestId ∈ s.registry.keys :=
      Registry.keys_observedSchedule s.registry tokens now duration ▸ hk
    exact List.mem_filter.mpr ⟨h _ hkeys, by simpa using fun hd => hs _ hd hkeys⟩
  | abort requestIds =>
    exact List.mem_filter.mpr ⟨h _ hk, by simpa using fun hd => hs _ hd hk⟩
  | execute requestIds started ended =>
    have hkeys : requestId ∈ s.registry.keys :=
      Registry.keys_recordExecute s.registry requestIds started ended ▸ hk
    exact h _ hkeys
  | step outputs =>
    obtain ⟨hkeys, hout⟩ := attachOutputs_keys.mp hk
    refine List.mem_filter.mpr ⟨h _ hkeys, ?_⟩
    simp only [decide_eq_true_eq]
    intro hf
    obtain ⟨output, hmem, hid⟩ := List.mem_filterMap.mp hf
    obtain ⟨hmem, hfin⟩ := List.mem_filter.mp hmem
    rcases hout output hmem hfin with hne | rfl
    · exact hne hid
    · exact hs hf hkeys

/-- The registry of a covered state is no larger than the number of live
requests. -/
theorem Covered.length_le {s : EngineState} (h : Covered s) :
    s.registry.keys.length ≤ s.live.length :=
  (List.subperm_of_subset (Dict.keys_nodup _) h).length_le

/-- No record of another request is left to accumulate contention. -/
theorem Covered.get?_eq_none {s : EngineState} (h : Covered s) {requestId : String}
    (hdead : requestId ∉ s.live) : s.registry.get? requestId = none :=
  Dict.get?_eq_none_iff.mpr fun hk => hdead (h requestId hk)

/-- **The registry does not outlive its requests** in a run whose steps are all
sparing: in every state of the run each entry belongs to a live request, so
there are no more entries than live requests and none of a dead one. -/
theorem registry_live (ops : List EngineOp)
    (h : RunMeets (EngineState.apply reader dumps) (Sparing reader) {} ops) :
    ∀ pre post, ops = pre ++ post →
      Covered (run (EngineState.apply reader dumps) {} pre) ∧
      (run (EngineState.apply reader dumps) {} pre).registry.keys.length ≤
        (run (EngineState.apply reader dumps) {} pre).live.length ∧
      ∀ requestId ∉ (run (EngineState.apply reader dumps) {} pre).live,
        (run (EngineState.apply reader dumps) {} pre).registry.get? requestId = none := by
  rintro pre post rfl
  have hc : Covered (run (EngineState.apply reader dumps) {} pre) :=
    run_invariant (EngineState.apply reader dumps) (I := Covered)
      (fun s op hi hs => Covered.step reader dumps hi hs) h.append.1
      (fun requestId hk => by cases hk)
  exact ⟨hc, hc.length_le, fun _ hdead => hc.get?_eq_none hdead⟩

end Run

/-- Reads the deadline of ten seconds. -/
def tenSeconds : Reader where
  float := fun text => if text = "10" then .ok (.fin 10) else .error (.valueError text)
  int := fun text => .error (.valueError text)
  loads := fun text => .error (.valueError text)

/-- A record is sent as its number of schedule steps. -/
def dumpSteps (record : Record) : Except PyError String := .ok (toString record.scheduleSteps)

def request (requestId : String) : Request where
  requestId := requestId
  arrivalTime := some 0
  isFinished := false

/-- A request that is added, scheduled and finished. -/
def servedRun : List EngineOp := [
  .addRequest (request "a") 1,
  .schedule { deadline := none, importable := true, finishes := true, now := 1 }
    (Dict.ofList [("a", 4)]) 2 1,
  .step [{ requestId := some "a", finished := true, traceHeaders := none }]]

/-- Before its last step the request is registered and live. -/
theorem registry_live_served :
    Covered (run (EngineState.apply tenSeconds dumpSteps) {} (servedRun.take 2)) ∧
    (run (EngineState.apply tenSeconds dumpSteps) {} (servedRun.take 2)).registry.keys.length ≤
      (run (EngineState.apply tenSeconds dumpSteps) {} (servedRun.take 2)).live.length ∧
    ∀ requestId ∉ (run (EngineState.apply tenSeconds dumpSteps) {} (servedRun.take 2)).live,
      (run (EngineState.apply tenSeconds dumpSteps) {} (servedRun.take 2)).registry.get?
        requestId = none := by
  have hnone : ∀ requests, dropExpired tenSeconds
      { deadline := none, importable := true, finishes := true, now := 1 } requests = [] := by
    intro requests
    have hoff : Flt.le (.fin 0) (.fin 0) = true := by decide +kernel
    simp [dropExpired, deadlineSeconds, tenSeconds, hoff]
  have hsparing : RunMeets (EngineState.apply tenSeconds dumpSteps) (Sparing tenSeconds) {}
      servedRun := by
    refine ⟨trivial, ?_, ?_, trivial⟩
    · intro requestId hd
      rw [hnone] at hd
      cases hd
    · simp [Sparing, finishedIds]
  exact registry_live tenSeconds dumpSteps servedRun hsparing (servedRun.take 2)
    (servedRun.drop 2) (List.take_append_drop 2 servedRun).symm

/-- A request that is aborted, and one that the guard drops, stay registered. -/
theorem registry_outlives :
    (run (EngineState.apply tenSeconds dumpSteps) {}
      [.addRequest (request "a") 1, .abort ["a"], .step []]).registry.keys = ["a"] ∧
    (run (EngineState.apply tenSeconds dumpSteps) {}
      [.addRequest (request "a") 1, .abort ["a"], .step []]).live = [] ∧
    (run (EngineState.apply tenSeconds dumpSteps) {} [.addRequest (request "a") 1,
      .schedule { deadline := some "10", importable := true, finishes := true, now := 100 }
        Dict.empty 2 1, .step []]).registry.keys = ["a"] ∧
    (run (EngineState.apply tenSeconds dumpSteps) {} [.addRequest (request "a") 1,
      .schedule { deadline := some "10", importable := true, finishes := true, now := 100 }
        Dict.empty 2 1, .step []]).live = [] := by
  decide +kernel

end VllmObserver.Stages
