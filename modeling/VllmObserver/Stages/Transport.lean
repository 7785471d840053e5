import VllmObserver.Stages.EngineClock
import VllmObserver.Stages.Lifetime

/-! # Sending the stage data with the final outputs

Two wrappers around a step of EngineCore write into the headers of its final
outputs, whichever of them works first: one the reading of the clocks, the other
the records of the finished requests. Every output leaves with its own record
and with the headers it had. -/
namespace VllmObserver.Stages
open VllmObserver.Lib VllmObserver.Core

namespace Record

/-- A time that may not have been taken. -/
def timeJson : Option ℚ → Json
  | none => .null
  | some time => .float (.fin time)

/-- The record as it is serialized. The pairs of the intervals become lists. -/
def fields (r : Record) : List (String × Json) := [
  ("waiting_enter", timeJson r.waitingEnter),
  ("first_schedule", timeJson r.firstSchedule),
  ("schedule_steps", .int r.scheduleSteps),
  ("prefill_chunks", .int r.prefillChunks),
  ("decode_steps", .int r.decodeSteps),
  ("schedule_seconds", .float (.fin r.scheduleSeconds)),
  ("execute_seconds", .float (.fin r.executeSeconds)),
  ("execute_steps", .int r.executeSteps),
  ("contention_steps", .int r.contentionSteps),
  ("contention_seconds", .float (.fin r.contentionSeconds)),
  ("prefill_done", .bool r.prefillDone),
  ("execute_intervals", .arr (r.executeIntervals.map fun interval =>
    .arr [.float (.fin interval.1), .float (.fin interval.2)]))]

def toJson (r : Record) : Json := .obj r.fields

end Record

/-- `trace_headers[key]`, of which there may be none. -/
def Output.header (output : Output) (key : String) : Option String :=
  (output.traceHeaders.getD Dict.empty).get? key

/-- The headers that the observer writes. -/
def observerKeys : List String := clockKeys ++ [stagesHeader]

/-- The wrapper that was installed first is the inner one and works first. -/
inductive Nesting where
  | clockInside
  | stagesInside
deriving DecidableEq

section Step
variable (dumps : Record → Except PyError String) (writer : Writer) (reading : ClockReading)

def attachBatches (registry : Registry) : List (List Output) → Registry × List (List Output)
  | [] => (registry, [])
  | outputs :: rest =>
    let (registry, outputs) := attachOutputs dumps registry outputs
    let (registry, rest) := attachBatches registry rest
    (registry, outputs :: rest)

/-- What both wrappers do to the outputs of a step. -/
def observedStep (nesting : Nesting) (registry : Registry) (batches : List (List Output)) :
    Registry × List (List Output) :=
  match nesting with
  | .clockInside => attachBatches dumps registry (stampOutputs writer reading batches)
  | .stagesInside =>
    let (registry, batches) := attachBatches dumps registry batches
    (registry, stampOutputs writer reading batches)

/-! ## One output -/

/-- The payload that a finished output is sent with, if it has a record. -/
def payload? (registry : Registry) (output : Output) : Option String :=
  output.requestId.bind fun id =>
    if id = "" then none else (registry.get? id).bind fun record => (dumps record).toOption

/-- What the inner or the outer wrapper does to an output. -/
def attached (registry : Registry) (output : Output) : Output :=
  if output.finished then (attachStages dumps registry output).2 else output

def stamped (output : Output) : Output :=
  if output.finished then stampOutput writer reading output else output

def sent (nesting : Nesting) (registry : Registry) (output : Output) : Output :=
  match nesting with
  | .clockInside => attached dumps registry (stamped writer reading output)
  | .stagesInside => stamped writer reading (attached dumps registry output)

end Step

section Output
variable {dumps : Record → Except PyError String} {writer : Writer} {reading : ClockReading}
  {registry registry' : Registry} {output : Output}

theorem payload?_eq : payload? dumps registry output =
    (entryOf registry output).bind fun entry => (dumps entry.2).toOption := by
  unfold payload? entryOf
  cases output.requestId with
  | none => rfl
  | some id =>
    rw [Option.bind_some, Option.bind_some]
    split
    · rfl
    · rw [Option.bind_map]
      rfl

theorem attachStages_output : (attachStages dumps registry output).2 =
    match payload? dumps registry output with
    | none => output
    | some payload => { output with
        traceHeaders :=
          some ((output.traceHeaders.getD Dict.empty).set stagesHeader payload) } := by
  rw [attachStages_eq, payload?_eq]
  cases entryOf registry output with
  | none => rfl
  | some entry =>
    simp only [Option.bind_some]
    cases dumps entry.2 <;> rfl

theorem attachStages_registry {output' : Output} (h : output'.requestId = output.requestId) :
    (attachStages dumps registry output').1 = (attachStages dumps registry output).1 := by
  have he : entryOf registry output' = entryOf registry output := by
    rw [entryOf, entryOf, h]
  rw [attachStages_eq, attachStages_eq, he]
  cases entryOf registry output <;> rfl

theorem attached_requestId : (attached dumps registry output).requestId = output.requestId := by
  rw [attached, attachStages_output]
  split
  · split <;> rfl
  · rfl

theorem attached_finished : (attached dumps registry output).finished = output.finished := by
  rw [attached, attachStages_output]
  split
  · split <;> rfl
  · rfl

/-- What is sent with an output depends on its own entry only. -/
theorem attached_congr (h : ∀ id, output.finished = true → output.requestId = some id →
    registry.get? id = registry'.get? id) :
    attached dumps registry output = attached dumps registry' output := by
  unfold attached
  split
  · rename_i hf
    have hp : payload? dumps registry output = payload? dumps registry' output := by
      unfold payload?
      cases hid : output.requestId with
      | none => rfl
      | some id => simp only [Option.bind_some, h id hf hid]
    rw [attachStages_output, attachStages_output, hp]
  · rfl

theorem header_attached_other {key : String} (hk : key ≠ stagesHeader) :
    (attached dumps registry output).header key = output.header key := by
  rw [attached, attachStages_output]
  split
  · split
    · rfl
    · rw [Output.header, Option.getD_some, Dict.get?_set, if_neg hk]
      rfl
  · rfl

theorem header_attached (hf : output.finished = true) :
    (attached dumps registry output).header stagesHeader =
      (payload? dumps registry output).or (output.header stagesHeader) := by
  rw [attached, if_pos hf, attachStages_output]
  cases payload? dumps registry output with
  | none => rfl
  | some payload =>
    simp only
    rw [Output.header, Option.getD_some, Dict.get?_set, if_pos rfl, Option.some_or]

theorem stamped_requestId : (stamped writer reading output).requestId = output.requestId := by
  unfold stamped
  split <;> rfl

theorem stamped_finished : (stamped writer reading output).finished = output.finished := by
  unfold stamped
  split <;> rfl

theorem header_stamped_other {key : String} (hk : key ∉ clockKeys) :
    (stamped writer reading output).header key = output.header key := by
  unfold stamped
  split
  · exact stampOutput_other writer reading output hk
  · rfl

/-- The three headers of the clock. -/
structure HasClock (writer : Writer) (reading : ClockReading) (output : Output) : Prop where
  mono : output.header clockMono = some (writer.float reading.mono)
  unix : output.header clockUnix = some (writer.int reading.wall)
  error : output.header clockError = some (writer.int reading.error)

theorem hasClock_stamped (hf : output.finished = true) :
    HasClock writer reading (stamped writer reading output) := by
  obtain ⟨headers, hh, h1, h2, h3⟩ := stampOutput_clock writer reading output
  rw [stamped, if_pos hf]
  refine ⟨?_, ?_, ?_⟩
  all_goals rwa [Output.header, hh, Option.getD_some]

theorem HasClock.attached (h : HasClock writer reading output) :
    HasClock writer reading (attached dumps registry output) where
  mono := (header_attached_other (by decide)).trans h.mono
  unix := (header_attached_other (by decide)).trans h.unix
  error := (header_attached_other (by decide)).trans h.error

/-- How an output leaves a step. Of the observer's headers it had none. -/
structure Sent (dumps : Record → Except PyError String) (writer : Writer)
    (reading : ClockReading) (registry : Registry) (output output' : Output) : Prop where
  requestId : output'.requestId = output.requestId
  finished : output'.finished = output.finished
  unfinished : output.finished = false → output' = output
  others : ∀ key, key ∉ observerKeys → output'.header key = output.header key
  clock : output.finished = true → HasClock writer reading output'
  stages : output.finished = true → output'.header stagesHeader = payload? dumps registry output

theorem sent_spec (nesting : Nesting) (hclean : output.header stagesHeader = none) :
    Sent dumps writer reading registry output
      (sent dumps writer reading nesting registry output) := by
  have hkeys : ∀ {key}, key ∉ observerKeys → key ∉ clockKeys ∧ key ≠ stagesHeader := by
    intro key hk
    simp only [observerKeys, List.mem_append, List.mem_singleton, not_or] at hk
    exact hk
  have hstages : stagesHeader ∉ clockKeys := by decide
  cases nesting with
  | clockInside =>
    refine ⟨attached_requestId.trans stamped_requestId, attached_finished.trans stamped_finished,
      fun hf => ?_, fun key hk => ?_, fun hf => (hasClock_stamped hf).attached, fun hf => ?_⟩
    · simp [sent, attached, stamped, hf]
    · exact (header_attached_other (hkeys hk).2).trans (header_stamped_other (hkeys hk).1)
    · have hp : payload? dumps registry (stamped writer reading output) =
          payload? dumps registry output := by
        rw [payload?, stamped_requestId]
        rfl
      rw [sent, header_attached (stamped_finished.trans hf), hp, header_stamped_other hstages,
        hclean, Option.or_none]
  | stagesInside =>
    refine ⟨stamped_requestId.trans attached_requestId, stamped_finished.trans attached_finished,
      fun hf => ?_, fun key hk => ?_, fun hf => hasClock_stamped (attached_finished.trans hf),
      fun hf => ?_⟩
    · simp [sent, attached, stamped, hf]
    · exact (header_stamped_other (hkeys hk).1).trans (header_attached_other (hkeys hk).2)
    · rw [sent, header_stamped_other hstages, header_attached hf, hclean, Option.or_none]

end Output

/-! ## The batches of a step -/

section Batches
variable {dumps : Record → Except PyError String} {writer : Writer} {reading : ClockReading}

theorem finishedIds_append (xs ys : List Output) :
    finishedIds (xs ++ ys) = finishedIds xs ++ finishedIds ys := by
  simp [finishedIds]

theorem finishedIds_stamped : ∀ outputs : List Output,
    finishedIds (outputs.map (stamped writer reading)) = finishedIds outputs
  | [] => rfl
  | output :: rest => by
    have ih := finishedIds_stamped rest
    unfold finishedIds at ih ⊢
    rw [List.map_cons, List.filter_cons, List.filter_cons, stamped_finished]
    split
    · rw [List.filterMap_cons, List.filterMap_cons, stamped_requestId, ih]
    · exact ih

/-- Under distinct ids every output is sent with what the registry had at first. -/
theorem attachOutputs_map : ∀ {outputs : List Output} {registry : Registry},
    (finishedIds outputs).Nodup → (attachOutputs dumps registry outputs).2 =
      outputs.map (attached dumps registry)
  | [], _, _ => rfl
  | output :: rest, registry, h => by
    rw [← List.singleton_append, finishedIds_append] at h
    obtain ⟨_, hrest, hdisj⟩ := List.nodup_append.mp h
    simp only [attachOutputs, List.map_cons]
    rw [attachOutputs_map hrest]
    congr 1
    · unfold attached
      split <;> rfl
    · refine List.map_congr_left fun other hother => attached_congr fun id hf hid => ?_
      -- the first output bears another id
      have hne : output.finished = true → output.requestId ≠ some id := fun ho hi =>
        hdisj id (mem_finishedIds.mpr ⟨output, List.mem_singleton_self _, ho, hi⟩) id
          (mem_finishedIds.mpr ⟨other, hother, hf, hid⟩) rfl
      split
      · rw [attachStages_get?, if_neg fun h => hne ‹_› h.1]
      · rfl

theorem attachOutputs_append (xs ys : List Output) (registry : Registry) :
    attachOutputs dumps registry (xs ++ ys) =
      ((attachOutputs dumps (attachOutputs dumps registry xs).1 ys).1,
        (attachOutputs dumps registry xs).2 ++
          (attachOutputs dumps (attachOutputs dumps registry xs).1 ys).2) := by
  induction xs generalizing registry with
  | nil => rfl
  | cons output rest ih => simp only [List.cons_append, attachOutputs, ih]

/-- The batches are one list of outputs to the registry. -/
theorem attachBatches_registry : ∀ (batches : List (List Output)) (registry : Registry),
    (attachBatches dumps registry batches).1 = (attachOutputs dumps registry batches.flatten).1
  | [], _ => rfl
  | outputs :: rest, registry => by
    rw [List.flatten_cons, attachOutputs_append]
    exact attachBatches_registry rest _

theorem attachBatches_map : ∀ {batches : List (List Output)} {registry : Registry},
    (finishedIds batches.flatten).Nodup → (attachBatches dumps registry batches).2 =
      batches.map fun outputs => outputs.map (attached dumps registry)
  | [], _, _ => rfl
  | outputs :: rest, registry, h => by
    rw [List.flatten_cons, finishedIds_append] at h
    obtain ⟨houtputs, hrest, hdisj⟩ := List.nodup_append.mp h
    simp only [attachBatches, List.map_cons]
    rw [attachOutputs_map houtputs, attachBatches_map hrest]
    congr 1
    refine List.map_congr_left fun others hothers => List.map_congr_left fun other hother =>
      attached_congr fun id hf hid => ?_
    rw [attachOutputs_get?, if_neg]
    rintro ⟨hmem, _⟩
    exact hdisj id (mem_finishedIds.mpr hmem) id
      (mem_finishedIds.mpr ⟨other, List.mem_flatten.mpr ⟨others, hothers, hother⟩, hf, hid⟩) rfl

theorem stampOutputs_map (batches : List (List Output)) : stampOutputs writer reading batches =
    batches.map fun outputs => outputs.map (stamped writer reading) := rfl

/-- The registry does not see the headers. -/
theorem attachOutputs_stamped : ∀ (outputs : List Output) (registry : Registry),
    (attachOutputs dumps registry (outputs.map (stamped writer reading))).1 =
      (attachOutputs dumps registry outputs).1
  | [], _ => rfl
  | output :: rest, registry => by
    simp only [List.map_cons, attachOutputs, stamped_finished]
    rw [attachOutputs_stamped rest]
    split
    · rw [attachStages_registry stamped_requestId]
    · rfl

/-- **The outputs of a step.** -/
theorem observedStep_outputs (nesting : Nesting) {registry : Registry}
    {batches : List (List Output)} (h : (finishedIds batches.flatten).Nodup) :
    (observedStep dumps writer reading nesting registry batches).2 =
      batches.map fun outputs => outputs.map (sent dumps writer reading nesting registry) := by
  cases nesting with
  | clockInside =>
    have hstamped : (finishedIds (stampOutputs writer reading batches).flatten).Nodup := by
      rwa [stampOutputs_map, ← List.map_flatten, finishedIds_stamped]
    rw [observedStep, attachBatches_map hstamped, stampOutputs_map, List.map_map]
    exact List.map_congr_left fun outputs _ => List.map_map
  | stagesInside =>
    change stampOutputs writer reading (attachBatches dumps registry batches).2 = _
    rw [attachBatches_map h, stampOutputs_map, List.map_map]
    exact List.map_congr_left fun outputs _ => List.map_map

/-- **The registry after a step**, as the steps of a run have it. -/
theorem observedStep_registry (nesting : Nesting) (registry : Registry)
    (batches : List (List Output)) :
    (observedStep dumps writer reading nesting registry batches).1 =
      (attachOutputs dumps registry batches.flatten).1 := by
  cases nesting with
  | clockInside =>
    rw [observedStep, attachBatches_registry, stampOutputs_map, ← List.map_flatten,
      attachOutputs_stamped]
  | stagesInside => exact attachBatches_registry batches registry

end Batches

/-! ## Attached at most once -/

/-- The request is not added again. -/
def EngineOp.Adds (id : String) : EngineOp → Prop
  | .addRequest request _ => request.requestId = id
  | _ => False

theorem not_mem_keys_apply (reader : Reader) (dumps : Record → Except PyError String)
    {id : String} {s : EngineState} {op : EngineOp} (hs : id ∉ s.registry.keys)
    (hop : ¬ op.Adds id) : id ∉ (s.apply reader dumps op).registry.keys := by
  cases op with
  | addRequest request now =>
    intro h
    rcases Registry.mem_keys_observedAddRequest.mp h with rfl | h
    · exact hop rfl
    · exact hs h
  | schedule guard tokens now duration =>
    intro h
    rw [EngineState.apply, Registry.keys_observedSchedule] at h
    exact hs h
  | abort requestIds => exact hs
  | execute requestIds started ended =>
    intro h
    rw [EngineState.apply, Registry.keys_recordExecute] at h
    exact hs h
  | step outputs => exact fun h => hs (attachOutputs_keys.mp h).1

/-- A record that was sent is not there to be sent again. -/
theorem not_mem_keys_run (reader : Reader) (dumps : Record → Except PyError String)
    {id : String} {s : EngineState} {ops : List EngineOp} (hs : id ∉ s.registry.keys)
    (hops : ∀ op ∈ ops, ¬ op.Adds id) :
    id ∉ (run (EngineState.apply reader dumps) s ops).registry.keys :=
  run_invariant (EngineState.apply reader dumps) (I := fun s => id ∉ s.registry.keys)
    (fun _ _ hs hop => not_mem_keys_apply reader dumps hs hop) (RunMeets.of_forall _ s hops) hs

end VllmObserver.Stages
