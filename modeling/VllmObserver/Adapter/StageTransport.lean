import VllmObserver.Stages.Transport
import VllmObserver.Stages.RecordInvariant
import VllmObserver.Adapter.FinalOutput
import VllmObserver.Adapter.Calibration
import VllmObserver.Adapter.Recorders
import VllmObserver.Adapter.Correlation

/-! # From the registry to the trace

What EngineCore measured of a request crosses to the API process in a header of
its final output, is kept with its statistics there and is decoded into its
trace. Nothing is lost on the way or goes to another request. -/
namespace VllmObserver.Adapter
open VllmObserver.Lib VllmObserver.Core VllmObserver.Stages VllmObserver.Exporter

/-- The fields of a record that the metadata of the generation shows. -/
def shown (record : Record) : List (String × Json) := [
  ("schedule_steps", .int record.scheduleSteps),
  ("prefill_chunks", .int record.prefillChunks),
  ("decode_steps", .int record.decodeSteps),
  ("contention_steps", .int record.contentionSteps),
  ("contention_seconds", .float (.fin record.contentionSeconds))]

/-- An aggregate that seconds and steps were added to. -/
def increased (a : Aggregate) (seconds : ℚ) (count : ℤ) : Aggregate where
  count := a.count.add (.int count)
  totalSeconds := a.totalSeconds.add (.fin seconds)

/-- The generation shows the record, besides what it showed before. -/
structure Shows (record : Record) (g₀ g : Node) : Prop extends Keeps g₀ g where
  usage : g.usage = g₀.usage
  metadata : ∀ key value, (key, value) ∈ shown record → g.metadata.get? key = some value

/-- The record was merged into the trace, and nothing else. -/
structure Merged (record : Record) (gen : ℕ) (before after : RequestTrace) : Prop where
  generation : ∃ g₀ g, before.observations[gen]? = some g₀ ∧ after.observations[gen]? = some g ∧
    Shows record g₀ g
  schedule : after.stages.get? "schedule_total" =
    some (increased ((before.stages.get? "schedule_total").getD {}) record.scheduleSeconds
      (max 1 record.scheduleSteps))
  execute : after.stages.get? "execute_model" =
    some (increased ((before.stages.get? "execute_model").getD {}) record.executeSeconds
      (max 1 record.executeSteps))
  otherSums : ∀ name, name ∉ engineSums → after.stages.get? name = before.stages.get? name
  others : ∀ i, i < before.observations.length → i ≠ gen →
    after.observations[i]? = before.observations[i]?
  rest : { after with observations := before.observations, stages := before.stages } = before

theorem shows_withMetadata (record : Record) (g : Node) :
    Shows record g (withMetadata (shown record) g) where
  toKeeps := (Keeps.refl g).withMetadata _
  usage := rfl
  metadata := by
    intro key value h
    have hnodup : ((shown record).map Prod.fst).Nodup := by
      simp [shown]
    rw [withMetadata, Dict.get?_update hnodup]
    simp only [shown, List.mem_cons, List.not_mem_nil, or_false, Prod.mk.injEq] at h
    rcases h with ⟨rfl, rfl⟩ | ⟨rfl, rfl⟩ | ⟨rfl, rfl⟩ | ⟨rfl, rfl⟩ | ⟨rfl, rfl⟩ <;> rfl

/-- The marks of missing times are no fields of the record. -/
theorem Shows.mark {record : Record} {g₀ g : Node} (h : Shows record g₀ g) {key : String}
    (hk : key ∈ missingMarks) (value : Json) : Shows record g₀ (withMetadata [(key, value)] g) where
  toKeeps := h.toKeeps.withMetadata _
  usage := h.usage
  metadata := by
    intro key' value' h'
    rw [withMetadata, Dict.get?_update_of_not_mem]
    · exact h.metadata key' value' h'
    · have hkeys : key' ∈ (shown record).map Prod.fst := List.mem_map_of_mem h'
      simp only [missingMarks, List.mem_cons, List.not_mem_nil, or_false] at hk
      simp only [List.map_cons, List.map_nil, List.mem_singleton]
      rintro rfl
      rcases hk with rfl | rfl <;> simp [shown] at hkeys

section Merge
variable {reader : Reader} {uuid : ℕ → String} {perf : ℕ → ℚ} {gen : ℕ} {raw : RawStats}
  {trace : RequestTrace} {g : Node} {record : Record} {text : String}

/-- Adding numbers that are not negative. -/
theorem Grew.addNumbers {keep new : Node → Prop} {stages : Dict String Aggregate}
    {stage : String} {seconds : ℚ} {steps : ℕ} (hs : 0 ≤ seconds) :
    Leaves (Grew trace gen keep new (· = stages))
      (Grew trace gen keep new (· = stages.set stage
        (increased ((stages.get? stage).getD {}) seconds (max 1 steps))))
      (Stages.addValues stage (.float (.fin seconds)) (.int steps)) := by
  have hsum : ((stages.get? stage).getD {}).add (.float (.fin seconds))
      (Number.max (.int 1) (.int steps)) =
      increased ((stages.get? stage).getD {}) seconds (max 1 steps) := by
    rw [Aggregate.add, Number.max_int, Number.max_zero hs]
    rfl
  rw [← hsum]
  exact Grew.addNumber stage (addedSeconds_float _) rfl

/-- **What `record_engine_stages` makes of a record.** -/
theorem recordEngineStages_merged (hg : trace.observations[gen]? = some g)
    (htext : raw.observerStages = some text) (hne : text ≠ "")
    (hloads : reader.loads text = .ok record.toJson) (hs : 0 ≤ record.scheduleSeconds)
    (he : 0 ≤ record.executeSeconds) :
    Merged record gen trace (recordEngineStages reader uuid perf gen raw trace).1 := by
  have hlt := (List.getElem?_eq_some_iff.mp hg).1
  let limit := max (trace.nowNs (perf 0)) (trace.nowNs (perf 1))
  let summed := trace.stages.set "schedule_total"
    (increased ((trace.stages.get? "schedule_total").getD {}) record.scheduleSeconds
      (max 1 record.scheduleSteps))
  have hset : Leaves (Grew trace gen (· = g) (Stamped reader raw g limit) (· = trace.stages))
      (Grew trace gen (Shows record g) (Stamped reader raw g limit) (· = trace.stages))
      (Stages.setMetadata gen (shown record)) := by
    refine Grew.setMetadata hlt ?_
    rintro g' rfl
    exact shows_withMetadata record g'
  have hmerge : Leaves (Grew trace gen (· = g) (Stamped reader raw g limit) (· = trace.stages))
      (Grew trace gen (Shows record g) (Stamped reader raw g limit)
        (· = summed.set "execute_model" (increased ((summed.get? "execute_model").getD {})
          record.executeSeconds (max 1 record.executeSteps))))
      (recordEngineStages reader uuid perf gen raw) := by
    unfold Stages.recordEngineStages
    simp only [htext, if_neg hne, hloads, Record.toJson]
    refine Leaves.andThen_of_ok hset (fun _ => rfl) ?_
    refine Leaves.andThen_of_ok (Grew.addNumbers hs)
      (addValues_ok _ (addedSeconds_float _) rfl) ?_
    refine Leaves.andThen_of_ok (Grew.addNumbers he)
      (addValues_ok _ (addedSeconds_float _) rfl) ?_
    exact Grew.recordCalibrated hlt (fun _ h => ⟨h.id, h.startNs⟩)
      (fun _ _ _ hk h => h.mark hk _) htext hloads (le_max_left _ _) (le_max_right _ _)
      fun _ _ h => h
  have h := hmerge trace (Grew.refl hg rfl rfl)
  obtain ⟨g', hg', hshows⟩ := h.generation
  refine ⟨⟨g, g', hg, hg', hshows⟩, ?_, ?_, ?_, h.others, h.rest⟩
  · rw [h.stages, Dict.get?_set, if_neg (by decide), Dict.get?_set, if_pos rfl]
  · rw [h.stages, Dict.get?_set, if_pos rfl, Dict.get?_set, if_neg (by decide)]
  · intro name hname
    simp only [engineSums, List.mem_cons, List.not_mem_nil, or_false, not_or] at hname
    rw [h.stages, Dict.get?_set, if_neg hname.2, Dict.get?_set, if_neg hname.1]

end Merge

/-! ## All the way -/

/-- `json.dumps(record)`. -/
def dumpRecord (dumps : Json → Except PyError String) (record : Record) :
    Except PyError String := dumps record.toJson

/-- The text of a value, which is not empty, decodes to the value. -/
def Decodes (dumps : Json → Except PyError String) (reader : Reader) (value : Json) : Prop :=
  ∃ text, dumps value = .ok text ∧ text ≠ "" ∧ reader.loads text = .ok value

/-- `observed_output` and then `record_engine_stages` process an output of the
request that `active` knows under an id. -/
def collectOutput (reader : Reader) (uuid : ℕ → String) (perf : ℕ → ℚ)
    (active : Dict String (ℕ × ℕ)) (requestId : String) (output : Output) (raw : RawStats)
    (traces : ℕ → RequestTrace) : ℕ → RequestTrace :=
  onEntry traces (active.get? requestId) fun gen trace =>
    (recordEngineStages reader uuid perf gen (observedOutput output raw) trace).1

/-- The record arrives in the trace of the request, and in no other one. -/
def Arrives (reader : Reader) (record : Record) (output : Output) : Prop :=
  ∀ (raw : RawStats) (active : Dict String (ℕ × ℕ)) (requestId : String) (t gen : ℕ) (g : Node)
    (traces : ℕ → RequestTrace) (uuid : ℕ → String) (perf : ℕ → ℚ),
    active.get? requestId = some (t, gen) → (traces t).observations[gen]? = some g →
    let traces' := collectOutput reader uuid perf active requestId output raw traces
    Merged record gen (traces t) (traces' t) ∧ ∀ t', t' ≠ t → traces' t' = traces t'

section Transport
variable {dumps : Json → Except PyError String} {reader : Reader} {writer : Writer}
  {reading : ClockReading} {registry : Registry} {output output' : Output} {id : String}
  {record : Record}

theorem payload?_record {dumps : Record → Except PyError String} {text : String}
    (hid : output.requestId = some id) (hne : id ≠ "") (hr : registry.get? id = some record)
    (hd : dumps record = .ok text) : payload? dumps registry output = some text := by
  rw [payload?, hid, Option.bind_some, if_neg hne, hr, Option.bind_some, hd]
  rfl

/-- The statistics get the payload, next to the clock. -/
theorem observerStages_sent (h : Sent (dumpRecord dumps) writer reading registry output output')
    (hf : output.finished = true) {text : String}
    (hp : payload? (dumpRecord dumps) registry output = some text) (raw : RawStats) :
    (observedOutput output' raw).observerStages = some text := by
  have hclock := h.clock hf
  have hstages := (h.stages hf).trans hp
  cases hh : output'.traceHeaders with
  | none =>
    rw [Output.header, hh] at hstages
    cases hstages
  | some headers =>
    have hget : ∀ key, output'.header key = headers.get? key := fun key => by
      rw [Output.header, hh, Option.getD_some]
    rw [observedOutput_ok (h.finished.trans hf) hh ((hget _).symm.trans hclock.mono)
      ((hget _).symm.trans hclock.unix) ((hget _).symm.trans hclock.error)]
    rw [hget] at hstages
    simp only [hstages, Option.some_or]

theorem sent_arrives (h : Sent (dumpRecord dumps) writer reading registry output output')
    (hf : output.finished = true) (hid : output.requestId = some id) (hne : id ≠ "")
    (hr : registry.get? id = some record) (hjson : Decodes dumps reader record.toJson)
    (hsound : record.Sound) : Arrives reader record output' := by
  obtain ⟨text, hd, htext, hloads⟩ := hjson
  intro raw active requestId t gen g traces uuid perf hactive hg
  have hraw := observerStages_sent h hf (payload?_record hid hne hr hd) raw
  simp only [collectOutput, hactive, onEntry]
  refine ⟨?_, fun t' ht => Function.update_of_ne ht _ _⟩
  rw [Function.update_self]
  exact recordEngineStages_merged hg hraw htext hloads hsound.seconds.1 hsound.seconds.2.1

end Transport

/-- **The stage data crosses the processes unharmed.** In every state of a run of
EngineCore each output leaves a step with exactly its own record, which is then
gone from the registry until the request is added again, and the record arrives
in the trace of the request. -/
theorem stages_transported (nesting : Nesting) (writer : Writer) (reader : Reader)
    (dumps : Json → Except PyError String) (reading : ClockReading) (ops : List EngineOp)
    (hc : Clocked ops) (batches : List (List Output))
    (hids : (finishedIds batches.flatten).Nodup) (hne : "" ∉ finishedIds batches.flatten)
    (hclean : ∀ outputs ∈ batches, ∀ output ∈ outputs, output.header stagesHeader = none)
    (hjson : ∀ id record,
      (run (EngineState.apply reader (dumpRecord dumps)) {} ops).registry.get? id = some record →
      Decodes dumps reader record.toJson) :
    let s := run (EngineState.apply reader (dumpRecord dumps)) {} ops
    let next := s.apply reader (dumpRecord dumps) (.step batches.flatten)
    let result := observedStep (dumpRecord dumps) writer reading nesting s.registry batches
    result.1 = next.registry ∧
    (∀ id, next.registry.get? id =
      if id ∈ finishedIds batches.flatten then none else s.registry.get? id) ∧
    (∀ id ∈ finishedIds batches.flatten, ∀ later, (∀ op ∈ later, ¬ op.Adds id) →
      (run (EngineState.apply reader (dumpRecord dumps)) next later).registry.get? id = none) ∧
    List.Forall₂ (List.Forall₂ fun output output' =>
      Sent (dumpRecord dumps) writer reading s.registry output output' ∧
      ∀ id record, output.finished = true → output.requestId = some id →
        s.registry.get? id = some record → Arrives reader record output') batches result.2 := by
  have hget : ∀ (registry : Registry) (id : String),
      (attachOutputs (dumpRecord dumps) registry batches.flatten).1.get? id =
        if id ∈ finishedIds batches.flatten then none else registry.get? id := by
    intro registry id
    rw [attachOutputs_get?]
    refine if_congr ((and_iff_left_of_imp fun h => ?_).trans mem_finishedIds.symm) rfl rfl
    rintro rfl
    exact hne (mem_finishedIds.mpr h)
  refine ⟨observedStep_registry nesting _ batches, hget _, ?_, ?_⟩
  · intro id hid later hlater
    rw [Dict.get?_eq_none_iff]
    refine not_mem_keys_run reader _ ?_ hlater
    rw [← Dict.get?_eq_none_iff]
    exact (hget _ id).trans (if_pos hid)
  · rw [observedStep_outputs nesting hids, List.forall₂_map_right_iff]
    refine List.forall₂_same.mpr fun outputs houtputs => ?_
    rw [List.forall₂_map_right_iff]
    refine List.forall₂_same.mpr fun output houtput => ?_
    have hsent : ∀ registry, Sent (dumpRecord dumps) writer reading registry output
        (sent (dumpRecord dumps) writer reading nesting registry output) := fun _ =>
      sent_spec nesting (hclean outputs houtputs output houtput)
    refine ⟨hsent _, fun id record hf hid hr => ?_⟩
    have hmem : id ∈ finishedIds batches.flatten := mem_finishedIds.mpr
      ⟨output, List.mem_flatten.mpr ⟨outputs, houtputs, houtput⟩, hf, hid⟩
    refine sent_arrives (hsent _) hf hid (fun he => hne (he ▸ hmem)) hr (hjson id record hr) ?_
    exact registry_sound reader _ ops hc ops [] (List.append_nil _).symm id record hr

/-! ## Two requests that finish in one step -/

/-- The texts differ in the times before the first step and in the contention. -/
def recordText (times contention : String) : String :=
  "\x7b" ++ times ++ ",\"schedule_steps\":1,\"prefill_chunks\":1,\"decode_steps\":0," ++
  "\"schedule_seconds\":1.0,\"execute_seconds\":3.0,\"execute_steps\":1," ++ contention ++
  ",\"prefill_done\":false,\"execute_intervals\":[[2.0,5.0]]\x7d"

def firstText : String := recordText "\"waiting_enter\":1.0,\"first_schedule\":2.0"
  "\"contention_steps\":1,\"contention_seconds\":1.0"

def secondText : String := recordText "\"waiting_enter\":2.0,\"first_schedule\":3.0"
  "\"contention_steps\":0,\"contention_seconds\":0.0"

theorem texts_differ : secondText ≠ firstText ∧ firstText ≠ "" ∧ secondText ≠ "" := by
  decide +kernel

def firstRecord : Record where
  waitingEnter := some 1
  firstSchedule := some 2
  scheduleSteps := 1
  prefillChunks := 1
  scheduleSeconds := 1
  executeSeconds := 3
  executeSteps := 1
  contentionSteps := 1
  contentionSeconds := 1
  executeIntervals := [(2, 5)]

def secondRecord : Record where
  waitingEnter := some 2
  firstSchedule := some 3
  scheduleSteps := 1
  prefillChunks := 1
  scheduleSeconds := 1
  executeSeconds := 3
  executeSteps := 1
  executeIntervals := [(2, 5)]

/-- Writes the two records. -/
def twoTexts : Json → Except PyError String
  | .obj fields => match field fields "contention_steps" .null with
    | .num (.int 1) => .ok firstText
    | _ => .ok secondText
  | value => .error (.typeError value.typeName)

def twoReader : Reader where
  float := fun text => .error (.valueError text)
  int := fun text => .error (.valueError text)
  loads := fun text =>
    if text = firstText then .ok firstRecord.toJson
    else if text = secondText then .ok secondRecord.toJson
    else .error (.valueError text)

def twoBatches : List (List Output) := [
  [⟨some "c", false, none⟩, ⟨some "a", true, some (Dict.ofList [("vendor", "keep")])⟩],
  [⟨some "b", true, none⟩]]

theorem twoRegistry : (run (EngineState.apply twoReader (dumpRecord twoTexts)) {}
    chunkedRun).registry.entries = [("a", firstRecord), ("b", secondRecord)] := by
  decide +kernel

theorem twoTexts_decode (id : String) (record : Record)
    (h : (run (EngineState.apply twoReader (dumpRecord twoTexts)) {} chunkedRun).registry.get? id =
      some record) : Decodes twoTexts twoReader record.toJson := by
  rw [Dict.get?, twoRegistry] at h
  rw [List.lookup_cons, List.lookup_cons, List.lookup_nil] at h
  split at h
  · obtain rfl := Option.some.inj h
    exact ⟨firstText, rfl, texts_differ.2.1, by simp only [twoReader, if_true]⟩
  · split at h
    · obtain rfl := Option.some.inj h
      exact ⟨secondText, rfl, texts_differ.2.2, by
        simp only [twoReader, if_neg texts_differ.1, if_true]⟩
    · cases h

/-- The trace of the first request. -/
def firstTrace : RequestTrace := (newTraces 0).beginGeneration "g" "a" 1

theorem stages_transported_two :
    let registry := (run (EngineState.apply twoReader (dumpRecord twoTexts)) {}
      chunkedRun).registry
    let result := observedStep (dumpRecord twoTexts) sampleWriter sampleClock .clockInside registry
      twoBatches
    ∃ output ∈ result.2.flatten, output.header "vendor" = some "keep" ∧
      Merged firstRecord 0 firstTrace (collectOutput twoReader (fun _ => "o") (fun _ => 9)
        (Dict.ofList [("a", (0, 0))]) "a" output noStats (fun _ => firstTrace) 0) := by
  have h := (stages_transported .clockInside sampleWriter twoReader twoTexts sampleClock chunkedRun
    chunkedRun_clocked twoBatches (by decide) (by decide) (by decide) twoTexts_decode).2.2.2
  obtain ⟨outputs, rest, hfirst, _, hresult⟩ := List.forall₂_cons_left_iff.mp h
  obtain ⟨_, others, _, hothers, rfl⟩ := List.forall₂_cons_left_iff.mp hfirst
  obtain ⟨output, tail, ⟨hsent, harrives⟩, _, rfl⟩ := List.forall₂_cons_left_iff.mp hothers
  refine ⟨output, ?_, (hsent.others "vendor" (by decide)).trans rfl, ?_⟩
  · rw [hresult]
    simp
  · have hget : (run (EngineState.apply twoReader (dumpRecord twoTexts)) {}
        chunkedRun).registry.get? "a" = some firstRecord := by
      rw [Dict.get?, twoRegistry]
      rfl
    exact (harrives "a" firstRecord rfl rfl hget noStats (Dict.ofList [("a", (0, 0))]) "a" 0 0 _
      (fun _ => firstTrace) _ _ rfl rfl).1

end VllmObserver.Adapter
