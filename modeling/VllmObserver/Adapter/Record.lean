import VllmObserver.Stages.Collect

/-! # Recording a finished request

`record_timeline` turns the token timestamps of a finished request into the
queue, prefill and decode intervals of its generation. `observed_update` calls
it once for every finished request. -/
namespace VllmObserver.Adapter
open VllmObserver.Lib VllmObserver.Core VllmObserver.Stages

/-- The statistics of a finished request. -/
structure FinishedStat where
  numPromptTokens : Option ℤ
  numGenerationTokens : Option ℤ
  queuedTime : Number
  prefillTime : Number
  decodeTime : Number

/-- `generation["usage"][key] += value`, for the values that are there. -/
def countTokens (stat : FinishedStat) (g : Node) : Node :=
  let add (key : String) (value : Option ℤ) (usage : Dict String ℤ) : Dict String ℤ :=
    match value with
    | some n => usage.set key ((usage.get? key).getD 0 + n)
    | none => usage
  { g with
    usage := add "output" stat.numGenerationTokens (add "input" stat.numPromptTokens g.usage) }

/-- The number of the sequence within its generation. -/
def sequenceIndex (g : Node) : Json := (g.metadata.get? "sequence_count").getD (.int 0)

/-- `max(0, stat.num_generation_tokens - 1)`. -/
def decodeCount (stat : FinishedStat) : Except PyError ℤ :=
  match stat.numGenerationTokens with
  | some n => .ok (max 0 (n - 1))
  | none => .error (.typeError "unsupported operand type(s) for -: 'NoneType' and 'int'")

theorem decodeCount_some {stat : FinishedStat} {tokens : ℤ}
    (h : stat.numGenerationTokens = some tokens) :
    decodeCount stat = .ok (max 0 (tokens - 1)) := by rw [decodeCount, h]

/-- With a number of tokens the count is there. -/
theorem exists_decodeCount {stat : FinishedStat} (h : stat.numGenerationTokens ≠ none) :
    ∃ count, decodeCount stat = .ok count := by
  obtain ⟨tokens, htokens⟩ := Option.ne_none_iff_exists'.mp h
  exact ⟨_, decodeCount_some htokens⟩

/-- The four token timestamps. -/
def edges (raw : RawStats) : List Flt :=
  [raw.queuedTs, raw.scheduledTs, raw.firstTokenTs, raw.lastTokenTs]

/-- The queued, scheduled, first-token and last-token instants. -/
structure Stamps where
  queued : ℤ
  scheduled : ℤ
  firstToken : ℤ
  lastToken : ℤ
deriving DecidableEq

def stampsOf (wall : ℤ) (mono : Flt) (raw : RawStats) : Except PyError Stamps := do
  let q ← calibrated wall mono raw.queuedTs
  let s ← calibrated wall mono raw.scheduledTs
  let f ← calibrated wall mono raw.firstTokenTs
  let l ← calibrated wall mono raw.lastTokenTs
  .ok { queued := q, scheduled := s, firstToken := f, lastToken := l }

/-- The stamps, as far as floats reach. -/
def stampsWithin (wall : ℤ) (mono : Flt) (raw : RawStats) : Except PyError Stamps := do
  let q ← instant wall mono raw.queuedTs
  let s ← instant wall mono raw.scheduledTs
  let f ← instant wall mono raw.firstTokenTs
  let l ← instant wall mono raw.lastTokenTs
  .ok { queued := q, scheduled := s, firstToken := f, lastToken := l }

/-- Floats reach from the clock to every edge. -/
def InReach (mono : Flt) (raw : RawStats) : Prop := ∀ edge ∈ edges raw, inReach mono edge = true

instance (mono : Flt) (raw : RawStats) : Decidable (InReach mono raw) :=
  inferInstanceAs (Decidable (∀ edge ∈ edges raw, inReach mono edge = true))

theorem stampsWithin_ok_iff {wall : ℤ} {mono : Flt} {raw : RawStats} {stamps : Stamps} :
    stampsWithin wall mono raw = .ok stamps ↔
      InReach mono raw ∧ stampsOf wall mono raw = .ok stamps := by
  simp only [stampsWithin, stampsOf, bind_eq_ok, instant_ok_iff, InReach, edges, List.mem_cons,
    List.not_mem_nil, or_false, forall_eq_or_imp, forall_eq]
  constructor
  · rintro ⟨q, ⟨hq, cq⟩, s, ⟨hs, cs⟩, f, ⟨hf, cf⟩, l, ⟨hl, cl⟩, h⟩
    exact ⟨⟨hq, hs, hf, hl⟩, q, cq, s, cs, f, cf, l, cl, h⟩
  · rintro ⟨⟨hq, hs, hf, hl⟩, q, cq, s, cs, f, cf, l, cl, h⟩
    exact ⟨q, ⟨hq, cq⟩, s, ⟨hs, cs⟩, f, ⟨hf, cf⟩, l, ⟨hl, cl⟩, h⟩

def Stamps.sorted (stamps : Stamps) : Prop :=
  stamps.queued ≤ stamps.scheduled ∧ stamps.scheduled ≤ stamps.firstToken ∧
    stamps.firstToken ≤ stamps.lastToken

instance (stamps : Stamps) : Decidable stamps.sorted := inferInstanceAs (Decidable (_ ∧ _ ∧ _))

/-- `duration / repetitions if repetitions else 0`. -/
def meanOf (duration : ℚ) (repetitions : ℤ) : Json :=
  if repetitions = 0 then .int 0 else .float (.fin (duration / repetitions))

/-- The metadata of a recorded stage. -/
def stageMetadata (error : ℤ) (sequence : Json) (repetitions startNs endNs : ℤ) : Metadata :=
  let duration : ℚ := ((endNs - startNs : ℤ) : ℚ) / 1000000000
  Dict.ofList [
    ("timing_source", .str "engine_monotonic_calibrated_to_wall"),
    ("calibration_error_ns", .int error),
    ("module", .str "vllm.v1.engine.output_processor"),
    ("sequence_index", sequence),
    ("count", .int repetitions),
    ("total_seconds", .float (.fin duration)),
    ("mean_seconds", meanOf duration repetitions)]

section Recorders
variable (reader : Reader) (uuid : ℕ → String) (perf : ℕ → ℚ) (gen : ℕ)

/-- One of the three stages. A float holds the divisor of the mean, or the division
raises. -/
def recordStage (clock : Dict String String) (sequence : Json) (i : ℕ) (name : String)
    (repetitions startNs endNs : ℤ) : Recording :=
  .withValue (lookup clock clockError >>= reader.int) fun error =>
  .withValue (floatOfNumber (.int repetitions)) fun _ =>
  .interval (uuid i) gen name startNs endNs
    (stageMetadata error sequence repetitions startNs endNs)

/-- `generation.setdefault("completion_start_ns", instant)`. -/
def completedBy (instant : ℤ) (g : Node) : Node :=
  { g with completionStartNs := g.completionStartNs.or (some instant) }

def recordStages (clock : Dict String String) (sequence : Json) (stat : FinishedStat)
    (stamps : Stamps) : Recording :=
  (Recording.onGeneration gen (completedBy stamps.firstToken)).andThen <|
  .withValue (decodeCount stat) fun count =>
  (recordStage reader uuid gen clock sequence 0 "queue" 1
    stamps.queued stamps.scheduled).andThen <|
  (recordStage reader uuid gen clock sequence 1 "prefill" 1
    stamps.scheduled stamps.firstToken).andThen <|
  recordStage reader uuid gen clock sequence 2 "decode" count stamps.firstToken stamps.lastToken

def recordTimeline (stat : FinishedStat) (raw : RawStats) : Recording :=
  (Recording.onGeneration gen (countTokens stat)).andThen fun trace =>
  match trace.observations[gen]? with
  | none => (trace, .ok ())
  | some generation =>
    let sequence := sequenceIndex generation
    (Recording.withValue sequence.number fun n =>
      (setMetadata gen [("sequence_count", .num (n.add (.int 1)))]).andThen <|
      match raw.clock? with
      | none => setMetadata gen [("timeline_unavailable", .str "missing_engine_clock")]
      | some clock =>
        .withValue (lookup clock clockMono >>= reader.float) fun mono =>
        .withValue (lookup clock clockUnix >>= reader.int) fun wall =>
        if (edges raw).all (fun value => value.isFinite && (Flt.fin 0).lt value) then
          .withValue (stampsWithin wall mono raw) fun stamps =>
          if stamps.sorted then
            .ifWithin gen (perf 0) stamps.queued stamps.lastToken
              (recordStages reader uuid gen clock sequence stat stamps)
              (setMetadata gen [("timeline_unavailable", .str "clock_skew_or_invalid_order")])
          else setMetadata gen [("timeline_unavailable", .str "clock_skew_or_invalid_order")]
        else setMetadata gen [("timeline_unavailable", .str "incomplete_engine_timestamps")])
      trace

/-- What `observed_update` does for a request that belongs to a generation. An
exception of the observer is logged, with the trace as it was left. -/
def observedUpdate (stat : FinishedStat) (raw : RawStats) (trace : RequestTrace) : RequestTrace :=
  let trace := { trace with engineRequests := trace.engineRequests + 1 }
  let trace := trace.add "queue" stat.queuedTime
  let trace := trace.add "prefill" stat.prefillTime
  ((Recording.withValue (decodeCount stat) fun count =>
    Recording.andThen (fun trace => (trace.add "decode" stat.decodeTime (.int count), .ok ())) <|
    (recordTimeline reader uuid perf gen stat raw).andThen <|
    recordEngineStages reader (fun i => uuid (i + 3)) (fun i => perf (i + 1)) gen raw) trace).1

end Recorders

/-- The end of a generation: the client's stream was closed. -/
def closeGeneration (gen : ℕ) (perf : ℚ) (trace : RequestTrace) : RequestTrace :=
  { trace with observations :=
      trace.observations.modify gen fun g => { g with endNs := some (trace.nowNs perf) } }

end VllmObserver.Adapter
