import VllmObserver.Core.Trace

/-! # Stage data carried by the final output

`record_engine_stages` merges what EngineCore measured of a request into its
trace. It runs in the API process, on the statistics of the finished request. -/
namespace VllmObserver.Stages
open VllmObserver.Lib VllmObserver.Core

def clockMono : String := "x-observer-clock-monotonic"
def clockUnix : String := "x-observer-clock-unix-ns"
def clockError : String := "x-observer-clock-error-ns"

/-- The raw statistics of a request, with what the final output attached. -/
structure RawStats where
  queuedTs : Flt
  scheduledTs : Flt
  firstTokenTs : Flt
  lastTokenTs : Flt
  observerClock : Option (Dict String String)
  observerStages : Option String

/-- `getattr(raw, "_observer_clock", None)`, if it is not empty. -/
def RawStats.clock? (raw : RawStats) : Option (Dict String String) :=
  raw.observerClock.filter fun clock => !clock.keys.isEmpty

/-- `clock[key]`. -/
def lookup (clock : Dict String String) (key : String) : Except PyError String :=
  match clock.get? key with
  | some value => .ok value
  | none => .error (.keyError key)

/-- A monotonic instant of the engine on the wall clock. -/
def calibrated (wall : ℤ) (mono edge : Flt) : Except PyError ℤ := do
  let offset ← intOf ((edge.sub mono).scale 1000000000)
  .ok (wall + offset)

/-- Floats reach from the clock to the instant, in nanoseconds. -/
def inReach (mono edge : Flt) : Bool := ((edge.sub mono).scale 1000000000).inRange

/-- `wall + int((edge - mono) * 1e9)`. Where floats do not reach, the product is an
infinity. -/
def instant (wall : ℤ) (mono edge : Flt) : Except PyError ℤ :=
  if inReach mono edge then calibrated wall mono edge
  else .error (.overflowError "cannot convert float infinity to integer")

theorem instant_ok_iff {wall s : ℤ} {mono edge : Flt} :
    instant wall mono edge = .ok s ↔
      inReach mono edge = true ∧ calibrated wall mono edge = .ok s := by
  rw [instant]
  split
  · rename_i hreach
    rw [and_iff_right hreach]
  · rename_i hreach
    exact iff_of_false (fun h => by cases h) fun h => hreach h.1

/-- A step of the recorders: the trace it leaves, also where it raises. -/
abbrev Recording := RequestTrace → RequestTrace × Except PyError Unit

namespace Recording

def andThen (first next : Recording) : Recording := fun trace =>
  match first trace with
  | (trace, .ok ()) => next trace
  | (trace, .error e) => (trace, .error e)

/-- Change the generation at a position of the observations. -/
def onGeneration (gen : ℕ) (f : Node → Node) : Recording := fun trace =>
  ({ trace with observations := trace.observations.modify gen f }, .ok ())

/-- Nothing more to do. -/
def done : Recording := fun trace => (trace, .ok ())

def raise (e : PyError) : Recording := fun trace => (trace, .error e)

/-- Go on with a value, or raise what computing it raised. -/
def withValue {α : Type} (value : Except PyError α) (next : α → Recording) : Recording :=
  match value with
  | .ok a => next a
  | .error e => raise e

/-- `generation["start_ns"] <= start_ns <= end_ns <= trace.now_ns()`. -/
def ifWithin (gen : ℕ) (perf : ℚ) (startNs endNs : ℤ) (inside outside : Recording) : Recording :=
  fun trace => match trace.observations[gen]? with
  | none => (trace, .ok ())
  | some generation =>
    if generation.startNs ≤ startNs ∧ startNs ≤ endNs ∧ endNs ≤ trace.nowNs perf then inside trace
    else outside trace

/-- `trace.interval(generation, ...)`. -/
def interval (uuid : String) (gen : ℕ) (name : String) (startNs endNs : ℤ)
    (metadata : Metadata) : Recording := fun trace =>
  match trace.observations[gen]? with
  | none => (trace, .ok ())
  | some generation => match trace.interval uuid generation name startNs endNs metadata with
    | .ok trace => (trace, .ok ())
    | .error e => (trace, .error e)

end Recording

/-- `metadata[key] = value` for each entry. -/
def withMetadata (entries : List (String × Json)) (g : Node) : Node :=
  { g with metadata := g.metadata.update entries }

def setMetadata (gen : ℕ) (entries : List (String × Json)) : Recording :=
  .onGeneration gen (withMetadata entries)

/-- A duration that can be added: `max(0.0, duration)` is where a float is needed. -/
def addedSeconds (value : Json) : Except PyError Number := do
  let duration ← value.number
  let _ ← floatOfNumber (Number.max (.float (.fin 0)) duration)
  .ok duration

theorem addedSeconds_float (x : Flt) : addedSeconds (.float x) = .ok (.float x) := by
  simp only [addedSeconds, Json.number, Json.float, Number.max, ok_bind]
  split <;> rfl

/-- `trace.add` with values of unknown type: the count is added first. -/
def addValues (stage : String) (duration count : Json) : Recording := fun trace =>
  match count.number with
  | .error e => (trace, .error e)
  | .ok count =>
    let count := Number.max (.int 1) count
    match addedSeconds duration with
    | .ok duration => (trace.add stage duration count, .ok ())
    | .error e =>
      let aggregate := (trace.stages.get? stage).getD {}
      ({ trace with stages :=
          trace.stages.set stage { aggregate with count := aggregate.count.add count } }, .error e)

/-- `stages.get(key, default)` of a decoded dictionary. -/
def field (stages : List (String × Json)) (key : String) (default : Json) : Json :=
  (Json.find? key stages).getD default

/-- `_finite(value)`. -/
def finite (reader : Reader) (value : Json) : Except PyError Bool :=
  match reader.floatOf value with
  | .ok x => .ok x.isFinite
  | .error (.typeError _) | .error (.valueError _) => .ok false
  | .error e => .error e

/-- `all(_finite(value) for value in values)`. -/
def allFinite (reader : Reader) : List Json → Except PyError Bool
  | [] => .ok true
  | value :: rest => do
    let first ← finite reader value
    if first then allFinite reader rest else .ok false

/-- The exceptions around the calibration clock. -/
def clockErrors : PyError → Bool
  | .keyError _ => true
  | .typeError _ => true
  | .valueError _ => true
  | _ => false

/-- The calibration: the monotonic and the wall reading, and their error. -/
def calibration (reader : Reader) (clock : Dict String String) : Except PyError (Flt × ℤ × ℤ) := do
  let mono ← lookup clock clockMono >>= reader.float
  let wall ← lookup clock clockUnix >>= reader.int
  let error ← lookup clock clockError >>= reader.int
  .ok (mono, wall, error)

/-- The bounds of a generation's first and last model step. -/
def executeBounds (reader : Reader) (clock : Dict String String) (intervals : Json) :
    Except PyError (ℤ × ℤ) := do
  let mono ← lookup clock clockMono >>= reader.float
  let wall ← lookup clock clockUnix >>= reader.int
  let first ← intervals.index 0 >>= (·.index 0) >>= Json.number
  let firstStart ← floatOfNumber first >>= instant wall mono
  let last ← intervals.index (-1) >>= (·.index 1) >>= Json.number
  let lastEnd ← floatOfNumber last >>= instant wall mono
  .ok (firstStart, lastEnd)

def waitingIntervalMetadata (error : ℤ) (stages : List (String × Json)) : Metadata := Dict.ofList [
  ("timing_source", .str "engine_monotonic_calibrated_to_wall"),
  ("calibration_error_ns", .int error),
  ("module", .str "vllm.v1.core.sched.scheduler"),
  ("prefill_chunks", field stages "prefill_chunks" (.int 0)),
  ("schedule_steps", field stages "schedule_steps" (.int 0)),
  ("contention_steps", field stages "contention_steps" (.int 0)),
  ("contention_seconds", field stages "contention_seconds" (.float (.fin 0)))]

def executeMetadata (error captured : ℤ) (stages : List (String × Json)) : Metadata := Dict.ofList [
  ("timing_source", .str "engine_monotonic_calibrated_to_wall"),
  ("calibration_error_ns", .int error),
  ("module", .str "vllm.v1.executor.uniproc_executor"),
  ("aggregate", .bool true),
  ("step_count", field stages "execute_steps" (.int 0)),
  ("captured_steps", .int captured)]

section Recorders
variable (reader : Reader) (uuid : ℕ → String) (perf : ℕ → ℚ) (gen : ℕ)

/-- The aggregate span of the model steps. -/
def recordExecute (clock : Dict String String) (error : ℤ) (stages : List (String × Json)) :
    Recording :=
  let intervals := (field stages "execute_intervals" .null).orElse (.arr [])
  if intervals.truthy then
    match executeBounds reader clock intervals, intervals.len with
    | .ok (firstStart, lastEnd), .ok captured =>
      .ifWithin gen (perf 1) firstStart lastEnd
        (.interval (uuid 1) gen "execute_model" firstStart lastEnd
          (executeMetadata error captured stages))
        .done
    | .error e, _ | _, .error e =>
      if clockErrors e then
        setMetadata gen [("execute_interval_unavailable", .str "invalid_calibration_clock")]
      else .raise e
  else .done

/-- The interval from the queue to the first schedule, and the steps behind it. -/
def recordWaiting (clock : Dict String String) (stages : List (String × Json)) : Recording :=
  match calibration reader clock with
  | .error e =>
    if clockErrors e then
      setMetadata gen [("waiting_unavailable", .str "invalid_calibration_clock")]
    else .raise e
  | .ok (mono, wall, error) =>
    .withValue (reader.floatOf (field stages "waiting_enter" .null) >>= instant wall mono)
      fun startNs =>
    .withValue (reader.floatOf (field stages "first_schedule" .null) >>= instant wall mono)
      fun endNs =>
    .ifWithin gen (perf 0) startNs endNs
      ((Recording.interval (uuid 0) gen "waiting_to_first_schedule" startNs endNs
        (waitingIntervalMetadata error stages)).andThen
        (recordExecute reader uuid perf gen clock error stages))
      (setMetadata gen [("waiting_unavailable", .str "clock_skew_or_invalid_order")])

def mergeStages (clock : Option (Dict String String)) (stages : List (String × Json)) :
    Recording :=
  (setMetadata gen [
    ("schedule_steps", field stages "schedule_steps" (.int 0)),
    ("prefill_chunks", field stages "prefill_chunks" (.int 0)),
    ("decode_steps", field stages "decode_steps" (.int 0)),
    ("contention_steps", field stages "contention_steps" (.int 0)),
    ("contention_seconds", field stages "contention_seconds" (.float (.fin 0)))]).andThen <|
  (addValues "schedule_total" (field stages "schedule_seconds" (.float (.fin 0)))
    (field stages "schedule_steps" (.int 0))).andThen <|
  (addValues "execute_model" (field stages "execute_seconds" (.float (.fin 0)))
    (field stages "execute_steps" (.int 0))).andThen <|
  match clock with
  | none => setMetadata gen [("waiting_unavailable", .str "missing_clock_or_timestamps")]
  | some clock =>
    .withValue (allFinite reader
      [field stages "waiting_enter" .null, field stages "first_schedule" .null]) fun finite =>
    if finite then recordWaiting reader uuid perf gen clock stages
    else setMetadata gen [("waiting_unavailable", .str "missing_clock_or_timestamps")]

def recordEngineStages (raw : RawStats) : Recording :=
  match raw.observerStages with
  | none => .done
  | some payload =>
    if payload = "" then .done
    else match reader.loads payload with
      | .ok (.obj stages) => mergeStages reader uuid perf gen raw.clock? stages
      | .ok value => .raise (.attributeError ("'" ++ value.typeName ++
          "' object has no attribute 'get'"))
      | .error (.typeError _) | .error (.valueError _) => .done -- logged
      | .error e => .raise e

end Recorders

end VllmObserver.Stages
