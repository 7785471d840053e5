import VllmObserver.Exporter.Timeline

/-! # The Langfuse sink

`sinkCall` follows `LangfuseSink.__call__`: head sampling, the root, the
timeline of the first generation, the valid nodes, and one span for each of
them with the attributes set on it. The spans are sent as one batch.

Identifiers are hexadecimal digits, so that `int(..., 16)` does not fail on them
and they are kept as text. -/
namespace VllmObserver.Exporter
open VllmObserver.Lib VllmObserver.Core

/-- The value of an attribute. The text `json.dumps` writes for a value and the
text of an instant are named by what they are made of. -/
inductive Attribute where
  | value (v : Json)
  | texts (xs : List String)
  | dumps (v : Json)
  | isoTime (ns : ℤ)

/-- A span as it is handed to the batch. -/
structure Span where
  traceId : String
  id : String
  parentId : Option String
  name : String
  startNs : ℤ
  endNs : ℤ
  attributes : Dict String Attribute
  errorStatus : Option Json

structure SinkConfig where
  environment : String
  sampleRate : ℚ
  tpotThreshold : ℚ
  reader : Reader

def statusText : Status → String
  | .ok => "ok"
  | .cancelled => "cancelled"
  | .error => "error"

def typeText : NodeType → String
  | .span => "span"
  | .generation => "generation"

/-- A key without the suffix it ends with. -/
def withoutSuffix (suffix key : String) : Option String :=
  if suffix.toList <:+ key.toList then
    some (String.ofList (key.toList.take (key.toList.length - suffix.toList.length)))
  else none

/-- Durations are shown in milliseconds, under a key that says so. -/
def toMilliseconds (key : String) (value : Json) : String × Json :=
  match value with
  | .num x => match withoutSuffix "_seconds" key, withoutSuffix "_ns" key with
    | some base, _ => (base ++ "_ms", .float (x.toFlt.scale 1000))
    | none, some base => (base ++ "_ms", .float (x.toFlt.scale (1 / 1000000)))
    | none, none => (key, value)
  | value => (key, value)

def millisecondsMetadata (metadata : List (String × Json)) : Metadata :=
  Dict.ofList (metadata.map fun entry => toMilliseconds entry.1 entry.2)

def aggregateEntries (aggregate : Aggregate.Exported) : List (String × Json) := [
  ("count", .num aggregate.count),
  ("total_seconds", .float aggregate.totalSeconds),
  ("mean_seconds", .float aggregate.meanSeconds)]

/-- Why a normal request is kept, or that it is not; errors always are. -/
def sampled (config : SinkConfig) (draw : ℚ) (event : Event) : Option String :=
  if event.status = .ok then if config.sampleRate ≤ draw then none else some "normal"
  else some "error"

/-- `event["stages"]["http_total"]["total_seconds"]`, as `int(... * 1e9)` needs it. -/
def httpTotal (event : Event) : Except PyError ℚ :=
  match event.stages.get? "http_total" with
  | none => .error (.keyError "http_total")
  | some aggregate => match aggregate.totalSeconds with
    | .fin q => .ok q
    | .inf _ => .error (.overflowError "cannot convert float infinity to integer")
    | .nan => .error (.valueError "cannot convert float NaN to integer")

/-- `int(value)`. -/
def integerOf (reader : Reader) : Json → Except PyError ℤ
  | .num (.int n) => .ok n
  | .num (.float x) => intOf x
  | .bool b => .ok (if b then 1 else 0)
  | .str s => reader.int s
  | v => .error (.typeError ("int() argument must be a string or a real number, not '" ++
      v.typeName ++ "'"))

/-- The calibration errors of the observations that carry one. -/
def residuals (reader : Reader) : List Node → Except PyError (List ℤ)
  | [] => .ok []
  | node :: rest => match node.metadata.get? "calibration_error_ns" with
    | none | some .null => residuals reader rest
    | some value => do
      let n ← integerOf reader value
      let others ← residuals reader rest
      .ok (n :: others)

/-! ## The attributes of a span, in the order they are set -/

def metadataPrefix : String := "langfuse.observation.metadata."

def nodeStatus (event : Event) (node : Node) : Json :=
  (node.metadata.get? "status").getD (.str (statusText event.status))

/-- The labels of the replica, which only some events carry. -/
def labels (event : Event) : List (String × Json) :=
  [("service", event.service), ("model", event.model), ("instance_id", event.instanceId)].filterMap
    fun label => label.2.map fun value => (label.1, .str value)

def metadataAttributes (entries : List (String × Json)) : List (String × Attribute) :=
  entries.map fun e => (metadataPrefix ++ e.1, .value e.2)

/-- What is set on every span. The trace identifier comes last, so that custom
metadata cannot override it. -/
def commonAttributes (config : SinkConfig) (event : Event) (node : Node) :
    List (String × Attribute) :=
  [("langfuse.observation.type", .value (.str (typeText node.type))),
    ("langfuse.trace.name", .value (.str "serve-model-request")),
    ("langfuse.environment", .value (.str config.environment)),
    ("observer.status", .value (nodeStatus event node))] ++
  metadataAttributes (labels event) ++
  metadataAttributes (millisecondsMetadata node.metadata.entries).entries ++
  [(metadataPrefix ++ "traceId", .value (.str event.traceId))]

def modelName (event : Event) : String := event.model.getD "unknown"

def usageJson (node : Node) : Json := .obj (node.usage.entries.map fun e => (e.1, .int e.2))

/-- `usage.get(key)`. -/
def usageOf (node : Node) (key : String) : Json := ((node.usage.get? key).map Json.int).getD .null

def parameterNames : List String :=
  ["temperature", "top_p", "top_k", "max_tokens", "stream", "n", "stop"]

/-- The sampling parameters among the entries of the request. -/
def parameters (payload : Json) : List (String × Json) :=
  match payload with
  | .obj entries => parameterNames.filterMap fun key => (Json.find? key entries).map (key, ·)
  | _ => []

/-- The input of a generation: the request, or its number of tokens. -/
def generationInput (event : Event) (node : Node) : Json :=
  match event.requestPayload with
  | .null => .obj [("input_tokens", usageOf node "input")]
  | payload => payload

def generationAttributes (event : Event) (node : Node) : List (String × Attribute) :=
  [("langfuse.observation.model.name", .value (.str (modelName event))),
    ("gen_ai.request.model", .value (.str (modelName event)))] ++
  ((node.usage.get? "input").map fun n =>
    ("gen_ai.usage.prompt_tokens", Attribute.value (.int n))).toList ++
  ((node.usage.get? "output").map fun n =>
    ("gen_ai.usage.completion_tokens", Attribute.value (.int n))).toList ++
  [("langfuse.observation.usage_details", .dumps (usageJson node))] ++
  ((node.completionStartNs.filter (· ≠ 0)).map fun ns =>
    ("langfuse.observation.completion_start_time", Attribute.isoTime ns)).toList ++
  [("langfuse.observation.input", .dumps (generationInput event node)),
    ("langfuse.observation.output", .dumps (.obj [
      ("output_tokens", usageOf node "output"),
      ("content", event.responseText),
      ("status", nodeStatus event node)]))] ++
  (if (parameters event.requestPayload).isEmpty then []
    else [("langfuse.observation.model.parameters",
      .dumps (.obj (parameters event.requestPayload)))])

/-- What a slow request shows of its waiting and of the stages around it. -/
def slowDetails (event : Event) : Json :=
  let waiting := event.observations.find? fun node =>
    decide (node.name ∈ ["waiting_to_first_schedule", "queue"])
  .obj ((waiting.map fun node =>
      ("waiting", Json.obj (millisecondsMetadata node.metadata.entries).entries)).toList ++
    ["queue", "schedule_total", "execute_model", "prefill"].filterMap fun name =>
      (event.stages.get? name).map fun aggregate =>
        (name, .obj (millisecondsMetadata (aggregateEntries aggregate)).entries))

/-- The time for an output token, and what a slow one adds. -/
def tpotAttributes (config : SinkConfig) (event : Event) : List (String × Attribute) :=
  match event.stages.get? "decode" with
  | none => []
  | some aggregate =>
    if aggregate.count.isZero then []
    else
      let tpot := Number.div (.float aggregate.totalSeconds) aggregate.count
      ("observer.tpot_ms", .value (.float (tpot.scale 1000))) ::
        if Flt.lt (.fin config.tpotThreshold) tpot then
          [("observer.slow_tpot", .value (.bool true)),
            ("observer.tpot_threshold_ms",
              .value (.float ((Flt.fin config.tpotThreshold).scale 1000))),
            ("observer.slow_tpot_details", .dumps (slowDetails event))]
        else []

/-- What is set on the root only. -/
def rootAttributes (config : SinkConfig) (event : Event) (why : String) (residual : ℤ)
    (node : Node) : List (String × Attribute) :=
  ((event.userId.filter (· ≠ "")).map fun id =>
    ("langfuse.user.id", Attribute.value (.str id))).toList ++
  ((event.sessionId.filter (· ≠ "")).map fun id =>
    ("langfuse.session.id", Attribute.value (.str id))).toList ++
  [("langfuse.trace.tags", .texts
    ([event.service, event.model, event.instanceId].filterMap (·.filter (· ≠ "")) ++
      ["sampled=" ++ why]))] ++
  (if residual = 0 then [] else [("observer.clock_calibration_error_ms",
    .value (.float ((Number.int residual).toFlt.scale (1 / 1000000))))]) ++
  [("langfuse.observation.input", .dumps (event.requestPayload.orElse (.obj []))),
    ("langfuse.observation.output", .dumps (.obj [
      ("status", nodeStatus event node),
      ("engine_requests", .int event.engineRequests),
      ("content", event.responseText)]))] ++
  event.stages.entries.flatMap (fun stage =>
    (aggregateEntries stage.2).map fun entry =>
      let (key, value) := toMilliseconds entry.1 entry.2
      ("observer." ++ stage.1 ++ "." ++ key, .value value)) ++
  ((event.firstBodyNs.filter (· ≠ 0)).map fun ns =>
    ("observer.ttft_ms", Attribute.value
      (.float ((Number.int (ns - event.startedNs)).toFlt.scale (1 / 1000000))))).toList ++
  [("observer.timeline_partition", .value
    (.str "api_prepare + generate-response + response_transfer = total"))] ++
  tpotAttributes config event

/-! ## The call -/

/-- The span of a node. The root, the only node without a parent, is put under
the caller's span when there is one. -/
def spanOf (config : SinkConfig) (event : Event) (why : String) (residual rootEnd : ℤ)
    (node : Node) : Span where
  traceId := event.traceId
  id := node.id
  parentId := node.parentId.or (event.parentSpanId.filter (· ≠ ""))
  name := node.name
  startNs := node.startNs
  endNs := effectiveEnd rootEnd node
  attributes := Dict.ofList (commonAttributes config event node ++
    (if node.type = .generation then generationAttributes event node else []) ++
    if node.parentId = none then rootAttributes config event why residual node else [])
  errorStatus := match nodeStatus event node with
    | .str "ok" => none
    | status => some status

/-- The call of the sink. `none` is an event that was not sampled; `delivers` is
the answer of the OTLP exporter. Spans end, and reach the batch, last to first. -/
def sinkCall (config : SinkConfig) (draw : ℚ) (uuid : ℕ → String) (delivers : List Span → Bool)
    (event : Event) : Except PyError (Option (List Span)) :=
  match sampled config draw event with
  | none => .ok none
  | some why => do
    let total ← httpTotal event
    let root := rootNode event total
    let rootEnd := event.startedNs + nanos total
    let nodes ← timelineNodes uuid event root (firstGeneration event)
    let nodes := validNodes rootEnd nodes
    let errors ← residuals config.reader event.observations
    let residual := errors.max?.getD 0
    openSpans [none] nodes
    let completed := (nodes.map (spanOf config event why residual rootEnd)).reverse
    if delivers completed then .ok (some completed)
    else .error (.runtimeError "Langfuse OTLP export failed")

end VllmObserver.Exporter
