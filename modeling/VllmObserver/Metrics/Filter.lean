import VllmObserver.Core.Trace
import VllmObserver.Exporter.Sink
import VllmObserver.Exporter.Threshold
import VllmObserver.Metrics.Registry

/-! # The metrics filter

The metrics of a replica, and what the program does to them: every finished
request is counted by `process`, requests in flight come and go, the exporter
and the remote writer add metrics of their own. -/
namespace VllmObserver.Metrics
open VllmObserver.Lib VllmObserver.Core VllmObserver.Exporter

/-- `self.labels`. -/
structure Labels where
  service : String
  model : String
  instanceId : String

/-- What the environment says of a replica by default. -/
def replica : Labels := ⟨"vllm", "unknown", "host"⟩

def Labels.values (labels : Labels) : List String :=
  [labels.service, labels.model, labels.instanceId]

def names : List String := ["service", "model", "instance_id"]

def info : Family := ⟨"observer_instance_info", .gauge, names⟩

def inflight : Family := ⟨"observer_requests_inflight", .gauge, names⟩

def requests : Family := ⟨"observer_requests", .counter, names ++ ["status"]⟩

def duration : Family := ⟨"observer_request_duration_ms", .histogram, names⟩

def stageMs : Family := ⟨"observer_stage_ms", .counter, names ++ ["stage"]⟩

def stageCount : Family := ⟨"observer_stage_observations", .counter, names ++ ["stage"]⟩

def stageDuration : Family := ⟨"observer_stage_duration_ms", .histogram, ["stage", "model"]⟩

def tpot : Family := ⟨"observer_tpot_ms", .histogram, ["model"]⟩

def slowTpot : Family := ⟨"observer_slow_tpot_requests", .counter, ["model"]⟩

def langfuseUnavailable : Family := ⟨"observer_langfuse_enabled_but_unavailable", .gauge, []⟩

def filterMetrics : List Family := [info, inflight, requests, duration, stageMs, stageCount,
  stageDuration, tpot, slowTpot, langfuseUnavailable]

/-- `MetricsFilter()`. -/
def create (labels : Labels) : Registry where
  families := filterMetrics
  numbers := Dict.ofList [(info.labels labels.values, .fin 1), (inflight.labels labels.values, 0),
    (langfuseUnavailable.labels [], 0)]

/-! ## Processing an event -/

/-- The stages that `process` looks for. -/
def processedStages : List String := ["queue", "prefill", "decode", "http_total",
  "http_first_body", "render_input", "input_process", "submit_engine", "schedule_total",
  "execute_model"]

section Process
variable (client : Client) (reader : Reader) (settings : TpotSettings) (labels : Labels)
  (event : Event)

/-- `labels` makes the child before the total is looked up. -/
def processTotal : Update :=
  match event.stages.get? "http_total" with
  | none => (Update.labels duration labels.values).andThen (.raise (.keyError "http_total"))
  | some total => .observe duration labels.values (total.totalSeconds.scale 1000)

/-- The time for an output token, against the threshold. -/
def processDecode : Update :=
  match event.stages.get? "decode" with
  | none => .done
  | some decode =>
    if decode.count.isZero then .done
    else
      let seconds := Number.div (.float decode.totalSeconds) decode.count
      (Update.observe tpot [labels.model] (seconds.scale 1000)).andThen <|
      match tpotThresholdSeconds reader settings with
      | .error e => .raise e
      | .ok threshold =>
        if threshold.lt seconds then .inc client slowTpot [labels.model] (.fin 1) else .done

def processStage (name : String) : Update :=
  match event.stages.get? name with
  | none => .done
  | some value =>
    (Update.inc client stageMs (labels.values ++ [name]) (value.totalSeconds.scale 1000)).andThen <|
    (Update.inc client stageCount (labels.values ++ [name]) value.count.toFlt).andThen <|
    Update.observe stageDuration [name, labels.model] (value.meanSeconds.scale 1000)

/-- `process`, which hands the event on. -/
def process : Update :=
  (Update.inc client requests (labels.values ++ [statusText event.status]) (.fin 1)).andThen <|
  (processTotal labels event).andThen <|
  (processDecode client reader settings labels event).andThen <|
  .forEach processedStages (processStage client labels event)

end Process

/-! ## The other updates -/

def exportGauge (name : String) : Family := ⟨"observer_export_" ++ name, .gauge, []⟩

def exportGauges : List Family :=
  [exportGauge "queue_size", exportGauge "dropped_total", exportGauge "failed_total"]

def attachExporter : Update := .forEach exportGauges .register

def heartbeat : Family := ⟨"observer_heartbeat_timestamp_seconds", .gauge, []⟩

def alive : Family := ⟨"observer_instance_alive", .gauge, []⟩

def healthy : Family := ⟨"observer_model_healthy", .gauge, []⟩

def failures : Family := ⟨"observer_push_failures", .counter, []⟩

def writerMetrics : List Family := [heartbeat, alive, healthy, failures]

/-- `RemoteWriter(metrics, ...)`. -/
def createWriter : Update := .forEach writerMetrics .register

/-- Only who registered a metric can set it. -/
def ifRegistered (family : Family) (update : Update) : Update := fun r =>
  if family ∈ r.families then update r else (r, .ok ())

def setRegistered (family : Family) (value : Flt) : Update :=
  ifRegistered family (.set family [] value)

/-- What happens to the registry. The gauges of the exporter are functions, so
they change with its queue. -/
inductive MetricsOp where
  | process (settings : TpotSettings) (event : Event)
  | inflight (change : ℤ)
  | unavailable
  | attach
  | exporter (queueSize dropped failed : ℕ)
  | createWriter
  | heartbeat (seconds : Flt)
  | alive (value : ℤ)
  | healthy (value : ℤ)
  | pushFailed

section Step
variable (client : Client) (reader : Reader) (labels : Labels)

def MetricsOp.update : MetricsOp → Update
  | .process settings event => Metrics.process client reader settings labels event
  | .inflight change => fun r => Update.set Metrics.inflight labels.values
      (balance r.numbers (Metrics.inflight.labels labels.values) + .fin change) r
  | .unavailable => .set langfuseUnavailable [] (.fin 1)
  | .attach => attachExporter
  | .exporter queueSize dropped failed =>
      (setRegistered (exportGauge "queue_size") (.fin queueSize)).andThen <|
      (setRegistered (exportGauge "dropped_total") (.fin dropped)).andThen <|
      setRegistered (exportGauge "failed_total") (.fin failed)
  | .createWriter => Metrics.createWriter
  | .heartbeat seconds => setRegistered Metrics.heartbeat seconds
  | .alive value => setRegistered Metrics.alive (.fin value)
  | .healthy value => setRegistered Metrics.healthy (.fin value)
  | .pushFailed => ifRegistered failures (.inc client failures [] (.fin 1))

/-- An exception of an update reaches nobody who would stop. -/
def step (r : Registry) (op : MetricsOp) : Registry := (op.update client reader labels r).1

end Step

/-! ## What processing changes -/

section Changes
variable (labels : Labels) (threshold : Flt) (event : Event)

def decodeChanges : List Change :=
  match event.stages.get? "decode" with
  | none => []
  | some decode =>
    if decode.count.isZero then []
    else
      let seconds := Number.div (.float decode.totalSeconds) decode.count
      .observe (tpot.labels [labels.model]) (seconds.scale 1000) ::
        if threshold.lt seconds then [.inc (slowTpot.labels [labels.model]) (.fin 1)] else []

def stageChanges (name : String) : List Change :=
  match event.stages.get? name with
  | none => []
  | some value => [
    .inc (stageMs.labels (labels.values ++ [name])) (value.totalSeconds.scale 1000),
    .inc (stageCount.labels (labels.values ++ [name])) value.count.toFlt,
    .observe (stageDuration.labels [name, labels.model]) (value.meanSeconds.scale 1000)]

/-- All that an event with its total changes. -/
def changesOf (total : Aggregate.Exported) : List Change :=
  .inc (requests.labels (labels.values ++ [statusText event.status])) (.fin 1) ::
  .observe (duration.labels labels.values) (total.totalSeconds.scale 1000) ::
  decodeChanges labels threshold event ++ processedStages.flatMap (stageChanges labels event)

end Changes

/-- An event that counters accept: it has its total, and no count or sum is
negative. -/
structure Countable (event : Event) (total : Aggregate.Exported) : Prop where
  total : event.stages.get? "http_total" = some total
  nonneg : ∀ name value, event.stages.get? name = some value →
    value.count.toFlt.Nonneg ∧ value.totalSeconds.Nonneg

section Process
variable {client : Client} {reader : Reader} {settings : TpotSettings} {labels : Labels}
  {event : Event} {total : Aggregate.Exported} {threshold : Flt}

theorem one_nonneg : (Flt.fin 1).Nonneg := Flt.atLeast_fin.mpr zero_le_one

theorem performs_decode (hc : client.Documented)
    (ht : tpotThresholdSeconds reader settings = .ok threshold) :
    Performs (processDecode client reader settings labels event)
      (decodeChanges labels threshold event) := by
  unfold processDecode decodeChanges
  split
  · exact Performs.done
  · split
    · exact Performs.done
    · rename_i decode _ _
      have hslow : Performs
          (if threshold.lt (Number.div (.float decode.totalSeconds) decode.count) then
            .inc client slowTpot [labels.model] (.fin 1) else .done)
          (if threshold.lt (Number.div (.float decode.totalSeconds) decode.count) then
            [.inc (slowTpot.labels [labels.model]) (.fin 1)] else []) := by
        split
        · exact Performs.inc hc _ _ one_nonneg
        · exact Performs.done
      rw [ht]
      exact (Performs.observe _ _ _).andThen hslow

theorem performs_stage (hc : client.Documented) (h : Countable event total) (name : String) :
    Performs (processStage client labels event name) (stageChanges labels event name) := by
  unfold processStage stageChanges
  split
  · exact Performs.done
  · rename_i value hvalue
    obtain ⟨hcount, hseconds⟩ := h.nonneg name value hvalue
    exact (Performs.inc hc _ _ (hseconds.scale (by norm_num))).andThen
      ((Performs.inc hc _ _ hcount).andThen (Performs.observe _ _ _))

/-- **A countable event is processed to its end.** -/
theorem performs_process (hc : client.Documented) (h : Countable event total)
    (ht : tpotThresholdSeconds reader settings = .ok threshold) :
    Performs (process client reader settings labels event)
      (changesOf labels threshold event total) := by
  have htotal : Performs (processTotal labels event)
      [.observe (duration.labels labels.values) (total.totalSeconds.scale 1000)] := by
    rw [processTotal, h.total]
    exact Performs.observe _ _ _
  exact (Performs.inc hc _ _ one_nonneg).andThen
    (htotal.andThen ((performs_decode hc ht).andThen
      (Performs.forEach fun name _ => performs_stage hc h name)))

/-- Text that is no number gives the default threshold. -/
theorem threshold_ok (hr : FloatReads reader) (settings : TpotSettings) :
    ∃ threshold, tpotThresholdSeconds reader settings = .ok threshold :=
  ⟨_, threshold_eq hr _ rfl⟩

end Process

end VllmObserver.Metrics
