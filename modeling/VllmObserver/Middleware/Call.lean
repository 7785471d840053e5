import VllmObserver.Core.Trace
import VllmObserver.Lib.Runs
import VllmObserver.Middleware.Headers
import VllmObserver.Middleware.Content

/-! # The observed call

On an observed path the application runs between a traced `receive` and a traced
`send`. When it has ended, one block takes the captured content, resets the
current request, counts the request out and hands its event to the filters. The
captured response is parsed before all that. -/
namespace VllmObserver.Middleware
open VllmObserver.Lib VllmObserver.Core

def paths : List String := ["/v1/chat/completions", "/v1/completions", "/v1/responses"]

def contentLimit : ℕ := 100000

inductive ReceiveMessage where
  | request (body : Option Bytes) (moreBody : Option Bool)
  | disconnect

inductive SendMessage where
  | start (status : ℤ) (headers : Option Headers)
  | body (body : Option Bytes) (moreBody : Option Bool)
  | other (type : String)
deriving DecidableEq

/-- What instrumentation that runs inside the application does to the current
trace. None of it writes the status. -/
structure Hook where
  run : RequestTrace → RequestTrace
  status : ∀ trace, (run trace).status = trace.status

def Hook.add (stage : String) (duration : Number) (count : Number) : Hook where
  run := fun trace => trace.add stage duration count
  status := fun _ => rfl

/-- What the application does: it takes a delivered message, sends one (accepted
by the server or not) at readings of the clock, or runs instrumented code. -/
inductive Op where
  | receive (message : ReceiveMessage)
  | send (message : SendMessage) (firstBody now : ℚ)
  | hook (hook : Hook)

/-- How the application ends: by return, by an exception or by cancellation. -/
inductive Ending (ε : Type) where
  | returned
  | raised (e : ε)
  | cancelled
deriving DecidableEq

structure App (ε : Type) where
  ops : List Op
  ending : Ending ε

/-! ## The traced channels -/

/-- The variables that the traced channels share, and the messages they passed
on to the server. -/
structure Exchange where
  trace : RequestTrace
  requestChunks : List Bytes := []
  responseChunks : List Bytes := []
  firstBody : Bool := false
  complete : Bool := false
  sent : List SendMessage := []

/-- A captured body is kept if the whole stays within the limit. -/
def keep (chunks : List Bytes) (body : Bytes) : List Bytes :=
  if (chunks.map List.length).sum + body.length ≤ contentLimit then chunks ++ [body] else chunks

namespace Exchange

def tracedReceive (capture : Bool) (s : Exchange) : ReceiveMessage → Exchange
  | .request body _ =>
    if capture then { s with requestChunks := keep s.requestChunks (body.getD []) } else s
  | .disconnect =>
    -- a late disconnect does not downgrade a finished response
    if s.complete then s else { s with trace := { s.trace with status := .cancelled } }

/-- The response start names the trace, whatever the application put there. -/
def traceHeader (trace : RequestTrace) (headers : Option Headers) : Headers :=
  ((headers.getD []).filter fun header => lower header.1 != encodeLatin1 "x-trace-id") ++
    [(encodeLatin1 "x-trace-id", encodeLatin1 trace.traceId)]

def tracedSend (capture : Bool) (s : Exchange) (message : SendMessage) (firstBody now : ℚ) :
    Exchange :=
  match message with
  | .start status headers =>
    let trace := if 400 ≤ status then { s.trace with status := .error } else s.trace
    { s with
      trace := trace
      sent := s.sent ++ [.start status (some (traceHeader trace headers))] }
  | .body body moreBody =>
    let content := body.getD []
    let first := !content.isEmpty && !s.firstBody
    { s with
      responseChunks :=
        if capture && !content.isEmpty then keep s.responseChunks content else s.responseChunks
      trace := if first then
        let trace := s.trace.add "http_first_body" (.float (.fin (firstBody - s.trace.started)))
        { trace with firstBodyNs := some (trace.nowNs now) } else s.trace
      firstBody := s.firstBody || first
      complete := !moreBody.getD false
      sent := s.sent ++ [message] }
  | .other _ => { s with sent := s.sent ++ [message] }

def step (capture : Bool) (s : Exchange) : Op → Exchange
  | .receive message => s.tracedReceive capture message
  | .send message firstBody now => s.tracedSend capture message firstBody now
  | .hook hook => { s with trace := hook.run s.trace }

/-- The status when the application has ended. -/
def settle {ε : Type} (s : Exchange) : Ending ε → Status
  | .returned => if !s.complete && s.trace.status == .ok then .cancelled else s.trace.status
  | .raised _ => .error
  | .cancelled => .cancelled

end Exchange

/-! ## The middleware -/

/-- What the gauges of the exporter read. -/
structure ExportGauges where
  queueSize : ℕ
  dropped : ℕ
  failed : ℕ

/-- The settings of the middleware, and what `render` makes of the metrics: of the
calls in flight, of the events that were handed over, and of the exporter. -/
structure Config where
  captureContent : Bool
  codec : Codec
  reader : Reader
  service : String
  model : String
  instanceId : String
  rendered : ℤ → List Event → ExportGauges → Bytes

structure Scope where
  path : String
  headers : Headers

/-- The fresh ids and the clock readings of one call, and the gauges of the exporter
as it finds them. -/
structure Readings where
  traceId : String
  rootSpanId : String
  startedNs : ℤ
  started : ℚ
  ended : ℚ
  gauges : ExportGauges

/-- What a call leaves behind: the context variable, the in-flight gauge, the
events handed to the filters and the messages sent. -/
structure Server where
  currentRequest : Option RequestTrace
  inflight : ℤ
  events : List Event
  sent : List SendMessage

/-- A call ends as its application, or with an exception of the middleware. -/
inductive Outcome (ε : Type) where
  | ended (ending : Ending ε)
  | failed (e : PyError)
deriving DecidableEq

namespace Config
variable {ε : Type} (config : Config)

def newTrace (scope : Scope) (readings : Readings) : RequestTrace :=
  let traceId := getTraceId scope.headers readings.traceId
  { traceId := traceId
    startedNs := readings.startedNs
    started := readings.started
    rootSpanId := readings.rootSpanId
    route := scope.path
    userId := headerValue scope.headers "x-user-id"
    sessionId := headerValue scope.headers "x-session-id"
    parentSpanId := parentSpanId scope.headers traceId }

def event (trace : RequestTrace) (readings : Readings) : Event :=
  { trace.finish readings.ended with
    service := some config.service
    model := some config.model
    instanceId := some config.instanceId }

/-- The cleanup, with the value of the context variable that the token keeps. -/
def cleanup (readings : Readings) (token : Option RequestTrace) (server : Server)
    (trace : RequestTrace) : Server :=
  { server with
    currentRequest := token
    inflight := server.inflight - 1
    events := server.events ++ [config.event trace readings] }

/-- The block that ends every observed call. Should the response parser raise,
the cleanup is left out. -/
def conclude (readings : Readings) (token : Option RequestTrace) (server : Server) (s : Exchange)
    (ending : Ending ε) : Server × Outcome ε :=
  let trace := { s.trace with status := s.settle ending }
  let server := { server with sent := server.sent ++ s.sent }
  if config.captureContent then
    let trace := { trace with
      requestPayload :=
        parseRequest config.codec config.reader s.requestChunks.flatten trace.route }
    match parseResponse config.codec config.reader s.responseChunks.flatten with
    | .error e => ({ server with currentRequest := some trace }, .failed e)
    | .ok responseText =>
      (config.cleanup readings token server { trace with responseText := responseText },
        .ended ending)
  else (config.cleanup readings token server trace, .ended ending)

/-- What the application did to the exchange. -/
def exchange (scope : Scope) (readings : Readings) (ops : List Op) : Exchange :=
  run (Exchange.step config.captureContent) { trace := newTrace scope readings } ops

def observe (scope : Scope) (readings : Readings) (app : App ε) (server : Server) :
    Server × Outcome ε :=
  let entered := { server with
    currentRequest := some (newTrace scope readings)
    inflight := server.inflight + 1 }
  config.conclude readings server.currentRequest entered
    (config.exchange scope readings app.ops) app.ending

end Config

/-- The messages of the application. -/
def sentMessages (ops : List Op) : List SendMessage :=
  ops.filterMap fun
    | .send message _ _ => some message
    | _ => none

/-- `__call__` for an HTTP scope. -/
def call {ε : Type} (config : Config) (scope : Scope) (readings : Readings) (app : App ε)
    (server : Server) : Server × Outcome ε :=
  if scope.path = "/observer/metrics" then
    ({ server with sent := server.sent ++ [
        .start 200 (some [(encodeLatin1 "content-type",
          encodeLatin1 "text/plain; version=0.0.4; charset=utf-8")]),
        .body (some (config.rendered server.inflight server.events readings.gauges)) none] },
      .ended .returned)
  else if scope.path ∈ paths then config.observe scope readings app server
  else ({ server with sent := server.sent ++ sentMessages app.ops }, .ended app.ending)

/-! ## One event per request -/

/-- One event was handed to the filters, the server is otherwise as before, and
the call ended as the application did. -/
structure OneEvent {ε : Type} (before after : Server) (ending : Ending ε) (outcome : Outcome ε) :
    Prop where
  event : ∃ event, after.events = before.events ++ [event]
  currentRequest : after.currentRequest = before.currentRequest
  inflight : after.inflight = before.inflight
  outcome : outcome = .ended ending

/-- The bodies that the application sends, less the empty ones. -/
def sentBodies (ops : List Op) : List Bytes :=
  (sentMessages ops).filterMap fun
    | .body (some body) _ => if body.isEmpty then none else some body
    | _ => none

/-- The response that is captured: the bodies that fit. -/
def captured (ops : List Op) : Bytes := ((sentBodies ops).foldl keep []).flatten

theorem step_responseChunks (s : Exchange) (op : Op) :
    (s.step true op).responseChunks = (sentBodies [op]).foldl keep s.responseChunks := by
  cases op with
  | receive message => cases message with
    | request body _ => rfl
    | disconnect =>
      simp only [Exchange.step, Exchange.tracedReceive]
      split <;> rfl
  | send message firstBody now => cases message with
    | body body moreBody => cases body with
      | none => rfl
      | some body => cases body <;> rfl
    | _ => rfl
  | hook hook => rfl

theorem sentBodies_cons (op : Op) (rest : List Op) :
    sentBodies (op :: rest) = sentBodies [op] ++ sentBodies rest := by
  rw [sentBodies, sentBodies, sentBodies, ← List.filterMap_append, sentMessages, sentMessages,
    sentMessages, ← List.filterMap_append]
  rfl

/-- What the traced `send` has kept after a run. -/
theorem run_responseChunks : ∀ (ops : List Op) (s : Exchange),
    (run (Exchange.step true) s ops).responseChunks = (sentBodies ops).foldl keep s.responseChunks
  | [], _ => rfl
  | op :: rest, s => by
    rw [run_cons, run_responseChunks rest, step_responseChunks, sentBodies_cons op rest,
      List.foldl_append]

/-- The cleanup leaves the server as it was, and one event more. -/
theorem cleanup_oneEvent {ε : Type} (config : Config) (readings : Readings) (server : Server)
    (sent : List SendMessage) (current : Option RequestTrace) (trace : RequestTrace)
    (ending : Ending ε) :
    OneEvent server (config.cleanup readings server.currentRequest
      { server with currentRequest := current, inflight := server.inflight + 1, sent := sent }
      trace) ending (.ended ending) where
  event := ⟨_, rfl⟩
  currentRequest := rfl
  inflight := by simp [Config.cleanup]
  outcome := rfl

section Observe
variable {ε : Type} {config : Config}

theorem exchange_captured (h : config.captureContent = true) (scope : Scope)
    (readings : Readings) (ops : List Op) :
    (config.exchange scope readings ops).responseChunks.flatten = captured ops := by
  rw [Config.exchange, h, run_responseChunks]
  rfl

/-- An observed call hands over one event, or the response parser raised. -/
theorem observe_cases (scope : Scope) (readings : Readings) (app : App ε) (server : Server) :
    OneEvent server (config.observe scope readings app server).1 app.ending
        (config.observe scope readings app server).2 ∧
      (config.captureContent = true →
        ∃ content, parseResponse config.codec config.reader (captured app.ops) = .ok content) ∨
    config.captureContent = true ∧
      ∃ e, parseResponse config.codec config.reader (captured app.ops) = .error e ∧
        (config.observe scope readings app server).2 = .failed e := by
  rw [Config.observe, Config.conclude]
  simp only
  split
  · rename_i hcapture
    rw [exchange_captured hcapture]
    split
    · rename_i e he
      exact Or.inr ⟨hcapture, e, he, rfl⟩
    · rename_i content hok
      exact Or.inl ⟨cleanup_oneEvent config readings server _ _ _ app.ending,
        fun _ => ⟨content, hok⟩⟩
  · rename_i hoff
    exact Or.inl ⟨cleanup_oneEvent config readings server _ _ _ app.ending,
      fun hcapture => absurd hcapture hoff⟩

theorem call_observed {scope : Scope} (h : scope.path ∈ paths) (readings : Readings)
    (app : App ε) (server : Server) :
    call config scope readings app server = config.observe scope readings app server := by
  have hmetrics : scope.path ≠ "/observer/metrics" := by
    intro he
    rw [he] at h
    simp [paths] at h
  rw [call, if_neg hmetrics, if_pos h]

/-- **Every observed request hands over one event, except when the captured
response cannot be read.** -/
theorem call_one_event_iff {scope : Scope} (h : scope.path ∈ paths) (readings : Readings)
    (app : App ε) (server : Server) :
    OneEvent server (call config scope readings app server).1 app.ending
        (call config scope readings app server).2 ↔
      config.captureContent = false ∨ captured app.ops = [] ∨
        Readable config.reader (config.codec.decodeReplace (captured app.ops)) := by
  rw [call_observed h, ← parseResponse_ok_iff]
  rcases observe_cases scope readings app server with ⟨hone, hcontent⟩ |
    ⟨hcapture, e, he, hfailed⟩
  · refine ⟨fun _ => ?_, fun _ => hone⟩
    cases hc : config.captureContent
    · exact Or.inl rfl
    · exact Or.inr (hcontent hc)
  · constructor
    · intro hone
      cases hfailed.symm.trans hone.outcome
    · rintro (hoff | ⟨content, hok⟩)
      · rw [hoff] at hcapture
        cases hcapture
      · rw [hok] at he
        cases he

end Observe

/-- Captures content; of JSON it reads a list only. -/
def capturing : Config where
  captureContent := true
  codec := { decode := fun bytes => .ok (latin1 bytes), decodeReplace := latin1 }
  reader := {
    float := fun text => .error (.valueError text)
    int := fun text => .error (.valueError text)
    loads := fun text => if text = "[1]" then .ok (.arr [.int 1]) else .error (.valueError text) }
  service := "vllm"
  model := "unknown"
  instanceId := "host"
  rendered := fun _ _ _ => []

def chatScope : Scope := ⟨"/v1/chat/completions", []⟩

def readings : Readings :=
  ⟨"0123456789abcdef0123456789abcdef", "0123456789abcdef", 5, 1, 2, ⟨0, 0, 0⟩⟩

def idle : Server := ⟨none, 0, [], []⟩

/-- A response in two parts, after some decoding. -/
def streamed : App String where
  ops := [
    .hook (.add "decode" (.float (.fin 2)) (.int 2)),
    .send (.start 200 none) 1 1,
    .send (.body (some (encodeLatin1 "first")) (some true)) 1 1,
    .send (.body (some (encodeLatin1 "last")) none) 1 1]
  ending := .raised "lost connection"

/-- A response that is a JSON list. -/
def answered : App String where
  ops := [.send (.start 200 none) 1 1, .send (.body (some (encodeLatin1 "[1]")) none) 1 1]
  ending := .returned

theorem call_one_event_streamed :
    OneEvent idle (call capturing chatScope readings streamed idle).1 streamed.ending
      (call capturing chatScope readings streamed idle).2 := by
  refine (call_one_event_iff (by decide) readings streamed idle).mpr (Or.inr (Or.inr ?_))
  have htext : capturing.codec.decodeReplace (captured streamed.ops) = "firstlast" := by
    decide +kernel
  have hstream : isStream "firstlast" = false := by decide +kernel
  rw [htext, Readable, hstream]
  intro parsed h
  cases h

/-- After a list the call fails, without an event and with the request counted
as in flight. -/
theorem call_list_response :
    (call capturing chatScope readings answered idle).2 =
      .failed (.attributeError "'list' object has no attribute 'get'") ∧
    (call capturing chatScope readings answered idle).1.events.length = 0 ∧
    (call capturing chatScope readings answered idle).1.inflight = 1 ∧
    (call capturing chatScope readings answered idle).1.currentRequest.isSome = true ∧
    ¬ OneEvent idle (call capturing chatScope readings answered idle).1 answered.ending
      (call capturing chatScope readings answered idle).2 := by
  have hfailed : (call capturing chatScope readings answered idle).2 =
      .failed (.attributeError "'list' object has no attribute 'get'") := by decide +kernel
  refine ⟨hfailed, by decide +kernel, by decide +kernel, by decide +kernel, fun hone => ?_⟩
  cases hfailed.symm.trans hone.outcome

end VllmObserver.Middleware
