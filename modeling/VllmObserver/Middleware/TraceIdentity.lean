import VllmObserver.Middleware.Instrumented

/-! # One identity for request, parent and response

The trace id is chosen from a dictionary of the headers, the parent span by a
scan over all of them. The two agree: a parent span comes with the chosen trace,
and the header that chose the trace names the parent. What the application
sends carries the same id as the event. -/
namespace VllmObserver.Middleware
open VllmObserver.Lib VllmObserver.Core

/-- `n` lower-case hex digits, not all of them zero. -/
structure HexId (n : ℕ) (text : String) : Prop where
  length : text.toList.length = n
  digits : ∀ c ∈ text.toList, isHex c = true
  nonzero : hexValue text ≠ 0

def isNamed (name : String) (header : Bytes × Bytes) : Bool := lower header.1 == encodeLatin1 name

/-- A valid `traceparent` header of the trace, with a span that is not zero. -/
structure NamesParent (header : Bytes × Bytes) (traceId spanId : String) : Prop where
  name : isNamed "traceparent" header = true
  parsed : traceParent (latin1 header.2) = some (traceId, spanId)
  span : hexValue spanId ≠ 0

/-- Of several `traceparent` headers the last one counts; it determines the trace
id if it is valid and neither of its ids is zero. -/
structure Determines (headers : Headers) (header : Bytes × Bytes) (traceId spanId : String) :
    Prop extends NamesParent header traceId spanId where
  trace : hexValue traceId ≠ 0
  last : ∃ before after, headers = before ++ header :: after ∧
    ∀ other ∈ after, isNamed "traceparent" other = false

/-- What becomes of a message of the application: a response start names the
trace once, and its other headers are as they were. -/
inductive Forwards (traceId : String) : SendMessage → SendMessage → Prop
  | start (status : ℤ) (headers : Option Headers) (forwarded : Headers)
      (once : forwarded.filter (isNamed "x-trace-id") =
        [(encodeLatin1 "x-trace-id", encodeLatin1 traceId)])
      (others : forwarded.filter (fun header => !isNamed "x-trace-id" header) =
        (headers.getD []).filter (fun header => !isNamed "x-trace-id" header)) :
      Forwards traceId (.start status headers) (.start status (some forwarded))
  | body (body : Option Bytes) (moreBody : Option Bool) :
      Forwards traceId (.body body moreBody) (.body body moreBody)
  | other (type : String) : Forwards traceId (.other type) (.other type)

/-! ## The two scans -/

section Scans
variable {headers : Headers} {header : Bytes × Bytes} {traceId spanId text : String}

theorem traceParent_some (h : traceParent text = some (traceId, spanId)) :
    (traceId.toList.length = 32 ∧ ∀ c ∈ traceId.toList, isHex c = true) ∧
      spanId.toList.length = 16 ∧ ∀ c ∈ spanId.toList, isHex c = true := by
  unfold traceParent at h
  simp only at h
  split at h
  · rename_i hvalid
    simp only [Bool.and_eq_true, beq_iff_eq, List.all_eq_true] at hvalid
    obtain ⟨⟨⟨⟨⟨⟨hlen, _⟩, htrace⟩, _⟩, hspan⟩, _⟩, _⟩ := hvalid
    cases h
    simp only [String.toList_ofList]
    refine ⟨⟨?_, htrace⟩, ?_, hspan⟩
    · rw [List.length_take, List.length_drop, hlen]
      rfl
    · rw [List.length_take, List.length_drop, hlen]
      rfl
  · cases h

theorem NamesParent.hexId (h : NamesParent header traceId spanId) : HexId 16 spanId :=
  ⟨(traceParent_some h.parsed).2.1, (traceParent_some h.parsed).2.2, h.span⟩

/-- A scan that replaces what it found returns the last hit. -/
theorem foldl_or {α β : Type} (f : α → Option β) : ∀ (xs : List α) (found : Option β),
    xs.foldl (fun found x => (f x).or found) found = (xs.reverse.findSome? f).or found
  | [], found => rfl
  | x :: xs, found => by
    rw [List.foldl_cons, foldl_or f xs, List.reverse_cons, List.findSome?_append]
    simp [Option.or_assoc]

/-- The span that a header names as the parent in the trace. -/
def spanOf (traceId : String) (header : Bytes × Bytes) : Option String :=
  if isNamed "traceparent" header then
    match traceParent (latin1 header.2) with
    | some (parent, spanId) =>
      if parent == traceId && hexValue spanId ≠ 0 then some spanId else none
    | none => none
  else none

theorem spanOf_eq_some :
    spanOf traceId header = some spanId ↔ NamesParent header traceId spanId := by
  constructor
  · intro h
    unfold spanOf at h
    split at h
    · rename_i hname
      split at h
      · rename_i parent span hparsed
        split at h
        · rename_i hc
          simp only [Bool.and_eq_true, beq_iff_eq, decide_eq_true_eq] at hc
          cases h
          exact ⟨hname, hc.1 ▸ hparsed, hc.2⟩
        · cases h
      · cases h
    · cases h
  · intro h
    simp [spanOf, h.name, h.parsed, h.span]

theorem parentSpanId_eq (headers : Headers) (traceId : String) :
    parentSpanId headers traceId = headers.reverse.findSome? (spanOf traceId) := by
  rw [← Option.or_none (o := headers.reverse.findSome? (spanOf traceId)), ← foldl_or]
  unfold parentSpanId
  congr 1
  funext found header
  rw [spanOf, isNamed]
  split
  · cases traceParent (latin1 header.2) with
    | none => rfl
    | some pair =>
      simp only
      split <;> rfl
  · rfl

/-- A parent span is named by a header of the same trace. -/
theorem parentSpanId_some (h : parentSpanId headers traceId = some spanId) :
    ∃ header ∈ headers, NamesParent header traceId spanId := by
  rw [parentSpanId_eq] at h
  obtain ⟨header, hmem, hspan⟩ := List.exists_of_findSome?_eq_some h
  exact ⟨header, List.mem_reverse.mp hmem, spanOf_eq_some.mp hspan⟩

theorem lastValue_of_last (before : Headers) {after : Headers} {name : String}
    (hname : isNamed name header = true) (hafter : ∀ other ∈ after, isNamed name other = false) :
    lastValue (before ++ header :: after) name = latin1 header.2 := by
  have hfind : (before ++ header :: after).reverse.find? (isNamed name) = some header := by
    rw [List.reverse_append, List.reverse_cons, List.append_assoc]
    refine List.find?_eq_some_iff_append.mpr ⟨hname, after.reverse, before.reverse, rfl, ?_⟩
    intro other hother
    simp [hafter other (List.mem_reverse.mp hother)]
  unfold lastValue headerValue
  rw [show (fun header : Bytes × Bytes => lower header.1 == encodeLatin1 name) = isNamed name from
    rfl, hfind]
  rfl

/-- The header that determines the trace id also names the parent span. -/
theorem Determines.parentSpanId (h : Determines headers header traceId spanId) :
    parentSpanId headers traceId = some spanId := by
  obtain ⟨before, after, rfl, hafter⟩ := h.last
  rw [parentSpanId_eq, List.reverse_append, List.reverse_cons, List.append_assoc,
    List.findSome?_append]
  have hnone : after.reverse.findSome? (spanOf traceId) = none := by
    rw [List.findSome?_eq_none_iff]
    intro other hother
    simp [spanOf, hafter other (List.mem_reverse.mp hother)]
  rw [hnone]
  simp [spanOf_eq_some.mpr h.toNamesParent]

-- `delta`, as the equations of the definition take seconds to prove
theorem namedTraceId_some (h : traceParent (lastValue headers "traceparent") =
    some (traceId, spanId)) : namedTraceId headers =
      if hexValue traceId ≠ 0 && hexValue spanId ≠ 0 then some traceId
      else namedTraceId.candidate headers := by
  delta namedTraceId
  rw [h]

theorem namedTraceId_none (h : traceParent (lastValue headers "traceparent") = none) :
    namedTraceId headers = namedTraceId.candidate headers := by
  delta namedTraceId
  rw [h]

theorem Determines.getTraceId (h : Determines headers header traceId spanId) (fresh : String) :
    getTraceId headers fresh = traceId := by
  obtain ⟨before, after, rfl, hafter⟩ := h.last
  have hparsed := h.parsed
  rw [← lastValue_of_last before h.name hafter] at hparsed
  simp [Middleware.getTraceId, namedTraceId_some hparsed, h.trace, h.span]

/-- The value of a header that is there is that of the last one. -/
theorem lastValue_split {name : String} (h : lastValue headers name ≠ "") :
    ∃ before header after, headers = before ++ header :: after ∧ isNamed name header = true ∧
      (∀ other ∈ after, isNamed name other = false) ∧
      lastValue headers name = latin1 header.2 := by
  cases hfind : headers.reverse.find? (isNamed name) with
  | none =>
    have hvalue : lastValue headers name = "" := by
      change (((headers.reverse.find? (isNamed name)).map fun header =>
        latin1 header.2).getD "") = ""
      rw [hfind]
      rfl
    exact absurd hvalue h
  | some header =>
    obtain ⟨hname, after, before, hsplit, hafter⟩ := List.find?_eq_some_iff_append.mp hfind
    have hheaders : headers = before.reverse ++ header :: after.reverse := by
      have hrev := congrArg List.reverse hsplit
      simpa using hrev
    have hlast : ∀ other ∈ after.reverse, isNamed name other = false := by
      intro other hother
      simpa using hafter other (List.mem_reverse.mp hother)
    refine ⟨before.reverse, header, after.reverse, hheaders, hname, hlast, ?_⟩
    rw [hheaders]
    exact lastValue_of_last _ hname hlast

/-- The header that determines the id, the last `x-trace-id` or a fresh id. -/
theorem getTraceId_source (headers : Headers) (fresh : String) :
    (∃ header spanId, Determines headers header (getTraceId headers fresh) spanId) ∨
      getTraceId headers fresh = lastValue headers "x-trace-id" ∨
      getTraceId headers fresh = fresh := by
  have hcandidate : namedTraceId headers = namedTraceId.candidate headers →
      getTraceId headers fresh = lastValue headers "x-trace-id" ∨
        getTraceId headers fresh = fresh := by
    intro h
    unfold getTraceId
    rw [h, namedTraceId.candidate]
    split
    · exact .inl rfl
    · exact .inr rfl
  cases hparsed : traceParent (lastValue headers "traceparent") with
  | none => exact .inr (hcandidate (namedTraceId_none hparsed))
  | some pair =>
    obtain ⟨traceId, spanId⟩ := pair
    by_cases hnonzero : hexValue traceId ≠ 0 ∧ hexValue spanId ≠ 0
    · have hne : lastValue headers "traceparent" ≠ "" := by
        intro hempty
        rw [hempty] at hparsed
        cases hparsed
      obtain ⟨before, header, after, hsplit, hname, hafter, hvalue⟩ := lastValue_split hne
      have hdetermines : Determines headers header traceId spanId :=
        { name := hname
          parsed := hvalue ▸ hparsed
          span := hnonzero.2
          trace := hnonzero.1
          last := ⟨before, after, hsplit, hafter⟩ }
      exact .inl ⟨header, spanId, hdetermines.getTraceId fresh ▸ hdetermines⟩
    · refine .inr (hcandidate ?_)
      rw [namedTraceId_some hparsed]
      exact if_neg (by simpa using hnonzero)

/-- Whatever the headers are, the chosen id is a trace id. -/
theorem getTraceId_hexId (headers : Headers) {fresh : String} (hfresh : HexId 32 fresh) :
    HexId 32 (getTraceId headers fresh) := by
  have hcandidate : ∀ id, namedTraceId.candidate headers = some id → HexId 32 id := by
    intro id h
    unfold namedTraceId.candidate at h
    simp only at h
    split at h
    · rename_i hvalid
      cases h
      simp only [isTraceId, Bool.and_eq_true, beq_iff_eq, List.all_eq_true,
        decide_eq_true_eq] at hvalid
      exact ⟨hvalid.1.1, hvalid.1.2, hvalid.2⟩
    · cases h
  unfold getTraceId
  cases hnamed : namedTraceId headers with
  | none => exact hfresh
  | some id =>
    cases hparsed : traceParent (lastValue headers "traceparent") with
    | none =>
      rw [namedTraceId_none hparsed] at hnamed
      exact hcandidate id hnamed
    | some pair =>
      obtain ⟨traceId, spanId⟩ := pair
      rw [namedTraceId_some hparsed] at hnamed
      split at hnamed
      · rename_i hnonzero
        cases hnamed
        simp only [Bool.and_eq_true, decide_eq_true_eq] at hnonzero
        exact ⟨(traceParent_some hparsed).1.1, (traceParent_some hparsed).1.2, hnonzero.1⟩
      · exact hcandidate id hnamed

end Scans

/-! ## The response -/

section Response
variable {traceId : String} {capture : Bool} {reader : Reader}

theorem forwards_start (trace : RequestTrace) (status : ℤ) (headers : Option Headers) :
    Forwards trace.traceId (.start status headers)
      (.start status (some (Exchange.traceHeader trace headers))) := by
  have hname : isNamed "x-trace-id" (encodeLatin1 "x-trace-id", encodeLatin1 trace.traceId) =
      true := by
    change (lower (encodeLatin1 "x-trace-id") == encodeLatin1 "x-trace-id") = true
    decide +kernel
  have hfilter : Exchange.traceHeader trace headers =
      (headers.getD []).filter (fun header => !isNamed "x-trace-id" header) ++
        [(encodeLatin1 "x-trace-id", encodeLatin1 trace.traceId)] := rfl
  refine .start status headers _ ?_ ?_
  · rw [hfilter, List.filter_append, List.filter_filter]
    simp [hname]
  · rw [hfilter, List.filter_append, List.filter_filter]
    simp [hname]

/-- One step of the application, and what it forwards. -/
structure Forwarded (traceId : String) (messages : List SendMessage) (s s' : Exchange) : Prop where
  sameTrace : s'.trace.traceId = s.trace.traceId
  sameParent : s'.trace.parentSpanId = s.trace.parentSpanId
  sent : ∃ forwarded, s'.sent = s.sent ++ forwarded ∧
    List.Forall₂ (Forwards traceId) messages forwarded

/-- Nothing is sent. -/
theorem Forwarded.silent {s s' : Exchange} (ht : s'.trace.traceId = s.trace.traceId)
    (hp : s'.trace.parentSpanId = s.trace.parentSpanId) (hs : s'.sent = s.sent) :
    Forwarded traceId [] s s' := ⟨ht, hp, [], by rw [hs, List.append_nil], .nil⟩

theorem Forwarded.one {s s' : Exchange} {message sent : SendMessage}
    (ht : s'.trace.traceId = s.trace.traceId) (hp : s'.trace.parentSpanId = s.trace.parentSpanId)
    (hs : s'.sent = s.sent ++ [sent]) (h : Forwards traceId message sent) :
    Forwarded traceId [message] s s' := ⟨ht, hp, [sent], hs, .cons h .nil⟩

theorem Forwarded.trans {s s' s'' : Exchange} {xs ys : List SendMessage}
    (h : Forwarded traceId xs s s') (h' : Forwarded traceId ys s' s'') :
    Forwarded traceId (xs ++ ys) s s'' := by
  obtain ⟨sent, hsent, hall⟩ := h.sent
  obtain ⟨sent', hsent', hall'⟩ := h'.sent
  refine ⟨h'.sameTrace.trans h.sameTrace, h'.sameParent.trans h.sameParent, sent ++ sent', ?_,
    List.rel_append hall hall'⟩
  rw [hsent', hsent, List.append_assoc]

theorem forwarded_send (s : Exchange) (message : SendMessage) (firstBody now : ℚ) :
    Forwarded s.trace.traceId [message] s (s.tracedSend capture message firstBody now) := by
  cases message with
  | start status headers =>
    have h := forwards_start (if 400 ≤ status then { s.trace with status := .error } else s.trace)
      status headers
    by_cases herror : 400 ≤ status
    · simp only [if_pos herror] at h
      exact .one (by simp [Exchange.tracedSend, herror]) (by simp [Exchange.tracedSend, herror])
        (by simp [Exchange.tracedSend, herror]) h
    · simp only [if_neg herror] at h
      exact .one (by simp [Exchange.tracedSend, herror]) (by simp [Exchange.tracedSend, herror])
        (by simp [Exchange.tracedSend, herror]) h
  | body body moreBody =>
    refine .one ?_ ?_ rfl (.body body moreBody)
    · simp only [Exchange.tracedSend]
      split <;> rfl
    · simp only [Exchange.tracedSend]
      split <;> rfl
  | other type => exact .one rfl rfl rfl (.other type)

theorem forwarded_step (s : Exchange) (act : Act) :
    Forwarded s.trace.traceId (sentMessages [act.op reader]) s
      (s.step capture (act.op reader)) := by
  cases act with
  | receive message => cases message with
    | request body _ =>
      cases capture
      · exact .silent rfl rfl rfl
      · exact .silent rfl rfl rfl
    | disconnect =>
      refine .silent ?_ ?_ ?_ <;>
      · simp only [Act.op, Exchange.step, Exchange.tracedReceive]
        split <;> rfl
  | send message firstBody now => exact forwarded_send s message firstBody now
  | work piece =>
    have h : Adapter.Tracked (fun _ => True) s.trace (piece.apply reader s.trace) :=
      tracked_work additive_true (tracked_self trivial) reader piece
    exact .silent h.traceId h.parentSpanId rfl

/-- **What an instrumented application sends keeps one identity.** -/
theorem forwarded_run : ∀ (acts : List Act) (s : Exchange),
    Forwarded s.trace.traceId (sentMessages (acts.map (Act.op reader))) s
      (run (Exchange.step capture) s (acts.map (Act.op reader)))
  | [], s => .silent rfl rfl rfl
  | act :: rest, s => by
    have h : Forwarded s.trace.traceId (sentMessages [act.op reader]) s
        (s.step capture (act.op reader)) := forwarded_step s act
    have hrest := forwarded_run rest (s.step capture (act.op reader))
    rw [h.sameTrace] at hrest
    have hsplit : sentMessages ((act :: rest).map (Act.op reader)) =
        sentMessages [act.op reader] ++ sentMessages (rest.map (Act.op reader)) := by
      rw [sentMessages, sentMessages, sentMessages, ← List.filterMap_append]
      rfl
    rw [hsplit]
    exact h.trans hrest

end Response

/-! ## The call -/

/-- An event goes out with the ids of the request, or none does. -/
def SameIdentity (traceId : String) (parent : Option String) (before after : List Event) : Prop :=
  after = before ∨ ∃ event, after = before ++ [event] ∧ event.traceId = traceId ∧
    event.parentSpanId = parent

theorem conclude_identity {ε : Type} (config : Config) (readings : Readings)
    (token : Option RequestTrace) (server : Server) (s : Exchange) (ending : Ending ε) :
    (config.conclude readings token server s ending).1.sent = server.sent ++ s.sent ∧
      SameIdentity s.trace.traceId s.trace.parentSpanId server.events
        (config.conclude readings token server s ending).1.events := by
  unfold Config.conclude
  simp only
  split
  · split
    · exact ⟨rfl, .inl rfl⟩
    · exact ⟨rfl, .inr ⟨_, rfl, rfl, rfl⟩⟩
  · exact ⟨rfl, .inr ⟨_, rfl, rfl, rfl⟩⟩

/-- **One identity for the request, its parent and its response.** -/
theorem trace_identity {ε : Type} (config : Config) (reader : Reader) (scope : Scope)
    (hpath : scope.path ∈ paths) (readings : Readings) (hfresh : HexId 32 readings.traceId)
    (acts : List Act) (ending : Ending ε) (server : Server) :
    let traceId := getTraceId scope.headers readings.traceId
    let parent := parentSpanId scope.headers traceId
    let after := (call config scope readings ⟨acts.map (Act.op reader), ending⟩ server).1
    HexId 32 traceId ∧
    (∀ spanId, parent = some spanId →
      HexId 16 spanId ∧ ∃ header ∈ scope.headers, NamesParent header traceId spanId) ∧
    (∀ header id spanId, Determines scope.headers header id spanId →
      traceId = id ∧ parent = some spanId) ∧
    ((∃ header spanId, Determines scope.headers header traceId spanId) ∨
      traceId = lastValue scope.headers "x-trace-id" ∨ traceId = readings.traceId) ∧
    (∃ forwarded, after.sent = server.sent ++ forwarded ∧
      List.Forall₂ (Forwards traceId) (sentMessages (acts.map (Act.op reader))) forwarded) ∧
    SameIdentity traceId parent server.events after.events := by
  intro traceId parent after
  refine ⟨getTraceId_hexId scope.headers hfresh, fun spanId h => ?_, fun header id spanId h => ?_,
    getTraceId_source scope.headers readings.traceId, ?_⟩
  · obtain ⟨header, hmem, hnames⟩ := parentSpanId_some h
    exact ⟨hnames.hexId, header, hmem, hnames⟩
  · have hid := h.getTraceId readings.traceId
    refine ⟨hid, ?_⟩
    change parentSpanId scope.headers (getTraceId scope.headers readings.traceId) = some spanId
    rw [hid]
    exact h.parentSpanId
  · have hafter : after = (config.observe scope readings ⟨acts.map (Act.op reader), ending⟩
        server).1 := congrArg Prod.fst (call_observed hpath readings _ server)
    have hrun : Forwarded traceId (sentMessages (acts.map (Act.op reader)))
        { trace := Config.newTrace scope readings }
        (config.exchange scope readings (acts.map (Act.op reader))) :=
      forwarded_run acts { trace := Config.newTrace scope readings }
    obtain ⟨hsent, hevents⟩ := conclude_identity config readings server.currentRequest
      { server with
        currentRequest := some (Config.newTrace scope readings)
        inflight := server.inflight + 1 }
      (config.exchange scope readings (acts.map (Act.op reader))) ending
    obtain ⟨forwarded, hforwarded, hall⟩ := hrun.sent
    rw [hrun.sameTrace, hrun.sameParent] at hevents
    refine ⟨⟨forwarded, ?_, hall⟩, hafter ▸ hevents⟩
    rw [hafter]
    exact hsent.trans (congrArg (server.sent ++ ·) hforwarded)

/-- Of three `traceparent` headers the last one counts. -/
def tracedScope : Scope where
  path := "/v1/completions"
  headers := [
    (encodeLatin1 "traceparent",
      encodeLatin1 "00-00000000000000000000000000000000-00000000000000a1-01"),
    (encodeLatin1 "X-Trace-Id", encodeLatin1 "0123456789abcdef0123456789abcdef"),
    (encodeLatin1 "Traceparent",
      encodeLatin1 "00-4bf92f3577b34da6a3ce929d0e0e4736-00000000000000a2-01"),
    (encodeLatin1 "TRACEPARENT",
      encodeLatin1 "00-4bf92f3577b34da6a3ce929d0e0e4736-00f067aa0ba902b7-00")]

def tracedActs : List Act := [
  .work (.timed .renderInput (.float .nan)),
  .send (.start 200 (some [(encodeLatin1 "X-Trace-ID", encodeLatin1 "forged"),
    (encodeLatin1 "content-type", encodeLatin1 "text/plain")])) 1 1,
  .send (.body (some (encodeLatin1 "done")) none) 1 1]

theorem trace_identity_traced :
    let after := (call capturing tracedScope readings
      ⟨tracedActs.map (Act.op capturing.reader), (Ending.returned : Ending String)⟩ idle).1
    getTraceId tracedScope.headers readings.traceId = "4bf92f3577b34da6a3ce929d0e0e4736" ∧
    parentSpanId tracedScope.headers "4bf92f3577b34da6a3ce929d0e0e4736" = some "00f067aa0ba902b7" ∧
    HexId 32 "4bf92f3577b34da6a3ce929d0e0e4736" ∧ HexId 16 "00f067aa0ba902b7" ∧
    (∃ forwarded, after.sent = forwarded ∧
      List.Forall₂ (Forwards "4bf92f3577b34da6a3ce929d0e0e4736")
        (sentMessages (tracedActs.map (Act.op capturing.reader))) forwarded) := by
  have hid : getTraceId tracedScope.headers readings.traceId =
      "4bf92f3577b34da6a3ce929d0e0e4736" := by decide +kernel
  have hparent : parentSpanId tracedScope.headers "4bf92f3577b34da6a3ce929d0e0e4736" =
      some "00f067aa0ba902b7" := by decide +kernel
  have hfresh : HexId 32 readings.traceId :=
    ⟨by decide +kernel, List.all_eq_true.mp (by decide +kernel), by decide +kernel⟩
  obtain ⟨htrace, hspan, -, -, ⟨forwarded, hsent, hall⟩, -⟩ := trace_identity capturing
    capturing.reader tracedScope (by decide) readings hfresh tracedActs
    (.returned : Ending String) idle
  rw [hid] at htrace hspan hall
  exact ⟨hid, hparent, htrace, (hspan _ hparent).1, forwarded, hsent, hall⟩

end VllmObserver.Middleware
