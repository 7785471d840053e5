import VllmObserver.Scripts.Hierarchy
import VllmObserver.Adapter.Delivery
import VllmObserver.Metrics.Filter

/-! # The trace of a served request and its audit

From the recorders over the timeline and the sink to the rows that are read back:
a request of one sequence passes the audit exactly if none of its seven stages was
empty. -/
namespace VllmObserver.Scripts
open VllmObserver.Lib VllmObserver.Core VllmObserver.Stages VllmObserver.Exporter
  VllmObserver.Adapter VllmObserver.Metrics

/-! ## The request -/

/-- The API process times its own stages only. -/
def TimesStages {gen : ℕ} : Activity gen → Prop
  | .apiInterval _ name .. => name ∈ timedStages
  | _ => True

/-- The trace keeps its identity, and the API intervals are stages of the API process. -/
structure Served (base trace : RequestTrace) : Prop where
  traceId : trace.traceId = base.traceId
  parentSpanId : trace.parentSpanId = base.parentSpanId
  startedNs : trace.startedNs = base.startedNs
  timed : ∀ n ∈ trace.apiIntervals, n.type = .span ∧ n.name ∈ timedStages

/-- The node of the generation, and what is true of its tokens. -/
def Generates (gen : ℕ) (tokens : Dict String ℤ → Prop) (trace : RequestTrace) : Prop :=
  ∃ g, trace.observations[gen]? = some g ∧ g.name = "generate-response" ∧
    g.type = .generation ∧ tokens g.usage

def Counts (input output : ℤ) (usage : Dict String ℤ) : Prop :=
  usage.get? "input" = some input ∧ usage.get? "output" = some output

section Invariants
variable {base trace : RequestTrace} {gen : ℕ} {tokens : Dict String ℤ → Prop}

theorem Served.activity (h : Served base trace) {a : Activity gen} (ha : TimesStages a) :
    Served base (a.apply trace) := by
  cases a with
  | add stage duration count => exact ⟨h.traceId, h.parentSpanId, h.startedNs, h.timed⟩
  | apiInterval uuid name startedPerf endedPerf metadata =>
    simp only [Activity.apply, RequestTrace.apiInterval]
    split
    · refine ⟨h.traceId, h.parentSpanId, h.startedNs, fun n hn => ?_⟩
      rcases List.mem_append.mp hn with hn | hn
      · exact h.timed n hn
      · rw [List.mem_singleton.mp hn]
        exact ⟨rfl, ha⟩
    · exact h
  | setStatus status => exact ⟨h.traceId, h.parentSpanId, h.startedNs, h.timed⟩
  | begin uuid requestId perf => exact ⟨h.traceId, h.parentSpanId, h.startedNs, h.timed⟩
  | close i other perf =>
    simp only [Activity.apply]
    split
    · split
      · exact ⟨h.traceId, h.parentSpanId, h.startedNs, h.timed⟩
      · exact h
    · exact h

theorem Served.run (h : Served base trace) {acts : List (Activity gen)}
    (hacts : ∀ a ∈ acts, TimesStages a) : Served base (run Activity.apply trace acts) :=
  run_invariant Activity.apply (fun _ _ hs ha => hs.activity ha)
    (RunMeets.of_forall Activity.apply trace hacts) h

theorem Generates.append (h : Generates gen tokens trace) (o : Node) :
    Generates gen tokens { trace with observations := trace.observations ++ [o] } := by
  obtain ⟨g, hg, hrest⟩ := h
  exact ⟨g, by rw [List.getElem?_append_left (List.getElem?_eq_some_iff.mp hg).1]; exact hg, hrest⟩

theorem Generates.close (h : Generates gen tokens trace) (i : ℕ) (perf : ℚ) :
    Generates gen tokens (closeGeneration i perf trace) := by
  obtain ⟨g, hg, hname, htype, htokens⟩ := h
  by_cases hi : i = gen
  · subst hi
    refine ⟨{ g with endNs := some (trace.nowNs perf) }, ?_, hname, htype, htokens⟩
    rw [closeGeneration, List.getElem?_modify_eq, hg]
    rfl
  · refine ⟨g, ?_, hname, htype, htokens⟩
    rw [closeGeneration, List.getElem?_modify_ne _ _ hi]
    exact hg

theorem Generates.activity (h : Generates gen tokens trace) (a : Activity gen) :
    Generates gen tokens (a.apply trace) := by
  cases a with
  | add stage duration count => exact h
  | apiInterval uuid name startedPerf endedPerf metadata =>
    obtain ⟨g, hg, hrest⟩ := h
    exact ⟨g, by rw [Activity.apply, (apiInterval_keeps trace uuid name _ _ metadata).1]; exact hg,
      hrest⟩
  | setStatus status => exact h
  | begin uuid requestId perf => exact h.append _
  | close i other perf =>
    simp only [Activity.apply]
    split
    · split
      · exact h.close i perf
      · exact h
    · exact h

theorem Generates.run (h : Generates gen tokens trace) (acts : List (Activity gen)) :
    Generates gen tokens (Lib.run Activity.apply trace acts) :=
  run_invariant_all Activity.apply (fun _ a hs => hs.activity a) h

theorem countTokens_counts {stat : FinishedStat} {input output : ℤ} {g : Node}
    (hin : stat.numPromptTokens = some input) (hout : stat.numGenerationTokens = some output)
    (hempty : g.usage = Dict.empty) : Counts input output (countTokens stat g).usage := by
  simp [Counts, countTokens, hin, hout, hempty, Dict.get?_set]

/-- The statistic is counted, and the trace stays what it is. -/
theorem served_update {reader : Reader} {uuid : ℕ → String} {perf : ℕ → ℚ} {stat : FinishedStat}
    {raw : RawStats} {input output : ℤ} (h : Served base trace)
    (hgen : Generates gen (· = Dict.empty) trace) (hin : stat.numPromptTokens = some input)
    (hout : stat.numGenerationTokens = some output) :
    Served base (observedUpdate reader uuid perf gen stat raw trace) ∧
      Generates gen (Counts input output) (observedUpdate reader uuid perf gen stat raw trace) := by
  obtain ⟨g, hg, hname, htype, hempty⟩ := hgen
  have hgrew := observedUpdate_counted reader uuid perf raw hg (decodeCount_some hout)
  obtain ⟨g', hg', hcount⟩ := hgrew.generation
  have hrest := hgrew.rest
  constructor
  · exact ⟨(congrArg RequestTrace.traceId hrest).trans h.traceId,
      (congrArg RequestTrace.parentSpanId hrest).trans h.parentSpanId,
      (congrArg RequestTrace.startedNs hrest).trans h.startedNs, fun n hn =>
      h.timed n ((congrArg RequestTrace.apiIntervals hrest :) ▸ hn)⟩
  · refine ⟨g', hg', hcount.name.trans hname, hcount.type.trans htype, ?_⟩
    rw [hcount.usage]
    exact countTokens_counts hin hout hempty

end Invariants

/-- A request of one sequence: its only call finished with an accepted statistic and
was closed after it, inside the request. -/
structure SingleCall (s : Sequence) (trace : RequestTrace) (stamps : Stamps) (input output : ℤ)
    (total : ℚ) : Prop where
  fresh : s.Fresh trace
  first : s.gen = 0
  timed : ∀ a ∈ s.before ++ s.during ++ s.after ++ s.late, TimesStages a
  noParent : trace.parentSpanId = none
  positive : 0 < trace.startedNs
  started : trace.started ≤ s.beginPerf
  accepted : Accepted s.reader s.stat s.raw (trace.nowNs s.beginPerf)
    (trace.nowNs (s.updatePerf 0)) stamps (max 0 (output - 1))
  tokens : s.stat.numPromptTokens = some input ∧ s.stat.numGenerationTokens = some output
  closed : s.updatePerf 0 ≤ s.closePerf
  waited : waitingStart stamps (s.event trace) ≤ stamps.scheduled
  finished : trace.nowNs s.closePerf ≤ trace.startedNs + nanos total
  total : httpTotal (s.event trace) = .ok total

/-- The stages of the request as they were recorded. -/
def stagesOfRequest (s : Sequence) (trace : RequestTrace) (stamps : Stamps) (total : ℚ) :
    List (String × ℤ × ℤ) :=
  requestStages trace.startedNs (trace.nowNs s.beginPerf) (waitingStart stamps (s.event trace))
    stamps.scheduled stamps.firstToken stamps.lastToken (trace.nowNs s.closePerf)
    (trace.startedNs + nanos total)

/-- The event with the labels of its replica. -/
def labelled (labels : Labels) (event : Event) : Event :=
  { event with
    service := some labels.service
    model := some labels.model
    instanceId := some labels.instanceId }

section SingleCall
variable {s : Sequence} {trace : RequestTrace} {stamps : Stamps} {input output : ℤ} {total : ℚ}

/-- What the event of the request says of itself. -/
theorem SingleCall.served (h : SingleCall s trace stamps input output total) :
    Served trace (run Activity.apply (closeGeneration s.gen s.closePerf
        (run Activity.apply (s.updated trace) s.after)) s.late) ∧
      Generates s.gen (Counts input output) (run Activity.apply (closeGeneration s.gen s.closePerf
        (run Activity.apply (s.updated trace) s.after)) s.late) := by
  have htimed : ∀ acts, acts ⊆ s.before ++ s.during ++ s.after ++ s.late →
      ∀ a ∈ acts, TimesStages a := fun _ hsub a ha => h.timed a (hsub ha)
  have hfresh : Served trace trace :=
    ⟨rfl, rfl, rfl, fun n hn => by rw [h.fresh.apiIntervals] at hn; cases hn⟩
  have hbefore := hfresh.run (htimed s.before fun a ha => by simp [ha])
  have hbegun : Served trace (s.begun trace) :=
    ⟨hbefore.traceId, hbefore.parentSpanId, hbefore.startedNs, hbefore.timed⟩
  have hgen : Generates s.gen (· = Dict.empty) (s.begun trace) := by
    have hlast : (s.begun trace).observations[s.gen]? = (s.begun trace).observations.getLast? := by
      rw [← h.fresh.position, List.getLast?_eq_getElem?]
      simp [Sequence.begun, RequestTrace.beginGeneration]
    refine ⟨_, hlast.trans List.getLast?_concat, ?_, ?_, ?_⟩
    all_goals rfl
  obtain ⟨hserved, hcounts⟩ := served_update (hbegun.run (htimed s.during fun a ha => by simp [ha]))
    (hgen.run s.during) h.tokens.1 h.tokens.2
  have hafter := hserved.run (htimed s.after fun a ha => by simp [ha])
  have hclosed : Served trace (closeGeneration s.gen s.closePerf
      (run Activity.apply (s.updated trace) s.after)) :=
    ⟨hafter.traceId, hafter.parentSpanId, hafter.startedNs, hafter.timed⟩
  exact ⟨hclosed.run (htimed s.late fun a ha => by simp [ha]),
    ((hcounts.run s.after).close s.gen s.closePerf).run s.late⟩

/-- The stages of the generation meet where the engine measured them. -/
theorem SingleCall.meeting (h : SingleCall s trace stamps input output total) :
    ∃ g d error, firstGeneration (s.event trace) = some g ∧ g.name = "generate-response" ∧
      g.type = .generation ∧ Counts input output g.usage ∧
      g.startNs = trace.nowNs s.beginPerf ∧ g.endNs = some (trace.nowNs s.closePerf) ∧
      Recorded (s.event trace) ∧
      trace.nowNs s.beginPerf ≤ waitingStart stamps (s.event trace) ∧
      (observedStages (s.event trace).observations).cuts (trace.nowNs s.beginPerf)
          (trace.nowNs s.closePerf) =
        ⟨waitingStart stamps (s.event trace), stamps.scheduled, stamps.firstToken,
          stamps.lastToken⟩ ∧
      (observedStages (s.event trace).observations).decode = some d ∧
      d.metadata = stageMetadata error (.int 0) (max 0 (output - 1)) stamps.firstToken
        stamps.lastToken := by
  obtain ⟨g₀, error, trace', hevent, _, hstart, hendg, hwait⟩ :=
    Sequence.event_held h.fresh h.accepted
  obtain ⟨hqs, hsf, hfl⟩ := h.accepted.sorted
  have hnow : stamps.lastToken ≤ trace.nowNs s.closePerf :=
    le_trans h.accepted.inside.2 (trace.nowNs_mono h.closed)
  obtain ⟨g, hg, hname, htype, hcounts⟩ := h.served.2
  have hobs : (s.event trace).observations = trace'.observations := by rw [hevent]; rfl
  have hat : (s.event trace).observations[s.gen]? = some g := hg
  obtain ⟨st, g₁, ht, _, hs1, he1⟩ : ∃ st, Held trace s.gen g₀ st trace' := by
    rcases hwait with hheld | ⟨o, _, _, hheld⟩
    · exact ⟨_, hheld⟩
    · exact ⟨_, hheld⟩
  obtain rfl : g₁ = g := by
    rw [hobs, ht.generation] at hat
    exact Option.some.inj hat
  rw [hstart] at hs1
  rw [hendg] at he1
  have hfirst : firstGeneration (s.event trace) = some g₁ := by
    rw [h.first] at hat
    obtain ⟨rest, hrest⟩ : ∃ rest, (s.event trace).observations = g₁ :: rest := by
      cases hl : (s.event trace).observations with
      | nil => rw [hl] at hat; cases hat
      | cons x rest => rw [hl] at hat; exact ⟨rest, by rw [Option.some.inj hat]⟩
    rw [firstGeneration, hrest, List.find?_cons_of_pos]
    exact decide_eq_true htype
  have hrec : Recorded (s.event trace) := by
    rw [hevent]
    exact ⟨fun o ho => (ht.recorded o ho).2, fun o ho => (ht.recorded o ho).1, ht.apiEnds⟩
  have hstage : lastNamed "waiting_to_first_schedule" (s.event trace).observations =
      lastNamed "waiting_to_first_schedule" (stagesOf trace'.observations) := by
    rw [lastNamed_stagesOf _ (by decide), hobs]
  have hw := h.waited
  rw [hobs, ← observedStages_stagesOf]
  let prefill := intervalNode (s.uuid 1) g₀ "prefill" stamps.scheduled stamps.firstToken
    (stageMetadata error (.int 0) 1 stamps.scheduled stamps.firstToken)
  let decode := intervalNode (s.uuid 2) g₀ "decode" stamps.firstToken stamps.lastToken
    (stageMetadata error (.int 0) (max 0 (output - 1)) stamps.firstToken stamps.lastToken)
  -- without and with a waiting interval
  rcases hwait with ⟨g₂, ht₂, _⟩ | ⟨o, ho, hos, g₂, ht₂, _⟩
  · rw [ht₂.stages] at hstage ⊢
    have hws : waitingStart stamps (s.event trace) = stamps.queued := by
      rw [waitingStart, hstage]
      rfl
    let queue := intervalNode (s.uuid 0) g₀ "queue" stamps.queued stamps.scheduled
      (stageMetadata error (.int 0) 1 stamps.queued stamps.scheduled)
    have hwaiting : (observedStages (stageNodes s.uuid g₀ error (max 0 (output - 1))
      stamps)).waiting = some queue := rfl
    have hprefill : (observedStages (stageNodes s.uuid g₀ error (max 0 (output - 1))
      stamps)).prefill = some prefill := rfl
    have hdecode : (observedStages (stageNodes s.uuid g₀ error (max 0 (output - 1))
      stamps)).decode = some decode := rfl
    rw [hws]
    exact ⟨g₁, decode, error, hfirst, hname, htype, hcounts, hs1, he1, hrec,
      h.accepted.inside.1, cuts_of_meeting hwaiting hprefill hdecode rfl h.accepted.inside.1 hqs
        hsf hfl hnow, hdecode, rfl⟩
  · rw [ht₂.stages] at hstage ⊢
    have hlast : lastNamed "waiting_to_first_schedule"
        (stageNodes s.uuid g₀ error (max 0 (output - 1)) stamps ++ [o]) = some o := by
      rw [lastNamed_append, if_pos ho]
    have hws : waitingStart stamps (s.event trace) = o.startNs := by
      rw [waitingStart, hstage, hlast]
      rfl
    have hne : ∀ name, name ≠ "waiting_to_first_schedule" →
        lastNamed name (stageNodes s.uuid g₀ error (max 0 (output - 1)) stamps ++ [o]) =
          lastNamed name (stageNodes s.uuid g₀ error (max 0 (output - 1)) stamps) := by
      intro name hn
      rw [lastNamed_append, if_neg (by rw [ho]; exact hn.symm)]
    rw [hws] at hw ⊢
    rw [hstart] at hos
    have hwaiting : (observedStages (stageNodes s.uuid g₀ error (max 0 (output - 1)) stamps ++
        [o])).waiting = some o := by
      show (lastNamed "waiting_to_first_schedule" _).or _ = some o
      rw [hlast]
      rfl
    have hprefill : (observedStages (stageNodes s.uuid g₀ error (max 0 (output - 1)) stamps ++
      [o])).prefill = some prefill := hne "prefill" (by decide)
    have hdecode : (observedStages (stageNodes s.uuid g₀ error (max 0 (output - 1)) stamps ++
      [o])).decode = some decode := hne "decode" (by decide)
    exact ⟨g₁, decode, error, hfirst, hname, htype, hcounts, hs1, he1, hrec, hos,
      cuts_of_meeting hwaiting hprefill hdecode rfl hos hw hsf hfl hnow, hdecode, rfl⟩

/-- What is sent of the request is a hierarchy, with every name exactly if none of
its stages is empty. -/
theorem SingleCall.hierarchy (h : SingleCall s trace stamps input output total) {event : Event}
    {uuid : ℕ → String} {nodes : List Node}
    (hobs : event.observations = (s.event trace).observations)
    (hapi : event.apiIntervals = (s.event trace).apiIntervals)
    (hstarted : event.startedNs = (s.event trace).startedNs)
    (hid : DistinctIds uuid event (rootNode event total) (firstGeneration event))
    (hnodes : timelineNodes uuid event (rootNode event total) (firstGeneration event) =
      .ok nodes) : ∃ g, Counts input output g.usage ∧
      Hierarchy (rootNode event total) g (stagesOfRequest s trace stamps total)
        (trace.startedNs + nanos total) (trace.nowNs s.closePerf) (max 0 (output - 1))
        (validNodes (trace.startedNs + nanos total) nodes) ∧
      ((∀ name ∈ expectedNames, ∃ n ∈ validNodes (trace.startedNs + nanos total) nodes,
        n.name = name) ↔ ∀ i ∈ stagesOfRequest s trace stamps total, i.2.1 < i.2.2) := by
  obtain ⟨g, d, error, hfirst, hname, htype, hcounts, hgs, hge, _, hgw, hcuts, hd, hmeta⟩ :=
    h.meeting
  have hserved := h.served.1
  have hstart : event.startedNs = trace.startedNs := hstarted.trans hserved.startedNs
  have hfirst' : firstGeneration event = some g := by rw [← hfirst, firstGeneration, hobs]; rfl
  rw [hfirst'] at hid hnodes
  have hend : (rootNode event total).endNs = some (trace.startedNs + nanos total) := by
    rw [← hstart]
    rfl
  have hgenstart : trace.startedNs ≤ g.startNs := by
    rw [hgs]
    have hmono := trace.nowNs_mono h.started
    rwa [RequestTrace.nowNs, sub_self, show nanos 0 = 0 by decide +kernel, add_zero] at hmono
  have hqs := h.accepted.sorted
  have hgenle : g.startNs ≤ trace.nowNs s.closePerf := by
    have h1 := h.accepted.inside
    have h2 := trace.nowNs_mono h.closed
    rw [hgs]
    obtain ⟨h3, h4, h5⟩ := hqs
    omega
  have hpositive := h.positive
  have hfinished := h.finished
  have hb : Bounds (rootNode event total) (some g) (trace.startedNs + nanos total) := by
    refine ⟨?_, ?_, fun g' hg' => ?_⟩
    · show 0 < event.startedNs
      omega
    · show event.startedNs ≤ _
      omega
    · cases hg'
      refine ⟨_, hge, ?_, hgenle, hfinished⟩
      show event.startedNs ≤ _
      omega
  have hseg := generation_segments hnodes rfl hid hge (by omega) hgenle
  obtain ⟨api, transfer, segs, details, ht, rfl⟩ := timelineNodes_timeline hnodes hend
  have hpos : 0 < trace.nowNs s.closePerf := by omega
  have hsegs : segs.map Segment.piece = (boundaryList g.startNs
      (waitingStart stamps (s.event trace)) stamps.scheduled stamps.firstToken stamps.lastToken
      (trace.nowNs s.closePerf)).filter fun i => nonempty i.2 := by
    have hspans := ht.segments_spans (by rw [genEnd_some hge hpos]; exact hgenle)
    rw [genEnd_some hge hpos, hobs, hgs, hcuts] at hspans
    rw [hspans, hgs]
    rfl
  have hdecode : ∀ n ∈ childrenOf g.id (rootNode event total ::
      (body (rootNode event total) (some g) api transfer segs
        (reparent event.apiIntervals details)).insertionSort keyOrder),
      n.name = modulePrefixed "decode" →
        ShowsDecode (millisecondsMetadata n.metadata.entries) (max 0 (output - 1)) := by
    intro n hn hdecode
    have hexported := hseg ▸ List.mem_map_of_mem (f := Node.exported) hn
    obtain ⟨i, _, he⟩ := List.mem_map.mp hexported
    have hmetadata : n.metadata = segmentMetadata _ i.1 := (congrArg Exported.metadata he).symm
    rw [show i.1 = n.name from congrArg Exported.name he, hdecode, hobs] at hmetadata
    rw [hmetadata]
    exact showsDecode_of_recorded error _ _ _ hd hmeta
  have htimed : ∀ n ∈ event.apiIntervals, n.type = .span ∧ n.name ∈ timedStages := by
    rw [hapi]
    exact hserved.timed
  have hhier := hierarchy_of_timeline ht hb hid ⟨rfl, rfl, rfl⟩ ⟨hname, htype⟩ htimed hge hsegs
    hdecode
  have hstages : requestStages (rootNode event total).startNs g.startNs
      (waitingStart stamps (s.event trace)) stamps.scheduled stamps.firstToken stamps.lastToken
      (trace.nowNs s.closePerf) (trace.startedNs + nanos total) =
      stagesOfRequest s trace stamps total := by
    rw [stagesOfRequest, hgs, ← hstart]
    rfl
  have hlisted := listed_iff ht hb hpos hsegs hhier
  rw [hstages] at hhier hlisted
  exact ⟨g, hcounts, hhier, hlisted⟩

end SingleCall

/-- **The audit passes exactly if no stage of the request was empty.** Whatever was
timed besides, a request of one sequence that the sink has sent is read back as rows,
in any order and on any clock that keeps the order, that pass the audit if and only if
each of its seven stages took time. -/
theorem served_request_audited (s : Sequence) (trace : RequestTrace) (stamps : Stamps)
    (input output : ℤ) (total : ℚ) (labels : Labels) (config : SinkConfig) (draw : ℚ)
    (uuid : ℕ → String) (delivers : List Span → Bool) (spans : List Span) (reader : Reader)
    (time : ℤ → ℤ) (shown : Span → Row) (rows : List Row)
    (h : SingleCall s trace stamps input output total) (hin : 0 < input) (hout : 0 < output)
    (hdemo : labels.model = "demo-model" → input = 8 ∧ output = 4)
    (hid : DistinctIds uuid (s.event trace) (rootNode (s.event trace) total)
      (firstGeneration (s.event trace)))
    (hexport : sinkCall config draw uuid delivers (labelled labels (s.event trace)) =
      .ok (some spans))
    (htime : ∀ a b, a ≤ b → time a ≤ time b)
    (hshown : ∀ span ∈ spans, Presents time span (shown span))
    (hrows : rows.Perm (spans.map shown)) :
    (∃ nodes, auditObservations reader rows trace.traceId labels.model = .ok nodes) ↔
      ∀ i ∈ stagesOfRequest s trace stamps total, i.2.1 < i.2.2 := by
  obtain ⟨why, residual, nodes, hnodes, rfl⟩ := sinkCall_spans hexport h.total
  have hserved := h.served.1
  have htrace : (labelled labels (s.event trace)).traceId = trace.traceId := hserved.traceId
  have hstart : (labelled labels (s.event trace)).startedNs = trace.startedNs := hserved.startedNs
  have hparent : (labelled labels (s.event trace)).parentSpanId.filter (· ≠ "") = none := by
    rw [show (labelled labels (s.event trace)).parentSpanId = none from
      hserved.parentSpanId.trans h.noParent]
    rfl
  obtain ⟨g, hcounts, hhier, hlisted⟩ := h.hierarchy rfl rfl rfl hid hnodes
  rw [hstart] at hshown hrows
  -- the rows are those of the nodes, in some order
  let rowOf := fun n => shown (spanOf config (labelled labels (s.event trace)) why residual
    (trace.startedNs + nanos total) n)
  have hpresents : ∀ n ∈ validNodes (trace.startedNs + nanos total) nodes, Presents time
      (spanOf config (labelled labels (s.event trace)) why residual
        (trace.startedNs + nanos total) n) (rowOf n) := fun n hn =>
    hshown _ (List.mem_reverse.mpr (List.mem_map_of_mem hn))
  have hshows : ∀ n ∈ validNodes (trace.startedNs + nanos total) nodes,
      ShowsNode time (labelled labels (s.event trace)) n (rowOf n) := fun n hn =>
    (hpresents n hn).shows hparent
  have hperm : rows.Perm ((validNodes (trace.startedNs + nanos total) nodes).map rowOf) := by
    refine hrows.trans ?_
    rw [List.map_reverse, List.map_map]
    exact List.reverse_perm _
  constructor
  · rintro ⟨_, haudit⟩
    refine hlisted.mp fun name hname => ?_
    obtain ⟨row, hrow, rfl⟩ := listed_of_audit haudit name hname
    obtain ⟨n, hn, rfl⟩ := List.mem_map.mp (hperm.mem_iff.mp hrow)
    exact ⟨n, hn, (hshows n hn).name.symm⟩
  · intro hne
    have hall := hlisted.mpr hne
    obtain ⟨n, hn, hname⟩ := hall "generate-response" (by decide)
    have hgen := hpresents _ (hhier.generation_of_name hn hname ▸ hn)
    have hexported : ExportedAs (labelled labels (s.event trace)) g
        (spanOf config (labelled labels (s.event trace)) why residual
          (trace.startedNs + nanos total)
          (underRoot (rootNode (labelled labels (s.event trace)) total) g)) :=
      spanOf_exportedAs hhier.generationNode.2.1 rfl
    have htokens : Counts input output
        (rowOf (underRoot (rootNode (s.event trace) total) g)).usageDetails := by
      rw [hgen.usage g.usage hexported.usage]
      exact hcounts
    have hpass := hhier.waterfall hshows hperm htime hall (hgen.model _ hexported.modelName)
      htokens
    rw [htrace] at hpass
    exact ⟨_, audit_ok reader hpass hin hout hdemo⟩

/-! ### A sample request -/

def withoutPrefix (front key : String) : Option String :=
  if front.toList <+: key.toList then some (String.ofList (key.toList.drop front.toList.length))
  else none

/-- An attribute that is shown as metadata. -/
def metadataEntry (e : String × Attribute) : Option (String × Json) :=
  match e.2 with
  | .value v => (withoutPrefix metadataPrefix e.1).map fun key => (key, v)
  | _ => none

/-- The row of a span. -/
def presented (time : ℤ → ℤ) (span : Span) : Row where
  id := span.id
  traceId := span.traceId
  parentObservationId := span.parentId
  name := span.name
  type := if span.isGeneration then "GENERATION" else "SPAN"
  startTime := time span.startNs
  endTime := time span.endNs
  model := match span.attributes.get? "langfuse.observation.model.name" with
    | some (.value (.str name)) => some name
    | _ => none
  usageDetails := match span.attributes.get? "langfuse.observation.usage_details" with
    | some (.dumps (.obj entries)) => Dict.ofList (entries.filterMap fun e => match e.2 with
      | .num (.int n) => some (e.1, n)
      | _ => none)
    | _ => Dict.empty
  metadata := Dict.ofList (span.attributes.entries.filterMap metadataEntry)

theorem withoutPrefix_eq_some {front key rest : String} :
    withoutPrefix front key = some rest ↔ key = front ++ rest := by
  unfold withoutPrefix
  constructor
  · intro h
    split at h
    · rename_i hs
      obtain ⟨back, hback⟩ := hs
      rw [← Option.some.inj h, ← String.toList_inj, String.toList_append, String.toList_ofList,
        ← hback]
      simp
    · cases h
  · rintro rfl
    rw [String.toList_append, if_pos (List.prefix_append _ _), List.drop_left, String.ofList_toList]

theorem metadataEntry_eq_some {e : String × Attribute} {key : String} {value : Json} :
    metadataEntry e = some (key, value) ↔ e = (metadataPrefix ++ key, .value value) := by
  obtain ⟨k, a⟩ := e
  cases a with
  | value v => simp [metadataEntry, withoutPrefix_eq_some]
  | _ => simp [metadataEntry]

theorem presents_presented (time : ℤ → ℤ) (span : Span) :
    Presents time span (presented time span) where
  id := rfl
  traceId := rfl
  parent := rfl
  name := rfl
  type := rfl
  startTime := rfl
  endTime := rfl
  model name h := by simp [presented, h]
  usage usage h := by
    have hentries : (usage.entries.map fun e => (e.1, Json.int e.2)).filterMap (fun e =>
        match e.2 with
        | .num (.int n) => some (e.1, n)
        | _ => none) = usage.entries := by
      rw [List.filterMap_map]
      exact List.filterMap_some
    rw [presented, h]
    show Dict.ofList _ = usage
    rw [hentries]
    exact Dict.ofList_entries usage
  metadata key value h := by
    have hnodup : ((span.attributes.entries.filterMap metadataEntry).map Prod.fst).Nodup := by
      refine List.pairwise_map.mpr ((List.pairwise_map.mp span.attributes.nodup).filterMap _ ?_)
      rintro a b hab ⟨k, v⟩ ha ⟨k', v'⟩ hb rfl
      rw [metadataEntry_eq_some.mp ha, metadataEntry_eq_some.mp hb] at hab
      exact hab rfl
    rw [presented, ← Dict.mem_entries_iff, Dict.entries_ofList hnodup]
    exact List.mem_filterMap.mpr ⟨_, Dict.mem_entries_iff.mpr h, metadataEntry_eq_some.mpr rfl⟩

def sampleLabels : Labels := ⟨"vllm", "llama", "host"⟩

theorem sampleSequence_single :
    SingleCall sampleSequence sampleTrace sampleStamps 5 3 21 where
  fresh := ⟨rfl, rfl, rfl⟩
  first := rfl
  timed a ha := by
    have ha : a ∈ [Activity.apiInterval "i" "render_input" 0 1 [], .setStatus .ok] := ha
    rcases List.mem_cons.mp ha with rfl | ha
    · show "render_input" ∈ timedStages
      decide
    · rw [List.mem_singleton.mp ha]
      trivial
  noParent := rfl
  positive := by decide
  started := by decide +kernel
  accepted := sampleSequence_accepted
  tokens := ⟨rfl, rfl⟩
  closed := by decide +kernel
  waited := by decide +kernel
  finished := by decide +kernel
  total := by decide +kernel

theorem served_request_audited_sample :
    ∃ spans, sinkCall everySample 0 drawnId (fun _ => true)
        (labelled sampleLabels (sampleSequence.event sampleTrace)) = .ok (some spans) ∧
      ∃ nodes, auditObservations sampleReader (spans.map (presented (· / 1000))) "t" "llama" =
        .ok nodes := by
  obtain ⟨spans, hspans⟩ := sent_of_isSome (show (sinkCall everySample 0 drawnId (fun _ => true)
    (labelled sampleLabels (sampleSequence.event sampleTrace))).toOption.join.isSome = true by
      decide +kernel)
  refine ⟨spans, hspans, (served_request_audited sampleSequence sampleTrace sampleStamps 5 3 21
    sampleLabels everySample 0 drawnId (fun _ => true) spans sampleReader (· / 1000)
    (presented (· / 1000)) _ sampleSequence_single (by decide) (by decide) (fun h => ?_) ?_ hspans
    (fun _ _ h => Int.ediv_le_ediv (by decide) h) (fun span _ => presents_presented _ span)
    (List.Perm.refl _)).mpr ?_⟩
  · exact absurd h (by decide)
  · unfold DistinctIds
    decide +kernel
  · decide +kernel

end VllmObserver.Scripts
