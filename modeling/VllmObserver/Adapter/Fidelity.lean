import VllmObserver.Adapter.Accepted
import VllmObserver.Lib.Runs

/-! # The stages of one sequence, from the engine to the timeline

A generation that received one accepted statistic is exported with the five
stages the engine measured: the exporter drops the ends of the waiting and the
prefill, but the recorders only let through stages that meet. -/
namespace VllmObserver.Adapter
open VllmObserver.Lib VllmObserver.Core VllmObserver.Stages VllmObserver.Exporter

/-! ## The life of a sequence -/

/-- What else happens to the trace of a request, recording no stage: other
generations begin and end, and the API process is timed. -/
inductive Activity (gen : ℕ) where
  | add (stage : String) (duration count : Number)
  | apiInterval (uuid name : String) (startedPerf endedPerf : ℚ) (metadata : List (String × Json))
  | setStatus (status : Status)
  | begin (uuid requestId : String) (perf : ℚ)
  | close (i : ℕ) (other : i ≠ gen) (perf : ℚ)

def Activity.apply {gen : ℕ} (trace : RequestTrace) : Activity gen → RequestTrace
  | .add stage duration count => trace.add stage duration count
  | .apiInterval uuid name startedPerf endedPerf metadata =>
    trace.apiInterval uuid name startedPerf endedPerf metadata
  | .setStatus status => { trace with status := status }
  | .begin uuid requestId perf => trace.beginGeneration uuid requestId perf
  | .close i _ perf => match trace.observations[i]? with
    -- only a generation is held by a generator that closes it
    | some node => if node.type = .generation then closeGeneration i perf trace else trace
    | none => trace

section Activity
variable {base trace : RequestTrace} {gen : ℕ} {g : Node} {stages : List Node}

theorem apiInterval_ends (h : ∀ n ∈ trace.apiIntervals, n.endNs ≠ none) (uuid name : String)
    (a b : ℚ) (metadata : List (String × Json)) :
    ∀ n ∈ (trace.apiInterval uuid name a b metadata).apiIntervals, n.endNs ≠ none := by
  unfold RequestTrace.apiInterval
  simp only
  split
  · intro n hn
    rcases List.mem_append.mp hn with hn | hn
    · exact h n hn
    · rw [List.mem_singleton.mp hn]
      exact Option.some_ne_none _
  · exact h

theorem apiInterval_keeps (trace : RequestTrace) (uuid name : String) (a b : ℚ)
    (metadata : List (String × Json)) :
    (trace.apiInterval uuid name a b metadata).observations = trace.observations ∧
      (trace.apiInterval uuid name a b metadata).startedNs = trace.startedNs ∧
      (trace.apiInterval uuid name a b metadata).started = trace.started := by
  unfold RequestTrace.apiInterval
  simp only
  split <;> exact ⟨rfl, rfl, rfl⟩

/-- The node of a generation that begins. -/
theorem begin_node (trace : RequestTrace) (uuid requestId : String) (perf : ℚ) :
    ∃ g, trace.beginGeneration uuid requestId perf =
        { trace with observations := trace.observations ++ [g] } ∧
      g.id = uuid ∧ g.type = .generation ∧ g.name ∉ stageNames ∧
      g.startNs = trace.nowNs perf ∧ g.endNs = none ∧ FreeKeys g.metadata ∧
      g.metadata.get? "sequence_count" = none :=
  ⟨_, rfl, rfl, rfl, (by decide : "generate-response" ∉ stageNames), rfl, rfl,
    freeKeys_ofList (by simp [segmentParameters]), rfl⟩

theorem stagesOf_unnamed {o : Node} (h : o.name ∉ stageNames) : stagesOf [o] = [] := by
  simp [stagesOf, h]

theorem Quiet.append_unnamed (h : Quiet base stages trace) {o : Node} (hn : o.name ∉ stageNames)
    (hk : FreeKeys o.metadata) :
    Quiet base stages { trace with observations := trace.observations ++ [o] } := by
  have ha := h.append hk (fun hs => absurd hs hn) fun _ => hn
  rwa [stagesOf_unnamed hn, List.append_nil] at ha

theorem Traced.append_unnamed (h : Traced base gen g stages trace) {o : Node}
    (hn : o.name ∉ stageNames) (hk : FreeKeys o.metadata) :
    Traced base gen g stages { trace with observations := trace.observations ++ [o] } := by
  have ha := h.append hk (fun hs => absurd hs hn) fun _ => hn
  rwa [stagesOf_unnamed hn, List.append_nil] at ha

/-- What an activity does to a trace: it leaves the observations alone, starts a
generation, or closes one that is not ours. -/
theorem Activity.apply_cases (ends : ∀ n ∈ trace.apiIntervals, n.endNs ≠ none)
    (a : Activity gen) :
    ((a.apply trace).observations = trace.observations ∧
      (∀ n ∈ (a.apply trace).apiIntervals, n.endNs ≠ none) ∧
      (a.apply trace).startedNs = trace.startedNs ∧ (a.apply trace).started = trace.started) ∨
    (∃ o, a.apply trace = { trace with observations := trace.observations ++ [o] } ∧
      o.name ∉ stageNames ∧ FreeKeys o.metadata) ∨
    (∃ i perf, i ≠ gen ∧ a.apply trace = closeGeneration i perf trace ∧
      ∀ x, trace.observations[i]? = some x → x.type = .generation) := by
  cases a with
  | add stage duration count => exact Or.inl ⟨rfl, ends, rfl, rfl⟩
  | apiInterval uuid name s e metadata =>
    obtain ⟨h1, h2, h3⟩ := apiInterval_keeps trace uuid name s e metadata
    exact Or.inl ⟨h1, apiInterval_ends ends uuid name s e metadata, h2, h3⟩
  | setStatus status => exact Or.inl ⟨rfl, ends, rfl, rfl⟩
  | begin uuid requestId perf =>
    obtain ⟨g, hg, _, _, hn, _, _, hk, _⟩ := begin_node trace uuid requestId perf
    exact Or.inr (Or.inl ⟨g, hg, hn, hk⟩)
  | close i other perf =>
    simp only [Activity.apply]
    split
    · rename_i node hnode
      split
      · rename_i ht
        refine Or.inr (Or.inr ⟨i, perf, other, rfl, fun x hx => ?_⟩)
        obtain rfl := Option.some.inj (hnode.symm.trans hx)
        exact ht
      · exact Or.inl ⟨rfl, ends, rfl, rfl⟩
    · exact Or.inl ⟨rfl, ends, rfl, rfl⟩

theorem Activity.quiet (h : Quiet base stages trace) (a : Activity gen) :
    Quiet base stages (a.apply trace) := by
  obtain ⟨ho, he, h1, h2⟩ | ⟨o, ha, hn, hk⟩ | ⟨i, perf, _, ha, ht⟩ := a.apply_cases h.apiEnds
  · exact h.congr ho he h1 h2
  · rw [ha]
    exact h.append_unnamed hn hk
  · rw [ha]
    exact h.modify fun x hx => ⟨ht x hx, rfl, id⟩

theorem Activity.traced (h : Traced base gen g stages trace) (a : Activity gen) :
    Traced base gen g stages (a.apply trace) := by
  obtain ⟨ho, he, h1, h2⟩ | ⟨o, ha, hn, hk⟩ | ⟨i, perf, other, ha, ht⟩ := a.apply_cases h.apiEnds
  · exact h.congr ho he h1 h2
  · rw [ha]
    exact h.append_unnamed hn hk
  · rw [ha]
    exact h.modify_ne other fun x hx => ⟨ht x hx, rfl, id⟩

theorem Held.run {g₀ : Node} (h : Held base gen g₀ stages trace) (acts : List (Activity gen)) :
    Held base gen g₀ stages (run Activity.apply trace acts) := by
  obtain ⟨g, ht, hid⟩ := h
  exact ⟨g, run_invariant_all Activity.apply (I := Traced base gen g stages)
    (fun _ a ha => Activity.traced ha a) ht, hid⟩

theorem Held.close {g₀ : Node} (h : Held base gen g₀ stages trace) (perf : ℚ) :
    Held base gen { g₀ with endNs := some (base.nowNs perf) } stages
      (closeGeneration gen perf trace) := by
  obtain ⟨g, ht, h1, h2, h3⟩ := h
  exact ⟨_, ht.modify rfl rfl id, h1, h2, congrArg some (ht.nowNs perf)⟩

theorem Waited.run {g₀ : Node} (h : Waited base gen g₀ stages trace) (acts : List (Activity gen)) :
    Waited base gen g₀ stages (run Activity.apply trace acts) := by
  rcases h with h | ⟨o, hn, hs, h⟩
  · exact Or.inl (h.run acts)
  · exact Or.inr ⟨o, hn, hs, h.run acts⟩

theorem Waited.close {g₀ : Node} (h : Waited base gen g₀ stages trace) (perf : ℚ) :
    Waited base gen { g₀ with endNs := some (base.nowNs perf) } stages
      (closeGeneration gen perf trace) := by
  rcases h with h | ⟨o, hn, hs, h⟩
  · exact Or.inl (h.close perf)
  · exact Or.inr ⟨o, hn, hs, h.close perf⟩

/-- The run of one sequence within a request: what happens to its trace, from
the first activity to the event. -/
structure Sequence where
  gen : ℕ
  id : String
  requestId : String
  reader : Reader
  uuid : ℕ → String
  stat : FinishedStat
  raw : RawStats
  beginPerf : ℚ
  updatePerf : ℕ → ℚ
  closePerf : ℚ
  finishPerf : ℚ
  before : List (Activity gen)
  during : List (Activity gen)
  after : List (Activity gen)
  late : List (Activity gen)

def Sequence.begun (s : Sequence) (trace : RequestTrace) : RequestTrace :=
  (run Activity.apply trace s.before).beginGeneration s.id s.requestId s.beginPerf

def Sequence.updated (s : Sequence) (trace : RequestTrace) : RequestTrace :=
  observedUpdate s.reader s.uuid s.updatePerf s.gen s.stat s.raw
    (run Activity.apply (s.begun trace) s.during)

def Sequence.event (s : Sequence) (trace : RequestTrace) : Event :=
  (run Activity.apply
    (closeGeneration s.gen s.closePerf (run Activity.apply (s.updated trace) s.after))
    s.late).finish s.finishPerf

/-- A trace that has recorded nothing, and the position of the generation. -/
structure Sequence.Fresh (s : Sequence) (trace : RequestTrace) : Prop where
  observations : trace.observations = []
  apiIntervals : trace.apiIntervals = []
  position : (run Activity.apply trace s.before).observations.length = s.gen

theorem Sequence.begun_traced {s : Sequence} (h : s.Fresh trace) : ∃ g,
    Traced trace s.gen g [] (s.begun trace) ∧ g.id = s.id ∧
      g.startNs = trace.nowNs s.beginPerf ∧ g.endNs = none ∧
      g.metadata.get? "sequence_count" = none := by
  have hq : Quiet trace [] trace := by
    refine ⟨by rw [h.observations]; rfl, ?_, ?_, ?_, rfl, rfl⟩
    · rw [h.observations]
      exact fun o ho => by cases ho
    · rw [h.observations]
      exact fun o ho => by cases ho
    · rw [h.apiIntervals]
      exact fun n hn => by cases hn
  have hb : Quiet trace [] (run Activity.apply trace s.before) :=
    run_invariant_all Activity.apply (I := Quiet trace []) (fun _ a ha => Activity.quiet ha a) hq
  obtain ⟨g, hg, hid, htype, hn, hstart, hend, hk, hseq⟩ :=
    begin_node (run Activity.apply trace s.before) s.id s.requestId s.beginPerf
  have ha := hb.append_unnamed hn hk
  rw [← hg] at ha
  refine ⟨g, ⟨ha, ⟨(run Activity.apply trace s.before).observations, [], ?_, h.position⟩, htype⟩,
    hid, ?_, hend, hseq⟩
  · rw [Sequence.begun, hg]
  · exact hstart.trans (RequestTrace.nowNs_congr hb.startedNs hb.started _)

/-- What the event of the sequence has recorded. -/
theorem Sequence.event_held {s : Sequence} {stamps : Stamps} {count : ℤ} (h : s.Fresh trace)
    (hacc : Accepted s.reader s.stat s.raw (trace.nowNs s.beginPerf)
      (trace.nowNs (s.updatePerf 0)) stamps count) :
    ∃ g error trace', s.event trace = trace'.finish s.finishPerf ∧
      g.id = s.id ∧ g.startNs = trace.nowNs s.beginPerf ∧
      g.endNs = some (trace.nowNs s.closePerf) ∧
      Waited trace s.gen g (stageNodes s.uuid g error count stamps) trace' := by
  obtain ⟨g, ht, hid, hstart, _, hseq⟩ := Sequence.begun_traced h
  have hd : Traced trace s.gen g [] (run Activity.apply (s.begun trace) s.during) :=
    run_invariant_all Activity.apply (I := Traced trace s.gen g [])
      (fun _ a ha => Activity.traced ha a) ht
  obtain ⟨error, hw⟩ := observedUpdate_accepted s.uuid hd hseq (by rw [hstart]; exact hacc)
  exact ⟨{ g with endNs := some (trace.nowNs s.closePerf) }, error, _, rfl, hid, hstart, rfl,
    ((hw.run s.after).close s.closePerf).run s.late⟩

end Activity

/-! ## The export -/

theorem lastNamed_stagesOf (name : String) (hn : name ∈ stageNames) (observations : List Node) :
    lastNamed name (stagesOf observations) = lastNamed name observations := by
  rw [lastNamed, stagesOf, List.filter_filter, lastNamed]
  congr 1
  refine List.filter_congr fun o _ => ?_
  by_cases h : o.name = name
  · simp [h, hn]
  · simp [h]

theorem observedStages_stagesOf (observations : List Node) :
    observedStages (stagesOf observations) = observedStages observations := by
  simp only [observedStages, lastNamed_stagesOf "queue" (by decide),
    lastNamed_stagesOf "waiting_to_first_schedule" (by decide),
    lastNamed_stagesOf "prefill" (by decide),
    lastNamed_stagesOf "decode" (by decide)]

/-- Stages that meet are cut where they were observed. -/
theorem cuts_of_meeting {stages : Stages} {w p d : Node} {l gs ge : ℤ}
    (hw : stages.waiting = some w) (hp : stages.prefill = some p) (hd : stages.decode = some d)
    (hl : d.endNs = some l) (h0 : gs ≤ w.startNs) (h1 : w.startNs ≤ p.startNs)
    (h2 : p.startNs ≤ d.startNs) (h3 : d.startNs ≤ l) (h4 : l ≤ ge) :
    stages.cuts gs ge = ⟨w.startNs, p.startNs, d.startNs, l⟩ := by
  simp only [Stages.cuts, Stages.wStart, Stages.pStart, Stages.dStart, Stages.dEnd, hw, hp, hd, hl,
    Option.map_some, Option.getD_some]
  rw [clamp_of_mem h0 (by omega), clamp_of_mem (by omega) (by omega : p.startNs ≤ ge),
    clamp_of_mem (by omega) (by omega : d.startNs ≤ ge), clamp_of_mem (by omega) h4,
    max_eq_right h1, max_eq_right h2, max_eq_right h3]

/-- The exported segment carries the aggregate recorded for its stage: the
count, the seconds of its own length, and their mean. -/
def Carries (n : Node) (count : ℤ) : Prop := ∃ seconds : ℚ,
  seconds * 1000000000 = (((nodeSpan n).2 - (nodeSpan n).1 : ℤ) : ℚ) ∧
  n.metadata.get? "count" = some (.int count) ∧
  n.metadata.get? "total_seconds" = some (.float (.fin seconds)) ∧
  n.metadata.get? "mean_seconds" = some (meanOf seconds count)

/-- A segment keeps what its stage says under a key that is not its own. -/
theorem segmentMetadata_get? {stages : Stages} {name key : String} {o : Node} {v : Json}
    (hx : segmentExtra stages name = ownMetadata o) (ht : key ≠ "timing_source")
    (hv : o.metadata.get? key = some v) : (segmentMetadata stages name).get? key = some v := by
  rw [segmentMetadata, hx, Dict.get?_update_dict, ownMetadata, Dict.get?_erase, if_neg ht, hv]
  rfl

theorem stageMetadata_get? (error : ℤ) (sequence : Json) (count a b : ℤ) :
    (stageMetadata error sequence count a b).get? "count" = some (.int count) ∧
    (stageMetadata error sequence count a b).get? "total_seconds" =
      some (.float (.fin (((b - a : ℤ) : ℚ) / 1000000000))) ∧
    (stageMetadata error sequence count a b).get? "mean_seconds" =
      some (meanOf (((b - a : ℤ) : ℚ) / 1000000000) count) := by
  refine ⟨?_, ?_, ?_⟩
  all_goals
    rw [stageMetadata, Dict.ofList, Dict.get?_update (by simp)]
    rfl

theorem segmentExtra_prefill {stages : Stages} {p : Node} (hp : stages.prefill = some p) :
    segmentExtra stages (modulePrefixed "prefill") = ownMetadata p := by
  have hne : modulePrefixed "prefill" ≠ modulePrefixed "decode" := by decide
  simp only [segmentExtra, stageExtra, hp, if_true, if_neg hne]
  cases stages.decode <;> rfl

theorem segmentExtra_decode {stages : Stages} {d : Node} (hd : stages.decode = some d) :
    segmentExtra stages (modulePrefixed "decode") = ownMetadata d := by
  simp only [segmentExtra, stageExtra, hd, if_true]

/-- A stage's segment carries the aggregate of the stage, when it spans it. -/
theorem carries_of_stage {stages : Stages} {name : String} {o n : Node} {error count a b : ℤ}
    (hx : segmentExtra stages name = ownMetadata o)
    (ho : o.metadata = stageMetadata error (.int 0) count a b)
    (hspan : nodeSpan n = (a, b)) (hn : n.metadata = segmentMetadata stages name) :
    Carries n count := by
  obtain ⟨h1, h2, h3⟩ := stageMetadata_get? error (.int 0) count a b
  rw [← ho] at h1 h2 h3
  refine ⟨((b - a : ℤ) : ℚ) / 1000000000, ?_, ?_, ?_, ?_⟩
  · rw [hspan, div_mul_cancel₀ _ (by norm_num)]
  · rw [hn, segmentMetadata_get? hx (by decide) h1]
  · rw [hn, segmentMetadata_get? hx (by decide) h2]
  · rw [hn, segmentMetadata_get? hx (by decide) h3]

/-- What meeting stages are exported as. -/
theorem exported_of_meeting {stages : Stages} {nodes : List Node} {gid : String} {w p d : Node}
    {error count l gs ge : ℤ}
    (h : (childrenOf gid nodes).map Node.exported = stageSegments stages gs ge)
    (hw : stages.waiting = some w) (hp : stages.prefill = some p) (hd : stages.decode = some d)
    (hl : d.endNs = some l)
    (hpm : p.metadata = stageMetadata error (.int 0) 1 p.startNs d.startNs)
    (hdm : d.metadata = stageMetadata error (.int 0) count d.startNs l)
    (h0 : gs ≤ w.startNs) (h1 : w.startNs ≤ p.startNs) (h2 : p.startNs ≤ d.startNs)
    (h3 : d.startNs ≤ l) (h4 : l ≤ ge) :
    (childrenOf gid nodes).map (fun n => (n.name, nodeSpan n)) =
      (boundaryList gs w.startNs p.startNs d.startNs l ge).filter (fun i => nonempty i.2) ∧
    ∀ n ∈ childrenOf gid nodes, (n.name = modulePrefixed "prefill" → Carries n 1) ∧
      (n.name = modulePrefixed "decode" → Carries n count) := by
  have hspans : (stages.cuts gs ge).spans gs ge =
      boundaryList gs w.startNs p.startNs d.startNs l ge := by
    rw [cuts_of_meeting hw hp hd hl h0 h1 h2 h3 h4, Cuts.spans]
  rw [stageSegments, hspans] at h
  constructor
  · have hmap := congrArg (List.map fun x => (x.name, x.span)) h
    rw [List.map_map, List.map_map] at hmap
    exact hmap.trans (List.map_id _)
  · intro n hn
    have hm := h ▸ List.mem_map_of_mem (f := Node.exported) hn
    obtain ⟨i, hi, he⟩ := List.mem_map.mp hm
    have hname : i.1 = n.name := congrArg Exported.name he
    have hspan : nodeSpan n = i.2 := (congrArg Exported.span he).symm
    have hmeta : n.metadata = segmentMetadata stages i.1 := (congrArg Exported.metadata he).symm
    have hmem := (List.mem_filter.mp hi).1
    rw [← hname]
    refine ⟨fun hx => ?_, fun hx => ?_⟩
    · obtain rfl := boundaryList_inj hmem (.tail _ (.tail _ (.head _))) hx
      exact carries_of_stage (segmentExtra_prefill hp) hpm hspan hmeta
    · obtain rfl := boundaryList_inj hmem (.tail _ (.tail _ (.tail _ (.head _)))) hx
      exact carries_of_stage (segmentExtra_decode hd) hdm hspan hmeta

/-- Where the waiting segment starts: at the recorded waiting, else at the queue. -/
def waitingStart (stamps : Stamps) (event : Event) : ℤ :=
  ((lastNamed "waiting_to_first_schedule" event.observations).map Node.startNs).getD stamps.queued

/-- **The exported stages of a sequence are those the engine measured.** A
generation that received one accepted statistic and ended after it is exported
with the hand-off, the waiting, the prefill, the decode and the rest, each from
where the one before it ended, without the empty ones. Prefill and decode carry
the count, the seconds and the mean recorded for them. -/
theorem stage_fidelity (s : Sequence) (trace : RequestTrace) (stamps : Stamps) (count : ℤ)
    (draw : ℕ → String) (root g : Node) (endNs : ℤ) (hfresh : s.Fresh trace)
    (hacc : Accepted s.reader s.stat s.raw (trace.nowNs s.beginPerf)
      (trace.nowNs (s.updatePerf 0)) stamps count)
    (hclose : s.updatePerf 0 ≤ s.closePerf)
    (hg : (s.event trace).observations[s.gen]? = some g)
    (hw : waitingStart stamps (s.event trace) ≤ stamps.scheduled)
    (hroot : root.parentId = none) (hend : root.endNs = some endNs) (hpos : 0 < g.startNs)
    (hid : DistinctIds draw (s.event trace) root (some g)) :
    g.startNs = trace.nowNs s.beginPerf ∧ g.endNs = some (trace.nowNs s.closePerf) ∧
    ∃ nodes, timelineNodes draw (s.event trace) root (some g) = .ok nodes ∧
      (childrenOf g.id nodes).map (fun n => (n.name, nodeSpan n)) = List.filter
        (fun i => nonempty i.2) [
          (modulePrefixed "engine_handoff", g.startNs, waitingStart stamps (s.event trace)),
          (modulePrefixed "waiting_to_first_schedule",
            waitingStart stamps (s.event trace), stamps.scheduled),
          (modulePrefixed "prefill", stamps.scheduled, stamps.firstToken),
          (modulePrefixed "decode", stamps.firstToken, stamps.lastToken),
          (modulePrefixed "engine_finalize", stamps.lastToken, trace.nowNs s.closePerf)] ∧
      ∀ n ∈ childrenOf g.id nodes, (n.name = modulePrefixed "prefill" → Carries n 1) ∧
        (n.name = modulePrefixed "decode" → Carries n count) := by
  obtain ⟨g₀, error, trace', hevent, _, hstart, hendg, hwait⟩ := Sequence.event_held hfresh hacc
  obtain ⟨hqs, hsf, hfl⟩ := hacc.sorted
  have hnow : stamps.lastToken ≤ trace.nowNs s.closePerf :=
    le_trans hacc.inside.2 (trace.nowNs_mono hclose)
  have hquiet : ∃ st, Held trace s.gen g₀ st trace' := by
    rcases hwait with h | ⟨o, _, _, h⟩
    · exact ⟨_, h⟩
    · exact ⟨_, h⟩
  obtain ⟨_, g₁, ht, _, hs1, he1⟩ := hquiet
  have hobs : (s.event trace).observations = trace'.observations := by rw [hevent]; rfl
  obtain rfl : g₁ = g := by
    rw [hobs, ht.generation] at hg
    exact Option.some.inj hg
  rw [hstart] at hs1
  rw [hendg] at he1
  refine ⟨hs1, he1, ?_⟩
  have hrec : Recorded (s.event trace) := by
    rw [hevent]
    exact ⟨fun o ho => (ht.recorded o ho).2, fun o ho => (ht.recorded o ho).1, ht.apiEnds⟩
  obtain ⟨nodes, hnodes⟩ : ∃ nodes, timelineNodes draw (s.event trace) root (some g₁) = .ok nodes :=
    timelineNodes_ok draw hrec hend (fun g' hg' => by cases hg'; simp [he1])
  have hle : g₁.startNs ≤ trace.nowNs s.closePerf := by
    rw [hs1]
    exact le_trans hacc.inside.1 (by omega)
  have hseg := generation_segments hnodes hroot hid he1 (by omega) hle
  refine ⟨nodes, hnodes, ?_⟩
  rw [hobs, ← observedStages_stagesOf] at hseg
  have hstage : lastNamed "waiting_to_first_schedule" (s.event trace).observations =
      lastNamed "waiting_to_first_schedule" (stagesOf trace'.observations) := by
    rw [lastNamed_stagesOf _ (by decide), hobs]
  -- without and with a waiting interval
  rcases hwait with ⟨g₂, ht₂, _⟩ | ⟨o, ho, hos, g₂, ht₂, _⟩
  · rw [ht₂.stages] at hseg hstage
    have hws : waitingStart stamps (s.event trace) = stamps.queued := by
      rw [waitingStart, hstage]
      rfl
    rw [hws]
    exact exported_of_meeting hseg rfl rfl rfl rfl rfl rfl (by rw [hs1]; exact hacc.inside.1)
      hqs hsf hfl hnow
  · rw [ht₂.stages] at hseg hstage
    have hlast : lastNamed "waiting_to_first_schedule"
        (stageNodes s.uuid g₀ error count stamps ++ [o]) = some o := by
      rw [lastNamed_append, if_pos ho]
    have hws : waitingStart stamps (s.event trace) = o.startNs := by
      rw [waitingStart, hstage, hlast]
      rfl
    have hne : ∀ name, name ≠ "waiting_to_first_schedule" →
        lastNamed name (stageNodes s.uuid g₀ error count stamps ++ [o]) =
          lastNamed name (stageNodes s.uuid g₀ error count stamps) := by
      intro name hn
      rw [lastNamed_append, if_neg (by rw [ho]; exact hn.symm)]
    rw [hws] at hw ⊢
    refine exported_of_meeting hseg (by rw [observedStages, hlast]; rfl)
      (hne "prefill" (by decide)) (hne "decode" (by decide)) rfl rfl rfl
      (by rw [hs1, ← hstart]; exact hos) hw hsf hfl hnow

/-! ## A sample sequence -/

/-- Reads the texts of the sample. -/
def sampleReader : Reader where
  float := fun text => if text = "7.0" then .ok (.fin 7) else .error (.valueError text)
  int := fun text =>
    if text = "7000000010" then .ok 7000000010
    else if text = "80" then .ok 80
    else .error (.valueError text)
  loads := fun _ => .ok (.obj [("waiting_enter", .int 3), ("first_schedule", .int 5)])

/-- Three tokens, scheduled at 5 and last seen at 7 on the engine's clock. -/
def sampleRaw : RawStats where
  queuedTs := .fin 2
  scheduledTs := .fin 5
  firstTokenTs := .fin 6
  lastTokenTs := .fin 7
  observerClock := some (Dict.ofList [(clockMono, "7.0"), (clockUnix, "7000000010"),
    (clockError, "80")])
  observerStages := some "\x7b\"waiting_enter\": 3, \"first_schedule\": 5\x7d"

def sampleSequence : Sequence where
  gen := 0
  id := "g"
  requestId := "request"
  reader := sampleReader
  uuid := fun i => ["o0", "o1", "o2", "o3", "o4"].getD i "o"
  stat := {
    numPromptTokens := some 5
    numGenerationTokens := some 3
    queuedTime := .float (.fin 3)
    prefillTime := .float (.fin 1)
    decodeTime := .float (.fin 1) }
  raw := sampleRaw
  beginPerf := 1
  updatePerf := fun _ => 8
  closePerf := 20
  finishPerf := 21
  before := []
  during := [.apiInterval "i" "render_input" 0 1 []]
  after := [.setStatus .ok]
  late := []

def sampleTrace : RequestTrace where
  traceId := "t"
  startedNs := 10
  started := 0
  rootSpanId := "r"

def sampleStamps : Stamps := ⟨2000000010, 5000000010, 6000000010, 7000000010⟩

def sampleRoot : Node := rootNode (sampleSequence.event sampleTrace) 21

/-- The generation of the sample, as it is exported. -/
def sampleGeneration : Node :=
  ((sampleSequence.event sampleTrace).observations[sampleSequence.gen]?).getD sampleRoot

theorem sampleGeneration_at : (sampleSequence.event sampleTrace).observations[sampleSequence.gen]? =
    some sampleGeneration := by
  have h : ((sampleSequence.event sampleTrace).observations[sampleSequence.gen]?).isSome =
      true := by decide +kernel
  obtain ⟨g, hg⟩ := Option.isSome_iff_exists.mp h
  rw [sampleGeneration, hg, Option.getD_some]

theorem sampleSequence_accepted : Accepted sampleReader sampleSequence.stat sampleRaw
    (sampleTrace.nowNs 1) (sampleTrace.nowNs 8) sampleStamps 2 where
  reads := ⟨_, .fin 7, 7000000010, 80, rfl, rfl, rfl, rfl, by decide +kernel⟩
  edges := by decide +kernel
  sorted := by decide
  inside := by decide +kernel
  divides := by decide +kernel
  count := rfl

theorem stage_fidelity_sample :
    sampleGeneration.startNs = 1000000010 ∧ sampleGeneration.endNs = some 20000000010 ∧
    ∃ nodes, timelineNodes drawnId (sampleSequence.event sampleTrace) sampleRoot
        (some sampleGeneration) = .ok nodes ∧
      (childrenOf sampleGeneration.id nodes).map (fun n => (n.name, nodeSpan n)) = [
        ("engine-core.engine_handoff", 1000000010, 3000000010),
        ("engine-core.waiting_to_first_schedule", 3000000010, 5000000010),
        ("engine-core.prefill", 5000000010, 6000000010),
        ("engine-core.decode", 6000000010, 7000000010),
        ("engine-core.engine_finalize", 7000000010, 20000000010)] ∧
      ∀ n ∈ childrenOf sampleGeneration.id nodes,
        (n.name = modulePrefixed "prefill" → Carries n 1) ∧
        (n.name = modulePrefixed "decode" → Carries n 2) := by
  obtain ⟨hstart, hend, nodes, hnodes, hspans, hcarries⟩ := stage_fidelity sampleSequence
    sampleTrace sampleStamps 2 drawnId sampleRoot sampleGeneration 21000000010 ⟨rfl, rfl, rfl⟩
    sampleSequence_accepted (by decide +kernel) sampleGeneration_at (by decide +kernel) rfl
    (by decide +kernel) (by decide +kernel) (by unfold DistinctIds; decide +kernel)
  exact ⟨hstart.trans (by decide +kernel), hend.trans (by decide +kernel), nodes, hnodes,
    hspans.trans (by decide +kernel), hcarries⟩

end VllmObserver.Adapter
