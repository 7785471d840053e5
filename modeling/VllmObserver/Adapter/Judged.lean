import VllmObserver.Adapter.Accepted

/-! # What becomes of a statistic

`record_timeline` counts a statistic first and then judges its clock and its
edges. The judgement depends on what the request carried, the start of its
generation and the present, and it determines the trace that is left. -/
namespace VllmObserver.Adapter
open VllmObserver.Lib VllmObserver.Core VllmObserver.Stages VllmObserver.Exporter

inductive Judgement where
  | raised (e : PyError)
  | refused (reason : String)
  | accepted (clock : Dict String String) (stamps : Stamps)

/-- The judgement on the stamps. -/
def judgeStamps (clock : Dict String String) (startNs nowNs : ℤ) (stamps : Stamps) : Judgement :=
  if stamps.sorted ∧ startNs ≤ stamps.queued ∧ stamps.lastToken ≤ nowNs then
    .accepted clock stamps
  else .refused "clock_skew_or_invalid_order"

/-- The judgement with the clock as it was read. -/
def judgeEdges (clock : Dict String String) (mono : Flt) (wall : ℤ) (raw : RawStats)
    (startNs nowNs : ℤ) : Judgement :=
  if (edges raw).all (fun value => value.isFinite && (Flt.fin 0).lt value) then
    match stampsWithin wall mono raw with
    | .error e => .raised e
    | .ok stamps => judgeStamps clock startNs nowNs stamps
  else .refused "incomplete_engine_timestamps"

def judge (reader : Reader) (raw : RawStats) (startNs nowNs : ℤ) : Judgement :=
  match raw.clock? with
  | none => .refused "missing_engine_clock"
  | some clock =>
    match lookup clock clockMono >>= reader.float with
    | .error e => .raised e
    | .ok mono =>
      match lookup clock clockUnix >>= reader.int with
      | .error e => .raised e
      | .ok wall => judgeEdges clock mono wall raw startNs nowNs

/-- The trace with another node of the generation. -/
def changed (gen : ℕ) (f : Node → Node) (trace : RequestTrace) : RequestTrace :=
  { trace with observations := trace.observations.modify gen f }

/-- The generation after its statistic number `n` was counted. -/
def counting (stat : FinishedStat) (n : ℤ) (g : Node) : Node :=
  withMetadata [("sequence_count", .int (n + 1))] (countTokens stat g)

/-- The generation is marked for a statistic without a timeline. -/
def marked (reason : String) (g : Node) : Node :=
  withMetadata [("timeline_unavailable", .str reason)] g

/-- The three stages of the sequence number `n`. -/
def sequenceNodes (uuid : ℕ → String) (g : Node) (error n count : ℤ) (stamps : Stamps) :
    List Node := [
  intervalNode (uuid 0) g "queue" stamps.queued stamps.scheduled
    (stageMetadata error (.int n) 1 stamps.queued stamps.scheduled),
  intervalNode (uuid 1) g "prefill" stamps.scheduled stamps.firstToken
    (stageMetadata error (.int n) 1 stamps.scheduled stamps.firstToken),
  intervalNode (uuid 2) g "decode" stamps.firstToken stamps.lastToken
    (stageMetadata error (.int n) count stamps.firstToken stamps.lastToken)]

/-- The trace with stages of the sequence, and their generation completed. -/
def completedTrace (gen : ℕ) (stat : FinishedStat) (n : ℤ) (stamps : Stamps) (nodes : List Node)
    (trace : RequestTrace) : RequestTrace :=
  { trace with
    observations := trace.observations.modify gen
      (completedBy stamps.firstToken ∘ counting stat n) ++ nodes }

section Changed
variable {gen : ℕ} {f f' : Node → Node} {g : Node} {trace : RequestTrace}

theorem changed_changed : changed gen f' (changed gen f trace) = changed gen (f' ∘ f) trace := by
  simp only [changed, List.modify_modify_eq]

theorem changed_generation (hg : trace.observations[gen]? = some g) :
    (changed gen f trace).observations[gen]? = some (f g) := by
  simp only [changed, List.getElem?_modify_eq, hg]
  rfl

theorem lt_of_generation (hg : trace.observations[gen]? = some g) :
    gen < trace.observations.length := (List.getElem?_eq_some_iff.mp hg).1

end Changed

section Judged
variable {reader : Reader} {uuid : ℕ → String} {perf : ℕ → ℚ} {gen : ℕ} {trace : RequestTrace}
  {g : Node} {stat : FinishedStat} {raw : RawStats}

/-- An interval in order is appended. -/
theorem interval_eq {uuid name : String} {a b : ℤ} {metadata : Metadata}
    (hg : trace.observations[gen]? = some g) (hle : a ≤ b) :
    Recording.interval uuid gen name a b metadata trace =
      ({ trace with observations :=
          trace.observations ++ [intervalNode uuid g name a b metadata] }, .ok ()) := by
  simp only [Recording.interval, hg, RequestTrace.interval, if_neg (not_lt.mpr hle)]
  rfl

theorem generation_append {observations : List Node} (hg : observations[gen]? = some g)
    (nodes : List Node) : (observations ++ nodes)[gen]? = some g := by
  rw [List.getElem?_append_left (List.getElem?_eq_some_iff.mp hg).1]
  exact hg

theorem completedTrace_generation (n : ℤ) (stamps : Stamps) (nodes : List Node)
    (hg : trace.observations[gen]? = some g) :
    (completedTrace gen stat n stamps nodes trace).observations[gen]? =
      some (completedBy stamps.firstToken (counting stat n g)) :=
  generation_append
    (changed_generation (f := completedBy stamps.firstToken ∘ counting stat n) hg) _

/-- The stages of stamps in order: where no float holds the count, the last one raises
behind the others. -/
theorem recordStages_eq (uuid : ℕ → String) {clock : Dict String String} {error n count : ℤ}
    {stamps : Stamps} (hg : trace.observations[gen]? = some g) (hs : stamps.sorted)
    (he : (lookup clock clockError >>= reader.int) = .ok error)
    (hc : decodeCount stat = .ok count) :
    ((Flt.fin count).inRange = true →
      recordStages reader uuid gen clock (.int n) stat stamps trace =
        ({ changed gen (completedBy stamps.firstToken) trace with
            observations := (changed gen (completedBy stamps.firstToken) trace).observations ++
              sequenceNodes uuid g error n count stamps }, .ok ())) ∧
    ((Flt.fin count).inRange = false →
      ∃ e, recordStages reader uuid gen clock (.int n) stat stamps trace =
        ({ changed gen (completedBy stamps.firstToken) trace with
            observations := (changed gen (completedBy stamps.firstToken) trace).observations ++
              (sequenceNodes uuid g error n count stamps).take 2 }, .error e)) := by
  obtain ⟨h1, h2, h3⟩ := hs
  have hg0 := changed_generation (f := completedBy stamps.firstToken) hg
  have hg1 := generation_append hg0 [intervalNode (uuid 0) (completedBy stamps.firstToken g)
    "queue" stamps.queued stamps.scheduled
    (stageMetadata error (.int n) 1 stamps.queued stamps.scheduled)]
  have hg2 := generation_append hg1 [intervalNode (uuid 1) (completedBy stamps.firstToken g)
    "prefill" stamps.scheduled stamps.firstToken
    (stageMetadata error (.int n) 1 stamps.scheduled stamps.firstToken)]
  rw [recordStages, andThen_ok rfl, hc,
    recordStage_divided (.int n) 0 "queue" _ _ he Flt.inRange_one,
    recordStage_divided (.int n) 1 "prefill" _ _ he Flt.inRange_one]
  constructor
  · intro hr
    refine (andThen_ok (interval_eq hg0 h1)).trans ((andThen_ok (interval_eq hg1 h2)).trans ?_)
    rw [recordStage_divided (.int n) 2 "decode" _ _ he hr]
    refine (interval_eq hg2 h3).trans ?_
    simp [changed, sequenceNodes, intervalNode, completedBy]
  · intro hr
    obtain ⟨e, hraised⟩ := recordStage_undivided uuid gen (.int n) 2 "decode"
      stamps.firstToken stamps.lastToken he hr
    refine ⟨e, (andThen_ok (interval_eq hg0 h1)).trans
      ((andThen_ok (interval_eq hg1 h2)).trans ?_)⟩
    rw [hraised]
    simp [Recording.raise, changed, sequenceNodes, intervalNode, completedBy]

/-- Without a readable error the first stage raises, behind the completion start. -/
theorem recordStages_raised {clock : Dict String String} {n count : ℤ} {stamps : Stamps}
    {e : PyError} (he : (lookup clock clockError >>= reader.int) = .error e)
    (hc : decodeCount stat = .ok count) :
    recordStages reader uuid gen clock (.int n) stat stamps trace =
      (changed gen (completedBy stamps.firstToken) trace, .error e) := by
  rw [recordStages, andThen_ok rfl, hc]
  simp only [Recording.withValue, recordStage, he]
  rfl

/-- What a judgement does to the trace, behind the counting. -/
def Judgement.recording (reader : Reader) (uuid : ℕ → String) (gen : ℕ) (n : ℤ)
    (stat : FinishedStat) : Judgement → Recording
  | .raised e => .raise e
  | .refused reason => setMetadata gen [("timeline_unavailable", .str reason)]
  | .accepted clock stamps => recordStages reader uuid gen clock (.int n) stat stamps

/-- Only stamps in order are compared with the generation and the present. -/
theorem judgeStamps_recording {clock : Dict String String} {n : ℤ} {stamps : Stamps}
    (hg : trace.observations[gen]? = some g) :
    (if stamps.sorted then
        Recording.ifWithin gen (perf 0) stamps.queued stamps.lastToken
          (recordStages reader uuid gen clock (.int n) stat stamps)
          (setMetadata gen [("timeline_unavailable", .str "clock_skew_or_invalid_order")])
      else setMetadata gen [("timeline_unavailable", .str "clock_skew_or_invalid_order")]) trace =
      (judgeStamps clock g.startNs (trace.nowNs (perf 0)) stamps).recording reader uuid gen n
        stat trace := by
  unfold judgeStamps
  by_cases hs : stamps.sorted
  · have hle : stamps.queued ≤ stamps.lastToken := le_trans hs.1 (le_trans hs.2.1 hs.2.2)
    rw [if_pos hs, Recording.ifWithin, hg]
    simp only [hs, hle, true_and]
    split <;> rfl
  · rw [if_neg hs, if_neg fun h => hs h.1]
    rfl

/-- **The statistic is counted, and then judged.** -/
theorem recordTimeline_eq (reader : Reader) (uuid : ℕ → String) (perf : ℕ → ℚ)
    (stat : FinishedStat) (raw : RawStats) {n : ℤ} (hg : trace.observations[gen]? = some g)
    (hn : sequenceIndex g = .int n) :
    recordTimeline reader uuid perf gen stat raw trace =
      (judge reader raw g.startNs (trace.nowNs (perf 0))).recording reader uuid gen n stat
        (changed gen (counting stat n) trace) := by
  have hg1 : (changed gen (countTokens stat) trace).observations[gen]? =
      some (countTokens stat g) := changed_generation hg
  have hg2 : (changed gen (counting stat n) trace).observations[gen]? =
      some (counting stat n g) := changed_generation hg
  have hseq : sequenceIndex (countTokens stat g) = .int n := hn
  have hcount : setMetadata gen [("sequence_count", .int (n + 1))]
      (changed gen (countTokens stat) trace) = (changed gen (counting stat n) trace, .ok ()) := by
    change (changed gen (withMetadata _) (changed gen (countTokens stat) trace), _) = _
    rw [changed_changed]
    rfl
  have htokens : Recording.onGeneration gen (countTokens stat) trace =
      (changed gen (countTokens stat) trace, .ok ()) := rfl
  rw [recordTimeline, andThen_ok htokens]
  simp only [hg1, hseq]
  change (Recording.andThen (setMetadata gen [("sequence_count", .int (n + 1))]) _)
    (changed gen (countTokens stat) trace) = _
  refine (andThen_ok hcount).trans ?_
  unfold judge
  cases raw.clock? with
  | none => rfl
  | some clock =>
    dsimp only
    cases lookup clock clockMono >>= reader.float with
    | error e => rfl
    | ok mono =>
      dsimp only [Recording.withValue]
      cases lookup clock clockUnix >>= reader.int with
      | error e => rfl
      | ok wall =>
        dsimp only [judgeEdges]
        split
        · cases stampsWithin wall mono raw with
          | error e => rfl
          | ok stamps => exact judgeStamps_recording (g := counting stat n g) hg2
        · rfl

/-- The trace that a refusal leaves. -/
theorem refused_recording {reason : String} {n : ℤ} :
    (Judgement.refused reason).recording reader uuid gen n stat
        (changed gen (counting stat n) trace) =
      (changed gen (marked reason ∘ counting stat n) trace, .ok ()) := by
  rw [← changed_changed]
  rfl

/-- The trace that an accepted statistic leaves. -/
theorem accepted_recording (reader : Reader) (uuid : ℕ → String) {clock : Dict String String}
    {error n count : ℤ} {stamps : Stamps} (hg : trace.observations[gen]? = some g)
    (hs : stamps.sorted) (he : (lookup clock clockError >>= reader.int) = .ok error)
    (hc : decodeCount stat = .ok count) :
    let nodes := sequenceNodes uuid g error n count stamps
    let left := (Judgement.accepted clock stamps).recording reader uuid gen n stat
      (changed gen (counting stat n) trace)
    ((Flt.fin count).inRange = true →
      left = (completedTrace gen stat n stamps nodes trace, .ok ())) ∧
    ((Flt.fin count).inRange = false →
      ∃ e, left = (completedTrace gen stat n stamps (nodes.take 2) trace, .error e)) := by
  intro nodes left
  obtain ⟨hwhole, hpart⟩ := recordStages_eq uuid (n := n)
    (changed_generation (f := counting stat n) hg) hs he hc
  refine ⟨fun hr => ?_, fun hr => ?_⟩
  · rw [show left = _ from hwhole hr, changed_changed]
    rfl
  · obtain ⟨e, hleft⟩ := hpart hr
    refine ⟨e, ?_⟩
    rw [show left = _ from hleft, changed_changed]
    rfl

end Judged

end VllmObserver.Adapter
