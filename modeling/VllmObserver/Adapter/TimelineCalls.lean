import VllmObserver.Adapter.Judged
import VllmObserver.Adapter.Recorders
import VllmObserver.Adapter.Fidelity
import Mathlib.Data.List.Induction

/-! # A sequence of timelines

The statistics of parallel sequences are recorded one after the other on the node
of their generation. Each one is counted; its three spans are appended all
together, or the generation is marked. Only where floats do not reach from the clock
to an edge, or cannot hold the number of decode steps, a conversion raises between
the two. -/
namespace VllmObserver.Adapter
open VllmObserver.Lib VllmObserver.Core VllmObserver.Stages

/-- One call of `record_timeline`. -/
structure TimelineCall where
  stat : FinishedStat
  raw : RawStats
  uuid : ℕ → String
  perf : ℕ → ℚ

def TimelineCall.apply (reader : Reader) (gen : ℕ) (trace : RequestTrace) (call : TimelineCall) :
    RequestTrace :=
  (recordTimeline reader call.uuid call.perf gen call.stat call.raw trace).1

/-- A finite instant of the engine on the wall clock. -/
def stampAt (wall : ℤ) (mono edge : ℚ) : ℤ := wall + truncate ((edge - mono) * 1000000000)

/-- The stamps of the statistic are non-decreasing and inside the bounds. -/
structure StampsInside (wall : ℤ) (mono q s f l : ℚ) (startNs nowNs : ℤ) : Prop where
  queued : startNs ≤ stampAt wall mono q
  scheduled : stampAt wall mono q ≤ stampAt wall mono s
  firstToken : stampAt wall mono s ≤ stampAt wall mono f
  lastToken : stampAt wall mono f ≤ stampAt wall mono l
  now : stampAt wall mono l ≤ nowNs

/-- A clock is present, the edges are finite and positive, and their stamps are
there, non-decreasing and inside the bounds. -/
def ValidTimeline (reader : Reader) (raw : RawStats) (startNs nowNs : ℤ) : Prop :=
  ∃ clock mono wall error q s f l, raw.clock? = some clock ∧
    calibration reader clock = .ok (.fin mono, wall, error) ∧
    edges raw = [.fin q, .fin s, .fin f, .fin l] ∧ (0 < q ∧ 0 < s ∧ 0 < f ∧ 0 < l) ∧
    InReach (.fin mono) raw ∧ StampsInside wall mono q s f l startNs nowNs

/-- The stamps that the clock of a statistic gives its edges. -/
def StampsRead (reader : Reader) (raw : RawStats) (stamps : Stamps) : Prop :=
  ∃ clock mono wall error, raw.clock? = some clock ∧
    calibration reader clock = .ok (mono, wall, error) ∧
    stampsWithin wall mono raw = .ok stamps

/-- Floats reach from the clock to the edges, should these be finite and positive. -/
def WithinReach (reader : Reader) (raw : RawStats) : Prop :=
  ∀ clock mono wall error q s f l, raw.clock? = some clock →
    calibration reader clock = .ok (mono, wall, error) →
    edges raw = [.fin q, .fin s, .fin f, .fin l] → (0 < q ∧ 0 < s ∧ 0 < f ∧ 0 < l) →
    InReach mono raw

/-- Should the timeline be valid, a float holds the number of its decode steps, and the
mean of a step can be divided. -/
def MeanDivides (reader : Reader) (raw : RawStats) (stat : FinishedStat) (startNs nowNs : ℤ) :
    Prop :=
  ValidTimeline reader raw startNs nowNs →
    ∀ count, decodeCount stat = .ok count → (Flt.fin count).inRange = true

/-- Floats can work with the numbers of a call. -/
structure Calculable (reader : Reader) (gen : ℕ) (call : TimelineCall) (before : RequestTrace) :
    Prop where
  reach : WithinReach reader call.raw
  divides : ∀ g, before.observations[gen]? = some g →
    MeanDivides reader call.raw call.stat g.startNs (before.nowNs (call.perf 0))

/-- The clock is absent, or its entries are numbers. -/
def ReadableClock (reader : Reader) (raw : RawStats) : Prop :=
  ∀ clock, raw.clock? = some clock →
    ∃ mono wall error, calibration reader clock = .ok (.fin mono, wall, error)

/-- A recorded stage of the sequence number `n`. -/
structure StageSpan (g : Node) (n : ℤ) (name : String) (startNs endNs : ℤ) (total : ℚ) (o : Node) :
    Prop where
  name : o.name = name
  isSpan : o.type = .span
  parent : o.parentId = some g.id
  startNs : o.startNs = startNs
  endNs : o.endNs = some endNs
  sequence : o.metadata.get? "sequence_index" = some (.int n)
  totalSeconds : o.metadata.get? "total_seconds" = some (.float (.fin total))
  meanSeconds : ∃ count mean, o.metadata.get? "count" = some (.int count) ∧
    o.metadata.get? "mean_seconds" = some mean ∧
    (0 < count → ∃ m : ℚ, mean = .float (.fin m) ∧ m * (count : ℚ) = total)

/-- The spans are those of one sequence: queue, prefill and decode stand between its
stamps, which are in order and between the bounds, and add up. -/
def ThreeStages (g : Node) (n : ℤ) (startNs nowNs : ℤ) (stamps : Stamps) (spans : List Node) :
    Prop :=
  ∃ queue prefill decode t₁ t₂ t₃, spans = [queue, prefill, decode] ∧
    StageSpan g n "queue" stamps.queued stamps.scheduled t₁ queue ∧
    StageSpan g n "prefill" stamps.scheduled stamps.firstToken t₂ prefill ∧
    StageSpan g n "decode" stamps.firstToken stamps.lastToken t₃ decode ∧
    startNs ≤ stamps.queued ∧ stamps.sorted ∧ stamps.lastToken ≤ nowNs ∧
    t₁ + t₂ + t₃ = ((stamps.lastToken - stamps.queued : ℤ) : ℚ) / 1000000000

/-- What one call does to the trace, for the sequence number `n`. -/
def CallOutcome (reader : Reader) (gen : ℕ) (call : TimelineCall) (n : ℤ)
    (before after : RequestTrace) : Prop :=
  ∃ g, before.observations[gen]? = some g ∧
    ((ValidTimeline reader call.raw g.startNs (before.nowNs (call.perf 0)) ∧
      ∃ stamps spans, StampsRead reader call.raw stamps ∧
        after = { before with
          observations := before.observations.modify gen
            (completedBy stamps.firstToken ∘ counting call.stat n) ++ spans } ∧
        ThreeStages g n g.startNs (before.nowNs (call.perf 0)) stamps spans) ∨
    (¬ ValidTimeline reader call.raw g.startNs (before.nowNs (call.perf 0)) ∧
      ∃ reason, after = changed gen (marked reason ∘ counting call.stat n) before))

/-- The node of the generation after the calls. -/
structure Summed (g : Node) (n : ℤ) (calls : List TimelineCall) (g' : Node) : Prop where
  id : g'.id = g.id
  startNs : g'.startNs = g.startNs
  sequence : sequenceIndex g' = .int (n + calls.length)
  input : (g'.usage.get? "input").getD 0 =
    (g.usage.get? "input").getD 0 + (calls.map fun call => call.stat.numPromptTokens.getD 0).sum
  output : (g'.usage.get? "output").getD 0 = (g.usage.get? "output").getD 0 +
    (calls.map fun call => call.stat.numGenerationTokens.getD 0).sum

/-! ## The judgement on a readable clock -/

section Judgement
variable {reader : Reader} {raw : RawStats} {startNs nowNs : ℤ}

theorem finite_positive {x : Flt} :
    (x.isFinite && (Flt.fin 0).lt x) = true ↔ ∃ q, x = .fin q ∧ 0 < q := by
  cases x with
  | fin q => simp [Flt.isFinite]
  | inf s => simp [Flt.isFinite]
  | nan => simp [Flt.isFinite]

theorem edges_positive :
    (edges raw).all (fun value => value.isFinite && (Flt.fin 0).lt value) = true ↔
      ∃ q s f l, edges raw = [.fin q, .fin s, .fin f, .fin l] ∧
        (0 < q ∧ 0 < s ∧ 0 < f ∧ 0 < l) := by
  simp only [edges, List.all_cons, List.all_nil, Bool.and_true]
  rw [Bool.and_eq_true_iff, finite_positive, Bool.and_eq_true_iff, finite_positive,
    Bool.and_eq_true_iff, finite_positive, finite_positive]
  constructor
  · rintro ⟨⟨q, hq, h1⟩, ⟨s, hs, h2⟩, ⟨f, hf, h3⟩, ⟨l, hl, h4⟩⟩
    exact ⟨q, s, f, l, by rw [hq, hs, hf, hl], h1, h2, h3, h4⟩
  · rintro ⟨q, s, f, l, h, h1, h2, h3, h4⟩
    simp only [List.cons.injEq, and_true] at h
    exact ⟨⟨q, h.1, h1⟩, ⟨s, h.2.1, h2⟩, ⟨f, h.2.2.1, h3⟩, ⟨l, h.2.2.2, h4⟩⟩

theorem calibrated_fin (wall : ℤ) (mono edge : ℚ) :
    calibrated wall (.fin mono) (.fin edge) = .ok (stampAt wall mono edge) := by
  simp [calibrated, Flt.sub, Flt.neg, Flt.add, Flt.scale, intOf, stampAt, sub_eq_add_neg]

theorem stampsOf_fin {wall : ℤ} {mono q s f l : ℚ}
    (h : edges raw = [.fin q, .fin s, .fin f, .fin l]) :
    stampsOf wall (.fin mono) raw = .ok ⟨stampAt wall mono q, stampAt wall mono s,
      stampAt wall mono f, stampAt wall mono l⟩ := by
  simp only [edges, List.cons.injEq, and_true] at h
  simp [stampsOf, h.1, h.2.1, h.2.2.1, h.2.2.2, calibrated_fin]

/-- Where floats do not reach, an instant raises. -/
theorem stampsWithin_raised (wall : ℤ) {mono : Flt} (hreach : ¬ InReach mono raw) :
    ∃ e, stampsWithin wall mono raw = .error e := by
  cases hstamps : stampsWithin wall mono raw with
  | error e => exact ⟨e, rfl⟩
  | ok stamps => exact absurd (stampsWithin_ok_iff.mp hstamps).1 hreach

/-- On a readable clock the statistic is accepted if its timeline is valid, and
refused if it is not, but for edges that floats do not reach. -/
theorem judge_readable (hclock : ReadableClock reader raw) :
    (ValidTimeline reader raw startNs nowNs ∧ WithinReach reader raw ∧ ∃ clock stamps error,
      judge reader raw startNs nowNs = .accepted clock stamps ∧ StampsRead reader raw stamps ∧
      stamps.sorted ∧ startNs ≤ stamps.queued ∧ stamps.lastToken ≤ nowNs ∧
      (lookup clock clockError >>= reader.int) = .ok error) ∨
    (¬ ValidTimeline reader raw startNs nowNs ∧ WithinReach reader raw ∧
      ∃ reason, judge reader raw startNs nowNs = .refused reason) ∨
    (¬ WithinReach reader raw ∧ ∃ e, judge reader raw startNs nowNs = .raised e) := by
  unfold judge
  cases hraw : raw.clock? with
  | none =>
    refine Or.inr (Or.inl ⟨?_, ?_, _, rfl⟩)
    · rintro ⟨clock, _, _, _, _, _, _, _, hsome, _⟩
      cases hraw.symm.trans hsome
    · intro clock _ _ _ _ _ _ _ hsome
      cases hraw.symm.trans hsome
  | some clock =>
    obtain ⟨mono, wall, error, hcal⟩ := hclock clock hraw
    obtain ⟨hmono, hwall, herror⟩ := calibration_spec hcal
    dsimp only
    rw [hmono, hwall]
    dsimp only [judgeEdges]
    by_cases hedges : (edges raw).all (fun value => value.isFinite && (Flt.fin 0).lt value) = true
    · obtain ⟨q, s, f, l, heq, hpos⟩ := edges_positive.mp hedges
      rw [if_pos hedges]
      by_cases hreach : InReach (.fin mono) raw
      · have hreached : WithinReach reader raw := by
          intro clock' mono' wall' error' _ _ _ _ hraw' hcal' _ _
          cases hraw.symm.trans hraw'
          cases hcal.symm.trans hcal'
          exact hreach
        have hstamps : stampsWithin wall (.fin mono) raw = _ :=
          stampsWithin_ok_iff.mpr ⟨hreach, stampsOf_fin heq⟩
        rw [hstamps]
        dsimp only [judgeStamps]
        split
        · rename_i hin
          obtain ⟨⟨h1, h2, h3⟩, h0, h4⟩ := hin
          exact Or.inl ⟨⟨clock, mono, wall, error, q, s, f, l, hraw, hcal, heq, hpos, hreach,
            ⟨h0, h1, h2, h3, h4⟩⟩, hreached, clock, _, error, rfl,
            ⟨clock, _, wall, error, hraw, hcal, hstamps⟩, ⟨h1, h2, h3⟩, h0, h4, herror⟩
        · rename_i hout
          refine Or.inr (Or.inl ⟨?_, hreached, _, rfl⟩)
          rintro ⟨clock', mono', wall', error', q', s', f', l', hraw', hcal', heq', _, _, hin⟩
          cases hraw.symm.trans hraw'
          cases hcal.symm.trans hcal'
          cases heq.symm.trans heq'
          exact hout ⟨⟨hin.scheduled, hin.firstToken, hin.lastToken⟩, hin.queued, hin.now⟩
      · obtain ⟨e, he⟩ := stampsWithin_raised wall hreach
        rw [he]
        exact Or.inr (Or.inr ⟨fun h => hreach (h clock _ wall error q s f l hraw hcal heq hpos),
          e, rfl⟩)
    · rw [if_neg hedges]
      refine Or.inr (Or.inl ⟨?_, ?_, _, rfl⟩)
      · rintro ⟨_, _, _, _, q, s, f, l, _, _, heq, hpos, _⟩
        exact hedges (edges_positive.mpr ⟨q, s, f, l, heq, hpos⟩)
      · intro _ _ _ _ q s f l _ _ heq hpos
        exact absurd (edges_positive.mpr ⟨q, s, f, l, heq, hpos⟩) hedges

/-- A valid timeline is accepted. -/
theorem judge_valid (h : ValidTimeline reader raw startNs nowNs) :
    ∃ clock stamps error, judge reader raw startNs nowNs = .accepted clock stamps ∧
      stamps.sorted ∧ (lookup clock clockError >>= reader.int) = .ok error ∧
      StampsRead reader raw stamps := by
  obtain ⟨clock, mono, wall, error, q, s, f, l, hraw, hcal, heq, hpos, hreach, hin⟩ := h
  obtain ⟨hmono, hwall, herror⟩ := calibration_spec hcal
  have hs : (⟨stampAt wall mono q, stampAt wall mono s, stampAt wall mono f,
      stampAt wall mono l⟩ : Stamps).sorted := ⟨hin.scheduled, hin.firstToken, hin.lastToken⟩
  have hstamps : stampsWithin wall (.fin mono) raw = _ :=
    stampsWithin_ok_iff.mpr ⟨hreach, stampsOf_fin heq⟩
  refine ⟨clock, _, error, ?_, hs, herror, clock, _, wall, error, hraw, hcal, hstamps⟩
  unfold judge
  rw [hraw]
  dsimp only
  rw [hmono, hwall]
  dsimp only [judgeEdges]
  rw [if_pos (edges_positive.mpr ⟨q, s, f, l, heq, hpos⟩), hstamps]
  exact if_pos ⟨hs, hin.queued, hin.now⟩

end Judgement

/-! ## One call -/

section Call
variable {reader : Reader} {gen : ℕ} {call : TimelineCall} {trace : RequestTrace} {g : Node} {n : ℤ}

theorem stageMetadata_sequence (error : ℤ) (sequence : Json) (count a b : ℤ) :
    (stageMetadata error sequence count a b).get? "sequence_index" = some sequence := by
  rw [stageMetadata, Dict.ofList, Dict.get?_update (by simp)]
  rfl

theorem meanOf_pos {duration : ℚ} {repetitions : ℤ} (h : 0 < repetitions) :
    ∃ m : ℚ, meanOf duration repetitions = .float (.fin m) ∧ m * (repetitions : ℚ) = duration := by
  refine ⟨duration / repetitions, if_neg h.ne', ?_⟩
  have hne : (repetitions : ℚ) ≠ 0 := by exact_mod_cast h.ne'
  exact div_mul_cancel₀ duration hne

theorem stageSpan_intervalNode (uuid name : String) (error n repetitions a b : ℤ) :
    StageSpan g n name a b (((b - a : ℤ) : ℚ) / 1000000000)
      (intervalNode uuid g name a b (stageMetadata error (.int n) repetitions a b)) := by
  obtain ⟨hcount, htotal, hmean⟩ := stageMetadata_get? error (.int n) repetitions a b
  exact ⟨rfl, rfl, rfl, rfl, rfl, stageMetadata_sequence error (.int n) repetitions a b, htotal,
    _, _, hcount, hmean, meanOf_pos⟩

theorem threeStages_sequenceNodes (uuid : ℕ → String) (g : Node) (error n count : ℤ)
    {startNs nowNs : ℤ} {stamps : Stamps} (hs : stamps.sorted) (hstart : startNs ≤ stamps.queued)
    (hnow : stamps.lastToken ≤ nowNs) :
    ThreeStages g n startNs nowNs stamps (sequenceNodes uuid g error n count stamps) := by
  refine ⟨_, _, _, _, _, _, rfl, stageSpan_intervalNode .., stageSpan_intervalNode ..,
    stageSpan_intervalNode .., hstart, hs, hnow, ?_⟩
  rw [← add_div, ← add_div]
  congr 1
  push_cast
  ring

theorem countTokens_usage (stat : FinishedStat) (g : Node) :
    ((countTokens stat g).usage.get? "input").getD 0 =
      (g.usage.get? "input").getD 0 + stat.numPromptTokens.getD 0 ∧
    ((countTokens stat g).usage.get? "output").getD 0 =
      (g.usage.get? "output").getD 0 + stat.numGenerationTokens.getD 0 := by
  unfold countTokens
  cases stat.numPromptTokens <;> cases stat.numGenerationTokens <;> simp [Dict.get?_set]

/-- The counted generation, whatever else is noted on it. -/
theorem summed_counting (call : TimelineCall) (g : Node) (n : ℤ) {f : Node → Node}
    (hf : ∀ g, (f g).id = g.id ∧ (f g).startNs = g.startNs ∧ (f g).usage = g.usage ∧
      sequenceIndex (f g) = sequenceIndex g) :
    Summed g n [call] ((f ∘ counting call.stat n) g) := by
  obtain ⟨hid, hstart, husage, hindex⟩ := hf (counting call.stat n g)
  obtain ⟨hinput, houtput⟩ := countTokens_usage call.stat g
  refine ⟨hid, hstart, hindex.trans (sequenceIndex_count _ _), ?_, ?_⟩
  · rw [Function.comp_apply, husage, List.map_singleton, List.sum_singleton]
    exact hinput
  · rw [Function.comp_apply, husage, List.map_singleton, List.sum_singleton]
    exact houtput

theorem counting_mark (stat : FinishedStat) (n : ℤ) (g : Node) :
    (counting stat n g).metadata.get? "timeline_unavailable" =
      g.metadata.get? "timeline_unavailable" := by
  rw [counting, withMetadata, Dict.get?_update_of_not_mem (by simp)]
  rfl

/-- A call that only counts has neither of the outcomes. -/
theorem not_outcome_of_counting (hg : trace.observations[gen]? = some g)
    (hmark : g.metadata.get? "timeline_unavailable" = none) :
    ¬ CallOutcome reader gen call n trace (changed gen (counting call.stat n) trace) := by
  rintro ⟨g', hg', ⟨_, stamps, spans, _, hafter, hstages⟩ | ⟨_, reason, hafter⟩⟩
  · obtain ⟨_, _, _, _, _, _, rfl, _⟩ := hstages
    have hlength := congrArg (fun trace : RequestTrace => trace.observations.length) hafter
    simp only [changed, List.length_append, List.length_modify, List.length_cons,
      List.length_nil] at hlength
    omega
  · obtain rfl := Option.some.inj (hg.symm.trans hg')
    have hnode := congrArg (fun trace : RequestTrace => trace.observations[gen]?) hafter
    simp only [changed_generation hg] at hnode
    have hmarked := congrArg (fun g : Node => g.metadata.get? "timeline_unavailable")
      (Option.some.inj hnode)
    simp only [Function.comp_apply, counting_mark, hmark, marked] at hmarked
    rw [withMetadata, Dict.get?_update (by simp)] at hmarked
    cases hmarked

/-- A call that breaks off between the three spans has neither. -/
theorem not_outcome_of_part (stamps : Stamps) {nodes : List Node} (hnodes : nodes.length = 2) :
    ¬ CallOutcome reader gen call n trace
      (completedTrace gen call.stat n stamps nodes trace) := by
  rintro ⟨g, _, ⟨_, stamps', spans, _, hafter, hstages⟩ | ⟨_, reason, hafter⟩⟩
  · obtain ⟨_, _, _, _, _, _, rfl, _⟩ := hstages
    have hlength := congrArg (fun trace : RequestTrace => trace.observations.length) hafter
    simp only [completedTrace, List.length_append, List.length_modify, List.length_cons,
      List.length_nil, hnodes] at hlength
    omega
  · have hlength := congrArg (fun trace : RequestTrace => trace.observations.length) hafter
    simp only [completedTrace, changed, List.length_append, List.length_modify, hnodes] at hlength
    omega

/-- **One call** appends the three spans or marks the generation exactly if floats can
work with its numbers, and counts in any case. -/
theorem timeline_call (hg : trace.observations[gen]? = some g) (hn : sequenceIndex g = .int n)
    (hclock : ReadableClock reader call.raw) (hcount : call.stat.numGenerationTokens ≠ none) :
    (Calculable reader gen call trace →
      CallOutcome reader gen call n trace (call.apply reader gen trace)) ∧
    (g.metadata.get? "timeline_unavailable" = none →
      CallOutcome reader gen call n trace (call.apply reader gen trace) →
      Calculable reader gen call trace) ∧
    ∃ g', (call.apply reader gen trace).observations[gen]? = some g' ∧
      Summed g n [call] g' := by
  obtain ⟨count, hdecode⟩ := exists_decodeCount hcount
  unfold TimelineCall.apply
  rw [recordTimeline_eq reader call.uuid call.perf call.stat call.raw hg hn]
  rcases judge_readable hclock with
    ⟨hvalid, hreached, clock, stamps, error, hjudge, hread, hs, hstart, hnow, herror⟩ |
      ⟨hnot, hreached, reason, hjudge⟩ | ⟨hnot, e, hjudge⟩
  · have hsummed (nodes : List Node) : ∃ g',
        (completedTrace gen call.stat n stamps nodes trace).observations[gen]? = some g' ∧
          Summed g n [call] g' :=
      ⟨_, completedTrace_generation n stamps nodes hg, summed_counting call g n
        (f := completedBy stamps.firstToken) fun _ => ⟨rfl, rfl, rfl, rfl⟩⟩
    obtain ⟨hwhole, hpart⟩ := accepted_recording reader call.uuid (n := n) hg hs herror hdecode
    rw [hjudge]
    cases hdivides : (Flt.fin count).inRange with
    | true =>
      rw [hwhole hdivides]
      refine ⟨fun _ => ⟨g, hg, Or.inl ⟨hvalid, stamps, _, hread, rfl,
        threeStages_sequenceNodes _ _ _ _ _ hs hstart hnow⟩⟩, fun _ _ => ⟨hreached, ?_⟩,
        hsummed _⟩
      intro _ _ _ count' hcount'
      obtain rfl := Except.ok.inj (hdecode.symm.trans hcount')
      exact hdivides
    | false =>
      obtain ⟨e, hleft⟩ := hpart hdivides
      rw [hleft]
      refine ⟨fun h => ?_, fun _ houtcome => absurd houtcome (not_outcome_of_part stamps rfl),
        hsummed _⟩
      rw [h.divides g hg hvalid count hdecode] at hdivides
      cases hdivides
  · rw [hjudge, refused_recording]
    refine ⟨fun _ => ⟨g, hg, Or.inr ⟨hnot, reason, rfl⟩⟩, fun _ _ => ⟨hreached, ?_⟩, ?_⟩
    · intro g' hg' hvalid
      obtain rfl := Option.some.inj (hg.symm.trans hg')
      exact absurd hvalid hnot
    exact ⟨_, changed_generation hg, summed_counting call g n (f := marked reason)
      fun g => ⟨rfl, rfl, rfl, sequenceIndex_withMetadata (by simp) g⟩⟩
  · rw [hjudge]
    refine ⟨fun h => absurd h.reach hnot,
      fun hmark houtcome => absurd houtcome (not_outcome_of_counting hg hmark), ?_⟩
    exact ⟨_, changed_generation hg, summed_counting call g n (f := id)
      fun _ => ⟨rfl, rfl, rfl, rfl⟩⟩

end Call

/-! ## All of them -/

section Calls
variable {reader : Reader} {gen : ℕ} {trace : RequestTrace} {g : Node} {n : ℤ}

theorem Summed.nil (hn : sequenceIndex g = .int n) : Summed g n [] g :=
  ⟨rfl, rfl, by simpa using hn, by simp, by simp⟩

theorem Summed.concat {calls : List TimelineCall} {call : TimelineCall} {g' g'' : Node}
    (h : Summed g n calls g') (h' : Summed g' (n + calls.length) [call] g'') :
    Summed g n (calls ++ [call]) g'' := by
  refine ⟨h'.id.trans h.id, h'.startNs.trans h.startNs, ?_, ?_, ?_⟩
  · rw [h'.sequence, List.length_append]
    push_cast
    rw [add_assoc]
  · rw [h'.input, h.input, List.map_append, List.sum_append, add_assoc]
  · rw [h'.output, h.output, List.map_append, List.sum_append, add_assoc]

theorem summed_run (reader : Reader) (calls : List TimelineCall)
    (hg : trace.observations[gen]? = some g) (hn : sequenceIndex g = .int n)
    (hclock : ∀ call ∈ calls, ReadableClock reader call.raw)
    (hcount : ∀ call ∈ calls, call.stat.numGenerationTokens ≠ none) :
    ∃ g', (run (fun trace call => call.apply reader gen trace) trace calls).observations[gen]? =
      some g' ∧ Summed g n calls g' := by
  induction calls using List.reverseRecOn with
  | nil => exact ⟨g, hg, Summed.nil hn⟩
  | append_singleton calls call ih =>
    obtain ⟨g', hg', hsummed⟩ := ih (fun c hc => hclock c (List.mem_append_left _ hc))
      fun c hc => hcount c (List.mem_append_left _ hc)
    have hmem : call ∈ calls ++ [call] := List.mem_append_right _ List.mem_cons_self
    obtain ⟨_, _, g'', hg'', hone⟩ := timeline_call hg' hsummed.sequence (hclock call hmem)
      (hcount call hmem)
    rw [run_append]
    exact ⟨g'', hg'', hsummed.concat hone⟩

/-- **Timelines are recorded as a whole exactly if floats can work with their numbers,
and add up in any case**: each call of a sequence appends its three spans if its
timeline is valid and marks the generation if it is not, unless an edge is out of
reach or the mean cannot be divided; and the node counts all of them. Only the mark
of an earlier call can stand in for the missing one. -/
theorem timelines_recorded_iff (reader : Reader) (gen : ℕ) (trace : RequestTrace) (g : Node)
    (n : ℤ) (calls : List TimelineCall) (hg : trace.observations[gen]? = some g)
    (hn : sequenceIndex g = .int n) (hclock : ∀ call ∈ calls, ReadableClock reader call.raw)
    (hcount : ∀ call ∈ calls, call.stat.numGenerationTokens ≠ none) :
    (∀ pre call post, calls = pre ++ call :: post →
      let before := run (fun trace call => call.apply reader gen trace) trace pre
      let after := run (fun trace call => call.apply reader gen trace) trace (pre ++ [call])
      (Calculable reader gen call before →
        CallOutcome reader gen call (n + pre.length) before after) ∧
      ((before.observations[gen]?.bind fun g' => g'.metadata.get? "timeline_unavailable") = none →
        (CallOutcome reader gen call (n + pre.length) before after ↔
          Calculable reader gen call before))) ∧
    ∃ g', (run (fun trace call => call.apply reader gen trace) trace calls).observations[gen]? =
      some g' ∧ Summed g n calls g' := by
  refine ⟨?_, summed_run reader calls hg hn hclock hcount⟩
  rintro pre call post rfl before after
  obtain ⟨g', hg', hsummed⟩ := summed_run reader pre hg hn
    (fun c hc => hclock c (List.mem_append_left _ hc))
    fun c hc => hcount c (List.mem_append_left _ hc)
  have hmem : call ∈ pre ++ call :: post := List.mem_append_right _ List.mem_cons_self
  have hafter : after = call.apply reader gen before := run_append _ _ pre [call]
  obtain ⟨hif, honly, _⟩ := timeline_call hg' hsummed.sequence (hclock call hmem)
    (hcount call hmem)
  rw [hafter]
  refine ⟨hif, fun hmark => ⟨honly ?_, hif⟩⟩
  rw [hg', Option.bind_some] at hmark
  exact hmark

end Calls

/-- The sample statistic, and one without edges. -/
def sampleTimelines : List TimelineCall := [
  ⟨sampleSequence.stat, sampleRaw, fun _ => "o", fun _ => 8⟩,
  ⟨sampleSequence.stat, { sampleRaw with queuedTs := .nan }, fun _ => "o", fun _ => 9⟩]

def sampleBegun : RequestTrace := sampleTrace.beginGeneration "g" "request" 1

theorem sampleTimelines_readable : ∀ call ∈ sampleTimelines,
    ReadableClock sampleReader call.raw ∧ call.stat.numGenerationTokens ≠ none := by
  intro call hcall
  have hraw : call.raw.clock? = some (Dict.ofList [(clockMono, "7.0"),
      (clockUnix, "7000000010"), (clockError, "80")]) ∧
      call.stat.numGenerationTokens = some 3 := by
    rcases List.mem_cons.mp hcall with rfl | hcall
    · exact ⟨rfl, rfl⟩
    · rw [List.mem_singleton.mp hcall]
      exact ⟨rfl, rfl⟩
  rw [hraw.2]
  refine ⟨fun clock hclock => ?_, Option.some_ne_none _⟩
  obtain rfl := Option.some.inj (hraw.1.symm.trans hclock)
  exact ⟨7, 7000000010, 80, rfl⟩

/-- Of the two the first one is recorded, and both are counted. -/
theorem timelines_recorded_iff_two :
    (∀ pre call post, sampleTimelines = pre ++ call :: post →
      let before := run (fun trace call => call.apply sampleReader 0 trace) sampleBegun pre
      let after :=
        run (fun trace call => call.apply sampleReader 0 trace) sampleBegun (pre ++ [call])
      (Calculable sampleReader 0 call before →
        CallOutcome sampleReader 0 call (0 + pre.length) before after) ∧
      ((before.observations[0]?.bind fun g' => g'.metadata.get? "timeline_unavailable") = none →
        (CallOutcome sampleReader 0 call (0 + pre.length) before after ↔
          Calculable sampleReader 0 call before))) ∧
    ∃ g', (run (fun trace call => call.apply sampleReader 0 trace) sampleBegun
      sampleTimelines).observations[0]? = some g' ∧
      Summed ((sampleBegun.observations[0]?).getD sampleRoot) 0 sampleTimelines g' :=
  timelines_recorded_iff sampleReader 0 sampleBegun _ 0 sampleTimelines rfl rfl
    (fun call hcall => (sampleTimelines_readable call hcall).1)
    fun call hcall => (sampleTimelines_readable call hcall).2

/-- Of a sequence with more tokens than a float holds, the decode span is missing. -/
example : ((TimelineCall.apply sampleReader 0 sampleBegun
      ⟨{ sampleSequence.stat with numGenerationTokens := some ((10 ^ 100) ^ 4) }, sampleRaw,
        fun _ => "o", fun _ => 8⟩).observations.map fun o => o.name) =
    ["generate-response", "queue", "prefill"] := by decide +kernel

/-- A statistic with a last token of `10 ^ 300` seconds. -/
def farTimeline : TimelineCall :=
  ⟨sampleSequence.stat, { sampleRaw with lastTokenTs := .fin ((10 ^ 100) ^ 3) }, fun _ => "o",
    fun _ => 8⟩

/-- It is counted, but neither its spans nor the mark are there. -/
theorem far_timeline_unmarked :
    (farTimeline.apply sampleReader 0 sampleBegun).observations.length = 1 ∧
    ((farTimeline.apply sampleReader 0 sampleBegun).observations.map fun o =>
      ((o.metadata.get? "timeline_unavailable").isSome,
        (o.metadata.get? "sequence_count").isSome, o.usage.get? "output")) =
      [(false, true, some 3)] ∧
    ¬ CallOutcome sampleReader 0 farTimeline 0 sampleBegun
      (farTimeline.apply sampleReader 0 sampleBegun) := by
  refine ⟨by decide +kernel, by decide +kernel, fun houtcome => ?_⟩
  have hreadable : ReadableClock sampleReader farTimeline.raw := fun clock hclock =>
    ⟨7, 7000000010, 80, by rw [← Option.some.inj hclock]; rfl⟩
  have hbegun : sampleBegun.observations[0]? =
      some ((sampleBegun.observations[0]?).getD sampleRoot) := rfl
  obtain ⟨_, honly, _⟩ := timeline_call hbegun rfl hreadable (Option.some_ne_none _)
  have hreach := (honly rfl houtcome).reach _ _ _ _ _ _ _ _ rfl rfl rfl (by decide +kernel)
  revert hreach
  decide +kernel

end VllmObserver.Adapter
