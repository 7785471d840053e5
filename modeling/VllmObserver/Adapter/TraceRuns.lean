import VllmObserver.Adapter.Recorders
import VllmObserver.Adapter.Fidelity
import VllmObserver.Exporter.Timeline
import VllmObserver.Lib.Runs

/-! # Whole runs of a request trace

Generations start and end, statistics are recorded for them and the API process
notes its own intervals, in any order, until the trace is finished. The spans
come from the clocks of another process and a generation is closed by another
function than the one that checked them. What holds all of it together is that
the performance counter does not go back. -/
namespace VllmObserver.Adapter
open VllmObserver.Lib VllmObserver.Core VllmObserver.Stages VllmObserver.Exporter

/-- What happens to a trace between its start and its end, with the readings of
the performance counter that each step takes. A generation is addressed by its
position. -/
inductive TraceOp where
  | begin (uuid requestId : String) (perf : ℚ)
  | timeline (gen : ℕ) (stat : FinishedStat) (raw : RawStats) (uuid : ℕ → String) (perf : ℚ)
  | engineStages (gen : ℕ) (raw : RawStats) (uuid : ℕ → String) (first second : ℚ)
  | apiInterval (uuid name : String) (startedPerf endedPerf : ℚ) (metadata : List (String × Json))
  | close (gen : ℕ) (perf : ℚ)

/-- The nodes that `begin_generation` returned are the only handles there are. -/
def onHandle (gen : ℕ) (f : RequestTrace → RequestTrace) (trace : RequestTrace) : RequestTrace :=
  match trace.observations[gen]? with
  | none => trace
  | some g => if g.type = .generation then f trace else trace

def TraceOp.apply (reader : Reader) (trace : RequestTrace) : TraceOp → RequestTrace
  | .begin uuid requestId perf => trace.beginGeneration uuid requestId perf
  | .timeline gen stat raw uuid perf => onHandle gen (fun trace =>
      (recordTimeline reader uuid (fun _ => perf) gen stat raw trace).1) trace
  | .engineStages gen raw uuid first second => onHandle gen (fun trace =>
      (recordEngineStages reader uuid (fun i => if i = 0 then first else second) gen raw
        trace).1) trace
  | .apiInterval uuid name startedPerf endedPerf metadata =>
    trace.apiInterval uuid name startedPerf endedPerf metadata
  | .close gen perf => onHandle gen (closeGeneration gen perf) trace

/-- The readings of the performance counter in a step. The bounds of an interval
of the API process were read before. -/
def TraceOp.readings : TraceOp → List ℚ
  | .begin _ _ perf => [perf]
  | .timeline _ _ _ _ perf => [perf]
  | .engineStages _ _ _ first second => [first, second]
  | .apiInterval .. => []
  | .close _ perf => [perf]

/-- All readings of a run, from the start of the trace on. -/
def readingsOf (base : RequestTrace) (ops : List TraceOp) : List ℚ :=
  base.started :: ops.flatMap TraceOp.readings

theorem readingsOf_append (base : RequestTrace) (xs ys : List TraceOp) :
    readingsOf base (xs ++ ys) = readingsOf base xs ++ ys.flatMap TraceOp.readings := by
  rw [readingsOf, List.flatMap_append]
  rfl

/-! ## How nodes evolve -/

/-- A node later in the run: its generation may have been closed, or closed again. -/
structure Evolves (o o' : Node) : Prop where
  id : o'.id = o.id
  type : o'.type = o.type
  startNs : o'.startNs = o.startNs
  span : o.type = .span → o' = o
  ends : ∀ e, o.endNs = some e → ∃ e', o'.endNs = some e' ∧ e ≤ e'

/-- All nodes are still there. -/
def Later (before after : RequestTrace) : Prop :=
  ∀ (i : ℕ) (o : Node), before.observations[i]? = some o →
    ∃ o', after.observations[i]? = some o' ∧ Evolves o o'

theorem Evolves.refl (o : Node) : Evolves o o :=
  ⟨rfl, rfl, rfl, fun _ => rfl, fun e he => ⟨e, he, le_refl e⟩⟩

/-- A generation may end, or end later. -/
theorem Evolves.generation {g g' : Node} (ht : g.type = .generation) (hid : g'.id = g.id)
    (hty : g'.type = g.type) (hs : g'.startNs = g.startNs)
    (he : ∀ e, g.endNs = some e → ∃ e', g'.endNs = some e' ∧ e ≤ e') : Evolves g g' where
  id := hid
  type := hty
  startNs := hs
  span := by
    intro hspan
    rw [ht] at hspan
    cases hspan
  ends := he

theorem Evolves.trans {a b c : Node} (h : Evolves a b) (h' : Evolves b c) : Evolves a c where
  id := h'.id.trans h.id
  type := h'.type.trans h.type
  startNs := h'.startNs.trans h.startNs
  span := by
    intro hs
    obtain rfl := h.span hs
    exact h'.span hs
  ends := by
    intro e he
    obtain ⟨e', he', hle⟩ := h.ends e he
    obtain ⟨e'', he'', hle'⟩ := h'.ends e' he'
    exact ⟨e'', he'', le_trans hle hle'⟩

theorem Later.refl (trace : RequestTrace) : Later trace trace :=
  fun _ o ho => ⟨o, ho, Evolves.refl o⟩

theorem Later.trans {a b c : RequestTrace} (h : Later a b) (h' : Later b c) : Later a c := by
  intro i o ho
  obtain ⟨o', ho', he⟩ := h i o ho
  obtain ⟨o'', ho'', he'⟩ := h' i o' ho'
  exact ⟨o'', ho'', he.trans he'⟩

/-! ## The invariant -/

section Clock
variable (base : RequestTrace) (readings : List ℚ)

/-- The counter has come as far as the instant. -/
def Reached (instant : ℤ) : Prop := ∃ p ∈ readings, instant ≤ base.nowNs p

/-- A generation starts in the trace, and ends after its start. -/
structure Opened (g : Node) : Prop where
  started : base.startedNs ≤ g.startNs
  reached : Reached base readings g.startNs
  ended : ∀ f, g.endNs = some f → g.startNs ≤ f ∧ Reached base readings f

/-- A span lies between the start of its generation and the present. -/
structure Within (g o : Node) : Prop where
  parent : o.parentId = some g.id
  bounds : ∃ e, o.endNs = some e ∧ g.startNs ≤ o.startNs ∧ o.startNs ≤ e ∧
    Reached base readings e

/-- The spans hang under generations that stand before them. Nobody but
`finish` adds to `http_total`. -/
structure TraceSound (trace : RequestTrace) : Prop where
  startedNs : trace.startedNs = base.startedNs
  started : trace.started = base.started
  generation : ∀ (i : ℕ) (g : Node), trace.observations[i]? = some g → g.type = .generation →
    Opened base readings g
  span : ∀ (k : ℕ) (o : Node), trace.observations[k]? = some o → o.type = .span →
    ∃ gen g, gen < k ∧ trace.observations[gen]? = some g ∧ g.type = .generation ∧
      Within base readings g o
  total : trace.stages.get? "http_total" = none

end Clock

section Sound
variable {base trace trace' : RequestTrace} {readings readings' : List ℚ}

theorem Reached.mono (hsub : readings ⊆ readings') {x : ℤ} (h : Reached base readings x) :
    Reached base readings' x := by
  obtain ⟨p, hp, hle⟩ := h
  exact ⟨p, hsub hp, hle⟩

/-- A later reading is not before what was reached. -/
theorem Reached.le {x : ℤ} (h : Reached base readings x) {p : ℚ} (hp : ∀ q ∈ readings, q ≤ p) :
    x ≤ base.nowNs p := by
  obtain ⟨q, hq, hle⟩ := h
  exact le_trans hle (base.nowNs_mono (hp q hq))

theorem Opened.mono (hsub : readings ⊆ readings') {g : Node} (h : Opened base readings g) :
    Opened base readings' g :=
  ⟨h.started, h.reached.mono hsub, fun f hf => ⟨(h.ended f hf).1, (h.ended f hf).2.mono hsub⟩⟩

theorem Opened.congr {g g' : Node} (h : Opened base readings g) (hs : g'.startNs = g.startNs)
    (he : g'.endNs = g.endNs) : Opened base readings g' := by
  refine ⟨hs ▸ h.started, hs ▸ h.reached, fun f hf => ?_⟩
  rw [hs]
  exact h.ended f (he ▸ hf)

theorem Within.evolves (hsub : readings ⊆ readings') {g g' o : Node}
    (h : Within base readings g o) (he : Evolves g g') : Within base readings' g' o := by
  obtain ⟨e, hend, hstart, hle, hr⟩ := h.bounds
  exact ⟨he.id ▸ h.parent, e, hend, he.startNs ▸ hstart, hle, hr.mono hsub⟩

theorem TraceSound.nowNs (h : TraceSound base readings trace) (p : ℚ) :
    trace.nowNs p = base.nowNs p :=
  RequestTrace.nowNs_congr h.startedNs h.started _

/-- Nodes evolve and new ones are appended: only the generations and the new
spans are left to check. -/
theorem TraceSound.later (h : TraceSound base readings trace) (hsub : readings ⊆ readings')
    (hl : Later trace trace') (hns : trace'.startedNs = trace.startedNs)
    (hst : trace'.started = trace.started)
    (hgen : ∀ (i : ℕ) (g : Node), trace'.observations[i]? = some g → g.type = .generation →
      Opened base readings' g)
    (hspan : ∀ (k : ℕ) (o : Node), trace.observations.length ≤ k →
      trace'.observations[k]? = some o → o.type = .span →
      ∃ gen g, gen < k ∧ trace'.observations[gen]? = some g ∧ g.type = .generation ∧
        Within base readings' g o)
    (htotal : trace'.stages.get? "http_total" = none) : TraceSound base readings' trace' := by
  refine ⟨hns.trans h.startedNs, hst.trans h.started, hgen, ?_, htotal⟩
  intro k o ho ht
  rcases Nat.lt_or_ge k trace.observations.length with hlt | hge
  · -- an old span, whose generation has evolved
    obtain ⟨o', ho', he⟩ := hl k _ (List.getElem?_eq_getElem hlt)
    obtain rfl := Option.some.inj (ho.symm.trans ho')
    have hs := he.span (he.type ▸ ht)
    obtain ⟨gen, g, hgk, hg, hty, hw⟩ := h.span k _ (List.getElem?_eq_getElem hlt) (he.type ▸ ht)
    obtain ⟨g', hg', heg⟩ := hl gen g hg
    exact ⟨gen, g', hgk, hg', heg.type.trans hty, hs ▸ hw.evolves hsub heg⟩
  · exact hspan k o hge ho ht

theorem TraceSound.mono (h : TraceSound base readings trace) (hsub : readings ⊆ readings') :
    TraceSound base readings' trace := by
  refine h.later hsub (Later.refl trace) rfl rfl
    (fun i g hg ht => (h.generation i g hg ht).mono hsub) (fun k o hk ho => ?_) h.total
  have hlt := (List.getElem?_eq_some_iff.mp ho).1
  omega

/-- A trace that only changed beside its nodes. -/
theorem TraceSound.congr (h : TraceSound base readings trace)
    (ho : trace'.observations = trace.observations) (hns : trace'.startedNs = trace.startedNs)
    (hst : trace'.started = trace.started) (hs : trace'.stages = trace.stages) :
    TraceSound base readings trace' :=
  ⟨hns.trans h.startedNs, hst.trans h.started, ho ▸ h.generation, ho ▸ h.span, hs ▸ h.total⟩

end Sound

/-! ## One step -/

section Step
variable {base trace : RequestTrace} {readings readings' : List ℚ}

theorem onHandle_generation {gen : ℕ} {f : RequestTrace → RequestTrace} {g : Node}
    (hg : trace.observations[gen]? = some g) (ht : g.type = .generation) :
    onHandle gen f trace = f trace := by
  simp only [onHandle, hg, if_pos ht]

theorem onHandle_cases {gen : ℕ} {f : RequestTrace → RequestTrace} {P : RequestTrace → Prop}
    (hout : P trace) (hin : ∀ g, trace.observations[gen]? = some g → g.type = .generation →
      P (f trace)) : P (onHandle gen f trace) := by
  unfold onHandle
  split
  · exact hout
  · split
    · exact hin _ ‹_› ‹_›
    · exact hout

theorem TraceSound.begin (h : TraceSound base readings trace) (hsub : readings ⊆ readings')
    (uuid requestId : String) {p : ℚ} (hp : p ∈ readings') (hstart : base.started ≤ p) :
    TraceSound base readings' (trace.beginGeneration uuid requestId p) ∧
      Later trace (trace.beginGeneration uuid requestId p) := by
  have hl : Later trace (trace.beginGeneration uuid requestId p) := fun i o ho =>
    ⟨o, by
      rw [RequestTrace.beginGeneration,
        List.getElem?_append_left (List.getElem?_eq_some_iff.mp ho).1]
      exact ho, Evolves.refl o⟩
  have hnew : ∀ (i : ℕ) (o : Node), (trace.beginGeneration uuid requestId p).observations[i]? =
      some o → trace.observations[i]? = some o ∨
        o.type = .generation ∧ o.startNs = base.nowNs p ∧ o.endNs = none := by
    intro i o ho
    rw [RequestTrace.beginGeneration, List.getElem?_append] at ho
    split at ho
    · exact Or.inl ho
    · obtain rfl := List.mem_singleton.mp (List.mem_of_getElem? ho)
      exact Or.inr ⟨rfl, h.nowNs p, rfl⟩
  refine ⟨h.later hsub hl rfl rfl ?_ ?_ h.total, hl⟩
  · intro i g hg ht
    rcases hnew i g hg with hg | ⟨_, hs, he⟩
    · exact (h.generation i g hg ht).mono hsub
    · refine ⟨?_, ⟨p, hp, hs.le⟩, fun f hf => ?_⟩
      · rw [hs]
        have hle := base.nowNs_mono hstart
        rwa [RequestTrace.nowNs, sub_self, show nanos 0 = 0 by decide +kernel, add_zero] at hle
      · rw [he] at hf
        cases hf
  · intro k o hk ho ht
    rcases hnew k o ho with ho | ⟨hty, _⟩
    · have hlt := (List.getElem?_eq_some_iff.mp ho).1
      omega
    · rw [hty] at ht
      cases ht

/-- A recorder leaves its generation as it was, but for usage and metadata, and
appends spans of it. -/
theorem TraceSound.grew (h : TraceSound base readings trace) (hsub : readings ⊆ readings')
    {gen : ℕ} {g₀ : Node} (hg₀ : trace.observations[gen]? = some g₀) (ht₀ : g₀.type = .generation)
    {reader : Reader} {raw : RawStats} {p : ℚ} (hp : p ∈ readings') {trace' : RequestTrace}
    (hgrew : Grew trace gen (Keeps g₀) (Stamped reader raw g₀ (trace.nowNs p))
      (fun stages => stages.get? "http_total" = none) trace') :
    TraceSound base readings' trace' ∧ Later trace trace' := by
  obtain ⟨g, hg, hk⟩ := hgrew.generation
  have hold : ∀ (i : ℕ) (o : Node), i < trace.observations.length →
      trace'.observations[i]? = some o → i = gen ∧ o = g ∨ trace.observations[i]? = some o := by
    intro i o hi ho
    by_cases hig : i = gen
    · subst hig
      exact Or.inl ⟨rfl, Option.some.inj (ho.symm.trans hg)⟩
    · exact Or.inr (hgrew.others i hi hig ▸ ho)
  have hl : Later trace trace' := by
    intro i o ho
    by_cases hig : i = gen
    · subst hig
      obtain rfl := Option.some.inj (hg₀.symm.trans ho)
      exact ⟨g, hg, .generation ht₀ hk.id hk.type hk.startNs fun e he =>
        ⟨e, hk.endNs.trans he, le_refl e⟩⟩
    · have hi := (List.getElem?_eq_some_iff.mp ho).1
      exact ⟨o, (hgrew.others i hi hig).trans ho, Evolves.refl o⟩
  refine ⟨h.later hsub hl hgrew.startedNs hgrew.started ?_ ?_ hgrew.stages, hl⟩
  · intro i o ho ht
    rcases Nat.lt_or_ge i trace.observations.length with hlt | hge
    · rcases hold i o hlt ho with ⟨rfl, rfl⟩ | ho
      · exact ((h.generation i g₀ hg₀ ht₀).congr hk.startNs hk.endNs).mono hsub
      · exact (h.generation i o ho ht).mono hsub
    · rw [(hgrew.added i o hge ho).isSpan] at ht
      cases ht
  · intro k o hge ho _
    have hs := hgrew.added k o hge ho
    obtain ⟨e, he, h1, h2, h3, _⟩ := hs.bounds
    have hlt := (List.getElem?_eq_some_iff.mp hg₀).1
    refine ⟨gen, g, lt_of_lt_of_le hlt hge, hg, hk.type.trans ht₀, ?_, e, he, ?_, h2, p, hp, ?_⟩
    · rw [hk.id]
      exact hs.parent
    · rw [hk.startNs]
      exact h1
    · rw [← h.nowNs]
      exact h3

theorem closeGeneration_getElem? (gen : ℕ) (p : ℚ) (trace : RequestTrace) (i : ℕ) :
    (closeGeneration gen p trace).observations[i]? =
      if gen = i then (trace.observations[i]?).map fun g =>
        { g with endNs := some (trace.nowNs p) }
      else trace.observations[i]? := by
  rw [closeGeneration, List.getElem?_modify]
  split <;> simp

theorem TraceSound.close (h : TraceSound base readings trace) (hsub : readings ⊆ readings')
    {gen : ℕ} {g₀ : Node} (hg₀ : trace.observations[gen]? = some g₀) (ht₀ : g₀.type = .generation)
    {p : ℚ} (hp : p ∈ readings') (hle : ∀ q ∈ readings, q ≤ p) :
    TraceSound base readings' (closeGeneration gen p trace) ∧
      Later trace (closeGeneration gen p trace) := by
  have hopened := h.generation gen g₀ hg₀ ht₀
  have hat : (closeGeneration gen p trace).observations[gen]? =
      some { g₀ with endNs := some (trace.nowNs p) } := by
    rw [closeGeneration_getElem?, if_pos rfl, hg₀]
    rfl
  have hne : ∀ i, i ≠ gen →
      (closeGeneration gen p trace).observations[i]? = trace.observations[i]? := by
    intro i hi
    rw [closeGeneration_getElem?, if_neg (Ne.symm hi)]
  have hl : Later trace (closeGeneration gen p trace) := by
    intro i o ho
    by_cases hi : i = gen
    · subst hi
      obtain rfl := Option.some.inj (hg₀.symm.trans ho)
      refine ⟨_, hat, .generation ht₀ rfl rfl rfl fun e he => ⟨_, rfl, ?_⟩⟩
      rw [h.nowNs]
      exact (hopened.ended e he).2.le hle
    · exact ⟨o, (hne i hi).trans ho, Evolves.refl o⟩
  refine ⟨h.later hsub hl rfl rfl ?_ ?_ h.total, hl⟩
  · intro i g hg ht
    by_cases hi : i = gen
    · subst hi
      obtain rfl := Option.some.inj (hat.symm.trans hg)
      refine ⟨hopened.started, hopened.reached.mono hsub, fun f hf => ?_⟩
      obtain rfl := Option.some.inj hf
      rw [h.nowNs]
      exact ⟨hopened.reached.le hle, p, hp, le_refl _⟩
    · exact (h.generation i g (hne i hi ▸ hg) ht).mono hsub
  · intro k o hk ho
    have hlt := (List.getElem?_eq_some_iff.mp ho).1
    rw [closeGeneration, List.length_modify] at hlt
    omega

theorem apiInterval_frame (trace : RequestTrace) (uuid name : String) (a b : ℚ)
    (metadata : List (String × Json)) :
    (trace.apiInterval uuid name a b metadata).observations = trace.observations ∧
      (trace.apiInterval uuid name a b metadata).startedNs = trace.startedNs ∧
      (trace.apiInterval uuid name a b metadata).started = trace.started ∧
      (trace.apiInterval uuid name a b metadata).stages = trace.stages := by
  unfold RequestTrace.apiInterval
  simp only
  split <;> exact ⟨rfl, rfl, rfl, rfl⟩

/-- **One step.** What it reads of the counter is not before what was read. -/
theorem TraceSound.step (reader : Reader) (h : TraceSound base readings trace) (op : TraceOp)
    (hstarted : base.started ∈ readings)
    (hsorted : (readings ++ op.readings).Pairwise (· ≤ ·)) :
    TraceSound base (readings ++ op.readings) (op.apply reader trace) ∧
      Later trace (op.apply reader trace) := by
  obtain ⟨_, hop, hle⟩ := List.pairwise_append.mp hsorted
  have hsub : readings ⊆ readings ++ op.readings := List.subset_append_left _ _
  have hsums : ∀ (s : Dict String Aggregate) name a, name ∈ engineSums →
      s.get? "http_total" = none → (s.set name a).get? "http_total" = none := by
    intro s name a hname hs
    rw [Dict.get?_set, if_neg]
    · exact hs
    · rintro rfl
      exact absurd hname (by decide)
  cases op with
  | begin uuid requestId perf =>
    exact h.begin hsub uuid requestId (by simp [TraceOp.readings])
      (hle base.started hstarted perf (List.mem_singleton_self _))
  | timeline gen stat raw uuid perf =>
    rw [TraceOp.apply]
    refine onHandle_cases (P := fun t => TraceSound base _ t ∧ Later trace t)
      ⟨h.mono hsub, Later.refl trace⟩ fun g hg ht => ?_
    have hlt := (List.getElem?_eq_some_iff.mp hg).1
    have hleaves : Leaves _ (Grew trace gen (Counted stat g)
        (Stamped reader raw g (trace.nowNs perf)) fun stages => stages.get? "http_total" = none)
        (recordTimeline reader uuid (fun _ => perf) gen stat raw) :=
      Grew.recordTimeline hlt (le_refl (trace.nowNs perf))
    exact h.grew hsub hg ht (by simp [TraceOp.readings])
      ((hleaves trace (Grew.refl hg rfl h.total)).imp (fun _ hk => hk.toKeeps) (fun _ => id)
        fun _ => id)
  | engineStages gen raw uuid first second =>
    rw [TraceOp.apply]
    refine onHandle_cases (P := fun t => TraceSound base _ t ∧ Later trace t)
      ⟨h.mono hsub, Later.refl trace⟩ fun g hg ht => ?_
    have hlt := (List.getElem?_eq_some_iff.mp hg).1
    have hfs : first ≤ second := by
      simpa [TraceOp.readings] using hop
    have hleaves : Leaves _ (Grew trace gen (Keeps g)
        (Stamped reader raw g (trace.nowNs second)) fun stages => stages.get? "http_total" = none)
        (recordEngineStages reader uuid (fun i => if i = 0 then first else second) gen raw) :=
      Grew.recordEngineStages hlt (fun _ hk => ⟨hk.id, hk.startNs⟩)
        (fun _ entries _ hk => hk.withMetadata entries) hsums
        (trace.nowNs_mono hfs) (le_refl (trace.nowNs second)) fun _ _ h => h
    exact h.grew hsub hg ht (by simp [TraceOp.readings])
      (hleaves trace (Grew.refl hg (Keeps.refl g) h.total))
  | apiInterval uuid name startedPerf endedPerf metadata =>
    obtain ⟨ho, hns, hst, hs⟩ := apiInterval_frame trace uuid name startedPerf endedPerf metadata
    refine ⟨(h.mono hsub).congr ho hns hst hs, fun i o hi => ⟨o, ?_, Evolves.refl o⟩⟩
    rw [← hi]
    exact congrArg (·[i]?) ho
  | close gen perf =>
    exact onHandle_cases (P := fun t => TraceSound base _ t ∧ Later trace t)
      ⟨h.mono hsub, Later.refl trace⟩ fun g hg ht => h.close hsub hg ht
        (by simp [TraceOp.readings]) fun q hq => hle q hq perf (List.mem_singleton_self _)

end Step

/-! ## Whole runs -/

/-- A span of the finished trace lies in its generation. It ends before the
generation does wherever the generation was closed after it. -/
structure SpanInside (reader : Reader) (base : RequestTrace) (ops : List TraceOp) (k gen : ℕ)
    (g o : Node) : Prop where
  generation : (run (TraceOp.apply reader) base ops).observations[gen]? = some g
  type : g.type = .generation
  parent : o.parentId = some g.id
  bounds : ∃ e, o.endNs = some e ∧ g.startNs ≤ o.startNs ∧ o.startNs ≤ e ∧
    ∀ pre p post, ops = pre ++ .close gen p :: post →
      k < (run (TraceOp.apply reader) base pre).observations.length →
      ∃ f, g.endNs = some f ∧ e ≤ f

section Run
variable (reader : Reader) {base : RequestTrace}

theorem traceSound_new (ho : base.observations = []) (hs : base.stages = Dict.empty) :
    TraceSound base (readingsOf base []) base where
  startedNs := rfl
  started := rfl
  generation := by simp [ho]
  span := by simp [ho]
  total := by rw [hs, Dict.get?_empty]

theorem traceSound_run (ho : base.observations = []) (hs : base.stages = Dict.empty)
    {ops : List TraceOp} (hc : (readingsOf base ops).Pairwise (· ≤ ·)) :
    TraceSound base (readingsOf base ops) (run (TraceOp.apply reader) base ops) := by
  induction ops using List.reverseRecOn with
  | nil => exact traceSound_new ho hs
  | append_singleton ops op ih =>
    rw [readingsOf_append, List.flatMap_singleton] at hc ⊢
    rw [run_append]
    exact ((ih (List.pairwise_append.mp hc).1).step reader op List.mem_cons_self hc).1

theorem later_run (ho : base.observations = []) (hs : base.stages = Dict.empty)
    (pre : List TraceOp) {post : List TraceOp}
    (hc : (readingsOf base (pre ++ post)).Pairwise (· ≤ ·)) :
    Later (run (TraceOp.apply reader) base pre)
      (run (TraceOp.apply reader) base (pre ++ post)) := by
  induction post using List.reverseRecOn with
  | nil =>
    rw [List.append_nil]
    exact Later.refl _
  | append_singleton post op ih =>
    rw [← List.append_assoc, readingsOf_append, List.flatMap_singleton] at hc
    have hc' := (List.pairwise_append.mp hc).1
    rw [← List.append_assoc, run_append]
    exact (ih hc').trans
      ((traceSound_run reader ho hs hc').step reader op List.mem_cons_self hc).2

/-- What a closing leaves of the generation. -/
theorem close_run (ho : base.observations = []) (hs : base.stages = Dict.empty)
    {pre post : List TraceOp} {gen : ℕ} {p : ℚ} {g : Node}
    (hc : (readingsOf base (pre ++ .close gen p :: post)).Pairwise (· ≤ ·))
    (hg : (run (TraceOp.apply reader) base pre).observations[gen]? = some g)
    (ht : g.type = .generation) : ∃ g' f,
      (run (TraceOp.apply reader) base (pre ++ .close gen p :: post)).observations[gen]? =
        some g' ∧ g'.type = .generation ∧ g'.endNs = some f ∧ base.nowNs p ≤ f := by
  have hsplit : pre ++ .close gen p :: post = (pre ++ [.close gen p]) ++ post := by simp
  rw [hsplit] at hc ⊢
  have hpre : (readingsOf base pre).Pairwise (· ≤ ·) := by
    rw [readingsOf_append, readingsOf_append] at hc
    exact (List.pairwise_append.mp (List.pairwise_append.mp hc).1).1
  have hclosed : (run (TraceOp.apply reader) base (pre ++ [.close gen p])).observations[gen]? =
      some { g with endNs := some (base.nowNs p) } := by
    rw [run_append, run_cons, run_nil, TraceOp.apply, onHandle_generation hg ht,
      closeGeneration_getElem?, if_pos rfl, hg, Option.map_some,
      (traceSound_run reader ho hs hpre).nowNs]
  obtain ⟨g', hg', he⟩ := later_run reader ho hs _ hc gen _ hclosed
  obtain ⟨f, hf, hle⟩ := he.ends _ rfl
  exact ⟨g', f, hg', he.type.trans ht, hf, hle⟩

theorem span_inside (ho : base.observations = []) (hs : base.stages = Dict.empty)
    {ops : List TraceOp} (hc : (readingsOf base ops).Pairwise (· ≤ ·)) {k : ℕ} {o : Node}
    (hk : (run (TraceOp.apply reader) base ops).observations[k]? = some o)
    (ht : o.type = .span) : ∃ gen g, SpanInside reader base ops k gen g o := by
  obtain ⟨gen, g, hgk, hg, hty, hw⟩ := (traceSound_run reader ho hs hc).span k o hk ht
  obtain ⟨e, he, hstart, hle, _⟩ := hw.bounds
  refine ⟨gen, g, hg, hty, hw.parent, e, he, hstart, hle, ?_⟩
  rintro pre p post rfl hlt
  have hlater := later_run reader ho hs pre hc
  rw [readingsOf_append] at hc
  obtain ⟨hpre, _, hbefore⟩ := List.pairwise_append.mp hc
  have hsound := traceSound_run reader ho hs hpre
  -- the span and its generation stood before the closing
  obtain ⟨o', ho', heo⟩ := hlater k _ (List.getElem?_eq_getElem hlt)
  obtain rfl := Option.some.inj (hk.symm.trans ho')
  have hto := heo.type ▸ ht
  obtain ⟨_, _, _, _, _, hw'⟩ := hsound.span k _ (List.getElem?_eq_getElem hlt) hto
  obtain ⟨e', he', _, _, hreached⟩ := hw'.bounds
  rw [← heo.span hto, he] at he'
  obtain rfl := Option.some.inj he'
  have hgen := List.getElem?_eq_getElem (lt_trans hgk hlt)
  obtain ⟨g', hg', heg⟩ := hlater gen _ hgen
  obtain rfl := Option.some.inj (hg.symm.trans hg')
  obtain ⟨g', f, hg', _, hf, hnow⟩ := close_run reader ho hs
    (by rwa [readingsOf_append]) hgen (heg.type ▸ hty)
  obtain rfl := Option.some.inj (hg.symm.trans hg')
  have hreach := hreached.le fun q hq => hbefore q hq p (by simp [TraceOp.readings])
  exact ⟨f, hf, le_trans hreach hnow⟩

/-- A trace is finished once: `http_total` is the time since its start. -/
theorem httpTotal_finish {trace : RequestTrace} {p : ℚ}
    (h : trace.stages.get? "http_total" = none) (hp : trace.started ≤ p) :
    ((trace.finish p).stages.get? "http_total").map (·.totalSeconds) =
      some (.fin (p - trace.started)) := by
  have hmax := Number.max_zero (sub_nonneg.mpr hp)
  simp only [RequestTrace.finish, RequestTrace.add, Dict.get?_mapValues, Dict.get?_set, h,
    if_true, Option.map_some, Option.getD_none, Aggregate.toExported, Aggregate.add, hmax,
    Flt.add, zero_add]

/-- **Every run leaves a well-formed trace.** The spans lie in their generations
and the closed generations in the root that the sink opens for the event. -/
theorem trace_well_formed (base : RequestTrace) (ho : base.observations = [])
    (hs : base.stages = Dict.empty) (ops : List TraceOp) (finishPerf : ℚ)
    (hc : (readingsOf base ops ++ [finishPerf]).Pairwise (· ≤ ·)) :
    let event := (run (TraceOp.apply reader) base ops).finish finishPerf
    (∀ (k : ℕ) (o : Node), event.observations[k]? = some o → o.type = .span →
      ∃ gen g, SpanInside reader base ops k gen g o) ∧
    (∀ pre gen p post g, ops = pre ++ .close gen p :: post →
      (run (TraceOp.apply reader) base pre).observations[gen]? = some g → g.type = .generation →
      ∃ g' f, event.observations[gen]? = some g' ∧ g'.type = .generation ∧ g'.endNs = some f) ∧
    ∃ total rootEnd,
      (event.stages.get? "http_total").map (·.totalSeconds) = some (.fin total) ∧
      (rootNode event total).endNs = some rootEnd ∧
      ∀ (i : ℕ) (g : Node) (f : ℤ), event.observations[i]? = some g → g.type = .generation →
        g.endNs = some f →
        (rootNode event total).startNs ≤ g.startNs ∧ g.startNs ≤ f ∧ f ≤ rootEnd := by
  obtain ⟨hrun, _, hlast⟩ := List.pairwise_append.mp hc
  have hle : ∀ q ∈ readingsOf base ops, q ≤ finishPerf :=
    fun q hq => hlast q hq finishPerf (List.mem_singleton_self _)
  have hsound := traceSound_run reader ho hs hrun
  refine ⟨fun k o hk ht => span_inside reader ho hs hrun hk ht, ?_,
    finishPerf - base.started, base.nowNs finishPerf, ?_, ?_, ?_⟩
  · rintro pre gen p post g rfl hg ht
    obtain ⟨g', f, hg', ht', hf, _⟩ := close_run reader ho hs hrun hg ht
    exact ⟨g', f, hg', ht', hf⟩
  · rw [← hsound.started]
    exact httpTotal_finish hsound.total (hsound.started ▸ hle base.started List.mem_cons_self)
  · exact congrArg (fun t => some (t + nanos (finishPerf - base.started))) hsound.startedNs
  · intro i g f hg ht hf
    have hopened := hsound.generation i g hg ht
    obtain ⟨hgf, hreached⟩ := hopened.ended f hf
    exact ⟨le_of_eq_of_le hsound.startedNs hopened.started, hgf, hreached.le hle⟩

end Run

/-- A generation with the stages of a sequence. It is closed twice. -/
def sampleOps : List TraceOp := [
  .begin "g" "request" 1,
  .timeline 0 sampleSequence.stat sampleRaw (fun i => ["o0", "o1", "o2"].getD i "o") 8,
  .engineStages 0 sampleRaw (fun _ => "o3") 9 9,
  .apiInterval "i" "render_input" 0 1 [],
  .close 0 20,
  .close 0 22]

theorem trace_well_formed_sample :
    let event := (run (TraceOp.apply sampleReader) sampleTrace sampleOps).finish 30
    event.observations.map (fun o => (o.name, o.startNs, o.endNs)) = [
      ("generate-response", 1000000010, some 22000000010),
      ("queue", 2000000010, some 5000000010),
      ("prefill", 5000000010, some 6000000010),
      ("decode", 6000000010, some 7000000010),
      ("waiting_to_first_schedule", 3000000010, some 5000000010)] ∧
    (∀ (k : ℕ) (o : Node), event.observations[k]? = some o → o.type = .span →
      ∃ gen g, SpanInside sampleReader sampleTrace sampleOps k gen g o) ∧
    ∃ total rootEnd, (event.stages.get? "http_total").map (·.totalSeconds) = some (.fin total) ∧
      (rootNode event total).endNs = some rootEnd ∧ 22000000010 ≤ rootEnd := by
  have h := trace_well_formed sampleReader sampleTrace rfl rfl sampleOps 30 (by decide +kernel)
  refine ⟨by decide +kernel, h.1, ?_⟩
  obtain ⟨total, rootEnd, htotal, hend, hroot⟩ := h.2.2
  have hget : (((run (TraceOp.apply sampleReader) sampleTrace sampleOps).finish
      30).observations[0]?).map (fun g => (g.type, g.endNs)) =
      some (.generation, some 22000000010) := by decide +kernel
  obtain ⟨g, hg, hpair⟩ := Option.map_eq_some_iff.mp hget
  obtain ⟨ht, hf⟩ := Prod.mk.inj hpair
  exact ⟨total, rootEnd, htotal, hend, (hroot 0 g _ hg ht hf).2.2⟩

end VllmObserver.Adapter
