import VllmObserver.Exporter.TimelineSegments

/-! # The labels of the exported stages

A missing stage hands its boundary on from the stage before it, so its time is
exported under the label of a later one. The labels are right exactly when no
stage is missing behind one that was observed. -/
namespace VllmObserver.Exporter
open VllmObserver.Lib VllmObserver.Core

/-- Every instant of the stage is exported under its own label and no other. -/
def Labelled (gid : String) (nodes : List Node) (label : String) (stage : Node) : Prop :=
  ∀ t, covers t (nodeSpan stage) = true →
    (∃ n ∈ childrenOf gid nodes, covers t (nodeSpan n) = true) ∧
    ∀ n ∈ childrenOf gid nodes, covers t (nodeSpan n) = true → n.name = modulePrefixed label

/-- The observed stages are exported under their own labels. -/
structure Truthful (stages : Stages) (gid : String) (nodes : List Node) : Prop where
  waiting : ∀ w, stages.waiting = some w → Labelled gid nodes "waiting_to_first_schedule" w
  prefill : ∀ p, stages.prefill = some p → Labelled gid nodes "prefill" p
  decode : ∀ d, stages.decode = some d → Labelled gid nodes "decode" d

/-- The observation is a nonempty interval of the generation. -/
def Observed (gs ge : ℤ) (o : Node) : Prop :=
  ∃ e, o.endNs = some e ∧ gs ≤ o.startNs ∧ o.startNs < e ∧ e ≤ ge

/-- `a` ends before `b` starts, if both were observed. -/
def Before (a b : Option Node) : Prop :=
  ∀ x y e, a = some x → b = some y → x.endNs = some e → e ≤ y.startNs

/-- The observed stages lie in the generation, one after the other. -/
structure InOrder (stages : Stages) (gs ge : ℤ) : Prop where
  waiting : ∀ w, stages.waiting = some w → Observed gs ge w
  prefill : ∀ p, stages.prefill = some p → Observed gs ge p
  decode : ∀ d, stages.decode = some d → Observed gs ge d
  waitingPrefill : Before stages.waiting stages.prefill
  prefillDecode : Before stages.prefill stages.decode
  waitingDecode : Before stages.waiting stages.decode

/-- No stage is missing behind an observed one. -/
def NoGap (stages : Stages) : Prop :=
  (stages.waiting.isSome → stages.prefill.isSome) ∧ (stages.prefill.isSome → stages.decode.isSome)

theorem nodeSpan_of_end {o : Node} {e : ℤ} (h : o.endNs = some e) :
    nodeSpan o = (o.startNs, e) := by simp [nodeSpan, h]

/-! ## The cuts of stages in order -/

section Cuts
variable {stages : Stages} {gs ge : ℤ}

theorem InOrder.handoffEnd (h : InOrder stages gs ge) {w : Node} (hw : stages.waiting = some w) :
    (stages.cuts gs ge).handoffEnd = w.startNs := by
  obtain ⟨e, _, h1, h2, h3⟩ := h.waiting w hw
  simp only [Stages.cuts, Stages.wStart, hw, Option.map_some, Option.getD_some]
  exact clamp_of_mem h1 (by omega)

/-- The waiting ends where the prefill starts. -/
theorem InOrder.waitingEnd (h : InOrder stages gs ge) {p : Node} (hp : stages.prefill = some p) :
    (stages.cuts gs ge).waitingEnd = p.startNs := by
  obtain ⟨e, _, h1, h2, h3⟩ := h.prefill p hp
  have hc : clamp (stages.pStart gs) gs ge = p.startNs := by
    simp only [Stages.pStart, hp, Option.map_some, Option.getD_some]
    exact clamp_of_mem h1 (by omega)
  have hle : (stages.cuts gs ge).handoffEnd ≤ p.startNs := by
    cases hw : stages.waiting with
    | none =>
      simp only [Stages.cuts, Stages.wStart, hw, Option.map_none, Option.getD_none]
      rw [clamp_of_mem (le_refl _) (by omega)]
      exact h1
    | some w =>
      obtain ⟨we, hwe, _, hlt, _⟩ := h.waiting w hw
      have := h.waitingPrefill w p we hw hp hwe
      rw [h.handoffEnd hw]
      omega
  exact (congrArg (max _) hc).trans (max_eq_right hle)

/-- The prefill ends where the decode starts, if nothing is missing before. -/
theorem InOrder.prefillEnd (h : InOrder stages gs ge) {d : Node} (hd : stages.decode = some d)
    (hgap : stages.waiting.isSome → stages.prefill.isSome) :
    (stages.cuts gs ge).prefillEnd = d.startNs := by
  obtain ⟨e, _, h1, h2, h3⟩ := h.decode d hd
  have hc : clamp (stages.dStart gs) gs ge = d.startNs := by
    simp only [Stages.dStart, hd, Option.map_some, Option.getD_some]
    exact clamp_of_mem h1 (by omega)
  have hle : (stages.cuts gs ge).waitingEnd ≤ d.startNs := by
    cases hp : stages.prefill with
    | none =>
      have hw : stages.waiting = none := by
        cases hw : stages.waiting with
        | none => rfl
        | some w => simp [hw, hp] at hgap
      simp only [Stages.cuts, Stages.pStart, Stages.wStart, hw, hp, Option.map_none,
        Option.getD_none, max_self]
      rw [clamp_of_mem (le_refl _) (by omega)]
      exact h1
    | some p =>
      obtain ⟨pe, hpe, _, hlt, _⟩ := h.prefill p hp
      have := h.prefillDecode p d pe hp hd hpe
      rw [h.waitingEnd hp]
      omega
  exact (congrArg (max _) hc).trans (max_eq_right hle)

theorem InOrder.decodeEnd (h : InOrder stages gs ge) {d : Node} {e : ℤ}
    (hd : stages.decode = some d) (he : d.endNs = some e)
    (hgap : stages.waiting.isSome → stages.prefill.isSome) :
    (stages.cuts gs ge).decodeEnd = e := by
  obtain ⟨e', he', h1, h2, h3⟩ := h.decode d hd
  obtain rfl := Option.some.inj (he.symm.trans he')
  have hc : clamp ((stages.dEnd gs).getD gs) gs ge = e := by
    simp only [Stages.dEnd, hd, he, Option.getD_some]
    exact clamp_of_mem (by omega) h3
  have hle : (stages.cuts gs ge).prefillEnd ≤ e := by
    rw [h.prefillEnd hd hgap]
    omega
  exact (congrArg (max _) hc).trans (max_eq_right hle)

/-- Without a prefill the waiting segment is empty. -/
theorem Stages.waitingEnd_of_no_prefill (gs ge : ℤ) (hp : stages.prefill = none) :
    (stages.cuts gs ge).waitingEnd = (stages.cuts gs ge).handoffEnd := by
  simp [Stages.cuts, Stages.pStart, hp]

/-- Without a decode the prefill segment is empty. -/
theorem Stages.prefillEnd_of_no_decode (gs ge : ℤ) (hd : stages.decode = none) :
    (stages.cuts gs ge).prefillEnd = (stages.cuts gs ge).waitingEnd := by
  simp [Stages.cuts, Stages.dStart, hd]

end Cuts

/-! ## The labels -/

section Labels
variable {stages : Stages} {gid : String} {nodes : List Node} {gs ge : ℤ}

/-- The child of the generation that covers an instant comes from the interval
between the cuts that holds it. -/
theorem exists_span_of_child
    (h : (childrenOf gid nodes).map Node.exported = stageSegments stages gs ge) {n : Node}
    (hn : n ∈ childrenOf gid nodes) :
    ∃ i ∈ (stages.cuts gs ge).spans gs ge, n.name = i.1 ∧ nodeSpan n = i.2 := by
  have hm : Node.exported n ∈ stageSegments stages gs ge := h ▸ List.mem_map_of_mem hn
  obtain ⟨i, hi, he⟩ := List.mem_map.mp hm
  exact ⟨i, (List.mem_filter.mp hi).1, (congrArg Exported.name he).symm,
    (congrArg Exported.span he).symm⟩

/-- Some child of the generation covers each of its instants. -/
theorem exists_child_of_span
    (h : (childrenOf gid nodes).map Node.exported = stageSegments stages gs ge) (hle : gs ≤ ge)
    {t : ℤ} (h1 : gs ≤ t) (h2 : t < ge) :
    ∃ n ∈ childrenOf gid nodes, covers t (nodeSpan n) = true := by
  obtain ⟨i, hi, hc⟩ := (stages.cuts_tiles hle).filter_nonempty.exists_covers h1 h2
  rw [List.filter_map] at hi
  obtain ⟨j, hj, rfl⟩ := List.mem_map.mp hi
  have hm : { name := j.1, span := j.2, metadata := segmentMetadata stages j.1 } ∈
      (childrenOf gid nodes).map Node.exported := by
    rw [h]
    exact List.mem_map.mpr ⟨j, hj, rfl⟩
  obtain ⟨n, hn, he⟩ := List.mem_map.mp hm
  refine ⟨n, hn, ?_⟩
  rw [show nodeSpan n = j.2 from congrArg Exported.span he]
  exact covers_iff.mpr hc

/-- A stage between two neighbouring cuts is labelled by the segment there. -/
theorem labelled_of_span
    (h : (childrenOf gid nodes).map Node.exported = stageSegments stages gs ge) (hle : gs ≤ ge)
    {label : String} {o : Node} {a b : ℤ} (hin : Observed gs ge o)
    (hspan : (modulePrefixed label, a, b) ∈ (stages.cuts gs ge).spans gs ge)
    (ha : a ≤ o.startNs) (hb : ∀ e, o.endNs = some e → e ≤ b) : Labelled gid nodes label o := by
  obtain ⟨e, he, h1, _, h3⟩ := hin
  intro t ht
  rw [nodeSpan_of_end he] at ht
  obtain ⟨ht1, ht2⟩ := covers_iff.mp ht
  refine ⟨exists_child_of_span h hle (le_trans h1 ht1) (lt_of_lt_of_le ht2 h3),
    fun n hn hcov => ?_⟩
  obtain ⟨i, hi, hname, hi2⟩ := exists_span_of_child h hn
  have hab : covers t (a, b) = true :=
    covers_iff.mpr ⟨le_trans ha ht1, lt_of_lt_of_le ht2 (hb e he)⟩
  -- no other interval between the cuts covers the instant
  obtain rfl := (stages.cuts_tiles hle).unique hi hspan (hi2 ▸ hcov) hab
  exact hname

/-- A labelled stage starts in a segment of its label. -/
theorem Labelled.span (hl : Labelled gid nodes label o)
    (h : (childrenOf gid nodes).map Node.exported = stageSegments stages gs ge)
    (hin : Observed gs ge o) :
    ∃ i ∈ (stages.cuts gs ge).spans gs ge, i.1 = modulePrefixed label ∧
      covers o.startNs i.2 = true := by
  obtain ⟨e, he, _, hlt, _⟩ := hin
  have ht : covers o.startNs (nodeSpan o) = true := by
    rw [nodeSpan_of_end he]
    exact covers_iff.mpr ⟨le_refl _, hlt⟩
  obtain ⟨⟨n, hn, hc⟩, hname⟩ := hl _ ht
  obtain ⟨i, hi, hi1, hi2⟩ := exists_span_of_child h hn
  exact ⟨i, hi, hi1 ▸ hname n hn hc, hi2 ▸ hc⟩

theorem truthful_of_noGap (hord : InOrder stages gs ge)
    (h : (childrenOf gid nodes).map Node.exported = stageSegments stages gs ge) (hle : gs ≤ ge)
    (hgap : NoGap stages) : Truthful stages gid nodes := by
  refine ⟨fun w hw => ?_, fun p hp => ?_, fun d hd => ?_⟩
  · obtain ⟨p, hp⟩ := Option.isSome_iff_exists.mp (hgap.1 (by simp [hw]))
    refine labelled_of_span h hle (hord.waiting w hw) (.tail _ (.head _)) (hord.handoffEnd hw).le
      fun e he => ?_
    rw [hord.waitingEnd hp]
    exact hord.waitingPrefill w p e hw hp he
  · obtain ⟨d, hd⟩ := Option.isSome_iff_exists.mp (hgap.2 (by simp [hp]))
    refine labelled_of_span h hle (hord.prefill p hp) (.tail _ (.tail _ (.head _)))
      (hord.waitingEnd hp).le fun e he => ?_
    rw [hord.prefillEnd hd hgap.1]
    exact hord.prefillDecode p d e hp hd he
  · exact labelled_of_span h hle (hord.decode d hd) (.tail _ (.tail _ (.tail _ (.head _))))
      (hord.prefillEnd hd hgap.1).le fun e he => (hord.decodeEnd hd he hgap.1).ge

theorem noGap_of_truthful (hord : InOrder stages gs ge)
    (h : (childrenOf gid nodes).map Node.exported = stageSegments stages gs ge)
    (ht : Truthful stages gid nodes) : NoGap stages := by
  constructor
  · intro hw
    obtain ⟨w, hw⟩ := Option.isSome_iff_exists.mp hw
    by_contra hp
    have hempty := Stages.waitingEnd_of_no_prefill gs ge
      (Option.not_isSome_iff_eq_none.mp hp)
    obtain ⟨i, hi, hname, hc⟩ := (ht.waiting w hw).span h (hord.waiting w hw)
    obtain rfl := boundaryList_inj hi (.tail _ (.head _)) hname
    have hin := covers_iff.mp hc
    simp only at hin
    omega
  · intro hp
    obtain ⟨p, hp⟩ := Option.isSome_iff_exists.mp hp
    by_contra hd
    have hempty := Stages.prefillEnd_of_no_decode gs ge
      (Option.not_isSome_iff_eq_none.mp hd)
    obtain ⟨i, hi, hname, hc⟩ := (ht.prefill p hp).span h (hord.prefill p hp)
    obtain rfl := boundaryList_inj hi (.tail _ (.tail _ (.head _))) hname
    have hin := covers_iff.mp hc
    simp only at hin
    omega

end Labels

/-- **Labels are right where no stage is missing.** Every event of the recorders
with an ended generation inside the root has a timeline. When its observed
stages lie in the generation in order, they are all exported under their own
labels exactly when a waiting comes with a prefill and a prefill with a decode. -/
theorem stage_labels_truthful (uuid : ℕ → String) (event : Event) (root g : Node) (endNs ge : ℤ)
    (hroot : root.parentId = none) (hend : root.endNs = some endNs) (hpos : 0 < root.startNs)
    (hge : g.endNs = some ge) (h1 : root.startNs ≤ g.startNs) (h2 : g.startNs ≤ ge)
    (hr : Recorded event) (hid : DistinctIds uuid event root (some g))
    (hord : InOrder (observedStages event.observations) g.startNs ge) :
    ∃ nodes, timelineNodes uuid event root (some g) = .ok nodes ∧
      (Truthful (observedStages event.observations) g.id nodes ↔
        NoGap (observedStages event.observations)) := by
  obtain ⟨nodes, hnodes⟩ : ∃ nodes, timelineNodes uuid event root (some g) = .ok nodes :=
    timelineNodes_ok uuid hr hend (fun g' hg' => by cases hg'; simp [hge])
  have hseg := generation_segments hnodes hroot hid hge (by omega) h2
  exact ⟨nodes, hnodes, noGap_of_truthful hord hseg, truthful_of_noGap hord hseg h2⟩

/-- The token timeline was unavailable: only the waiting was recorded. -/
def waitingOnly : Event := smallEvent
  [smallGeneration, spanNode "w" "g" "waiting_to_first_schedule" 30 40] []

/-- The request was aborted before its second token. -/
def prefillOnly : Event := smallEvent [smallGeneration, spanNode "p" "g" "prefill" 30 40] []

theorem waitingOnly_inOrder : InOrder (observedStages waitingOnly.observations) 20 80 where
  waiting := by rintro w ⟨⟩; exact ⟨40, rfl, by decide, by decide, by decide⟩
  prefill := by rintro p ⟨⟩
  decode := by rintro d ⟨⟩
  waitingPrefill := by rintro x y e _ ⟨⟩
  prefillDecode := by rintro x y e _ ⟨⟩
  waitingDecode := by rintro x y e _ ⟨⟩

theorem prefillOnly_inOrder : InOrder (observedStages prefillOnly.observations) 20 80 where
  waiting := by rintro w ⟨⟩
  prefill := by rintro p ⟨⟩; exact ⟨40, rfl, by decide, by decide, by decide⟩
  decode := by rintro d ⟨⟩
  waitingPrefill := by rintro x y e ⟨⟩
  prefillDecode := by rintro x y e _ ⟨⟩
  waitingDecode := by rintro x y e _ ⟨⟩

theorem stage_labels_truthful_waitingOnly :
    ∃ nodes, timelineNodes drawnId waitingOnly smallRoot (some smallGeneration) = .ok nodes ∧
      (Truthful (observedStages waitingOnly.observations) "g" nodes ↔
        NoGap (observedStages waitingOnly.observations)) :=
  stage_labels_truthful drawnId waitingOnly smallRoot smallGeneration 100 80 rfl rfl (by decide)
    rfl (by decide) (by decide) ⟨by decide, by decide, by decide⟩ (by unfold DistinctIds; decide)
    waitingOnly_inOrder

theorem small_segments {nodes : List Node} (event : Event)
    (hid : DistinctIds drawnId event smallRoot (some smallGeneration))
    (h : timelineNodes drawnId event smallRoot (some smallGeneration) = .ok nodes) :
    (childrenOf "g" nodes).map Node.exported =
      stageSegments (observedStages event.observations) 20 80 :=
  generation_segments h rfl hid rfl (by decide) (by decide)

/-- A lone waiting is exported as the end of the generation, a lone prefill as
its decode. -/
theorem stage_labels_wrong :
    (∃ nodes, timelineNodes drawnId waitingOnly smallRoot (some smallGeneration) = .ok nodes ∧
      (childrenOf "g" nodes).map (fun n => (n.name, nodeSpan n)) =
        [("engine-core.engine_handoff", 20, 30), ("engine-core.engine_finalize", 30, 80)] ∧
      InOrder (observedStages waitingOnly.observations) 20 80 ∧
      ¬ Truthful (observedStages waitingOnly.observations) "g" nodes) ∧
    ∃ nodes, timelineNodes drawnId prefillOnly smallRoot (some smallGeneration) = .ok nodes ∧
      (childrenOf "g" nodes).map (fun n => (n.name, nodeSpan n)) =
        [("engine-core.waiting_to_first_schedule", 20, 30), ("engine-core.decode", 30, 40),
          ("engine-core.engine_finalize", 40, 80)] ∧
      InOrder (observedStages prefillOnly.observations) 20 80 ∧
      ¬ Truthful (observedStages prefillOnly.observations) "g" nodes := by
  refine ⟨⟨_, rfl, by decide +kernel, waitingOnly_inOrder, fun h => ?_⟩, _, rfl,
    by decide +kernel, prefillOnly_inOrder, fun h => ?_⟩
  · have hseg := small_segments waitingOnly (by unfold DistinctIds; decide) rfl
    exact absurd (noGap_of_truthful waitingOnly_inOrder hseg h) (by unfold NoGap; decide)
  · have hseg := small_segments prefillOnly (by unfold DistinctIds; decide) rfl
    exact absurd (noGap_of_truthful prefillOnly_inOrder hseg h) (by unfold NoGap; decide)

end VllmObserver.Exporter
