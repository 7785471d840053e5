import VllmObserver.Exporter.TimelineSegments

/-! # Whose stages a generation is exported with

The stages are looked up by name among all observations of the event. What is
exported under a generation is its own as long as the last observation of every
stage is its own; the stages of another generation replace them otherwise. -/
namespace VllmObserver.Exporter
open VllmObserver.Lib VllmObserver.Core

/-- The observations recorded under the generation. -/
def ownObservations (g : Node) (observations : List Node) : List Node :=
  observations.filter fun o => decide (o.parentId = some g.id)

/-- No stage of another generation was recorded behind the generation's own. -/
def OwnLast (g : Node) (observations : List Node) : Prop :=
  ∀ name ∈ stageNames, ∀ o, lastNamed name observations = some o → o.parentId = some g.id

/-- The segments exported under the generation, when the event is recorded with
these observations. -/
def segmentsUnder (uuid : ℕ → String) (event : Event) (root g : Node)
    (observations : List Node) : Except PyError (List Exported) := do
  let nodes ← timelineNodes uuid { event with observations := observations } root (some g)
  .ok ((childrenOf g.id nodes).map Node.exported)

/-- What the recorders promise of a list of observations. -/
def RecordedStages (observations : List Node) : Prop :=
  ∀ o ∈ observations, FreeKeys o.metadata ∧ (o.name ∈ stageNames → o.endNs ≠ none)

/-- If the last observation of a name is kept by a filter, it is the last one of
that name among the kept. -/
theorem lastNamed_filter {name : String} {q : Node → Bool} : ∀ {observations : List Node},
    (∀ o, lastNamed name observations = some o → q o = true) →
    lastNamed name (observations.filter q) = lastNamed name observations := by
  intro observations
  induction observations using List.reverseRecOn with
  | nil => intro _; rfl
  | append_singleton xs o ih =>
    intro h
    rw [lastNamed_append] at h ⊢
    by_cases ho : o.name = name
    · rw [if_pos ho] at h ⊢
      rw [List.filter_append, List.filter_cons_of_pos (h o rfl), List.filter_nil,
        lastNamed_append, if_pos ho]
    · rw [if_neg ho] at h ⊢
      by_cases hq : q o = true
      · rw [List.filter_append, List.filter_cons_of_pos hq, List.filter_nil, lastNamed_append,
          if_neg ho]
        exact ih h
      · rw [List.filter_append, List.filter_cons_of_neg hq, List.filter_nil, List.append_nil]
        exact ih h

theorem OwnLast.observedStages {g : Node} {observations : List Node}
    (h : OwnLast g observations) :
    observedStages (ownObservations g observations) = observedStages observations := by
  have key : ∀ name ∈ stageNames,
      lastNamed name (ownObservations g observations) = lastNamed name observations :=
    fun name hn => lastNamed_filter fun o ho => by simpa using h name hn o ho
  simp only [Exporter.observedStages, key "queue" (by decide),
    key "waiting_to_first_schedule" (by decide), key "prefill" (by decide),
    key "decode" (by decide)]

/-- An empty generation has no segments. -/
theorem stageSegments_empty (stages : Stages) (gs : ℤ) : stageSegments stages gs gs = [] := by
  have h : ((stages.cuts gs gs).spans gs gs).filter (fun i => nonempty i.2) = [] := by
    refine List.filter_eq_nil_iff.mpr fun i hi => ?_
    obtain ⟨h1, _, h3⟩ :=
      (stages.cuts_tiles (le_refl gs)).within i.2 (List.mem_map_of_mem (f := Prod.snd) hi)
    simp only [nonempty, decide_eq_true_eq, not_lt]
    omega
  rw [stageSegments, h, List.map_nil]

/-- The hand-off is exported when it is not empty. -/
theorem handoff_mem_iff (stages : Stages) (gs ge : ℤ) :
    modulePrefixed "engine_handoff" ∈ (stageSegments stages gs ge).map Exported.name ↔
      gs < (stages.cuts gs ge).handoffEnd := by
  constructor
  · intro h
    obtain ⟨x, hx, hname⟩ := List.mem_map.mp h
    obtain ⟨i, hi, rfl⟩ := List.mem_map.mp hx
    obtain ⟨hi, hne⟩ := List.mem_filter.mp hi
    obtain rfl := boundaryList_inj hi (.head _) hname
    simpa [nonempty] using hne
  · intro h
    refine List.mem_map.mpr ⟨_, List.mem_map.mpr ⟨(modulePrefixed "engine_handoff", gs,
      (stages.cuts gs ge).handoffEnd), List.mem_filter.mpr ⟨?_, ?_⟩, rfl⟩, rfl⟩
    · simp [Cuts.spans, boundaryList]
    · simpa [nonempty] using h

/-- A waiting stage recorded by another generation. -/
def foreignWaiting (g : Node) (startNs : ℤ) : Node where
  id := "foreign"
  parentId := some (g.id ++ "-other")
  name := "waiting_to_first_schedule"
  type := .span
  startNs := startNs
  endNs := some startNs
  metadata := Dict.empty

section Parts
variable {uuid : ℕ → String} {event : Event} {root g : Node}

theorem segmentsUnder_eq {endNs ge : ℤ} {observations : List Node} (hroot : root.parentId = none)
    (hend : root.endNs = some endNs) (hge : g.endNs = some ge) (hpos : 0 < ge)
    (hle : g.startNs ≤ ge) (hid : DistinctIds uuid event root (some g))
    (hapi : ∀ n ∈ event.apiIntervals, n.endNs ≠ none) (hr : RecordedStages observations) :
    segmentsUnder uuid event root g observations =
      .ok (stageSegments (observedStages observations) g.startNs ge) := by
  obtain ⟨nodes, hnodes⟩ : ∃ nodes, timelineNodes uuid
      { event with observations := observations } root (some g) = .ok nodes :=
    timelineNodes_ok uuid ⟨fun o ho => (hr o ho).2, fun o ho => (hr o ho).1, hapi⟩ hend
      (fun g' hg' => by cases hg'; simp [hge])
  rw [segmentsUnder, hnodes, ok_bind, generation_segments hnodes hroot hid hge hpos hle]

theorem RecordedStages.own {observations : List Node} (h : RecordedStages observations) (g : Node) :
    RecordedStages (ownObservations g observations) :=
  fun o ho => h o (List.mem_filter.mp ho).1

theorem RecordedStages.concat {observations : List Node} (h : RecordedStages observations)
    (startNs : ℤ) : RecordedStages (observations ++ [foreignWaiting g startNs]) := by
  intro o ho
  rcases List.mem_append.mp ho with ho | ho
  · exact h o ho
  · rw [List.mem_singleton.mp ho]
    exact ⟨FreeKeys.empty, fun _ => Option.some_ne_none _⟩

theorem own_concat (g : Node) (observations : List Node) (startNs : ℤ) :
    ownObservations g (ownObservations g observations ++ [foreignWaiting g startNs]) =
      ownObservations g observations := by
  have hne : g.id ++ "-other" ≠ g.id := by
    intro h
    have hl := congrArg String.length h
    rw [String.length_append] at hl
    exact absurd hl (by simp)
  have hown : ownObservations g (ownObservations g observations) =
      ownObservations g observations :=
    List.filter_eq_self.mpr fun o ho => (List.mem_filter.mp ho).2
  rw [ownObservations, List.filter_append, List.filter_cons_of_neg (by simp [foreignWaiting, hne]),
    List.filter_nil, List.append_nil]
  exact hown

theorem handoffEnd_concat (observations : List Node) (startNs gs ge : ℤ) :
    ((observedStages (observations ++ [foreignWaiting g startNs])).cuts gs ge).handoffEnd =
      clamp startNs gs ge := by
  have hw : (observedStages (observations ++ [foreignWaiting g startNs])).waiting =
      some (foreignWaiting g startNs) := by
    simp [observedStages, lastNamed_append, foreignWaiting]
  simp only [Stages.cuts, Stages.wStart, hw, Option.map_some, Option.getD_some]
  rfl

end Parts

/-- **Attribution.** For a generation of positive duration the exported segments
always depend on the stages other generations may have recorded: they are the
same for all other observations only if the generation is empty. They are its
own in every event where no other generation recorded a stage behind its own. -/
theorem generation_attribution (uuid : ℕ → String) (event : Event) (root g : Node) (endNs ge : ℤ)
    (hroot : root.parentId = none) (hend : root.endNs = some endNs) (hpos : 0 < root.startNs)
    (hge : g.endNs = some ge) (h1 : root.startNs ≤ g.startNs) (h2 : g.startNs ≤ ge)
    (hr : Recorded event) (hid : DistinctIds uuid event root (some g)) :
    ((∀ observations, RecordedStages observations →
        ownObservations g observations = ownObservations g event.observations →
        segmentsUnder uuid event root g observations =
          segmentsUnder uuid event root g event.observations) ↔ g.startNs = ge) ∧
    (∀ observations, RecordedStages observations →
      ownObservations g observations = ownObservations g event.observations →
      OwnLast g event.observations → OwnLast g observations →
      segmentsUnder uuid event root g observations =
        segmentsUnder uuid event root g event.observations) := by
  have hobs : RecordedStages event.observations :=
    fun o ho => ⟨hr.freeKeys o ho, hr.stageEnds o ho⟩
  have key : ∀ {observations}, RecordedStages observations →
      segmentsUnder uuid event root g observations =
        .ok (stageSegments (observedStages observations) g.startNs ge) :=
    segmentsUnder_eq hroot hend hge (by omega) h2 hid hr.apiEnds
  constructor
  · constructor
    · intro hsame
      by_contra hne
      -- the same own stages, with a foreign waiting from either end of the generation
      have heq : ∀ x, segmentsUnder uuid event root g
          (ownObservations g event.observations ++ [foreignWaiting g x]) =
          segmentsUnder uuid event root g event.observations :=
        fun x => hsame _ ((hobs.own g).concat x) (own_concat g event.observations x)
      have hboth := (heq g.startNs).trans (heq ge).symm
      rw [key ((hobs.own g).concat _), key ((hobs.own g).concat _)] at hboth
      have hmem : modulePrefixed "engine_handoff" ∈
          (stageSegments (observedStages (ownObservations g event.observations ++
            [foreignWaiting g ge])) g.startNs ge).map Exported.name := by
        rw [handoff_mem_iff, handoffEnd_concat, clamp_of_mem h2 (le_refl _)]
        omega
      rw [← Except.ok.inj hboth, handoff_mem_iff, handoffEnd_concat,
        clamp_of_mem (le_refl _) h2] at hmem
      exact lt_irrefl _ hmem
    · intro he observations ho _
      rw [key ho, key hobs, he, stageSegments_empty, stageSegments_empty]
  · intro observations ho hown hlast hlast'
    rw [key ho, key hobs, ← hlast.observedStages, ← hlast'.observedStages, hown]

/-- Another generation of the request, and its decode. -/
def otherDecode : List Node :=
  [{ smallGeneration with id := "h" }, spanNode "e" "h" "decode" 65 70]

/-- The decode of the generation the segments are exported under. -/
def ownDecode : List Node := [smallGeneration, spanNode "d" "g" "decode" 40 60]

theorem generation_attribution_ownDecode :
    ((∀ observations, RecordedStages observations →
        ownObservations smallGeneration observations = ownObservations smallGeneration ownDecode →
        segmentsUnder drawnId (smallEvent ownDecode []) smallRoot smallGeneration observations =
          segmentsUnder drawnId (smallEvent ownDecode []) smallRoot smallGeneration ownDecode) ↔
        smallGeneration.startNs = 80) ∧
    (∀ observations, RecordedStages observations →
      ownObservations smallGeneration observations = ownObservations smallGeneration ownDecode →
      OwnLast smallGeneration ownDecode → OwnLast smallGeneration observations →
      segmentsUnder drawnId (smallEvent ownDecode []) smallRoot smallGeneration observations =
        segmentsUnder drawnId (smallEvent ownDecode []) smallRoot smallGeneration ownDecode) :=
  generation_attribution drawnId (smallEvent ownDecode []) smallRoot smallGeneration 100 80 rfl rfl
    (by decide) rfl (by decide) (by decide) ⟨by decide, by decide, by decide⟩
    (by unfold DistinctIds; decide)

/-- The decode of another generation replaces that of the exported one. -/
theorem generation_foreign_decode :
    firstGeneration (smallEvent (ownDecode ++ otherDecode) []) = some smallGeneration ∧
    ownObservations smallGeneration (ownDecode ++ otherDecode) =
      ownObservations smallGeneration ownDecode ∧
    (segmentsUnder drawnId (smallEvent ownDecode []) smallRoot smallGeneration ownDecode).map
      (·.map fun x => (x.name, x.span)) = .ok [
        ("engine-core.prefill", 20, 40), ("engine-core.decode", 40, 60),
        ("engine-core.engine_finalize", 60, 80)] ∧
    (segmentsUnder drawnId (smallEvent ownDecode []) smallRoot smallGeneration
      (ownDecode ++ otherDecode)).map (·.map fun x => (x.name, x.span)) = .ok [
        ("engine-core.prefill", 20, 65), ("engine-core.decode", 65, 70),
        ("engine-core.engine_finalize", 70, 80)] ∧
    segmentsUnder drawnId (smallEvent ownDecode []) smallRoot smallGeneration
      (ownDecode ++ otherDecode) ≠
        segmentsUnder drawnId (smallEvent ownDecode []) smallRoot smallGeneration ownDecode := by
  refine ⟨rfl, ?_, by decide +kernel, by decide +kernel, fun h => ?_⟩
  · simp [ownObservations, ownDecode, otherDecode, spanNode, smallGeneration]
  · have hspans := congrArg (Except.map (List.map fun x => (x.name, x.span))) h
    revert hspans
    decide +kernel

end VllmObserver.Exporter
