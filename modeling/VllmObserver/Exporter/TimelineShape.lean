import VllmObserver.Exporter.Timeline
import VllmObserver.Lib.Tiling
import Mathlib.Data.List.Induction

/-! # What each part of the timeline computes

One specification per function of `Timeline`: when it returns, and what. The
results about the timeline use these and unfold nothing. -/
namespace VllmObserver.Exporter
open VllmObserver.Lib VllmObserver.Core

/-! ## Segments -/

/-- No key of the metadata repeats a parameter of `_segment`. -/
def FreeKeys (metadata : Metadata) : Prop := ∀ k ∈ metadata.keys, k ∉ segmentParameters

instance (metadata : Metadata) : Decidable (FreeKeys metadata) :=
  inferInstanceAs (Decidable (∀ k ∈ metadata.keys, _))

theorem segment_ok {nodeId parentId name : String} {a b : ℤ} {metadata : Metadata}
    (h : FreeKeys metadata) : ∃ s, segment nodeId parentId name a b metadata = .ok s := by
  have hn : metadata.keys.find? (fun k => decide (k ∈ segmentParameters)) = none := by
    rw [List.find?_eq_none]
    intro k hk
    simpa using h k hk
  exact ⟨_, by rw [segment, hn]⟩

theorem segment_spec {nodeId parentId name : String} {a b : ℤ} {metadata : Metadata} {s : Segment}
    (h : segment nodeId parentId name a b metadata = .ok s) :
    s.id = nodeId ∧ s.parentId = parentId ∧ s.name = name ∧ s.startNs = a ∧ s.endNs = b ∧
      s.metadata = (Dict.ofList [("timing_source", .str "boundary_partition"),
        ("module", .str timelineModule)]).update metadata.entries := by
  unfold segment at h
  split at h
  · cases h
  · cases h
    exact ⟨rfl, rfl, rfl, rfl, rfl, rfl⟩

theorem integer_ok {value : Option ℤ} {n : ℤ} : integer value = .ok n ↔ value = some n := by
  cases value with
  | none => simp [integer]
  | some m => simp [integer]

theorem clamp_lower {v lo hi : ℤ} : lo ≤ clamp v lo hi := le_max_left _ _

theorem clamp_upper {v lo hi : ℤ} (h : lo ≤ hi) : clamp v lo hi ≤ hi :=
  max_le h (min_le_right _ _)

theorem clamp_of_mem {v lo hi : ℤ} (h1 : lo ≤ v) (h2 : v ≤ hi) : clamp v lo hi = v := by
  simp [clamp, h1, h2]

/-! ## The loop over the boundaries -/

/-- What the loop keeps: the pieces between the running boundaries that are not
empty, under their names. -/
def pieces (genEnd : ℤ) : List (String × ℤ × ℤ) → ℤ → List (String × ℤ × ℤ)
  | [], _ => []
  | (name, a, b) :: rest, seen =>
    let s := max a seen
    let e := max s (min b genEnd)
    if e ≤ s then pieces genEnd rest e else (name, s, e) :: pieces genEnd rest e

theorem pieces_length_le {genEnd : ℤ} : ∀ (bs : List (String × ℤ × ℤ)) (seen : ℤ),
    (pieces genEnd bs seen).length ≤ bs.length
  | [], _ => le_refl _
  | (_, _, _) :: rest, _ => by
    simp only [pieces, List.length_cons]
    split
    · exact le_trans (pieces_length_le rest _) (Nat.le_succ _)
    · simpa using pieces_length_le rest _

def Segment.piece (s : Segment) : String × ℤ × ℤ := (s.name, s.startNs, s.endNs)

theorem generationSegments_ok {uuid : ℕ → String} {gid : String} {genEnd : ℤ}
    {extra : String → Metadata} (hx : ∀ name, FreeKeys (extra name)) :
    ∀ (bs : List (String × ℤ × ℤ)) (seen : ℤ) (drawn : ℕ),
      ∃ segs, generationSegments uuid gid genEnd extra bs seen drawn = .ok segs
  | [], _, _ => ⟨[], rfl⟩
  | (name, a, b) :: rest, seen, drawn => by
    simp only [generationSegments]
    split
    · exact generationSegments_ok hx rest _ _
    · obtain ⟨s, hs⟩ : ∃ s, segment (uuid drawn) gid name (max a seen)
          (max (max a seen) (min b genEnd)) (extra name) = .ok s := segment_ok (hx name)
      obtain ⟨segs, hsegs⟩ : ∃ segs, generationSegments uuid gid genEnd extra rest
          (max (max a seen) (min b genEnd)) (drawn + 1) = .ok segs :=
        generationSegments_ok hx rest _ _
      exact ⟨s :: segs, by rw [hs, ok_bind, hsegs, ok_bind]⟩

/-- The kept segments are the pieces, each under the generation, with its own
name's metadata and a fresh identifier. -/
theorem generationSegments_spec {uuid : ℕ → String} {gid : String} {genEnd : ℤ}
    {extra : String → Metadata} : ∀ {bs : List (String × ℤ × ℤ)} {seen : ℤ} {drawn : ℕ}
    {segs : List Segment}, generationSegments uuid gid genEnd extra bs seen drawn = .ok segs →
      segs.map Segment.piece = pieces genEnd bs seen ∧
      segs.map Segment.id = (List.range' drawn segs.length).map uuid ∧
      (∀ s ∈ segs, s.parentId = gid ∧
        s.metadata = (Dict.ofList [("timing_source", .str "boundary_partition"),
          ("module", .str timelineModule)]).update (extra s.name).entries)
  | [], _, _, segs, h => by
    cases h
    exact ⟨rfl, rfl, by simp⟩
  | (name, a, b) :: rest, seen, drawn, segs, h => by
    simp only [generationSegments] at h
    split at h
    · rename_i hle
      have ih := generationSegments_spec h
      simp only [pieces, if_pos hle]
      exact ih
    · rename_i hlt
      obtain ⟨s, hs, h⟩ := bind_eq_ok.mp h
      obtain ⟨tail, ht, h⟩ := bind_eq_ok.mp h
      cases h
      obtain ⟨hp, hi, hm⟩ := generationSegments_spec ht
      obtain ⟨h1, h2, h3, h4, h5, h6⟩ := segment_spec hs
      refine ⟨?_, ?_, ?_⟩
      · simp only [pieces, if_neg hlt, List.map_cons, hp]
        simp [Segment.piece, h3, h4, h5]
      · simp [List.range'_succ, hi, h1]
      · intro t hmem
        rcases List.mem_cons.mp hmem with rfl | hmem
        · exact ⟨h2, by rw [h6, h3]⟩
        · exact hm t hmem

theorem length_segments_le {segs : List Segment} {genEnd seen : ℤ} {bs : List (String × ℤ × ℤ)}
    (h : segs.map Segment.piece = pieces genEnd bs seen) : segs.length ≤ bs.length := by
  have hlength := congrArg List.length h
  rw [List.length_map] at hlength
  exact hlength ▸ pieces_length_le bs seen

/-! ## The observed stages -/

/-- The last observation of a name. -/
def lastNamed (name : String) (observations : List Node) : Option Node :=
  (observations.filter (fun o => decide (o.name = name))).getLast?

theorem lastNamed_mem {name : String} {observations : List Node} {o : Node}
    (h : lastNamed name observations = some o) : o ∈ observations ∧ o.name = name := by
  have hm := List.mem_of_getLast? h
  simpa using hm

theorem lastNamed_append (name : String) (xs : List Node) (o : Node) :
    lastNamed name (xs ++ [o]) = if o.name = name then some o else lastNamed name xs := by
  unfold lastNamed
  by_cases h : o.name = name <;> simp [List.filter_append, h]

theorem engineStages_get? (name : String) (hn : name ∈ stageNames) (observations : List Node) :
    (engineStages observations).get? name = lastNamed name observations := by
  induction observations using List.reverseRecOn with
  | nil => rfl
  | append_singleton xs o ih =>
    rw [lastNamed_append, ← ih]
    unfold engineStages
    rw [List.foldl_append, List.foldl_cons, List.foldl_nil]
    by_cases ho : o.name ∈ stageNames
    · rw [if_pos ho, Dict.get?_set]
      simp only [eq_comm]
    · have hne : o.name ≠ name := fun he => ho (he ▸ hn)
      rw [if_neg ho, if_neg hne]

theorem lookupStages_eq (observations : List Node) : lookupStages observations =
    { queue := lastNamed "queue" observations
      waiting := (lastNamed "waiting_to_first_schedule" observations).or
        (lastNamed "queue" observations)
      prefill := lastNamed "prefill" observations
      decode := lastNamed "decode" observations } := by
  unfold lookupStages
  simp only [engineStages_get? "queue" (by decide),
    engineStages_get? "waiting_to_first_schedule" (by decide),
    engineStages_get? "prefill" (by decide), engineStages_get? "decode" (by decide)]

/-- What the stage observations of an event have to offer for a timeline: ends
that are integers, and metadata `_segment` accepts. -/
structure StagesOk (stages : Stages) : Prop where
  waitingKeys : ∀ o, stages.waiting = some o → FreeKeys o.metadata
  prefillKeys : ∀ o, stages.prefill = some o → FreeKeys o.metadata
  decodeKeys : ∀ o, stages.decode = some o → FreeKeys o.metadata
  prefillEnd : ∀ o, stages.prefill = some o → o.endNs ≠ none
  decodeEnd : ∀ o, stages.decode = some o → o.endNs ≠ none

theorem FreeKeys.erase {metadata : Metadata} (h : FreeKeys metadata) (k : String) :
    FreeKeys (metadata.erase k) := fun _ hk => h _ (Dict.mem_keys_erase.mp hk).2

theorem FreeKeys.set {metadata : Metadata} (h : FreeKeys metadata) {k : String}
    (hk : k ∉ segmentParameters) (v : Json) : FreeKeys (metadata.set k v) := by
  intro k' hk'
  rcases Dict.mem_keys_set.mp hk' with rfl | hk'
  · exact hk
  · exact h k' hk'

theorem FreeKeys.empty : FreeKeys Dict.empty := by simp [FreeKeys]

theorem stageExtra_free (label name : String) {stage : Option Node} {metadata : Node → Metadata}
    {extra : Metadata} (hs : ∀ o, stage = some o → FreeKeys (metadata o)) (he : FreeKeys extra) :
    FreeKeys (stageExtra label stage metadata name extra) := by
  cases hc : stage with
  | none => exact he
  | some o =>
    simp only [stageExtra]
    split
    · exact hs o hc
    · exact he

theorem segmentExtra_free {stages : Stages} (h : StagesOk stages) (name : String) :
    FreeKeys (segmentExtra stages name) := by
  have hw : ∀ o, stages.waiting = some o → FreeKeys (waitingMetadata stages.queue o) := by
    intro o ho
    unfold waitingMetadata
    split
    · exact ((h.waitingKeys o ho).erase _).set (by decide) _
    · exact (h.waitingKeys o ho).erase _
  have h1 := stageExtra_free "waiting_to_first_schedule" name hw FreeKeys.empty
  have h2 := stageExtra_free "prefill" name
    (fun o ho => (h.prefillKeys o ho).erase "timing_source") h1
  exact stageExtra_free "decode" name (fun o ho => (h.decodeKeys o ho).erase "timing_source") h2

/-- The five boundaries between the four clamped instants of the stages. -/
def boundaryList (gs w p d e ge : ℤ) : List (String × ℤ × ℤ) := [
  (modulePrefixed "engine_handoff", gs, w),
  (modulePrefixed "waiting_to_first_schedule", w, p),
  (modulePrefixed "prefill", p, d),
  (modulePrefixed "decode", d, e),
  (modulePrefixed "engine_finalize", e, ge)]

/-- A boundary is determined by its name. -/
theorem boundaryList_inj {gs w p d e ge : ℤ} {i j : String × ℤ × ℤ}
    (hi : i ∈ boundaryList gs w p d e ge) (hj : j ∈ boundaryList gs w p d e ge)
    (h : i.1 = j.1) : i = j := by
  have hnames : ((boundaryList gs w p d e ge).map Prod.fst).Nodup := by
    change [modulePrefixed "engine_handoff", modulePrefixed "waiting_to_first_schedule",
      modulePrefixed "prefill", modulePrefixed "decode", modulePrefixed "engine_finalize"].Nodup
    decide
  exact List.inj_on_of_nodup_map hnames hi hj h

theorem boundaries_spec {stages : Stages} {gs ge : ℤ} {bs : List (String × ℤ × ℤ)}
    (h : boundaries stages gs ge = .ok bs) : ∃ e, stages.dEnd gs = some e ∧
      bs = boundaryList gs (clamp (stages.wStart gs) gs ge) (clamp (stages.pStart gs) gs ge)
        (clamp (stages.dStart gs) gs ge) (clamp e gs ge) ge := by
  obtain ⟨e, he, h⟩ := bind_eq_ok.mp h
  cases h
  exact ⟨e, integer_ok.mp he, rfl⟩

theorem boundaries_ok {stages : Stages} (h : StagesOk stages) (gs ge : ℤ) :
    ∃ bs, boundaries stages gs ge = .ok bs := by
  have he : ∃ e, stages.dEnd gs = some e := by
    unfold Stages.dEnd
    cases hd : stages.decode with
    | some decode => exact Option.ne_none_iff_exists'.mp (h.decodeEnd decode hd)
    | none =>
      cases hp : stages.prefill with
      | some prefill => exact Option.ne_none_iff_exists'.mp (h.prefillEnd prefill hp)
      | none => exact ⟨_, rfl⟩
  obtain ⟨e, he⟩ := he
  exact ⟨_, by rw [boundaries, integer_ok.mpr he, ok_bind]⟩

/-! ## The API details -/

/-- The interval after clipping, or nothing where it is left out. -/
def clipped (containers : List Segment) (node : Node) : Option Detail :=
  match detailOf containers node with
  | .ok detail => detail
  | .error _ => none

theorem detailsOf_ok {containers : List Segment} : ∀ {nodes : List Node},
    (∀ n ∈ nodes, n.endNs ≠ none) →
    detailsOf containers nodes = .ok (nodes.filterMap (clipped containers))
  | [], _ => rfl
  | node :: rest, h => by
    have ih : detailsOf containers rest = .ok (rest.filterMap (clipped containers)) :=
      detailsOf_ok fun n hn => h n (List.mem_cons_of_mem _ hn)
    obtain ⟨e, he⟩ := Option.ne_none_iff_exists'.mp (h node List.mem_cons_self)
    have hd : ∃ d, detailOf containers node = .ok d := by
      simp only [detailOf, he, integer, ok_bind]
      split
      · exact ⟨_, rfl⟩
      · split <;> exact ⟨_, rfl⟩
    obtain ⟨d, hd⟩ := hd
    simp only [detailsOf, hd, ih, ok_bind, List.filterMap_cons, clipped]
    cases d <;> rfl

theorem detailsOf_spec {containers : List Segment} : ∀ {nodes : List Node} {ds : List Detail},
    detailsOf containers nodes = .ok ds → ds = nodes.filterMap (clipped containers)
  | [], ds, h => by cases h; rfl
  | node :: rest, ds, h => by
    obtain ⟨d, hd, h⟩ := bind_eq_ok.mp h
    obtain ⟨tail, ht, h⟩ := bind_eq_ok.mp h
    cases h
    rw [detailsOf_spec ht, List.filterMap_cons, clipped, hd]
    cases d <;> rfl

/-- A clipped interval: its midpoint lies in its container, which is the first
that holds it, and its bounds are the part of the interval in there. -/
theorem clipped_spec {containers : List Segment} {node : Node} {d : Detail}
    (h : clipped containers node = some d) : ∃ e, node.endNs = some e ∧
      containers.find? (fun c => decide (c.startNs ≤ (node.startNs + e) / 2 ∧
        (node.startNs + e) / 2 < c.endNs)) = some d.container ∧
      d.startNs = max node.startNs d.container.startNs ∧
      d.endNs = min e d.container.endNs ∧ d.startNs < d.endNs ∧ d.rawName = node.name ∧
      d.node = { node with
        name := modulePrefixed node.name
        parentId := some d.container.id
        startNs := d.startNs
        endNs := some d.endNs } := by
  unfold clipped at h
  split at h
  · rename_i detail hd
    subst h
    obtain ⟨e, he, hd⟩ := bind_eq_ok.mp hd
    simp only at hd
    split at hd
    · cases hd
    · rename_i c hc
      split at hd
      · cases hd
      · rename_i hlt
        cases hd
        exact ⟨e, integer_ok.mp he, hc, rfl, rfl, not_le.mp hlt, rfl, rfl⟩
  · cases h

end VllmObserver.Exporter
