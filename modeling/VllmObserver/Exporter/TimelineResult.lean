import VllmObserver.Exporter.TimelineDetails

/-! # The result of `timelineNodes`

`Timeline` names the parts a returned timeline is made of; `timelineNodes_spec`
takes a result apart into them, and `timelineNodes_ok` says when there is one. -/
namespace VllmObserver.Exporter
open VllmObserver.Lib VllmObserver.Core

/-! ## Sorting -/

def sortKey (node : Node) : ℤ × ℤ := (node.startNs, node.endNs.getD 0 - node.startNs)

/-- The order of the exported nodes. -/
def keyOrder (a b : Node) : Prop := precedes (sortKey a) (sortKey b)

instance (a b : Node) : Decidable (keyOrder a b) := inferInstanceAs (Decidable (precedes _ _))

instance : DecidableRel keyOrder := fun a b => inferInstanceAs (Decidable (keyOrder a b))

instance : Std.Total keyOrder := ⟨fun a b => by unfold keyOrder precedes; omega⟩

instance : IsTrans Node keyOrder := ⟨fun a b c => by unfold keyOrder precedes; omega⟩

theorem withKeys_spec : ∀ {nodes : List Node} {keyed : List ((ℤ × ℤ) × Node)},
    withKeys nodes = .ok keyed →
    (∀ n ∈ nodes, n.endNs ≠ none) ∧ keyed = nodes.map (fun n => (sortKey n, n))
  | [], keyed, h => by
    cases h
    simp
  | node :: rest, keyed, h => by
    obtain ⟨e, he, h⟩ := bind_eq_ok.mp h
    obtain ⟨tail, ht, h⟩ := bind_eq_ok.mp h
    cases h
    obtain ⟨hends, rfl⟩ := withKeys_spec ht
    have hn := integer_ok.mp he
    refine ⟨?_, by simp [sortKey, hn]⟩
    intro n hmem
    rcases List.mem_cons.mp hmem with rfl | hmem
    · simp [hn]
    · exact hends n hmem

theorem withKeys_ok : ∀ {nodes : List Node}, (∀ n ∈ nodes, n.endNs ≠ none) →
    ∃ keyed, withKeys nodes = .ok keyed
  | [], _ => ⟨[], rfl⟩
  | node :: rest, h => by
    obtain ⟨keyed, hk⟩ := withKeys_ok fun n hn => h n (List.mem_cons_of_mem _ hn)
    obtain ⟨e, he⟩ := Option.ne_none_iff_exists'.mp (h node List.mem_cons_self)
    exact ⟨_, by rw [withKeys, integer_ok.mpr he, ok_bind, hk, ok_bind]⟩

theorem sortNodes_spec {nodes sorted : List Node} (h : sortNodes nodes = .ok sorted) :
    (∀ n ∈ nodes, n.endNs ≠ none) ∧ sorted = nodes.insertionSort keyOrder := by
  obtain ⟨keyed, hk, h⟩ := bind_eq_ok.mp h
  obtain ⟨hends, rfl⟩ := withKeys_spec hk
  refine ⟨hends, ?_⟩
  rw [← Except.ok.inj h, List.map_insertionSort _ keyOrder, List.map_map]
  · simp [Function.comp_def]
  · intro a ha b hb
    obtain ⟨_, _, rfl⟩ := List.mem_map.mp ha
    obtain ⟨_, _, rfl⟩ := List.mem_map.mp hb
    exact Iff.rfl

theorem sortNodes_ok {nodes : List Node} (h : ∀ n ∈ nodes, n.endNs ≠ none) :
    ∃ sorted, sortNodes nodes = .ok sorted := by
  obtain ⟨keyed, hk⟩ := withKeys_ok h
  exact ⟨_, by rw [sortNodes, hk, ok_bind]⟩

/-! ## The parts of a timeline -/

section Parts
variable (uuid : ℕ → String) (event : Event) (root : Node) (generation : Option Node)

/-- The nodes before sorting, in the order they are appended. -/
def body (api transfer : Segment) (segs : List Segment) (details : List Detail) : List Node :=
  (if transfer.endNs > transfer.startNs then [api, transfer] else [api]).map Segment.toNode ++
    (generation.map (underRoot root)).toList ++
    segs.map Segment.toNode ++ details.map Detail.node

/-- A timeline of the event, taken apart: the two top-level segments, the
segments of the generation, and the details before nesting. -/
structure Timeline (endNs : ℤ) (api transfer : Segment) (segs : List Segment)
    (details : List Detail) : Prop where
  rootEnd : root.endNs = some endNs
  isApi : segment (uuid 0) root.id (modulePrefixed "api_prepare") root.startNs
    (genStart generation endNs)
    (Dict.ofList [("note", .str "routing + render + sampling + submit; details nested")]) = .ok api
  isTransfer : segment (uuid 1) root.id (modulePrefixed "response_transfer")
    (genEnd generation endNs) endNs
    (Dict.ofList [("note", .str "detokenize + SSE flush + response completion")]) = .ok transfer
  noSegments : generation = none → segs = []
  isSegments : ∀ g, generation = some g → ∃ bs,
    boundaries (lookupStages event.observations) (genStart generation endNs)
      (genEnd generation endNs) = .ok bs ∧
    generationSegments uuid g.id (genEnd generation endNs)
      (segmentExtra (lookupStages event.observations)) bs (genStart generation endNs) 2 = .ok segs
  isDetails : detailsOf ([api, transfer] ++ segs) event.apiIntervals = .ok details
  ends : ∀ n ∈ body root generation api transfer segs (reparent event.apiIntervals details),
    n.endNs ≠ none

variable {uuid event root generation}

theorem timelineNodes_spec {nodes : List Node}
    (h : timelineNodes uuid event root generation = .ok nodes) :
    ∃ endNs api transfer segs details,
      Timeline uuid event root generation endNs api transfer segs details ∧
      nodes = root :: (body root generation api transfer segs
        (reparent event.apiIntervals details)).insertionSort keyOrder := by
  obtain ⟨endNs, hend, h⟩ := bind_eq_ok.mp h
  obtain ⟨api, hapi, h⟩ := bind_eq_ok.mp h
  obtain ⟨transfer, htransfer, h⟩ := bind_eq_ok.mp h
  obtain ⟨⟨gens, segs⟩, hgen, h⟩ := bind_eq_ok.mp h
  obtain ⟨details, hdetails, h⟩ := bind_eq_ok.mp h
  obtain ⟨sorted, hsorted, h⟩ := bind_eq_ok.mp h
  cases h
  obtain ⟨hends, rfl⟩ := sortNodes_spec hsorted
  cases generation with
  | none =>
    obtain ⟨rfl, rfl⟩ := Prod.mk.inj (Except.ok.inj hgen)
    exact ⟨endNs, api, transfer, [], details,
      ⟨integer_ok.mp hend, hapi, htransfer, fun _ => rfl, by simp, hdetails, hends⟩, rfl⟩
  | some g =>
    obtain ⟨bs, hbs, hgen⟩ := bind_eq_ok.mp hgen
    obtain ⟨segs', hsegs, hgen⟩ := bind_eq_ok.mp hgen
    cases hgen
    refine ⟨endNs, api, transfer, segs, details,
      ⟨integer_ok.mp hend, hapi, htransfer, by simp, ?_, hdetails, hends⟩, rfl⟩
    intro g' hg'
    cases hg'
    exact ⟨bs, hbs, hsegs⟩

/-- The same of a root with a known end. -/
theorem timelineNodes_timeline {nodes : List Node} {endNs : ℤ}
    (h : timelineNodes uuid event root generation = .ok nodes) (hend : root.endNs = some endNs) :
    ∃ api transfer segs details,
      Timeline uuid event root generation endNs api transfer segs details ∧
      nodes = root :: (body root generation api transfer segs
        (reparent event.apiIntervals details)).insertionSort keyOrder := by
  obtain ⟨e, api, transfer, segs, details, ht, hnodes⟩ := timelineNodes_spec h
  obtain rfl : e = endNs := Option.some.inj (ht.rootEnd.symm.trans hend)
  exact ⟨api, transfer, segs, details, ht, hnodes⟩

/-! ## When a timeline is returned -/

/-- What the recorders promise of an event: the stage observations and the API
intervals have ended, and no metadata key is a parameter of `_segment`. -/
structure Recorded (event : Event) : Prop where
  stageEnds : ∀ o ∈ event.observations, o.name ∈ stageNames → o.endNs ≠ none
  freeKeys : ∀ o ∈ event.observations, FreeKeys o.metadata
  apiEnds : ∀ n ∈ event.apiIntervals, n.endNs ≠ none

theorem Recorded.stagesOk (h : Recorded event) : StagesOk (lookupStages event.observations) := by
  rw [lookupStages_eq]
  have keys : ∀ {name o}, lastNamed name event.observations = some o → FreeKeys o.metadata :=
    fun ho => h.freeKeys _ (lastNamed_mem ho).1
  have ends : ∀ {name o}, lastNamed name event.observations = some o → name ∈ stageNames →
      o.endNs ≠ none := by
    intro name o ho hn
    obtain ⟨hm, he⟩ := lastNamed_mem ho
    exact h.stageEnds o hm (he ▸ hn)
  refine ⟨?_, fun o ho => keys ho, fun o ho => keys ho, fun o ho => ends ho (by decide),
    fun o ho => ends ho (by decide)⟩
  intro o ho
  rcases Option.or_eq_some_iff.mp ho with ho | ⟨_, ho⟩
  · exact keys ho
  · exact keys ho

theorem details_mem {containers : List Segment} {intervals : List Node} {details : List Detail}
    (h : detailsOf containers intervals = .ok details) {d : Detail} (hd : d ∈ details) :
    ∃ n ∈ intervals, clipped containers n = some d := by
  rw [detailsOf_spec h] at hd
  exact List.mem_filterMap.mp hd

/-- Nesting finds every detail among the intervals it came from. -/
theorem reparent_details {containers : List Segment} {intervals : List Node}
    {details : List Detail} (h : detailsOf containers intervals = .ok details) :
    reparent intervals details = details.mapIdx (place details) := by
  apply reparent_eq
  intro d hd
  obtain ⟨n, hn, hc⟩ := details_mem h hd
  obtain ⟨_, _, _, _, _, _, hraw, _⟩ := clipped_spec hc
  exact ⟨n, hn, hraw.symm⟩

/-- A nested detail keeps everything but its parent, which is the container it
was clipped to or the submission it moved under. -/
theorem mem_reparent {containers : List Segment} {intervals : List Node}
    {details : List Detail} (h : detailsOf containers intervals = .ok details) {d' : Detail}
    (hd' : d' ∈ reparent intervals details) :
    ∃ i d, details[i]? = some d ∧ d' = place details i d := by
  rw [reparent_details h] at hd'
  obtain ⟨i, hi⟩ := List.mem_iff_getElem?.mp hd'
  rw [List.getElem?_mapIdx] at hi
  cases hd : details[i]? with
  | none => rw [hd] at hi; cases hi
  | some d =>
    rw [hd] at hi
    exact ⟨i, d, hd, (Option.some.inj hi).symm⟩

theorem place_endNs {details : List Detail} (i : ℕ) (d : Detail) :
    (place details i d).node.endNs = d.node.endNs := by
  rcases place_cases details i d with he | ⟨_, _, _, he⟩ <;> rw [he]
  rfl

theorem clipped_endNs {containers : List Segment} {n : Node} {d : Detail}
    (h : clipped containers n = some d) : d.node.endNs = some d.endNs := by
  obtain ⟨_, _, _, _, _, _, _, hn⟩ := clipped_spec h
  rw [hn]

theorem body_ends (root : Node) (api transfer : Segment) (segs : List Segment)
    {containers : List Segment} {intervals : List Node} {details : List Detail}
    (h : detailsOf containers intervals = .ok details)
    (hg : ∀ g, generation = some g → g.endNs ≠ none) :
    ∀ n ∈ body root generation api transfer segs (reparent intervals details),
      n.endNs ≠ none := by
  intro n hn
  simp only [body, List.mem_append, List.mem_map, Option.mem_toList, Option.map_eq_some_iff] at hn
  rcases hn with ((⟨s, _, rfl⟩ | ⟨g, hgen, rfl⟩) | ⟨s, _, rfl⟩) | ⟨d, hd, rfl⟩
  · simp [Segment.toNode]
  · exact hg g hgen
  · simp [Segment.toNode]
  · obtain ⟨i, d, hi, rfl⟩ := mem_reparent h hd
    obtain ⟨_, _, hc⟩ := details_mem h (List.mem_of_getElem? hi)
    rw [place_endNs, clipped_endNs hc]
    simp

/-- Every event of the recorders whose generation has ended has a timeline. -/
theorem timelineNodes_ok (uuid : ℕ → String) {endNs : ℤ} (hr : Recorded event)
    (hend : root.endNs = some endNs)
    (hg : ∀ g, generation = some g → g.endNs ≠ none) :
    ∃ nodes, timelineNodes uuid event root generation = .ok nodes := by
  obtain ⟨api, hapi⟩ : ∃ s, segment (uuid 0) root.id (modulePrefixed "api_prepare") root.startNs
      (genStart generation endNs) (Dict.ofList [("note",
        .str "routing + render + sampling + submit; details nested")]) = .ok s :=
    segment_ok (by decide)
  obtain ⟨transfer, htr⟩ : ∃ s, segment (uuid 1) root.id (modulePrefixed "response_transfer")
      (genEnd generation endNs) endNs (Dict.ofList [("note",
        .str "detokenize + SSE flush + response completion")]) = .ok s :=
    segment_ok (by decide)
  have hpart : ∃ gens segs, generationPart uuid (lookupStages event.observations) root generation
      (genStart generation endNs) (genEnd generation endNs) = .ok (gens, segs) ∧
      gens = (generation.map (underRoot root)).toList := by
    cases generation with
    | none => exact ⟨[], [], rfl, rfl⟩
    | some g =>
      obtain ⟨bs, hbs⟩ :=
        boundaries_ok hr.stagesOk (genStart (some g) endNs) (genEnd (some g) endNs)
      obtain ⟨segs, hsegs⟩ : ∃ segs, generationSegments uuid g.id (genEnd (some g) endNs)
          (segmentExtra (lookupStages event.observations)) bs (genStart (some g) endNs) 2 =
            .ok segs := generationSegments_ok (segmentExtra_free hr.stagesOk) bs _ 2
      refine ⟨[underRoot root g], segs, ?_, rfl⟩
      simp only [generationPart, hbs, ok_bind, hsegs]
  obtain ⟨gens, segs, hpart, rfl⟩ := hpart
  have hdetails : detailsOf ([api, transfer] ++ segs) event.apiIntervals =
      .ok (event.apiIntervals.filterMap (clipped ([api, transfer] ++ segs))) :=
    detailsOf_ok hr.apiEnds
  obtain ⟨sorted, hsorted⟩ := sortNodes_ok (body_ends root api transfer segs hdetails hg)
  refine ⟨root :: sorted, ?_⟩
  simp only [timelineNodes, integer_ok.mpr hend, ok_bind, hapi, htr, hpart, hdetails]
  rw [body] at hsorted
  rw [hsorted, ok_bind]

/-- An unfinished generation has no timeline: its missing end has a fallback
everywhere but in the sort key, which subtracts from it. -/
theorem timelineNodes_unfinished {g : Node} (h : g.endNs = none) :
    ∃ e, timelineNodes uuid event root (some g) = .error e := by
  cases hn : timelineNodes uuid event root (some g) with
  | error e => exact ⟨e, rfl⟩
  | ok nodes =>
    obtain ⟨_, api, transfer, segs, details, ht, _⟩ := timelineNodes_spec hn
    have hm : underRoot root g ∈ body root (some g) api transfer segs
        (reparent event.apiIntervals details) := by simp [body]
    exact absurd h (ht.ends (underRoot root g) hm)

end Parts

/-! ## A small request -/

/-- The identifiers drawn while a small request is exported. -/
def drawnId (n : ℕ) : String := ["u0", "u1", "u2", "u3", "u4", "u5", "u6"].getD n "u"

def spanNode (id parent name : String) (startNs endNs : ℤ) : Node where
  id := id
  parentId := some parent
  name := name
  type := .span
  startNs := startNs
  endNs := some endNs
  metadata := Dict.empty

/-- A generation from instant 20 that ended at 80. -/
def smallGeneration : Node :=
  { spanNode "g" "r" "generate-response" 20 80 with type := .generation }

def smallRoot : Node := { spanNode "r" "" "serve-model-request" 10 100 with parentId := none }

def smallEvent (observations apiIntervals : List Node) : Event where
  traceId := "0123456789abcdef0123456789abcdef"
  parentSpanId := none
  startedNs := 10
  status := .ok
  engineRequests := 1
  rootSpanId := "r"
  route := "/v1/completions"
  observations := observations
  stages := Dict.empty
  requestPayload := .null
  responseText := .null
  firstBodyNs := none
  apiIntervals := apiIntervals
  userId := none
  sessionId := none

/-- A generation whose client went away before the stream was closed. -/
def openGeneration : Node := { smallGeneration with endNs := none }

theorem timelineNodes_unfinished_cancelled :
    ∃ e, timelineNodes drawnId (smallEvent [openGeneration] []) smallRoot (some openGeneration) =
      .error e := timelineNodes_unfinished rfl

/-- The fallbacks for a missing end do not save the trace of a cancelled stream. -/
theorem timelineNodes_cancelled :
    0 < smallRoot.startNs ∧ smallRoot.startNs ≤ openGeneration.startNs ∧
      smallRoot.endNs = some 100 ∧ openGeneration.startNs ≤ 100 ∧ openGeneration.endNs = none ∧
      ¬ ∃ nodes, timelineNodes drawnId (smallEvent [openGeneration] []) smallRoot
        (some openGeneration) = .ok nodes := by
  refine ⟨by decide, by decide, rfl, by decide, rfl, ?_⟩
  rintro ⟨nodes, h⟩
  have he : timelineNodes drawnId (smallEvent [openGeneration] []) smallRoot
      (some openGeneration) = .error (.typeError "unsupported operand type: 'NoneType'") := rfl
  rw [he] at h
  cases h

end VllmObserver.Exporter
