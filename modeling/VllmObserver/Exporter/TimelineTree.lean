import VllmObserver.Exporter.TimelinePartition
import VllmObserver.Lib.StableSort

/-! # The tree of a timeline

Every node but the root hangs under a node of the timeline that encloses it: a
top-level segment or the generation under the root, an engine segment under the
generation, a detail under the leaf segment of its midpoint or under the
submission it moved to. -/
namespace VllmObserver.Exporter
open VllmObserver.Lib VllmObserver.Core

/-- The interval of a node that has ended lies in `[a, b]`. -/
def Inside (a b : ℤ) (n : Node) : Prop :=
  ∃ e, n.endNs = some e ∧ a ≤ n.startNs ∧ n.startNs ≤ e ∧ e ≤ b

/-- `p` encloses `n`. -/
def Encloses (p n : Node) : Prop :=
  ∃ e f, p.endNs = some e ∧ n.endNs = some f ∧ p.startNs ≤ n.startNs ∧ f ≤ e

theorem Encloses.keyOrder {p n : Node} (h : Encloses p n) : keyOrder p n := by
  obtain ⟨e, f, he, hf, h1, h2⟩ := h
  simp only [Exporter.keyOrder, precedes, sortKey, he, hf, Option.getD_some]
  omega

/-- Enclosing nodes that sort the other way around have equal bounds. -/
theorem Encloses.equal_of_keyOrder {p n : Node} (h : Encloses p n)
    (hk : Exporter.keyOrder n p) : p.startNs = n.startNs ∧ p.endNs = n.endNs := by
  obtain ⟨e, f, he, hf, h1, h2⟩ := h
  simp only [Exporter.keyOrder, precedes, sortKey, he, hf, Option.getD_some] at hk
  rw [he, hf, Option.some.injEq]
  omega

/-- Identifiers that differ: one node bears that of a node. -/
theorem countP_id {nodes : List Node} (hid : (nodes.map Node.id).Nodup) {n : Node}
    (hn : n ∈ nodes) : nodes.countP (fun q => decide (q.id = n.id)) = 1 := by
  have hcount := List.count_eq_one_of_mem hid (List.mem_map_of_mem hn)
  rw [List.count_eq_countP, List.countP_map] at hcount
  exact hcount

section Parts
variable {uuid : ℕ → String} {event : Event} {root : Node} {generation : Option Node}
  {endNs : ℤ} {api transfer : Segment} {segs : List Segment} {details : List Detail}

/-- The bounds of the event: the root has positive timestamps and holds the
generation, which has ended. -/
structure Bounds (root : Node) (generation : Option Node) (endNs : ℤ) : Prop where
  positive : 0 < root.startNs
  ordered : root.startNs ≤ endNs
  generation : ∀ g, generation = some g →
    ∃ ge, g.endNs = some ge ∧ root.startNs ≤ g.startNs ∧ g.startNs ≤ ge ∧ ge ≤ endNs

theorem Bounds.generation_ended (hb : Bounds root generation endNs) (g : Node)
    (hg : generation = some g) : g.endNs ≠ none := by
  obtain ⟨ge, hge, _⟩ := hb.generation g hg
  simp [hge]

theorem Bounds.genStart_le (hb : Bounds root generation endNs) :
    root.startNs ≤ genStart generation endNs ∧
      genStart generation endNs ≤ genEnd generation endNs ∧
      genEnd generation endNs ≤ endNs := by
  cases generation with
  | none => exact ⟨hb.ordered, le_refl _, le_refl _⟩
  | some g =>
    obtain ⟨ge, hge, h1, h2, h3⟩ := hb.generation g rfl
    have h0 := hb.positive
    rw [genEnd_some hge (by omega)]
    exact ⟨h1, h2, h3⟩

/-- The leaf segments lie inside the root. -/
theorem Timeline.segment_inside
    (h : Timeline uuid event root generation endNs api transfer segs details)
    (hb : Bounds root generation endNs) :
    ∀ c ∈ [api, transfer] ++ segs,
      root.startNs ≤ c.startNs ∧ c.startNs ≤ c.endNs ∧ c.endNs ≤ endNs := by
  obtain ⟨_, _, _, ha1, ha2, _⟩ := segment_spec h.isApi
  obtain ⟨_, _, _, ht1, ht2, _⟩ := segment_spec h.isTransfer
  obtain ⟨b1, b2, b3⟩ := hb.genStart_le
  intro c hc
  simp only [List.cons_append, List.nil_append, List.mem_cons] at hc
  rcases hc with rfl | rfl | hc
  · omega
  · omega
  · cases hgen : generation with
    | none => rw [h.noSegments hgen] at hc; cases hc
    | some g =>
      subst hgen
      have ht := h.segments_tile b2
      have hw := ht.within _ (List.mem_map_of_mem hc)
      simp only [genStart, Option.map_some, Option.getD_some] at b1
      simp only at hw
      omega

/-- A detail lies in a container that is not empty. -/
theorem detail_in_container {containers : List Segment} {n : Node} {d : Detail}
    (hc : clipped containers n = some d) : d.container ∈ containers ∧
      d.container.startNs ≤ d.startNs ∧ d.startNs < d.endNs ∧ d.endNs ≤ d.container.endNs := by
  obtain ⟨e, _, hfind, h1, h2, h3, _, _⟩ := clipped_spec hc
  refine ⟨List.mem_of_find?_eq_some hfind, ?_, h3, ?_⟩
  · rw [h1]; exact le_max_right _ _
  · rw [h2]; exact min_le_right _ _

theorem detail_span {containers : List Segment} {n : Node} {d : Detail}
    (hc : clipped containers n = some d) : d.node.startNs = d.startNs ∧
      d.node.endNs = some d.endNs ∧ d.node.id = n.id ∧ d.node.parentId = some d.container.id := by
  obtain ⟨_, _, _, _, _, _, _, hn⟩ := clipped_spec hc
  rw [hn]
  exact ⟨rfl, rfl, rfl, rfl⟩

theorem place_node (details : List Detail) (i : ℕ) (d : Detail) :
    (place details i d).node.startNs = d.node.startNs ∧
      (place details i d).node.endNs = d.node.endNs ∧ (place details i d).node.id = d.node.id := by
  rcases place_cases details i d with he | ⟨_, _, _, he⟩ <;> rw [he]
  · exact ⟨rfl, rfl, rfl⟩
  · exact ⟨rfl, rfl, rfl⟩

/-- Every node of a timeline lies inside the root. -/
theorem Timeline.body_inside
    (h : Timeline uuid event root generation endNs api transfer segs details)
    (hb : Bounds root generation endNs) :
    ∀ n ∈ body root generation api transfer segs (reparent event.apiIntervals details),
      Inside root.startNs endNs n := by
  intro n hn
  simp only [body, List.mem_append, List.mem_map, Option.mem_toList, Option.map_eq_some_iff] at hn
  rcases hn with ((⟨s, hs, rfl⟩ | ⟨g, hg, rfl⟩) | ⟨s, hs, rfl⟩) | ⟨d', hd', rfl⟩
  · have hm : s ∈ [api, transfer] ++ segs := by
      split at hs <;> simp only [List.mem_cons, List.not_mem_nil, or_false] at hs
      · rcases hs with rfl | rfl <;> simp
      · simp [hs]
    exact ⟨s.endNs, rfl, h.segment_inside hb s hm⟩
  · obtain ⟨ge, hge, h1, h2, h3⟩ := hb.generation g hg
    exact ⟨ge, hge, h1, h2, h3⟩
  · exact ⟨s.endNs, rfl, h.segment_inside hb s (List.mem_append_right _ hs)⟩
  · obtain ⟨i, d, hi, rfl⟩ := mem_reparent h.isDetails hd'
    obtain ⟨m, _, hc⟩ := details_mem h.isDetails (List.mem_of_getElem? hi)
    obtain ⟨hcm, h1, h2, h3⟩ := detail_in_container hc
    obtain ⟨s1, s2, _, _⟩ := detail_span hc
    obtain ⟨p1, p2, _⟩ := place_node details i d
    have hin := h.segment_inside hb _ hcm
    refine ⟨d.endNs, by rw [p2, s2], ?_⟩
    rw [p1, s1]
    omega

/-! ## Parents -/

theorem Timeline.container_mem
    (h : Timeline uuid event root generation endNs api transfer segs details) {c : Segment}
    (hc : c ∈ [api, transfer] ++ segs) (hne : c.startNs < c.endNs) :
    c.toNode ∈ (if transfer.endNs > transfer.startNs then [api, transfer] else [api]).map
      Segment.toNode ++ (generation.map (underRoot root)).toList ++ segs.map Segment.toNode := by
  simp only [List.cons_append, List.nil_append, List.mem_cons] at hc
  rcases hc with rfl | rfl | hc
  · exact List.mem_append_left _ (List.mem_append_left _ (by split <;> simp))
  · exact List.mem_append_left _ (List.mem_append_left _ (by rw [if_pos hne]; simp))
  · exact List.mem_append_right _ (List.mem_map_of_mem hc)

/-- The node at position `i` of the nested details. -/
theorem Timeline.nested_getElem?
    (h : Timeline uuid event root generation endNs api transfer segs details) {i : ℕ} {d : Detail}
    (hi : details[i]? = some d) :
    ((reparent event.apiIntervals details).map Detail.node)[i]? =
      some (place details i d).node := by
  rw [reparent_details h.isDetails, List.getElem?_map, List.getElem?_mapIdx, hi]
  rfl

/-- The top level hangs under the root. -/
theorem Timeline.top_parent
    (h : Timeline uuid event root generation endNs api transfer segs details) {s : Segment}
    (hs : s ∈ if transfer.endNs > transfer.startNs then [api, transfer] else [api]) :
    s.parentId = root.id := by
  have h0 := (segment_spec h.isApi).2.1
  have h1 := (segment_spec h.isTransfer).2.1
  split at hs <;> simp only [List.mem_cons, List.not_mem_nil, or_false] at hs
  · rcases hs with rfl | rfl
    · exact h0
    · exact h1
  · rw [hs]
    exact h0

/-- A segment hangs under the generation, which encloses it. -/
theorem Timeline.segment_parent
    (h : Timeline uuid event root generation endNs api transfer segs details)
    (hb : Bounds root generation endNs) {s : Segment} (hs : s ∈ segs) :
    ∃ g, generation = some g ∧ s.parentId = g.id ∧ Encloses (underRoot root g) s.toNode := by
  cases generation with
  | none => rw [h.noSegments rfl] at hs; cases hs
  | some g =>
    obtain ⟨_, _, hgs⟩ := h.isSegments g rfl
    obtain ⟨ge, hge, h1, h2, _⟩ := hb.generation g rfl
    have hpos : 0 < ge := by have := hb.positive; omega
    have htile := h.segments_tile (by rw [genEnd_some hge hpos]; exact h2)
    have hw := htile.within _ (List.mem_map_of_mem hs)
    rw [genEnd_some hge hpos] at hw
    exact ⟨g, rfl, ((generationSegments_spec hgs).2.2 s hs).1, ge, s.endNs, hge, rfl, hw.1,
      hw.2.2⟩

/-- Where a node of the timeline hangs: under the root, under a node recorded
before it that encloses it, or under the submission it moved to. -/
theorem Timeline.body_parent
    (h : Timeline uuid event root generation endNs api transfer segs details)
    (hb : Bounds root generation endNs) {n : Node}
    (hn : n ∈ body root generation api transfer segs (reparent event.apiIntervals details)) :
    n.parentId = some root.id ∨
    (∃ p ∈ body root generation api transfer segs (reparent event.apiIntervals details),
      n.parentId = some p.id ∧ Encloses p n ∧
      [p, n].Sublist (body root generation api transfer segs
        (reparent event.apiIntervals details))) ∨
    ∃ i d submit, details[i]? = some d ∧ submitOf details = some submit ∧
      MovesUnder details i d submit ∧ n = (d.setParent submit.node.id).node ∧
      n = (place details i d).node := by
  rcases List.mem_append.mp hn with hf | hd'
  · rcases List.mem_append.mp hf with ht | hs
    · left
      rcases List.mem_append.mp ht with ht | hg
      · obtain ⟨s, hs, rfl⟩ := List.mem_map.mp ht
        exact congrArg some (h.top_parent hs)
      · obtain ⟨g, _, rfl⟩ := Option.map_eq_some_iff.mp (Option.mem_toList.mp hg)
        rfl
    · right; left
      obtain ⟨s, hseg, rfl⟩ := List.mem_map.mp hs
      obtain ⟨g, rfl, hpar, henc⟩ := h.segment_parent hb hseg
      refine ⟨underRoot root g, by simp [body], congrArg some hpar, henc, ?_⟩
      rw [body, List.append_assoc]
      exact pair_sublist_append (by simp) (List.mem_append_left _ hs)
  · -- a detail, in its container or moved
    right
    obtain ⟨d', hdet, rfl⟩ := List.mem_map.mp hd'
    obtain ⟨i, d, hi, rfl⟩ := mem_reparent h.isDetails hdet
    rcases place_cases details i d with he | ⟨submit, hs, hm, he⟩
    · left
      obtain ⟨m, _, hc⟩ := details_mem h.isDetails (List.mem_of_getElem? hi)
      obtain ⟨hcm, h1, h2, h3⟩ := detail_in_container hc
      obtain ⟨s1, s2, _, s4⟩ := detail_span hc
      have hmem := h.container_mem hcm (by omega)
      refine ⟨d.container.toNode, List.mem_append_left _ hmem, by rw [he, s4]; rfl, ?_, ?_⟩
      · exact ⟨d.container.endNs, d.endNs, rfl, by rw [he, s2], by rw [he, s1]; exact h1, h3⟩
      · exact pair_sublist_append hmem hd'
    · right
      exact ⟨i, d, submit, hi, hs, hm, congrArg Detail.node he, rfl⟩

/-! ## Identifiers of the nodes -/

theorem details_ids (containers : List Segment) : ∀ (intervals : List Node),
    ((intervals.filterMap (clipped containers)).map fun d => d.node.id).Sublist
      (intervals.map Node.id)
  | [] => .slnil
  | n :: rest => by
    have ih := details_ids containers rest
    rw [List.filterMap_cons]
    cases hc : clipped containers n with
    | none => exact ih.cons _
    | some d =>
      simp only [List.map_cons, (detail_span hc).2.2.1]
      exact ih.cons_cons _

theorem reparent_ids {containers : List Segment} {intervals : List Node}
    (h : detailsOf containers intervals = .ok details) :
    ((reparent intervals details).map Detail.node).map Node.id =
      details.map fun d => d.node.id := by
  rw [reparent_details h, List.map_map]
  apply List.ext_getElem?
  intro i
  simp only [List.getElem?_map, List.getElem?_mapIdx, Option.map_map]
  cases details[i]? with
  | none => rfl
  | some d => exact congrArg some (place_node details i d).2.2

theorem DistinctIds.nodup (hid : DistinctIds uuid event root generation) :
    (root.id :: ((generation.map Node.id).toList ++ ((List.range 7).map uuid ++
      event.apiIntervals.map Node.id))).Nodup := by
  unfold DistinctIds at hid
  rwa [List.cons_append, List.cons_append, List.append_assoc] at hid

/-- The identifiers of the segments, in the order they were drawn. -/
theorem Timeline.drawn_ids
    (h : Timeline uuid event root generation endNs api transfer segs details) :
    ((if transfer.endNs > transfer.startNs then [api, transfer] else [api]).map Segment.id ++
      segs.map Segment.id).Sublist ((List.range 7).map uuid) := by
  have h0 := (segment_spec h.isApi).1
  have h1 := (segment_spec h.isTransfer).1
  have htop : ((if transfer.endNs > transfer.startNs then [api, transfer] else [api]).map
      Segment.id).Sublist ([0, 1].map uuid) := by
    split
    · simp [h0, h1]
    · simp [h0]
  have hseg : (segs.map Segment.id).Sublist ((List.range' 2 5).map uuid) := by
    cases hgen : generation with
    | none => simp [h.noSegments hgen]
    | some g =>
      obtain ⟨bs, hbs, hs⟩ := h.isSegments g hgen
      obtain ⟨hp, hids, _⟩ := generationSegments_spec hs
      obtain ⟨e, _, rfl⟩ := boundaries_spec hbs
      have hlen : segs.length ≤ 5 := length_segments_le hp
      rw [hids]
      exact (List.range'_sublist_right.mpr hlen).map uuid
  exact htop.append hseg

/-- The root and the nodes of a timeline have different identifiers. -/
theorem Timeline.body_ids
    (h : Timeline uuid event root generation endNs api transfer segs details)
    (hid : DistinctIds uuid event root generation) :
    ((root :: body root generation api transfer segs
      (reparent event.apiIntervals details)).map Node.id).Nodup := by
  have hdet : (((reparent event.apiIntervals details).map Detail.node).map Node.id).Sublist
      (event.apiIntervals.map Node.id) := by
    rw [reparent_ids h.isDetails, detailsOf_spec h.isDetails]
    exact details_ids _ _
  have hgen : ((generation.map (underRoot root)).toList.map Node.id) =
      (generation.map Node.id).toList := by cases generation <;> rfl
  have hall := hid.nodup.sublist (((List.Sublist.refl (generation.map Node.id).toList).append
    (h.drawn_ids.append hdet)).cons_cons root.id)
  have hperm : ((body root generation api transfer segs
      (reparent event.apiIntervals details)).map Node.id).Perm
      ((generation.map Node.id).toList ++
        ((if transfer.endNs > transfer.startNs then [api, transfer] else [api]).map Segment.id ++
          segs.map Segment.id ++
          ((reparent event.apiIntervals details).map Detail.node).map Node.id)) := by
    have hto : ∀ l : List Segment, (l.map Segment.toNode).map Node.id = l.map Segment.id :=
      fun l => by simp [Function.comp_def, Segment.toNode]
    simp only [body, List.map_append, hto, hgen, List.append_assoc]
    exact List.perm_append_comm_assoc _ _ _
  exact (hperm.cons root.id).nodup_iff.mpr hall

end Parts

end VllmObserver.Exporter
