import VllmObserver.Exporter.TimelineOrder

/-! # The exported API intervals

The leaf segments of a timeline tile the root's interval, so the midpoint of an
API interval in there lies in exactly one leaf. The part of the interval in that
leaf is not empty and is exported, once, under the interval's own identifier. -/
namespace VllmObserver.Exporter
open VllmObserver.Lib VllmObserver.Core

/-- The leaf segments among the nodes of a timeline: the children of the root
but the generation, and the children of the generation. -/
def leafNodes (root g : Node) (nodes : List Node) : List Node :=
  (childrenOf root.id nodes).filter (fun n => decide (n.id ≠ g.id)) ++ childrenOf g.id nodes

theorem leafNodes_perm (root g : Node) (hroot : root.parentId = none) (l : List Node) :
    (leafNodes root g (root :: l.insertionSort keyOrder)).Perm (leafNodes root g l) :=
  ((children_perm root.id hroot l).filter _).append (children_perm g.id hroot l)

/-- The names of the leaf segments. -/
def leafNames : List String :=
  ["api_prepare", "response_transfer", "engine_handoff", "waiting_to_first_schedule", "prefill",
    "decode", "engine_finalize"].map modulePrefixed

theorem boundaryList_names {gs w p d e ge : ℤ} :
    ∀ i ∈ boundaryList gs w p d e ge, i.1 ∈ leafNames := by
  simp [boundaryList, leafNames]

/-- The midpoint of an interval, rounded down. -/
def midpoint (n : Node) (endNs : ℤ) : ℤ := (n.startNs + endNs) / 2

theorem filter_id {nodes : List Node} (hid : (nodes.map Node.id).Nodup) {d : Node}
    (hd : d ∈ nodes) : nodes.filter (fun q => decide (q.id = d.id)) = [d] := by
  have hone := countP_id hid hd
  rw [List.countP_eq_length_filter, List.length_eq_one_iff] at hone
  obtain ⟨e, he⟩ := hone
  have hmem : d ∈ nodes.filter (fun q => decide (q.id = d.id)) := List.mem_filter.mpr ⟨hd, by simp⟩
  rw [he, List.mem_singleton] at hmem
  rw [he, hmem]

/-- The segments of a timeline, without a transfer that is empty. -/
def leafSegments (api transfer : Segment) (segs : List Segment) : List Segment :=
  (if transfer.endNs > transfer.startNs then [api, transfer] else [api]) ++ segs

theorem DistinctIds.drawn_apart {uuid : ℕ → String} {event : Event} {root : Node}
    {generation : Option Node} (hid : DistinctIds uuid event root generation) {id : String}
    (hu : id ∈ (List.range 7).map uuid) (ha : id ∈ event.apiIntervals.map Node.id) : False :=
  (List.nodup_append.mp hid.nodup.of_cons.of_append_right).2.2 id hu id ha rfl

section Parts
variable {uuid : ℕ → String} {event : Event} {root g : Node}
  {endNs : ℤ} {api transfer : Segment} {segs : List Segment} {details : List Detail}

/-- The leaves of a timeline are its segments, but for an empty transfer. -/
theorem Timeline.leaves
    (h : Timeline uuid event root (some g) endNs api transfer segs details)
    (hid : DistinctIds uuid event root (some g)) :
    leafNodes root g (body root (some g) api transfer segs (reparent event.apiIntervals details)) =
      (leafSegments api transfer segs).map Segment.toNode := by
  have htop : ∀ s ∈ (if transfer.endNs > transfer.startNs then [api, transfer] else [api]),
      s.toNode.id ≠ g.id := by
    intro s hs he
    have hdrawn := (h.drawn_ids.subset (List.mem_append_left _ (List.mem_map_of_mem hs)))
    exact (hid.fresh (Or.inr ⟨g, rfl, he⟩)).1 hdrawn
  rw [leafNodes, h.children_root hid, h.children_generation hid, List.filter_append,
    leafSegments, List.map_append]
  congr 1
  rw [List.filter_eq_self.mpr]
  · simp [underRoot]
  · intro n hn
    obtain ⟨s, hs, rfl⟩ := List.mem_map.mp hn
    simpa using htop s hs

/-- The leaves tile the root. -/
theorem Timeline.leaves_tile
    (h : Timeline uuid event root (some g) endNs api transfer segs details)
    (hb : Bounds root (some g) endNs) : ∃ l,
      (((leafSegments api transfer segs).map Segment.toNode).map nodeSpan).Perm l ∧
        Tiles root.startNs endNs l := by
  obtain ⟨_, _, _, ha1, ha2, _⟩ := segment_spec h.isApi
  obtain ⟨_, _, _, ht1, ht2, _⟩ := segment_spec h.isTransfer
  obtain ⟨h1, h2, h3⟩ := hb.genStart_le
  have hspan : ∀ l : List Segment, (l.map Segment.toNode).map nodeSpan = l.map Segment.span :=
    fun l => by rw [List.map_map]; rfl
  have hsegs : Tiles (genStart (some g) endNs) (genEnd (some g) endNs) (segs.map Segment.span) :=
    h.segments_tile h2
  rw [hspan, leafSegments, List.map_append]
  by_cases hlt : transfer.endNs > transfer.startNs
  · refine ⟨api.span :: (segs.map Segment.span ++ [transfer.span]), ?_, ?_⟩
    · rw [if_pos hlt]
      have hperm : ([transfer.span] ++ segs.map Segment.span).Perm
          (segs.map Segment.span ++ [transfer.span]) := List.perm_append_comm
      exact hperm.cons _
    · rw [show api.span = (root.startNs, genStart (some g) endNs) from Prod.ext ha1 ha2,
        show transfer.span = (genEnd (some g) endNs, endNs) from Prod.ext ht1 ht2]
      exact .cons h1 (hsegs.append (.cons h3 (.nil _)))
  · refine ⟨api.span :: segs.map Segment.span, by rw [if_neg hlt]; rfl, ?_⟩
    have hend : genEnd (some g) endNs = endNs :=
      le_antisymm h3 (not_lt.mp (ht1 ▸ ht2 ▸ hlt))
    rw [hend] at hsegs
    rw [show api.span = (root.startNs, genStart (some g) endNs) from Prod.ext ha1 ha2]
    exact .cons h1 hsegs

/-- One leaf covers each instant of the root. -/
theorem Timeline.leaf_once
    (h : Timeline uuid event root (some g) endNs api transfer segs details)
    (hb : Bounds root (some g) endNs) (t : ℤ) :
    (((leafSegments api transfer segs).map Segment.toNode).countP fun n =>
      covers t (nodeSpan n)) = if root.startNs ≤ t ∧ t < endNs then 1 else 0 := by
  obtain ⟨l, hperm, htiles⟩ := h.leaves_tile hb
  rw [← htiles.countP_covers t, ← hperm.countP_eq, List.countP_map (f := nodeSpan)]
  rfl

theorem Timeline.leaf_name
    (h : Timeline uuid event root (some g) endNs api transfer segs details)
    (hb : Bounds root (some g) endNs) {s : Segment} (hs : s ∈ leafSegments api transfer segs) :
    s.name ∈ leafNames := by
  have h0 := (segment_spec h.isApi).2.2.1
  have h1 := (segment_spec h.isTransfer).2.2.1
  rcases List.mem_append.mp hs with hs | hs
  · have hcase : s = api ∨ s = transfer := by
      split at hs <;> simp only [List.mem_cons, List.not_mem_nil, or_false] at hs
      · exact hs
      · exact Or.inl hs
    rcases hcase with rfl | rfl
    · rw [h0]
      decide
    · rw [h1]
      decide
  · have hpiece := List.mem_map_of_mem (f := Segment.piece) hs
    rw [h.segments_spans hb.genStart_le.2.1] at hpiece
    exact boundaryList_names _ (List.mem_of_mem_filter hpiece)

theorem Timeline.container_leaf {c : Segment} (hc : c ∈ [api, transfer] ++ segs)
    (hne : c.startNs < c.endNs) : c ∈ leafSegments api transfer segs := by
  simp only [List.cons_append, List.nil_append, List.mem_cons] at hc
  rcases hc with rfl | rfl | hc
  · exact List.mem_append_left _ (by split <;> simp)
  · exact List.mem_append_left _ (by rw [if_pos hne]; simp)
  · exact List.mem_append_right _ hc

/-- The leaf of a detail is the container that it was clipped to. -/
theorem Timeline.detail_leaf
    (h : Timeline uuid event root (some g) endNs api transfer segs details)
    (hb : Bounds root (some g) endNs) {c : Segment} (hc : c ∈ [api, transfer] ++ segs) {t : ℤ}
    (ht : covers t c.span = true) :
    c ∈ leafSegments api transfer segs ∧
      ((leafSegments api transfer segs).map Segment.toNode).filter
        (fun m => covers t (nodeSpan m)) = [c.toNode] := by
  obtain ⟨h1, h2⟩ := covers_iff.mp ht
  have hleaf := container_leaf hc (lt_of_le_of_lt h1 h2)
  have hmem : c.toNode ∈ ((leafSegments api transfer segs).map Segment.toNode).filter
      (fun m => covers t (nodeSpan m)) := List.mem_filter.mpr ⟨List.mem_map_of_mem hleaf, ht⟩
  obtain ⟨hi1, _, hi3⟩ := h.segment_inside hb c hc
  have hone := h.leaf_once hb t
  rw [if_pos ⟨le_trans hi1 h1, lt_of_lt_of_le h2 hi3⟩, List.countP_eq_length_filter,
    List.length_eq_one_iff] at hone
  obtain ⟨m, hm⟩ := hone
  rw [hm, List.mem_singleton] at hmem
  exact ⟨hleaf, by rw [hm, hmem]⟩

/-- An interval is exported exactly when it is not empty and its midpoint lies in
the root. -/
theorem Timeline.clipped_iff
    (h : Timeline uuid event root (some g) endNs api transfer segs details)
    (hb : Bounds root (some g) endNs) {n : Node} {e : ℤ} (he : n.endNs = some e) :
    (∃ d, clipped ([api, transfer] ++ segs) n = some d) ↔
      n.startNs < e ∧ root.startNs ≤ midpoint n e ∧ midpoint n e < endNs := by
  constructor
  · rintro ⟨d, hc⟩
    obtain ⟨e', he', hfind, h1, h2, hlt, _⟩ := clipped_spec hc
    obtain rfl := Option.some.inj (he.symm.trans he')
    have hcov := List.find?_some hfind
    simp only [decide_eq_true_eq] at hcov
    obtain ⟨hi1, _, hi3⟩ := h.segment_inside hb _ (List.mem_of_find?_eq_some hfind)
    unfold midpoint
    omega
  · rintro ⟨hlt, hm1, hm2⟩
    -- some leaf covers the midpoint, and the first of the containers that does is not left empty
    have hone := h.leaf_once hb (midpoint n e)
    rw [if_pos ⟨hm1, hm2⟩] at hone
    obtain ⟨m, hm, hcov⟩ := List.countP_pos_iff.mp (by rw [hone]; exact Nat.one_pos)
    obtain ⟨s, hs, rfl⟩ := List.mem_map.mp hm
    have hs' : s ∈ [api, transfer] ++ segs := by
      rcases List.mem_append.mp hs with hs | hs
      · refine List.mem_append_left _ ?_
        split at hs
        · exact hs
        · exact List.mem_cons.mpr (Or.inl (List.mem_singleton.mp hs))
      · exact List.mem_append_right _ hs
    obtain ⟨c, hc⟩ : ∃ c, ([api, transfer] ++ segs).find? (fun c => decide (c.startNs ≤
        (n.startNs + e) / 2 ∧ (n.startNs + e) / 2 < c.endNs)) = some c :=
      Option.isSome_iff_exists.mp (List.find?_isSome.mpr ⟨s, hs', hcov⟩)
    have hin := List.find?_some hc
    simp only [decide_eq_true_eq] at hin
    have hne : ¬ min e c.endNs ≤ max n.startNs c.startNs := by omega
    simp only [clipped, detailOf, he, integer, ok_bind, hc, if_neg hne]
    exact ⟨_, rfl⟩

/-- The node of a detail in the timeline, wherever it moved. -/
theorem Timeline.exported_detail
    (h : Timeline uuid event root (some g) endNs api transfer segs details) {n : Node}
    (hn : n ∈ event.apiIntervals) {d : Detail} (hc : clipped ([api, transfer] ++ segs) n = some d) :
    ∃ q ∈ body root (some g) api transfer segs (reparent event.apiIntervals details),
      q.id = n.id ∧ q.startNs = d.startNs ∧ q.endNs = some d.endNs := by
  have hd : d ∈ details := by
    rw [detailsOf_spec h.isDetails]
    exact List.mem_filterMap.mpr ⟨n, hn, hc⟩
  obtain ⟨i, hi⟩ := List.mem_iff_getElem?.mp hd
  obtain ⟨p1, p2, p3⟩ := place_node details i d
  obtain ⟨s1, s2, s3, _⟩ := detail_span hc
  exact ⟨_, List.mem_append_right _ (List.mem_of_getElem? (h.nested_getElem? hi)),
    p3.trans s3, p1.trans s1, p2.trans s2⟩

/-- No node bears the identifier of an interval that is not exported. -/
theorem Timeline.not_exported
    (h : Timeline uuid event root (some g) endNs api transfer segs details)
    (hid : DistinctIds uuid event root (some g)) {n : Node} (hn : n ∈ event.apiIntervals)
    (hc : clipped ([api, transfer] ++ segs) n = none) :
    ∀ q ∈ root :: body root (some g) api transfer segs (reparent event.apiIntervals details),
      q.id ≠ n.id := by
  have hmem : n.id ∈ event.apiIntervals.map Node.id := List.mem_map_of_mem hn
  have hapi : (event.apiIntervals.map Node.id).Nodup :=
    hid.nodup.of_cons.of_append_right.of_append_right
  have hdrawn : ∀ s ∈ leafSegments api transfer segs, s.id ≠ n.id := by
    intro s hs he
    have hs' : s.id ∈ (List.range 7).map uuid := by
      refine h.drawn_ids.subset ?_
      rw [← List.map_append]
      exact List.mem_map_of_mem hs
    exact hid.drawn_apart hs' (he ▸ hmem)
  intro q hq he
  rcases List.mem_cons.mp hq with rfl | hq
  · exact (hid.fresh (Or.inl rfl)).2 (he ▸ hmem)
  rcases List.mem_append.mp hq with hf | hd
  · rcases List.mem_append.mp hf with ht | hs
    · rcases List.mem_append.mp ht with ht | hg
      · obtain ⟨s, hs, rfl⟩ := List.mem_map.mp ht
        exact hdrawn s (List.mem_append_left _ hs) he
      · obtain ⟨g', hg', rfl⟩ := Option.map_eq_some_iff.mp (Option.mem_toList.mp hg)
        obtain rfl := Option.some.inj hg'
        exact (hid.fresh (Or.inr ⟨g, rfl, rfl⟩)).2 (he ▸ hmem)
    · obtain ⟨s, hseg, rfl⟩ := List.mem_map.mp hs
      exact hdrawn s (List.mem_append_right _ hseg) he
  · obtain ⟨d', hdet, rfl⟩ := List.mem_map.mp hd
    obtain ⟨i, d, hi, rfl⟩ := mem_reparent h.isDetails hdet
    obtain ⟨m, hm, hcm⟩ := details_mem h.isDetails (List.mem_of_getElem? hi)
    rw [(place_node details i d).2.2, (detail_span hcm).2.2.1] at he
    obtain rfl := List.inj_on_of_nodup_map hapi hm hn he
    rw [hc] at hcm
    cases hcm

end Parts

/-- The interval `[n.startNs, endNs)` is exported by one node: the part of it in
the leaf that covers its midpoint. -/
def ExportedOnce (leaves nodes : List Node) (n : Node) (endNs : ℤ) : Prop :=
  ∃ d leaf leafEnd, nodes.filter (fun q => decide (q.id = n.id)) = [d] ∧
    leaves.filter (fun m => covers (midpoint n endNs) (nodeSpan m)) = [leaf] ∧
    leaf.name ∈ leafNames ∧ leaf.endNs = some leafEnd ∧
    d.startNs = max n.startNs leaf.startNs ∧ d.endNs = some (min endNs leafEnd) ∧
    max n.startNs leaf.startNs < min endNs leafEnd ∧
    (leaf.startNs ≤ n.startNs → endNs ≤ leafEnd → d.startNs = n.startNs ∧ d.endNs = some endNs)

/-- **No API interval is lost or exported twice.** An interval yields one node
when it is not empty and its midpoint lies in the root, and none otherwise. -/
theorem timeline_intervals (uuid : ℕ → String) (event : Event) (root g : Node) (endNs : ℤ)
    (hroot : root.parentId = none) (hend : root.endNs = some endNs)
    (hb : Bounds root (some g) endNs) (hr : Recorded event)
    (hid : DistinctIds uuid event root (some g)) :
    ∃ nodes, timelineNodes uuid event root (some g) = .ok nodes ∧
      ∀ n ∈ event.apiIntervals, ∀ b, n.endNs = some b →
        (n.startNs < b ∧ root.startNs ≤ midpoint n b ∧ midpoint n b < endNs →
          ExportedOnce (leafNodes root g nodes) nodes n b) ∧
        (¬ (n.startNs < b ∧ root.startNs ≤ midpoint n b ∧ midpoint n b < endNs) →
          nodes.filter (fun q => decide (q.id = n.id)) = []) := by
  obtain ⟨ge, hge, _⟩ := hb.generation g rfl
  obtain ⟨nodes, hnodes⟩ : ∃ nodes, timelineNodes uuid event root (some g) = .ok nodes :=
    timelineNodes_ok uuid hr hend (by rintro g' ⟨⟩; simp [hge])
  refine ⟨nodes, hnodes, ?_⟩
  obtain ⟨api, transfer, segs, details, ht, rfl⟩ := timelineNodes_timeline hnodes hend
  have hperm := (List.perm_insertionSort keyOrder (body root (some g) api transfer segs
    (reparent event.apiIntervals details))).cons root
  intro n hn b hnb
  rw [← ht.clipped_iff hb hnb]
  constructor
  · rintro ⟨d, hc⟩
    obtain ⟨b', hb', hfind, h1, h2, hlt, _⟩ := clipped_spec hc
    obtain rfl := Option.some.inj (hnb.symm.trans hb')
    obtain ⟨q, hq, hqid, hq1, hq2⟩ := ht.exported_detail hn hc
    have hcov : covers (midpoint n b) d.container.span = true := by
      have hin := List.find?_some hfind
      exact hin
    obtain ⟨hleaf, hone⟩ := ht.detail_leaf hb (List.mem_of_find?_eq_some hfind) hcov
    refine ⟨q, d.container.toNode, d.container.endNs, ?_, ?_, ht.leaf_name hb hleaf, rfl,
      hq1.trans h1, hq2.trans (congrArg some h2), ?_, ?_⟩
    · rw [← hqid]
      refine filter_id ?_ (hperm.mem_iff.mpr (List.mem_cons_of_mem _ hq))
      exact (hperm.map Node.id).nodup_iff.mpr (ht.body_ids hid)
    · have hp := (leafNodes_perm root g hroot (body root (some g) api transfer segs
        (reparent event.apiIntervals details))).filter
          fun m => covers (midpoint n b) (nodeSpan m)
      rw [ht.leaves hid, hone] at hp
      exact List.perm_singleton.mp hp
    · rw [h1, h2] at hlt
      exact hlt
    · intro hs he
      rw [hq1, hq2, h1, h2]
      exact ⟨max_eq_left hs, congrArg some (min_eq_left he)⟩
  · intro hnone
    have hc : clipped ([api, transfer] ++ segs) n = none := by
      cases hc : clipped ([api, transfer] ++ segs) n with
      | none => rfl
      | some d => exact absurd ⟨d, hc⟩ hnone
    refine List.filter_eq_nil_iff.mpr fun q hq => ?_
    simpa using ht.not_exported hid hn hc q (hperm.mem_iff.mp hq)

/-- One interval across the hand-off, one that is empty, and one inside a leaf. -/
def straddlingEvent : Event := smallEvent
  [smallGeneration, spanNode "w" "g" "waiting_to_first_schedule" 24 30]
  [spanNode "s" "r" "submit_engine" 13 21, spanNode "i" "r" "input_process" 14 14,
    spanNode "o" "r" "output_processor_add" 85 90]

theorem timeline_intervals_straddling :
    ∃ nodes, timelineNodes drawnId straddlingEvent smallRoot (some smallGeneration) = .ok nodes ∧
      ∀ n ∈ straddlingEvent.apiIntervals, ∀ b, n.endNs = some b →
        (n.startNs < b ∧ 10 ≤ midpoint n b ∧ midpoint n b < 100 →
          ExportedOnce (leafNodes smallRoot smallGeneration nodes) nodes n b) ∧
        (¬ (n.startNs < b ∧ 10 ≤ midpoint n b ∧ midpoint n b < 100) →
          nodes.filter (fun q => decide (q.id = n.id)) = []) :=
  timeline_intervals drawnId straddlingEvent smallRoot smallGeneration 100 rfl rfl
    ⟨by decide, by decide, by rintro g ⟨⟩; exact ⟨80, rfl, by decide, by decide, by decide⟩⟩
    ⟨by decide, by decide, by decide⟩ (by unfold DistinctIds; decide)

end VllmObserver.Exporter
