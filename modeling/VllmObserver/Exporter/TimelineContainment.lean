import VllmObserver.Lib.Climb
import VllmObserver.Exporter.TimelineOrder

/-! # Containment

Each node of a timeline but the root has one parent in it, which encloses it, and
the links lead up to the root. The sink drops empty nodes only, so it never drops
the parent of a node it keeps. -/
namespace VllmObserver.Exporter
open VllmObserver.Lib VllmObserver.Core

/-- `p` is a node of the timeline, and `n` hangs under it. -/
def HangsUnder (nodes : List Node) (n p : Node) : Prop := p ∈ nodes ∧ n.parentId = some p.id

/-- Nodes that differ in their identifiers: one of them bears the parent's. -/
theorem HangsUnder.countP {nodes : List Node} (hid : (nodes.map Node.id).Nodup) {n p : Node}
    (h : HangsUnder nodes n p) : nodes.countP (fun q => decide (n.parentId = some q.id)) = 1 := by
  obtain ⟨hp, hpar⟩ := h
  rw [← countP_id hid hp]
  refine List.countP_congr fun q _ => ?_
  simp only [hpar, decide_eq_true_eq, Option.some.injEq]
  exact eq_comm

theorem HangsUnder.unique {nodes : List Node} (hid : (nodes.map Node.id).Nodup) {n p q : Node}
    (hp : HangsUnder nodes n p) (hq : HangsUnder nodes n q) : p = q :=
  List.inj_on_of_nodup_map hid hp.1 hq.1 (Option.some.inj (hp.2.symm.trans hq.2))

section Parts
variable {uuid : ℕ → String} {event : Event} {root : Node} {generation : Option Node}
  {endNs : ℤ} {api transfer : Segment} {segs : List Segment} {details : List Detail}

/-- Every node hangs under one that encloses it. -/
theorem Timeline.hangs
    (h : Timeline uuid event root generation endNs api transfer segs details)
    (hb : Bounds root generation endNs) {n : Node}
    (hn : n ∈ body root generation api transfer segs (reparent event.apiIntervals details)) :
    ∃ p, HangsUnder (root :: body root generation api transfer segs
      (reparent event.apiIntervals details)) n p ∧ Encloses p n := by
  rcases h.body_parent hb hn with hp | ⟨p, hp, hpar, henc, _⟩ | ⟨i, d, submit, hi, hs, hm, rfl, _⟩
  · obtain ⟨e, he, h1, _, h3⟩ := h.body_inside hb n hn
    exact ⟨root, ⟨List.mem_cons_self, hp⟩, endNs, e, h.rootEnd, he, h1, h3⟩
  · exact ⟨p, ⟨List.mem_cons_of_mem _ hp, hpar⟩, henc⟩
  · obtain ⟨j, hj, _, _, hjn⟩ := h.submission hs
    have hmem : submit.node ∈ body root generation api transfer segs
        (reparent event.apiIntervals details) :=
      List.mem_append_right _ (List.mem_of_getElem? hjn)
    exact ⟨submit.node, ⟨List.mem_cons_of_mem _ hmem, rfl⟩, h.moved_encloses hi hj hm⟩

/-! ## The way up -/

/-- From the top level, the generation and its segments. -/
theorem Timeline.climb_front
    (h : Timeline uuid event root generation endNs api transfer segs details)
    (hb : Bounds root generation endNs) {n : Node}
    (hn : n ∈ (if transfer.endNs > transfer.startNs then [api, transfer] else [api]).map
      Segment.toNode ++ (generation.map (underRoot root)).toList ++ segs.map Segment.toNode) :
    ∃ path, Climb (HangsUnder (root :: body root generation api transfer segs
      (reparent event.apiIntervals details))) root n path := by
  have hunder : ∀ m : Node, m.parentId = some root.id → Climb (HangsUnder (root :: body root
      generation api transfer segs (reparent event.apiIntervals details))) root m [m, root] :=
    fun m hm => .up ⟨List.mem_cons_self, hm⟩ .root
  rcases List.mem_append.mp hn with ht | hs
  · rcases List.mem_append.mp ht with ht | hg
    · obtain ⟨s, hs, rfl⟩ := List.mem_map.mp ht
      exact ⟨_, hunder _ (congrArg some (h.top_parent hs))⟩
    · obtain ⟨g, _, rfl⟩ := Option.map_eq_some_iff.mp (Option.mem_toList.mp hg)
      exact ⟨_, hunder _ rfl⟩
  · obtain ⟨s, hseg, rfl⟩ := List.mem_map.mp hs
    obtain ⟨g, rfl, hpar, _⟩ := h.segment_parent hb hseg
    have hgen : HangsUnder (root :: body root (some g) api transfer segs
        (reparent event.apiIntervals details)) s.toNode (underRoot root g) :=
      ⟨by simp [body], congrArg some hpar⟩
    exact ⟨_, .up hgen (hunder (underRoot root g) rfl)⟩

/-- From a detail in its container. -/
theorem Timeline.climb_detail
    (h : Timeline uuid event root generation endNs api transfer segs details)
    (hb : Bounds root generation endNs) {i : ℕ} {d : Detail} (hi : details[i]? = some d) :
    ∃ path, Climb (HangsUnder (root :: body root generation api transfer segs
      (reparent event.apiIntervals details))) root d.node path := by
  obtain ⟨m, _, hc⟩ := details_mem h.isDetails (List.mem_of_getElem? hi)
  obtain ⟨hcm, h1, h2, h3⟩ := detail_in_container hc
  obtain ⟨_, _, _, hpar⟩ := detail_span hc
  have hmem := h.container_mem hcm (by omega)
  obtain ⟨path, hclimb⟩ := h.climb_front hb hmem
  exact ⟨_, .up ⟨List.mem_cons_of_mem _ (List.mem_append_left _ hmem), hpar⟩ hclimb⟩

theorem Timeline.climb
    (h : Timeline uuid event root generation endNs api transfer segs details)
    (hb : Bounds root generation endNs) {n : Node}
    (hn : n ∈ root :: body root generation api transfer segs
      (reparent event.apiIntervals details)) :
    ∃ path, Climb (HangsUnder (root :: body root generation api transfer segs
      (reparent event.apiIntervals details))) root n path := by
  rcases List.mem_cons.mp hn with rfl | hn
  · exact ⟨_, .root⟩
  rcases List.mem_append.mp hn with hf | hd
  · exact h.climb_front hb hf
  obtain ⟨d', hdet, rfl⟩ := List.mem_map.mp hd
  obtain ⟨i, d, hi, rfl⟩ := mem_reparent h.isDetails hdet
  rcases place_cases details i d with he | ⟨submit, hs, _, he⟩
  · rw [he]
    exact h.climb_detail hb hi
  · -- a moved call climbs by its submission
    obtain ⟨j, hj, _, _, hjn⟩ := h.submission hs
    obtain ⟨path, hclimb⟩ := h.climb_detail hb hj
    refine ⟨_, .up ⟨List.mem_cons_of_mem _ (List.mem_append_right _
      (List.mem_of_getElem? hjn)), ?_⟩ hclimb⟩
    rw [he]
    rfl

end Parts

/-- What the tree of a timeline is: each node but the root has one parent, which
encloses it, and the links of each node lead up to the root without a cycle. -/
structure ContainmentTree (root : Node) (nodes : List Node) : Prop where
  parent : ∀ n ∈ nodes, n ≠ root → ∃ p, HangsUnder nodes n p ∧ Encloses p n ∧
    nodes.countP (fun q => decide (n.parentId = some q.id)) = 1
  climb : ∀ n ∈ nodes, ∃ path, Climb (HangsUnder nodes) root n path ∧ path.Nodup

/-- The tree does not depend on the order of the nodes. -/
theorem ContainmentTree.perm {root : Node} {xs ys : List Node} (h : ContainmentTree root xs)
    (hp : xs.Perm ys) : ContainmentTree root ys := by
  have hunder : HangsUnder ys = HangsUnder xs := by
    funext n p
    rw [HangsUnder, HangsUnder, hp.mem_iff]
  constructor
  · intro n hn hne
    obtain ⟨p, hpar, henc, hcount⟩ := h.parent n (hp.mem_iff.mpr hn) hne
    exact ⟨p, hunder ▸ hpar, henc, (hp.countP_eq _).symm.trans hcount⟩
  · intro n hn
    rw [hunder]
    exact h.climb n (hp.mem_iff.mpr hn)

/-- **The timeline is a containment tree**, and so is what the sink keeps of it:
the parent of a kept node is kept. -/
theorem timeline_containment (uuid : ℕ → String) (event : Event) (root : Node)
    (generation : Option Node) (endNs : ℤ) (hroot : root.parentId = none)
    (hend : root.endNs = some endNs) (hb : Bounds root generation endNs) (hr : Recorded event)
    (hid : DistinctIds uuid event root generation) :
    ∃ nodes, timelineNodes uuid event root generation = .ok nodes ∧ root ∈ nodes ∧
      ContainmentTree root nodes ∧
      ∀ n ∈ validNodes endNs nodes, n ≠ root → ∃ p, HangsUnder (validNodes endNs nodes) n p := by
  obtain ⟨nodes, hnodes⟩ := timelineNodes_ok uuid hr hend hb.generation_ended
  refine ⟨nodes, hnodes, ?_⟩
  obtain ⟨api, transfer, segs, details, ht, rfl⟩ := timelineNodes_timeline hnodes hend
  have hids := ht.body_ids hid
  have hone : ∀ n p q, HangsUnder _ n p → HangsUnder _ n q → p = q :=
    fun n p q hp hq => HangsUnder.unique hids hp hq
  have hnone : ∀ p, ¬ HangsUnder (root :: body root generation api transfer segs
      (reparent event.apiIntervals details)) root p := by
    rintro p ⟨_, hp⟩
    rw [hroot] at hp
    cases hp
  have htree : ContainmentTree root (root :: body root generation api transfer segs
      (reparent event.apiIntervals details)) := by
    constructor
    · intro n hn hne
      obtain ⟨p, hp, henc⟩ := ht.hangs hb ((List.mem_cons.mp hn).resolve_left hne)
      exact ⟨p, hp, henc, hp.countP hids⟩
    · intro n hn
      obtain ⟨path, hclimb⟩ := ht.climb hb hn
      exact ⟨path, hclimb, hclimb.nodup hone hnone⟩
  have hperm := (List.perm_insertionSort keyOrder (body root generation api transfer segs
    (reparent event.apiIntervals details))).symm.cons root
  refine ⟨List.mem_cons_self, htree.perm hperm, ?_⟩
  intro n hn hne
  obtain ⟨hn, hv⟩ := List.mem_filter.mp hn
  obtain ⟨p, hp, henc, _⟩ := (htree.perm hperm).parent n hn hne
  refine ⟨p, List.mem_filter.mpr ⟨hp.1, ?_⟩, hp.2⟩
  -- a node that encloses a kept one is not empty
  have hin : ∀ m ∈ root :: body root generation api transfer segs
      (reparent event.apiIntervals details), Inside root.startNs endNs m := by
    intro m hm
    rcases List.mem_cons.mp hm with rfl | hm
    · exact ⟨endNs, hend, le_refl _, hb.ordered, le_refl _⟩
    · exact ht.body_inside hb m hm
  have := valid_of_encloses hb.positive (hin p (hperm.mem_iff.mpr hp.1))
    (hin n (hperm.mem_iff.mpr hn)) henc (by simpa using hv)
  simpa using this

/-- Two calls inside a submission, one of them recorded twice. -/
def nestedEvent : Event := smallEvent
  [smallGeneration, spanNode "w" "g" "waiting_to_first_schedule" 24 30]
  [spanNode "s" "r" "submit_engine" 11 18, spanNode "i" "r" "input_process" 12 14,
    spanNode "j" "r" "input_process" 14 15, spanNode "o" "r" "output_processor_add" 19 22]

theorem timeline_containment_nested :
    ∃ nodes, timelineNodes drawnId nestedEvent smallRoot (some smallGeneration) = .ok nodes ∧
      smallRoot ∈ nodes ∧ ContainmentTree smallRoot nodes ∧
      ∀ n ∈ validNodes 100 nodes, n ≠ smallRoot → ∃ p, HangsUnder (validNodes 100 nodes) n p :=
  timeline_containment drawnId nestedEvent smallRoot (some smallGeneration) 100 rfl rfl
    ⟨by decide, by decide, by rintro g ⟨⟩; exact ⟨80, rfl, by decide, by decide, by decide⟩⟩
    ⟨by decide, by decide, by decide⟩ (by unfold DistinctIds; decide)

end VllmObserver.Exporter
