import VllmObserver.Exporter.TimelineResult

/-! # The timeline is a partition

The children of the root tile the root's interval and the children of the
generation tile the generation's, whatever the stage observations say. The
running boundary of the loop makes the cuts of a generation monotone, so
dropping the empty pieces leaves no gap. -/
namespace VllmObserver.Exporter
open VllmObserver.Lib VllmObserver.Core

/-! ## The cuts of a generation -/

/-- The last observation of each stage; a queue stands in for the waiting. -/
def observedStages (observations : List Node) : Stages where
  queue := lastNamed "queue" observations
  waiting := (lastNamed "waiting_to_first_schedule" observations).or
    (lastNamed "queue" observations)
  prefill := lastNamed "prefill" observations
  decode := lastNamed "decode" observations

/-- The instants at which the five segments of a generation meet. -/
structure Cuts where
  handoffEnd : ℤ
  waitingEnd : ℤ
  prefillEnd : ℤ
  decodeEnd : ℤ

/-- The observed starts and the last end, clamped into the generation, and none
of them before the one in front of it. -/
def Stages.cuts (stages : Stages) (gs ge : ℤ) : Cuts :=
  let w := clamp (stages.wStart gs) gs ge
  let p := max w (clamp (stages.pStart gs) gs ge)
  let d := max p (clamp (stages.dStart gs) gs ge)
  let e := max d (clamp ((stages.dEnd gs).getD gs) gs ge)
  { handoffEnd := w, waitingEnd := p, prefillEnd := d, decodeEnd := e }

/-- The five intervals between the cuts, with the names of their segments. -/
def Cuts.spans (cuts : Cuts) (gs ge : ℤ) : List (String × ℤ × ℤ) :=
  boundaryList gs cuts.handoffEnd cuts.waitingEnd cuts.prefillEnd cuts.decodeEnd ge

theorem Stages.cuts_mono (stages : Stages) {gs ge : ℤ} (h : gs ≤ ge) :
    let cuts := stages.cuts gs ge
    gs ≤ cuts.handoffEnd ∧ cuts.handoffEnd ≤ cuts.waitingEnd ∧
      cuts.waitingEnd ≤ cuts.prefillEnd ∧ cuts.prefillEnd ≤ cuts.decodeEnd ∧
      cuts.decodeEnd ≤ ge := by
  refine ⟨clamp_lower, le_max_left _ _, le_max_left _ _, le_max_left _ _, ?_⟩
  exact max_le (max_le (max_le (clamp_upper h) (clamp_upper h)) (clamp_upper h)) (clamp_upper h)

/-- One boundary of the loop, when it starts no later than the last one passed. -/
theorem pieces_step {name : String} {a b seen ge : ℤ} {rest : List (String × ℤ × ℤ)}
    (ha : a ≤ seen) (hb : b ≤ ge) : pieces ge ((name, a, b) :: rest) seen =
      [(name, seen, max seen b)].filter (fun i => nonempty i.2) ++
        pieces ge rest (max seen b) := by
  simp only [pieces, max_eq_right ha, min_eq_left hb]
  by_cases h : max seen b ≤ seen
  · rw [if_pos h, List.filter_cons_of_neg (by simpa [nonempty] using h)]
    rfl
  · rw [if_neg h, List.filter_cons_of_pos (by simpa [nonempty] using h)]
    rfl

/-- The loop keeps the intervals between the running cuts that are not empty. -/
theorem pieces_boundaryList {gs w p d e ge : ℤ} (hw : gs ≤ w ∧ w ≤ ge)
    (hp : p ≤ ge) (hd : d ≤ ge) (he : e ≤ ge) :
    pieces ge (boundaryList gs w p d e ge) gs =
      (boundaryList gs w (max w p) (max (max w p) d) (max (max (max w p) d) e) ge).filter
        (fun i => nonempty i.2) := by
  have h4 : max (max (max (max w p) d) e) ge = ge :=
    max_eq_right (max_le (max_le (max_le hw.2 hp) hd) he)
  rw [boundaryList, pieces_step (le_refl _) hw.2, max_eq_right hw.1, pieces_step (le_refl _) hp,
    pieces_step (le_max_right _ _) hd, pieces_step (le_max_right _ _) he,
    pieces_step (le_max_right _ _) (le_refl _), h4]
  simp only [pieces, ← List.filter_append, List.append_nil]
  rfl

/-- The five intervals tile the generation. -/
theorem Stages.cuts_tiles (stages : Stages) {gs ge : ℤ} (h : gs ≤ ge) :
    Tiles gs ge (((stages.cuts gs ge).spans gs ge).map Prod.snd) := by
  obtain ⟨h0, h1, h2, h3, h4⟩ := stages.cuts_mono h
  exact .cons h0 (.cons h1 (.cons h2 (.cons h3 (.cons h4 (.nil _)))))

/-! ## Children and partitions -/

/-- The interval of a node; a missing end makes it empty. -/
def nodeSpan (n : Node) : ℤ × ℤ := (n.startNs, n.endNs.getD n.startNs)

def childrenOf (parent : String) (nodes : List Node) : List Node :=
  nodes.filter (fun n => decide (n.parentId = some parent))

/-- The children of a node partition `[a, b)`: all have ended, each instant lies
in exactly one of them, none reaches outside, and their durations add up. -/
structure Partitions (parent : String) (a b : ℤ) (nodes : List Node) : Prop where
  ended : ∀ n ∈ childrenOf parent nodes, n.endNs ≠ none
  once : ∀ t, a ≤ t → t < b →
    (childrenOf parent nodes).countP (fun n => covers t (nodeSpan n)) = 1
  within : ∀ n ∈ childrenOf parent nodes, a ≤ (nodeSpan n).1 ∧ (nodeSpan n).2 ≤ b
  total : ((childrenOf parent nodes).map fun n => (nodeSpan n).2 - (nodeSpan n).1).sum = b - a

theorem Partitions.of_tiles {parent : String} {a b : ℤ} {nodes : List Node} {l : List (ℤ × ℤ)}
    (he : ∀ n ∈ childrenOf parent nodes, n.endNs ≠ none)
    (hp : ((childrenOf parent nodes).map nodeSpan).Perm l) (ht : Tiles a b l) :
    Partitions parent a b nodes where
  ended := he
  once := by
    intro t ha hb
    have hc := hp.countP_eq (covers t)
    rw [List.countP_map, ht.countP_covers, if_pos ⟨ha, hb⟩] at hc
    exact hc
  within := by
    intro n hn
    have hm := hp.subset (List.mem_map_of_mem (f := nodeSpan) hn)
    have := ht.within _ hm
    exact ⟨this.1, this.2.2⟩
  total := by
    rw [← ht.sum_lengths, ← (hp.map fun i => i.2 - i.1).sum_eq, List.map_map]
    rfl

theorem childrenOf_append (p : String) (xs ys : List Node) :
    childrenOf p (xs ++ ys) = childrenOf p xs ++ childrenOf p ys := List.filter_append ..

theorem childrenOf_all {p : String} {l : List Node} (h : ∀ n ∈ l, n.parentId = some p) :
    childrenOf p l = l := List.filter_eq_self.mpr fun n hn => by simpa using h n hn

theorem childrenOf_none {p : String} {l : List Node} (h : ∀ n ∈ l, n.parentId ≠ some p) :
    childrenOf p l = [] := List.filter_eq_nil_iff.mpr fun n hn => by simpa using h n hn

/-! ## The identifiers -/

/-- The identifiers of an event and the seven that a timeline draws differ. -/
def DistinctIds (uuid : ℕ → String) (event : Event) (root : Node) (generation : Option Node) :
    Prop :=
  (root.id :: (generation.map Node.id).toList ++ (List.range 7).map uuid ++
    event.apiIntervals.map Node.id).Nodup

section Parts
variable {uuid : ℕ → String} {event : Event} {root : Node} {generation : Option Node}
  {endNs : ℤ} {api transfer : Segment} {segs : List Segment} {details : List Detail}

/-- Every segment of a timeline bears one of the seven drawn identifiers. -/
theorem Timeline.segment_ids
    (h : Timeline uuid event root generation endNs api transfer segs details) :
    ∀ c ∈ [api, transfer] ++ segs, c.id ∈ (List.range 7).map uuid := by
  have h0 := (segment_spec h.isApi).1
  have h1 := (segment_spec h.isTransfer).1
  intro c hc
  simp only [List.cons_append, List.nil_append, List.mem_cons] at hc
  rcases hc with rfl | rfl | hc
  · exact List.mem_map.mpr ⟨0, by simp, h0.symm⟩
  · exact List.mem_map.mpr ⟨1, by simp, h1.symm⟩
  · cases hgen : generation with
    | none => rw [h.noSegments hgen] at hc; cases hc
    | some g =>
      obtain ⟨bs, hbs, hsegs⟩ := h.isSegments g hgen
      obtain ⟨hp, hids, _⟩ := generationSegments_spec hsegs
      obtain ⟨e, _, rfl⟩ := boundaries_spec hbs
      have hlen : segs.length ≤ 5 := length_segments_le hp
      have hm : c.id ∈ segs.map Segment.id := List.mem_map_of_mem hc
      rw [hids] at hm
      obtain ⟨k, hk, he⟩ := List.mem_map.mp hm
      rw [List.mem_range'_1] at hk
      exact List.mem_map.mpr ⟨k, by simp only [List.mem_range]; omega, he⟩

/-- A nested detail hangs under a segment or under another detail. -/
theorem Timeline.detail_parent
    (h : Timeline uuid event root generation endNs api transfer segs details)
    {n : Node} (hn : n ∈ (reparent event.apiIntervals details).map Detail.node) :
    ∃ p, n.parentId = some p ∧
      (p ∈ (List.range 7).map uuid ∨ p ∈ event.apiIntervals.map Node.id) := by
  obtain ⟨d', hd', rfl⟩ := List.mem_map.mp hn
  obtain ⟨i, d, hi, rfl⟩ := mem_reparent h.isDetails hd'
  rcases place_cases details i d with he | ⟨submit, hs, _, he⟩
  · obtain ⟨_, _, hc⟩ := details_mem h.isDetails (List.mem_of_getElem? hi)
    obtain ⟨_, _, hfind, _, _, _, _, hnode⟩ := clipped_spec hc
    refine ⟨d.container.id, by rw [he, hnode], Or.inl ?_⟩
    exact h.segment_ids _ (List.mem_of_find?_eq_some hfind)
  · refine ⟨submit.node.id, by rw [he]; rfl, Or.inr ?_⟩
    obtain ⟨j, _, hj⟩ := Option.bind_eq_some_iff.mp hs
    obtain ⟨n, hn, hc⟩ := details_mem h.isDetails (List.mem_of_getElem? hj)
    obtain ⟨_, _, _, _, _, _, _, hnode⟩ := clipped_spec hc
    exact List.mem_map.mpr ⟨n, hn, by rw [hnode]⟩

/-- No detail hangs under the root or the generation. -/
theorem Timeline.detail_parent_ne
    (h : Timeline uuid event root generation endNs api transfer segs details) {id : String}
    (hu : id ∉ (List.range 7).map uuid) (ha : id ∉ event.apiIntervals.map Node.id) :
    ∀ n ∈ (reparent event.apiIntervals details).map Detail.node, n.parentId ≠ some id := by
  intro n hn he
  obtain ⟨p, hp, hm⟩ := h.detail_parent hn
  rw [he] at hp
  obtain rfl := Option.some.inj hp
  rcases hm with hm | hm
  · exact hu hm
  · exact ha hm

theorem DistinctIds.fresh (h : DistinctIds uuid event root generation) {id : String}
    (hid : id = root.id ∨ ∃ g, generation = some g ∧ id = g.id) :
    id ∉ (List.range 7).map uuid ∧ id ∉ event.apiIntervals.map Node.id := by
  unfold DistinctIds at h
  rw [List.cons_append, List.cons_append, List.nodup_cons, List.append_assoc,
    List.nodup_append] at h
  obtain ⟨hroot, _, _, hdis⟩ := h
  rcases hid with rfl | ⟨g, rfl, rfl⟩
  · simp only [List.mem_append, not_or] at hroot
    exact hroot.2
  · constructor
    · intro hm
      exact hdis g.id (by simp) g.id (List.mem_append_left _ hm) rfl
    · intro hm
      exact hdis g.id (by simp) g.id (List.mem_append_right _ hm) rfl

theorem DistinctIds.root_ne {g : Node} (h : DistinctIds uuid event root (some g)) :
    root.id ≠ g.id := by
  unfold DistinctIds at h
  rw [List.cons_append, List.cons_append, List.nodup_cons] at h
  intro he
  exact h.1 (by simp [he])

/-- The order of the nodes does not matter to the children of a node. -/
theorem children_perm (p : String) (hroot : root.parentId = none) (l : List Node) :
    (childrenOf p (root :: l.insertionSort keyOrder)).Perm (childrenOf p l) := by
  have hr : childrenOf p (root :: l.insertionSort keyOrder) =
      childrenOf p (l.insertionSort keyOrder) := by
    simp [childrenOf, hroot]
  rw [hr]
  exact (List.perm_insertionSort keyOrder l).filter _

/-- The children of the root: the top-level segments and the generation. -/
theorem Timeline.children_root
    (h : Timeline uuid event root generation endNs api transfer segs details)
    (hid : DistinctIds uuid event root generation) :
    childrenOf root.id (body root generation api transfer segs
      (reparent event.apiIntervals details)) =
      (if transfer.endNs > transfer.startNs then [api, transfer] else [api]).map Segment.toNode ++
        (generation.map (underRoot root)).toList := by
  obtain ⟨hu, ha⟩ := hid.fresh (Or.inl rfl)
  have hsegs : ∀ n ∈ segs.map Segment.toNode, n.parentId ≠ some root.id := by
    intro n hn
    obtain ⟨s, hs, rfl⟩ := List.mem_map.mp hn
    cases hgen : generation with
    | none => rw [h.noSegments hgen] at hs; cases hs
    | some g =>
      obtain ⟨_, _, hgs⟩ := h.isSegments g hgen
      have hp := ((generationSegments_spec hgs).2.2 s hs).1
      subst hgen
      intro he
      exact hid.root_ne (Option.some.inj (he.symm.trans (congrArg some hp)))
  rw [body, childrenOf_append, childrenOf_append, childrenOf_none hsegs,
    childrenOf_none (h.detail_parent_ne hu ha), List.append_nil, List.append_nil]
  apply childrenOf_all
  intro n hn
  rcases List.mem_append.mp hn with hn | hn
  · obtain ⟨s, hs, rfl⟩ := List.mem_map.mp hn
    have h0 := (segment_spec h.isApi).2.1
    have h1 := (segment_spec h.isTransfer).2.1
    split at hs <;> simp only [List.mem_cons, List.not_mem_nil, or_false] at hs
    · rcases hs with rfl | rfl
      · exact congrArg some h0
      · exact congrArg some h1
    · rw [hs]
      exact congrArg some h0
  · obtain ⟨g, _, rfl⟩ := Option.map_eq_some_iff.mp (Option.mem_toList.mp hn)
    rfl

/-- The children of the generation: its segments. -/
theorem Timeline.children_generation {g : Node}
    (h : Timeline uuid event root (some g) endNs api transfer segs details)
    (hid : DistinctIds uuid event root (some g)) :
    childrenOf g.id (body root (some g) api transfer segs
      (reparent event.apiIntervals details)) = segs.map Segment.toNode := by
  obtain ⟨hu, ha⟩ := hid.fresh (Or.inr ⟨g, rfl, rfl⟩)
  have htop : ∀ n ∈ (if transfer.endNs > transfer.startNs then [api, transfer] else [api]).map
      Segment.toNode ++ ((some g).map (underRoot root)).toList,
      n.parentId ≠ some g.id := by
    rw [← h.children_root hid]
    intro n hn he
    have hr : n.parentId = some root.id := by simpa using (List.mem_filter.mp hn).2
    exact hid.root_ne (Option.some.inj (hr.symm.trans he))
  have hsegs : ∀ n ∈ segs.map Segment.toNode, n.parentId = some g.id := by
    intro n hn
    obtain ⟨s, hs, rfl⟩ := List.mem_map.mp hn
    obtain ⟨_, _, hgs⟩ := h.isSegments g rfl
    exact congrArg some ((generationSegments_spec hgs).2.2 s hs).1
  rw [body, childrenOf_append, childrenOf_append, childrenOf_none htop, childrenOf_all hsegs,
    childrenOf_none (h.detail_parent_ne hu ha), List.nil_append, List.append_nil]

theorem genEnd_some {g : Node} {ge : ℤ} (hge : g.endNs = some ge) (h0 : 0 < ge) (endNs : ℤ) :
    genEnd (some g) endNs = ge := by
  have hne : ge ≠ 0 := by omega
  simp [genEnd, hge, hne]

/-- The segments of the generation are the intervals between its cuts that are
not empty, in order. -/
theorem Timeline.segments_spans {g : Node}
    (h : Timeline uuid event root (some g) endNs api transfer segs details)
    (hle : g.startNs ≤ genEnd (some g) endNs) : segs.map Segment.piece =
      (((observedStages event.observations).cuts g.startNs (genEnd (some g) endNs)).spans
        g.startNs (genEnd (some g) endNs)).filter (fun i => nonempty i.2) := by
  obtain ⟨bs, hbs, hsegs⟩ := h.isSegments g rfl
  obtain ⟨e, he, rfl⟩ := boundaries_spec hbs
  rw [lookupStages_eq] at he hsegs
  rw [(generationSegments_spec hsegs).1]
  refine (pieces_boundaryList ⟨clamp_lower, clamp_upper hle⟩ (clamp_upper hle)
    (clamp_upper hle) (clamp_upper hle)).trans ?_
  simp only [observedStages, Stages.cuts, Cuts.spans]
  rw [show Stages.dEnd _ g.startNs = some e from he]
  rfl

/-- The segments of the generation tile it. -/
theorem Timeline.segments_tile {g : Node}
    (h : Timeline uuid event root (some g) endNs api transfer segs details)
    (hle : g.startNs ≤ genEnd (some g) endNs) :
    Tiles g.startNs (genEnd (some g) endNs) (segs.map fun s => (s.startNs, s.endNs)) := by
  have ht := ((observedStages event.observations).cuts_tiles hle).filter_nonempty
  have hm := congrArg (List.map Prod.snd) (h.segments_spans hle)
  rw [List.map_map] at hm
  rw [List.filter_map] at ht
  exact hm ▸ ht

/-- The top level tiles the root's interval. -/
theorem Timeline.top_tiles
    (h : Timeline uuid event root generation endNs api transfer segs details)
    (h1 : root.startNs ≤ genStart generation endNs)
    (h2 : ∀ g, generation = some g →
      ∃ ge, g.endNs = some ge ∧ 0 < ge ∧ g.startNs ≤ ge ∧ ge ≤ endNs) :
    ∃ l, ((((if transfer.endNs > transfer.startNs then [api, transfer] else [api]).map
        Segment.toNode ++ (generation.map (underRoot root)).toList).map
        nodeSpan).Perm l) ∧ Tiles root.startNs endNs l := by
  obtain ⟨_, _, _, ha1, ha2, _⟩ := segment_spec h.isApi
  obtain ⟨_, _, _, ht1, ht2, _⟩ := segment_spec h.isTransfer
  rw [ht1, ht2]
  cases generation with
  | none =>
    have hge : genEnd none endNs = endNs := rfl
    refine ⟨[(root.startNs, endNs)], ?_, .cons h1 (.nil _)⟩
    simp [hge, nodeSpan, Segment.toNode, ha1, ha2, genStart]
  | some g =>
    obtain ⟨ge, hge, hpos, hle, hend⟩ := h2 g rfl
    rw [genEnd_some hge hpos]
    by_cases hlt : ge < endNs
    · refine ⟨[(root.startNs, g.startNs), (g.startNs, ge), (ge, endNs)], ?_,
        .cons h1 (.cons hle (.cons hend (.nil _)))⟩
      simp only [gt_iff_lt, hlt, if_true, List.map_cons, List.map_nil, Option.map_some,
        Option.toList_some, List.cons_append, List.nil_append, nodeSpan, underRoot,
        Segment.toNode, ha1, ha2, ht1, ht2, genEnd_some hge hpos, genStart, hge, Option.getD_some]
      exact List.Perm.cons _ (List.Perm.swap _ _ _)
    · have he : ge = endNs := le_antisymm hend (not_lt.mp hlt)
      subst he
      refine ⟨[(root.startNs, g.startNs), (g.startNs, ge)], ?_, .cons h1 (.cons hle (.nil _))⟩
      simp [nodeSpan, underRoot, Segment.toNode, ha1, ha2, genStart, hge]

end Parts

/-- **The exported timeline is a partition.** Every event of the recorders whose
generation has ended inside the root has a timeline. The children of the root
partition the root's interval and the children of the generation partition the
generation's, for all stage observations and all API intervals; without a
generation the top level still partitions the root's interval. -/
theorem timeline_partition (uuid : ℕ → String) (event : Event) (root : Node) (endNs : ℤ)
    (hroot : root.parentId = none) (hend : root.endNs = some endNs) (hpos : 0 < root.startNs)
    (hr : Recorded event) :
    (∀ g ge, g.endNs = some ge → root.startNs ≤ g.startNs → g.startNs ≤ ge → ge ≤ endNs →
      DistinctIds uuid event root (some g) →
      ∃ nodes, timelineNodes uuid event root (some g) = .ok nodes ∧
        Partitions root.id root.startNs endNs nodes ∧ Partitions g.id g.startNs ge nodes) ∧
    (root.startNs ≤ endNs → DistinctIds uuid event root none →
      ∃ nodes, timelineNodes uuid event root none = .ok nodes ∧
        Partitions root.id root.startNs endNs nodes) := by
  -- the top level, for both cases
  have top : ∀ generation {nodes}, root.startNs ≤ genStart generation endNs →
      (∀ g, generation = some g →
        ∃ ge, g.endNs = some ge ∧ 0 < ge ∧ g.startNs ≤ ge ∧ ge ≤ endNs) →
      DistinctIds uuid event root generation →
      timelineNodes uuid event root generation = .ok nodes →
      Partitions root.id root.startNs endNs nodes := by
    intro generation nodes h1 h2 hid hnodes
    obtain ⟨api, transfer, segs, details, ht, rfl⟩ := timelineNodes_timeline hnodes hend
    obtain ⟨l, hperm, htiles⟩ := ht.top_tiles h1 h2
    have hch := children_perm root.id hroot (body root generation api transfer segs
      (reparent event.apiIntervals details))
    have hends := fun n hn => ht.ends n (List.mem_of_mem_filter (hch.subset hn))
    rw [ht.children_root hid] at hch
    exact .of_tiles hends ((hch.map nodeSpan).trans hperm) htiles
  constructor
  · intro g ge hge h1 h2 h3 hid
    obtain ⟨nodes, hnodes⟩ : ∃ nodes, timelineNodes uuid event root (some g) = .ok nodes :=
      timelineNodes_ok uuid hr hend (fun g' hg' => by cases hg'; simp [hge])
    have h0 : 0 < ge := by omega
    refine ⟨nodes, hnodes, top (some g) h1 ?_ hid hnodes, ?_⟩
    · intro g' hg'
      cases hg'
      exact ⟨ge, hge, h0, h2, h3⟩
    · obtain ⟨e, api, transfer, segs, details, ht, rfl⟩ := timelineNodes_spec hnodes
      have htile := ht.segments_tile (by rw [genEnd_some hge h0]; exact h2)
      rw [genEnd_some hge h0] at htile
      have hch := children_perm g.id hroot (body root (some g) api transfer segs
        (reparent event.apiIntervals details))
      have hends := fun n hn => ht.ends n (List.mem_of_mem_filter (hch.subset hn))
      rw [ht.children_generation hid] at hch
      refine .of_tiles hends (hch.map nodeSpan) ?_
      rw [List.map_map]
      exact htile
  · intro h1 hid
    obtain ⟨nodes, hnodes⟩ : ∃ nodes, timelineNodes uuid event root none = .ok nodes :=
      timelineNodes_ok uuid hr hend (by simp)
    exact ⟨nodes, hnodes, top none h1 (by simp) hid hnodes⟩

/-- Stages out of order and outside the generation, and one API interval. -/
def unorderedEvent : Event := smallEvent
  [smallGeneration, spanNode "d" "g" "decode" 70 30, spanNode "p" "g" "prefill" 5 500]
  [spanNode "i" "r" "render_input" 12 18]

theorem timeline_partition_unordered :
    (∃ nodes, timelineNodes drawnId unorderedEvent smallRoot (some smallGeneration) = .ok nodes ∧
      Partitions "r" 10 100 nodes ∧ Partitions "g" 20 80 nodes) ∧
    ∃ nodes, timelineNodes drawnId unorderedEvent smallRoot none = .ok nodes ∧
      Partitions "r" 10 100 nodes :=
  have h := timeline_partition drawnId unorderedEvent smallRoot 100 rfl rfl (by decide)
    ⟨by decide, by decide, by decide⟩
  ⟨h.1 smallGeneration 80 rfl (by decide) (by decide) (by decide)
    (by unfold DistinctIds; decide),
    h.2 (by decide) (by unfold DistinctIds; decide)⟩

end VllmObserver.Exporter
