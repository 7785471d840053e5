import VllmObserver.Exporter.TimelinePartition

/-! # The segments of a generation

What a returned timeline exports under its generation: the intervals between
the cuts that are not empty, in order, under the names of the stages and with
their metadata. -/
namespace VllmObserver.Exporter
open VllmObserver.Lib VllmObserver.Core

/-- The name, bounds and metadata a segment is exported with. -/
structure Exported where
  name : String
  span : ℤ × ℤ
  metadata : Metadata

def Node.exported (n : Node) : Exported where
  name := n.name
  span := nodeSpan n
  metadata := n.metadata

/-- The metadata of a segment: the timing source of the partition, and what the
stage adds to it. -/
def segmentMetadata (stages : Stages) (name : String) : Metadata :=
  (Dict.ofList [("timing_source", .str "boundary_partition"),
    ("module", .str timelineModule)]).update (segmentExtra stages name).entries

/-- What the stages of a generation are exported as. -/
def stageSegments (stages : Stages) (gs ge : ℤ) : List Exported :=
  (((stages.cuts gs ge).spans gs ge).filter fun i => nonempty i.2).map fun i =>
    { name := i.1, span := i.2, metadata := segmentMetadata stages i.1 }

/-- The intervals of a tiling that are not empty start one after the other. -/
theorem tiles_pairwise_start {a b : ℤ} {l : List (ℤ × ℤ)} (h : Tiles a b l)
    (hne : ∀ i ∈ l, i.1 < i.2) : l.Pairwise fun i j => i.1 < j.1 := by
  induction h with
  | nil => exact .nil
  | @cons a m b rest hle tail ih =>
    refine .cons (fun j hj => ?_) (ih fun i hi => hne i (List.mem_cons_of_mem _ hi))
    have h1 := hne (a, m) List.mem_cons_self
    have h2 := (tail.within j hj).1
    exact lt_of_lt_of_le h1 h2

section Parts
variable {uuid : ℕ → String} {event : Event} {root g : Node} {nodes : List Node} {endNs : ℤ}
  {api transfer : Segment} {segs : List Segment} {details : List Detail}

/-- The segments start one after the other. -/
theorem Timeline.segments_start
    (h : Timeline uuid event root (some g) endNs api transfer segs details)
    (hle : g.startNs ≤ genEnd (some g) endNs) :
    segs.Pairwise fun s t => s.startNs < t.startNs := by
  have hspans := h.segments_spans hle
  have hp := tiles_pairwise_start (h.segments_tile hle) fun i hi => by
    obtain ⟨s, hs, rfl⟩ := List.mem_map.mp hi
    have hm : s.piece ∈ segs.map Segment.piece := List.mem_map_of_mem hs
    rw [hspans] at hm
    exact of_decide_eq_true (List.mem_filter.mp hm).2
  rwa [List.pairwise_map] at hp

/-- Sorting leaves the segments in the order they were built in. -/
theorem Timeline.children_segments
    (h : Timeline uuid event root (some g) endNs api transfer segs details)
    (hroot : root.parentId = none) (hid : DistinctIds uuid event root (some g))
    (hle : g.startNs ≤ genEnd (some g) endNs) :
    childrenOf g.id (root :: (body root (some g) api transfer segs
      (reparent event.apiIntervals details)).insertionSort keyOrder) =
      segs.map Segment.toNode := by
  have hstart := h.segments_start hle
  have hinj : (segs.map Segment.startNs).Nodup :=
    List.pairwise_map.mpr (hstart.imp fun h => ne_of_lt h)
  have hperm : (childrenOf g.id (root :: (body root (some g) api transfer segs
      (reparent event.apiIntervals details)).insertionSort keyOrder)).Perm
      (segs.map Segment.toNode) := by
    rw [← h.children_generation hid]
    exact children_perm g.id hroot _
  have hsorted : (childrenOf g.id (root :: (body root (some g) api transfer segs
      (reparent event.apiIntervals details)).insertionSort keyOrder)).Pairwise keyOrder := by
    have hr : childrenOf g.id (root :: (body root (some g) api transfer segs
        (reparent event.apiIntervals details)).insertionSort keyOrder) =
        childrenOf g.id ((body root (some g) api transfer segs
          (reparent event.apiIntervals details)).insertionSort keyOrder) := by
      simp [childrenOf, hroot]
    rw [hr]
    exact (List.pairwise_insertionSort keyOrder _).filter _
  refine hperm.eq_of_pairwise ?_ hsorted (List.pairwise_map.mpr (hstart.imp ?_))
  · -- equal keys are equal segments
    intro n m hn hm hnm hmn
    obtain ⟨s, hs, rfl⟩ := List.mem_map.mp (hperm.subset hn)
    obtain ⟨t, htm, rfl⟩ := List.mem_map.mp hm
    have hst : s.startNs = t.startNs := by
      simp only [keyOrder, precedes, sortKey, Segment.toNode, Option.getD_some] at hnm hmn
      omega
    rw [List.inj_on_of_nodup_map hinj hs htm hst]
  · intro s t hst
    exact Or.inl hst

/-- The children of the generation, as they are exported. -/
theorem generation_segments (h : timelineNodes uuid event root (some g) = .ok nodes)
    (hroot : root.parentId = none) (hid : DistinctIds uuid event root (some g)) {ge : ℤ}
    (hge : g.endNs = some ge) (hpos : 0 < ge) (hle : g.startNs ≤ ge) :
    (childrenOf g.id nodes).map Node.exported =
      stageSegments (observedStages event.observations) g.startNs ge := by
  obtain ⟨endNs, api, transfer, segs, details, ht, rfl⟩ := timelineNodes_spec h
  have hend := genEnd_some hge hpos endNs
  have hle' : g.startNs ≤ genEnd (some g) endNs := by rw [hend]; exact hle
  have hspans := ht.segments_spans hle'
  rw [hend] at hspans
  obtain ⟨bs, _, hsegs⟩ := ht.isSegments g rfl
  rw [lookupStages_eq] at hsegs
  have hmeta := (generationSegments_spec hsegs).2.2
  rw [ht.children_segments hroot hid hle', stageSegments, ← hspans, List.map_map, List.map_map]
  refine List.map_congr_left fun s hs => ?_
  simp only [Function.comp_apply, Node.exported, Segment.toNode, Segment.piece, nodeSpan,
    Option.getD_some, (hmeta s hs).2, segmentMetadata]
  rfl

end Parts

end VllmObserver.Exporter
