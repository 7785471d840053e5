import VllmObserver.Scripts.Audit
import VllmObserver.Adapter.Fidelity
import VllmObserver.Exporter.SinkGenerations
import VllmObserver.Exporter.TimelineContainment
import VllmObserver.Stages.TimedCalls

/-! # The hierarchy that is read back

What the sink sends of a timeline, and what the rows that are read back say of it.
Every name of the waterfall has one place, so the rows of a whole hierarchy make up
a complete trace. -/
namespace VllmObserver.Scripts
open VllmObserver.Lib VllmObserver.Core VllmObserver.Exporter VllmObserver.Adapter

/-- What is read back of a span, on clocks that round to microseconds. -/
structure Presents (time : ℤ → ℤ) (span : Span) (row : Row) : Prop where
  id : row.id = span.id
  traceId : row.traceId = span.traceId
  parent : row.parentObservationId = span.parentId
  name : row.name = span.name
  type : row.type = if span.isGeneration then "GENERATION" else "SPAN"
  startTime : row.startTime = time span.startNs
  endTime : row.endTime = time span.endNs
  model : ∀ name, span.attributes.get? "langfuse.observation.model.name" =
    some (.value (.str name)) → row.model = some name
  usage : ∀ usage : Dict String ℤ, span.attributes.get? "langfuse.observation.usage_details" =
    some (.dumps (.obj (usage.entries.map fun e => (e.1, .int e.2)))) → row.usageDetails = usage
  metadata : ∀ key value, span.attributes.get? (metadataPrefix ++ key) = some (.value value) →
    row.metadata.get? key = some value

/-! ## The batch of the sink -/

/-- A batch is the timeline without its empty nodes, last to first. -/
theorem sinkCall_spans {config : SinkConfig} {draw : ℚ} {uuid : ℕ → String}
    {delivers : List Span → Bool} {event : Event} {total : ℚ} {spans : List Span}
    (h : sinkCall config draw uuid delivers event = .ok (some spans))
    (htotal : httpTotal event = .ok total) : ∃ why residual nodes,
      timelineNodes uuid event (rootNode event total) (firstGeneration event) = .ok nodes ∧
      spans = ((validNodes (event.startedNs + nanos total) nodes).map
        (spanOf config event why residual (event.startedNs + nanos total))).reverse := by
  unfold sinkCall at h
  cases hwhy : sampled config draw event with
  | none => rw [hwhy] at h; cases h
  | some why =>
    rw [hwhy] at h
    obtain ⟨total', htotal', h⟩ := bind_eq_ok.mp h
    rw [htotal] at htotal'
    obtain rfl := Except.ok.inj htotal'
    obtain ⟨nodes, hnodes, h⟩ := bind_eq_ok.mp h
    obtain ⟨errors, _, h⟩ := bind_eq_ok.mp h
    obtain ⟨_, _, h⟩ := bind_eq_ok.mp h
    refine ⟨why, errors.max?.getD 0, nodes, hnodes, ?_⟩
    dsimp only at h
    split at h
    · exact (Option.some.inj (Except.ok.inj h)).symm
    · cases h

/-! ## What a row says of its node -/

/-- The keys of the attributes that only a root has, apart from the observer's. -/
def rootKeys : List String := ["langfuse.user.id", "langfuse.session.id", "langfuse.trace.tags",
  "langfuse.observation.input", "langfuse.observation.output"]

theorem mem_tpotAttributes {config : SinkConfig} {event : Event} {key : String}
    (h : key ∈ (tpotAttributes config event).map Prod.fst) : ∃ rest, key = "observer." ++ rest := by
  have hkeys : (tpotAttributes config event).map Prod.fst ⊆
      (["tpot_ms", "slow_tpot", "tpot_threshold_ms", "slow_tpot_details"].map
        ("observer." ++ ·)) := by
    unfold tpotAttributes
    split
    · simp
    · split
      · simp
      · dsimp only
        split <;> simp
  obtain ⟨rest, _, rfl⟩ := List.mem_map.mp (hkeys h)
  exact ⟨rest, rfl⟩

theorem mem_rootAttributes {config : SinkConfig} {event : Event} {why : String} {residual : ℤ}
    {node : Node} {key : String}
    (h : key ∈ (rootAttributes config event why residual node).map Prod.fst) :
    key ∈ rootKeys ∨ ∃ rest, key = "observer." ++ rest := by
  simp only [rootAttributes, List.map_append, List.mem_append] at h
  rcases h with (((((((h | h) | h) | h) | h) | h) | h) | h) | h
  · rw [List.mem_singleton.mp ((optional_keys _ _ _).subset h)]
    exact .inl (by decide)
  · rw [List.mem_singleton.mp ((optional_keys _ _ _).subset h)]
    exact .inl (by decide)
  · rw [List.mem_singleton.mp h]
    exact .inl (by simp [rootKeys])
  · split at h
    · cases h
    · rw [List.mem_singleton.mp h]
      exact .inr ⟨"clock_calibration_error_ms", rfl⟩
  · simp only [List.map_cons, List.map_nil, List.mem_cons, List.not_mem_nil, or_false] at h
    rcases h with rfl | rfl <;> exact .inl (by decide)
  · obtain ⟨_, hmem, rfl⟩ := List.mem_map.mp h
    obtain ⟨stage, _, hmem⟩ := List.mem_flatMap.mp hmem
    obtain ⟨entry, _, rfl⟩ := List.mem_map.mp hmem
    exact .inr ⟨stage.1 ++ "." ++ (toMilliseconds entry.1 entry.2).1, by simp [String.append_assoc]⟩
  · rw [List.mem_singleton.mp ((optional_keys _ _ _).subset h)]
    exact .inr ⟨"ttft_ms", rfl⟩
  · rw [List.mem_singleton.mp h]
    exact .inr ⟨"timeline_partition", rfl⟩
  · exact .inr (mem_tpotAttributes h)

section Row
variable {config : SinkConfig} {event : Event} {why : String} {residual rootEnd : ℤ} {node : Node}

/-- The attributes of the generation and of the root are no metadata. -/
theorem spanOf_metadata_get? (key : String) :
    (spanOf config event why residual rootEnd node).attributes.get? (metadataPrefix ++ key) =
      (Dict.ofList (commonAttributes config event node)).get? (metadataPrefix ++ key) := by
  have hroot : metadataPrefix ++ key ∉ (if node.parentId = none then
      rootAttributes config event why residual node else []).map Prod.fst := by
    split
    · intro h
      rcases mem_rootAttributes h with h | ⟨rest, h⟩
      · have hlist := List.mem_map_of_mem (f := String.toList) h
        simp [rootKeys, metadataPrefix] at hlist
      · simpa [metadataPrefix] using congrArg String.toList h
    · simp
  have hgeneration : metadataPrefix ++ key ∉
      (if node.type = .generation then generationAttributes event node else []).map Prod.fst := by
    split
    · exact fun h => generationKey_not_prefixed ((generationAttributes_keys event node).subset h)
        key rfl
    · simp
  rw [spanOf, Dict.ofList_append, Dict.get?_update_of_not_mem hroot, Dict.ofList_append,
    Dict.get?_update_of_not_mem hgeneration]

/-- The trace identifier comes last. -/
theorem commonAttributes_traceId :
    (Dict.ofList (commonAttributes config event node)).get? (metadataPrefix ++ "traceId") =
      some (.value (.str event.traceId)) := by
  rw [commonAttributes, Dict.ofList_append, Dict.get?_update (by simp)]
  simp

/-- What the row of a node says of it. -/
structure ShowsNode (time : ℤ → ℤ) (event : Event) (node : Node) (row : Row) : Prop where
  id : row.id = node.id
  traceId : row.traceId = event.traceId
  parent : row.parentObservationId = node.parentId
  name : row.name = node.name
  type : row.type = if node.type = .generation then "GENERATION" else "SPAN"
  startTime : row.startTime = time node.startNs
  endTime : ∀ e, node.endNs = some e → e ≠ 0 → row.endTime = time e
  detailsTraceId : row.metadata.get? "traceId" = some (.str event.traceId)
  metadata : ∀ key value, (millisecondsMetadata node.metadata.entries).get? key = some value →
    key ≠ "traceId" → row.metadata.get? key = some value

theorem Presents.shows {time : ℤ → ℤ} {row : Row}
    (h : Presents time (spanOf config event why residual rootEnd node) row)
    (hparent : event.parentSpanId.filter (· ≠ "") = none) : ShowsNode time event node row where
  id := h.id
  traceId := h.traceId
  parent := by
    rw [h.parent, spanOf, hparent]
    exact Option.or_none
  name := h.name
  type := by
    rw [h.type, spanOf_isGeneration]
    simp
  startTime := h.startTime
  endTime e he hne := by
    rw [h.endTime, spanOf, effectiveEnd, he]
    exact congrArg time (if_neg hne)
  detailsTraceId := h.metadata _ _ ((spanOf_metadata_get? _).trans commonAttributes_traceId)
  metadata key value hvalue hkey :=
    h.metadata _ _ ((spanOf_metadata_get? _).trans (commonAttributes_metadata hvalue hkey))

end Row

/-! ## The stages of a request -/

/-- The seven stages, from the start of the request to its end. -/
def requestStages (rootStart gs w p d l ge rootEnd : ℤ) : List (String × ℤ × ℤ) :=
  (modulePrefixed "api_prepare", rootStart, gs) :: boundaryList gs w p d l ge ++
    [(modulePrefixed "response_transfer", ge, rootEnd)]

/-- What a node of the timeline is. -/
inductive Part (root g : Node) (stages : List (String × ℤ × ℤ)) (n : Node) : Prop
  | root (h : n = root)
  | generation (h : n = underRoot root g)
  | stage (type : n.type = .span) (span : (n.name, nodeSpan n) ∈ stages)
      (parent : n.name ∈ engineNames → n.parentId = some g.id)
  | detail (type : n.type = .span) (name : n.name ∈ optionalNames)

/-- A checked segment hangs under the generation. -/
theorem Part.segment {root g n : Node} {stages : List (String × ℤ × ℤ)}
    (h : Part root g stages n) (hroot : root.name = "serve-model-request")
    (hgen : g.name = "generate-response") (hname : n.name ∈ engineNames) :
    n.type = .span ∧ n.parentId = some g.id := by
  cases h with
  | root he =>
    rw [he, hroot] at hname
    exact absurd hname (by decide)
  | generation he =>
    rw [he, show (underRoot root g).name = g.name from rfl, hgen] at hname
    exact absurd hname (by decide)
  | stage htype _ hparent => exact ⟨htype, hparent hname⟩
  | detail _ hdetail =>
    have hdisjoint : ∀ name ∈ optionalNames, name ∉ engineNames := by decide
    exact absurd hname (hdisjoint _ hdetail)

section Parts
variable {uuid : ℕ → String} {event : Event} {root g : Node} {endNs : ℤ}
  {api transfer : Segment} {segs : List Segment} {details : List Detail}

theorem detail_name {containers : List Segment} {n : Node} {d : Detail}
    (hc : clipped containers n = some d) :
    d.node.name = modulePrefixed n.name ∧ d.node.type = n.type := by
  obtain ⟨_, _, _, _, _, _, _, hn⟩ := clipped_spec hc
  rw [hn]
  exact ⟨rfl, rfl⟩

theorem place_name (details : List Detail) (i : ℕ) (d : Detail) :
    (place details i d).node.name = d.node.name ∧
      (place details i d).node.type = d.node.type := by
  rcases place_cases details i d with he | ⟨_, _, _, he⟩ <;> rw [he]
  · exact ⟨rfl, rfl⟩
  · exact ⟨rfl, rfl⟩

/-- Every node of a timeline is one of its parts. -/
theorem timeline_part
    (h : Timeline uuid event root (some g) endNs api transfer segs details)
    (htimed : ∀ n ∈ event.apiIntervals, n.type = .span ∧ n.name ∈ Stages.timedStages)
    {ge w p d l : ℤ} (hge : g.endNs = some ge) (hpos : 0 < ge)
    (hsegs : segs.map Segment.piece =
      (boundaryList g.startNs w p d l ge).filter fun i => nonempty i.2)
    {n : Node} (hn : n ∈ root :: body root (some g) api transfer segs
      (reparent event.apiIntervals details)) :
    Part root g (requestStages root.startNs g.startNs w p d l ge endNs) n := by
  have hmodule : ∀ name ∈ Stages.timedStages, modulePrefixed name ∈ optionalNames := by decide
  have hapi : modulePrefixed "api_prepare" ∉ engineNames := by decide
  have htransfer : modulePrefixed "response_transfer" ∉ engineNames := by decide
  obtain ⟨_, _, ha3, ha4, ha5, _⟩ := segment_spec h.isApi
  obtain ⟨_, _, ht3, ht4, ht5, _⟩ := segment_spec h.isTransfer
  rw [genEnd_some hge hpos] at ht4
  rcases List.mem_cons.mp hn with rfl | hn
  · exact .root rfl
  simp only [body, List.mem_append, List.mem_map, Option.mem_toList, Option.map_eq_some_iff] at hn
  rcases hn with ((⟨s, hs, rfl⟩ | ⟨g', hg', rfl⟩) | ⟨s, hs, rfl⟩) | ⟨d', hd', rfl⟩
  · have hm : s = api ∨ s = transfer := by
      split at hs <;> simp only [List.mem_cons, List.not_mem_nil, or_false] at hs
      · exact hs
      · exact .inl hs
    rcases hm with rfl | rfl
    · refine .stage rfl ?_ fun hname => absurd (ha3 ▸ hname) hapi
      show (s.name, s.startNs, s.endNs) ∈ _
      rw [ha3, ha4, ha5]
      exact List.mem_append_left _ List.mem_cons_self
    · refine .stage rfl ?_ fun hname => absurd (ht3 ▸ hname) htransfer
      show (s.name, s.startNs, s.endNs) ∈ _
      rw [ht3, ht4, ht5]
      exact List.mem_append_right _ List.mem_cons_self
  · cases hg'
    exact .generation rfl
  · obtain ⟨_, _, hgs⟩ := h.isSegments g rfl
    have hpiece : s.piece ∈ segs.map Segment.piece := List.mem_map_of_mem hs
    rw [hsegs] at hpiece
    exact .stage rfl (List.mem_append_left _ (List.mem_cons_of_mem _ (List.mem_filter.mp hpiece).1))
      fun _ => congrArg some ((generationSegments_spec hgs).2.2 s hs).1
  · obtain ⟨i, d, hi, rfl⟩ := mem_reparent h.isDetails hd'
    obtain ⟨m, hm, hc⟩ := details_mem h.isDetails (List.mem_of_getElem? hi)
    obtain ⟨hname, htype⟩ := detail_name hc
    obtain ⟨hpname, hptype⟩ := place_name details i d
    obtain ⟨hspan, htimedname⟩ := htimed m hm
    refine .detail (by rw [hptype, htype, hspan]) ?_
    rw [hpname, hname]
    exact hmodule m.name htimedname

/-- A stage that is not empty has its node. -/
theorem stage_node
    (h : Timeline uuid event root (some g) endNs api transfer segs details)
    {ge w p d l : ℤ} (hge : g.endNs = some ge) (hpos : 0 < ge)
    (hsegs : segs.map Segment.piece =
      (boundaryList g.startNs w p d l ge).filter fun i => nonempty i.2)
    {i : String × ℤ × ℤ} (hi : i ∈ requestStages root.startNs g.startNs w p d l ge endNs)
    (hne : i.2.1 < i.2.2) :
    ∃ n ∈ body root (some g) api transfer segs (reparent event.apiIntervals details),
      n.name = i.1 ∧ n.startNs = i.2.1 ∧ n.endNs = some i.2.2 := by
  obtain ⟨_, _, ha3, ha4, ha5, _⟩ := segment_spec h.isApi
  obtain ⟨_, _, ht3, ht4, ht5, _⟩ := segment_spec h.isTransfer
  rw [genEnd_some hge hpos] at ht4
  have hfront : ∀ s ∈ if transfer.endNs > transfer.startNs then [api, transfer] else [api],
      s.toNode ∈ body root (some g) api transfer segs (reparent event.apiIntervals details) :=
    fun s hs => List.mem_append_left _ (List.mem_append_left _ (List.mem_append_left _
      (List.mem_map_of_mem hs)))
  rcases List.mem_append.mp hi with hi | hi
  · rcases List.mem_cons.mp hi with rfl | hi
    · exact ⟨api.toNode, hfront api (by split <;> simp), ha3, ha4, congrArg some ha5⟩
    · have hpiece : i ∈ segs.map Segment.piece := by
        rw [hsegs]
        exact List.mem_filter.mpr ⟨hi, decide_eq_true hne⟩
      obtain ⟨s, hs, rfl⟩ := List.mem_map.mp hpiece
      exact ⟨s.toNode, List.mem_append_left _ (List.mem_append_right _ (List.mem_map_of_mem hs)),
        rfl, rfl, rfl⟩
  · obtain rfl := List.mem_singleton.mp hi
    have hgt : transfer.endNs > transfer.startNs := by
      rw [ht4, ht5]
      exact hne
    exact ⟨transfer.toNode, hfront transfer (by rw [if_pos hgt]; simp), ht3, ht4,
      congrArg some ht5⟩

end Parts

/-- A timeline as it is sent: every node has its place, lies in its parent, and the
two levels of the partition are tiled. -/
structure Hierarchy (root g : Node) (stages : List (String × ℤ × ℤ)) (rootEnd ge count : ℤ)
    (nodes : List Node) : Prop where
  rootNode : root.name = "serve-model-request" ∧ root.type = .span ∧ root.parentId = none ∧
    root.endNs = some rootEnd
  generationNode : g.name = "generate-response" ∧ g.type = .generation ∧ g.endNs = some ge
  stageNames : ∀ i ∈ stages, i.1 ∈ expectedNames ∧ i.1 ∉ partitionNames
  part : ∀ n ∈ nodes, Part root g stages n
  ended : ∀ n ∈ nodes, ∃ e, n.endNs = some e ∧ 0 < e ∧ n.startNs ≤ e
  inside : ∀ n ∈ nodes, ∀ p ∈ nodes, n.parentId = some p.id → Encloses p n
  rootTiles : ∃ l, ((childrenOf root.id nodes).map nodeSpan).Perm l ∧ Tiles root.startNs rootEnd l
  generationTiles : ∃ l, ((childrenOf g.id nodes).map nodeSpan).Perm l ∧ Tiles g.startNs ge l
  decode : ∀ n ∈ nodes, n.name = "engine-core.decode" →
    ShowsDecode (millisecondsMetadata n.metadata.entries) count

section Hierarchy
variable {root g : Node} {stages : List (String × ℤ × ℤ)} {rootEnd ge count : ℤ}
  {nodes : List Node} {event : Event} {time : ℤ → ℤ} {rowOf : Node → Row} {rows : List Row}

theorem seconds_of_shows {n : Node} {row : Row} (h : ShowsNode time event n row)
    (hend : ∃ e, n.endNs = some e ∧ 0 < e ∧ n.startNs ≤ e) :
    row.seconds = (time (nodeSpan n).2 : ℚ) / 1000000 - (time (nodeSpan n).1 : ℚ) / 1000000 := by
  obtain ⟨e, he, hpos, _⟩ := hend
  rw [Row.seconds, h.startTime, h.endTime e he hpos.ne', nodeSpan, he, Option.getD_some]
  push_cast
  ring

/-- The rows of the children add up to what the children tile. -/
theorem sum_children (hshows : ∀ n ∈ nodes, ShowsNode time event n (rowOf n))
    (hrows : rows.Perm (nodes.map rowOf))
    (hended : ∀ n ∈ nodes, ∃ e, n.endNs = some e ∧ 0 < e ∧ n.startNs ≤ e) {id : String} {a b : ℤ}
    {l : List (ℤ × ℤ)} (hl : ((childrenOf id nodes).map nodeSpan).Perm l) (ht : Tiles a b l) :
    ((rows.filter fun row => decide (row.parentObservationId = some id)).map Row.seconds).sum =
      (time b : ℚ) / 1000000 - (time a : ℚ) / 1000000 := by
  rw [← ht.sum_images fun t => (time t : ℚ) / 1000000, ← (hl.map _).sum_eq,
    ((hrows.filter _).map _).sum_eq, List.filter_map, List.map_map, List.map_map]
  have hfilter : nodes.filter ((fun row => decide (row.parentObservationId = some id)) ∘ rowOf) =
      childrenOf id nodes := by
    refine List.filter_congr fun n hn => ?_
    rw [Function.comp_apply, (hshows n hn).parent]
  rw [hfilter]
  congr 1
  refine List.map_congr_left fun n hn => ?_
  have hmem := (List.mem_filter.mp hn).1
  exact seconds_of_shows (hshows n hmem) (hended n hmem)

theorem Hierarchy.root_of_name (h : Hierarchy root g stages rootEnd ge count nodes) {n : Node}
    (hn : n ∈ nodes) (hname : n.name = "serve-model-request") : n = root := by
  cases h.part n hn with
  | root he => exact he
  | generation he =>
    rw [he, show (underRoot root g).name = g.name from rfl, h.generationNode.1] at hname
    exact absurd hname (by decide)
  | stage _ hspan _ =>
    have hpartition : n.name ∈ partitionNames := by simp [hname, partitionNames]
    exact absurd hpartition (h.stageNames _ hspan).2
  | detail _ hdetail =>
    rw [hname] at hdetail
    exact absurd hdetail (by decide)

theorem Hierarchy.generation_of_name (h : Hierarchy root g stages rootEnd ge count nodes)
    {n : Node} (hn : n ∈ nodes) (hname : n.name = "generate-response") : n = underRoot root g := by
  cases h.part n hn with
  | root he =>
    rw [he, h.rootNode.1] at hname
    exact absurd hname (by decide)
  | generation he => exact he
  | stage _ hspan _ =>
    have hpartition : n.name ∈ partitionNames := by simp [hname, partitionNames]
    exact absurd hpartition (h.stageNames _ hspan).2
  | detail _ hdetail =>
    rw [hname] at hdetail
    exact absurd hdetail (by decide)

theorem Hierarchy.known (h : Hierarchy root g stages rootEnd ge count nodes) {n : Node}
    (hn : n ∈ nodes) : n.name ∈ expectedNames ++ optionalNames := by
  cases h.part n hn with
  | root he =>
    rw [he, h.rootNode.1]
    decide
  | generation he =>
    rw [he, show (underRoot root g).name = g.name from rfl, h.generationNode.1]
    decide
  | stage _ hspan _ => exact List.mem_append_left _ (h.stageNames _ hspan).1
  | detail _ hdetail => exact List.mem_append_right _ hdetail

/-- **The rows of a whole hierarchy** make up a complete trace. -/
theorem Hierarchy.waterfall {input output : ℤ}
    (h : Hierarchy root g stages rootEnd ge (max 0 (output - 1)) nodes)
    (hshows : ∀ n ∈ nodes, ShowsNode time event n (rowOf n)) (hrows : rows.Perm (nodes.map rowOf))
    (htime : ∀ a b, a ≤ b → time a ≤ time b)
    (hlisted : ∀ name ∈ expectedNames, ∃ n ∈ nodes, n.name = name)
    (hmodel : (rowOf (underRoot root g)).model = some (modelName event))
    (husage : (rowOf (underRoot root g)).usageDetails.get? "input" = some input ∧
      (rowOf (underRoot root g)).usageDetails.get? "output" = some output) :
    Waterfall event.traceId (modelName event) rows (rowOf root) (rowOf (underRoot root g))
      input output := by
  have hrow : ∀ row ∈ rows, ∃ n ∈ nodes, rowOf n = row := fun row hr =>
    List.mem_map.mp (hrows.mem_iff.mp hr)
  have hmem : ∀ n ∈ nodes, rowOf n ∈ rows := fun n hn =>
    hrows.mem_iff.mpr (List.mem_map_of_mem hn)
  obtain ⟨r, hr, hrname⟩ := hlisted "serve-model-request" (by decide)
  obtain ⟨x, hx, hxname⟩ := hlisted "generate-response" (by decide)
  have hrootmem := h.root_of_name hr hrname ▸ hr
  have hgenmem := h.generation_of_name hx hxname ▸ hx
  have hroot := hshows root hrootmem
  have hgen := hshows (underRoot root g) hgenmem
  obtain ⟨l, hl, ht⟩ := h.rootTiles
  obtain ⟨l', hl', ht'⟩ := h.generationTiles
  exact {
    listed := fun name hname => by
      obtain ⟨n, hn, rfl⟩ := hlisted name hname
      exact ⟨rowOf n, hmem n hn, (hshows n hn).name⟩
    known := fun row hr => by
      obtain ⟨n, hn, rfl⟩ := hrow row hr
      rw [(hshows n hn).name]
      exact h.known hn
    isRoot := fun row hr hname => by
      obtain ⟨n, hn, rfl⟩ := hrow row hr
      rw [h.root_of_name hn ((hshows n hn).name ▸ hname)]
    rootShape := ⟨by rw [hroot.type, h.rootNode.2.1]; rfl, by rw [hroot.parent, h.rootNode.2.2.1]⟩
    isGeneration := fun row hr hname => by
      obtain ⟨n, hn, rfl⟩ := hrow row hr
      rw [h.generation_of_name hn ((hshows n hn).name ▸ hname)]
    generationShape := ⟨by rw [hgen.type]; exact if_pos h.generationNode.2.1,
      by rw [hgen.parent, hroot.id]; rfl, hmodel⟩
    usage := husage
    traces := fun row hr => by
      obtain ⟨n, hn, rfl⟩ := hrow row hr
      exact ⟨(hshows n hn).traceId, (hshows n hn).detailsTraceId⟩
    ordered := fun row hr => by
      obtain ⟨n, hn, rfl⟩ := hrow row hr
      obtain ⟨e, he, hpos, hle⟩ := h.ended n hn
      rw [(hshows n hn).startTime, (hshows n hn).endTime e he hpos.ne']
      exact htime _ _ hle
    inside := fun row hr parent hp hparent => by
      obtain ⟨n, hn, rfl⟩ := hrow row hr
      obtain ⟨p, hpn, rfl⟩ := hrow parent hp
      rw [(hshows n hn).parent, (hshows p hpn).id] at hparent
      obtain ⟨e, f, he, hf, hstart, hend⟩ := h.inside n hn p hpn hparent
      obtain ⟨e', he', hepos, _⟩ := h.ended p hpn
      obtain ⟨f', hf', hfpos, _⟩ := h.ended n hn
      obtain rfl := Option.some.inj (he.symm.trans he')
      obtain rfl := Option.some.inj (hf.symm.trans hf')
      rw [(hshows n hn).startTime, (hshows p hpn).startTime, (hshows n hn).endTime f hf hfpos.ne',
        (hshows p hpn).endTime e he hepos.ne']
      exact ⟨htime _ _ hstart, htime _ _ hend⟩
    segments := fun row hr hname => by
      obtain ⟨n, hn, rfl⟩ := hrow row hr
      rw [(hshows n hn).name] at hname
      obtain ⟨htype, hparent⟩ := (h.part n hn).segment h.rootNode.1 h.generationNode.1 hname
      rw [(hshows n hn).type, (hshows n hn).parent, hgen.id, htype]
      exact ⟨rfl, hparent⟩
    sums := fun parent hp hname => by
      obtain ⟨n, hn, rfl⟩ := hrow parent hp
      rw [(hshows n hn).name] at hname
      have hnode : n = root ∨ n = underRoot root g := by
        simp only [partitionNames, List.mem_cons, List.not_mem_nil, or_false] at hname
        exact hname.imp (h.root_of_name hn) (h.generation_of_name hn)
      rw [seconds_of_shows (hshows n hn) (h.ended n hn), (hshows n hn).id]
      rcases hnode with rfl | rfl
      · rw [sum_children hshows hrows h.ended hl ht, nodeSpan, h.rootNode.2.2.2, Option.getD_some]
      · have hend : (underRoot root g).endNs = some ge := h.generationNode.2.2
        rw [nodeSpan, hend, Option.getD_some]
        exact sum_children hshows hrows h.ended hl' ht'
    decode := fun row hr hname => by
      obtain ⟨n, hn, rfl⟩ := hrow row hr
      obtain ⟨total, mean, hcount, htotal, hmean, he⟩ :=
        h.decode n hn ((hshows n hn).name ▸ hname)
      have hkeep := (hshows n hn).metadata
      exact ⟨total, mean, hkeep _ _ hcount (by decide), hkeep _ _ htotal (by decide),
        hkeep _ _ hmean (by decide), he⟩ }

end Hierarchy

/-! ## The hierarchy of a timeline -/

section Timeline
variable {uuid : ℕ → String} {event : Event} {root g : Node} {rootEnd : ℤ}
  {api transfer : Segment} {segs : List Segment} {details : List Detail}

theorem mem_validNodes {nodes : List Node} {n : Node} :
    n ∈ validNodes rootEnd nodes ↔ n ∈ nodes ∧ n.startNs < effectiveEnd rootEnd n := by
  simp [validNodes]

/-- The sink drops the nodes whose interval is empty. -/
theorem children_valid {nodes : List Node} (id : String)
    (h : ∀ n ∈ nodes, ∃ e, n.endNs = some e ∧ 0 < e ∧ n.startNs ≤ e) :
    (childrenOf id (validNodes rootEnd nodes)).map nodeSpan =
      ((childrenOf id nodes).map nodeSpan).filter nonempty := by
  rw [childrenOf, validNodes, List.filter_comm, ← childrenOf, List.filter_map]
  congr 1
  refine List.filter_congr fun n hn => ?_
  obtain ⟨e, he, hpos, _⟩ := h n (List.mem_filter.mp hn).1
  simp [effectiveEnd, nodeSpan, nonempty, he, hpos.ne']

theorem requestStages_names {a gs w p d l ge b : ℤ} :
    ∀ i ∈ requestStages a gs w p d l ge b, i.1 ∈ expectedNames ∧ i.1 ∉ partitionNames := by
  intro i hi
  have hname : i.1 ∈ (requestStages a gs w p d l ge b).map Prod.fst := List.mem_map_of_mem hi
  have hnames : ∀ name ∈ ["api_prepare", "engine_handoff", "waiting_to_first_schedule", "prefill",
      "decode", "engine_finalize", "response_transfer"].map modulePrefixed,
      name ∈ expectedNames ∧ name ∉ partitionNames := by decide
  exact hnames i.1 hname

/-- **A timeline is sent as a hierarchy**, under the cuts of its generation. -/
theorem hierarchy_of_timeline
    (h : Timeline uuid event root (some g) rootEnd api transfer segs details)
    (hb : Bounds root (some g) rootEnd) (hid : DistinctIds uuid event root (some g))
    (hroot : root.name = "serve-model-request" ∧ root.type = .span ∧ root.parentId = none)
    (hgen : g.name = "generate-response" ∧ g.type = .generation)
    (htimed : ∀ n ∈ event.apiIntervals, n.type = .span ∧ n.name ∈ Stages.timedStages)
    {ge w p d l count : ℤ} (hge : g.endNs = some ge)
    (hsegs : segs.map Segment.piece =
      (boundaryList g.startNs w p d l ge).filter fun i => nonempty i.2)
    (hdecode : ∀ n ∈ childrenOf g.id (root :: (body root (some g) api transfer segs
      (reparent event.apiIntervals details)).insertionSort keyOrder),
      n.name = modulePrefixed "decode" →
        ShowsDecode (millisecondsMetadata n.metadata.entries) count) :
    Hierarchy root g (requestStages root.startNs g.startNs w p d l ge rootEnd) rootEnd ge count
      (validNodes rootEnd (root :: (body root (some g) api transfer segs
        (reparent event.apiIntervals details)).insertionSort keyOrder)) := by
  obtain ⟨ge', hge', hstart, hle, hend⟩ := hb.generation g rfl
  obtain rfl := Option.some.inj (hge.symm.trans hge')
  have hrootpos := hb.positive
  have hpos : 0 < ge := by omega
  have hperm := (List.perm_insertionSort keyOrder (body root (some g) api transfer segs
    (reparent event.apiIntervals details))).cons root
  have hids := h.body_ids hid
  have hparts : ∀ n ∈ root :: (body root (some g) api transfer segs
      (reparent event.apiIntervals details)).insertionSort keyOrder,
      Part root g (requestStages root.startNs g.startNs w p d l ge rootEnd) n :=
    fun n hn => timeline_part h htimed hge hpos hsegs (hperm.mem_iff.mp hn)
  have hended : ∀ n ∈ root :: (body root (some g) api transfer segs
      (reparent event.apiIntervals details)).insertionSort keyOrder,
      ∃ e, n.endNs = some e ∧ 0 < e ∧ n.startNs ≤ e := by
    intro n hn
    rcases List.mem_cons.mp (hperm.mem_iff.mp hn) with rfl | hn
    · exact ⟨rootEnd, h.rootEnd, by omega, hb.ordered⟩
    · obtain ⟨e, he, h1, h2, _⟩ := h.body_inside hb n hn
      exact ⟨e, he, by omega, h2⟩
  have hkept : ∀ {n}, n ∈ validNodes rootEnd (root :: (body root (some g) api transfer segs
      (reparent event.apiIntervals details)).insertionSort keyOrder) → n ∈ root ::
      (body root (some g) api transfer segs
        (reparent event.apiIntervals details)).insertionSort keyOrder :=
    fun hn => (mem_validNodes.mp hn).1
  refine {
    rootNode := ⟨hroot.1, hroot.2.1, hroot.2.2, h.rootEnd⟩
    generationNode := ⟨hgen.1, hgen.2, hge⟩
    stageNames := requestStages_names
    part := fun n hn => hparts n (hkept hn)
    ended := fun n hn => hended n (hkept hn)
    inside := fun n hn q hq hparent => ?_
    rootTiles := ?_
    generationTiles := ?_
    decode := fun n hn hname => ?_ }
  · -- the parent that encloses a node is the one that bears its identifier
    have hunder : HangsUnder (root :: body root (some g) api transfer segs
        (reparent event.apiIntervals details)) n q := ⟨hperm.mem_iff.mp (hkept hq), hparent⟩
    rcases List.mem_cons.mp (hperm.mem_iff.mp (hkept hn)) with rfl | hn
    · rw [hroot.2.2] at hparent
      cases hparent
    · obtain ⟨q', hq', henc⟩ := h.hangs hb hn
      rw [hunder.unique hids hq']
      exact henc
  · obtain ⟨tiles, htiles, ht⟩ := h.top_tiles hstart fun g' hg' => by
      cases hg'
      exact ⟨ge, hge, hpos, hle, hend⟩
    rw [children_valid root.id hended]
    refine ⟨tiles.filter nonempty, ?_, ht.filter_nonempty⟩
    refine List.Perm.filter _ (((children_perm root.id hroot.2.2 _).map _).trans ?_)
    rw [h.children_root hid]
    exact htiles
  · rw [children_valid g.id hended]
    have ht := h.segments_tile (by rw [genEnd_some hge hpos]; exact hle)
    rw [genEnd_some hge hpos] at ht
    refine ⟨_, List.Perm.filter _ (((children_perm g.id hroot.2.2 _).map _).trans ?_),
      ht.filter_nonempty⟩
    rw [h.children_generation hid, List.map_map]
    exact List.Perm.refl _
  · have hnode := hkept hn
    have hdecodename : n.name ∈ engineNames := by simp [hname, engineNames]
    have hparent := ((hparts n hnode).segment hroot.1 hgen.1 hdecodename).2
    exact hdecode n (List.mem_filter.mpr ⟨hnode, decide_eq_true hparent⟩) hname

/-- A stage of the request is determined by its name. -/
theorem requestStages_inj {a gs w p d l ge b : ℤ} {i j : String × ℤ × ℤ}
    (hi : i ∈ requestStages a gs w p d l ge b) (hj : j ∈ requestStages a gs w p d l ge b)
    (h : i.1 = j.1) : i = j := by
  have hnames : ((requestStages a gs w p d l ge b).map Prod.fst).Nodup := by
    show (["api_prepare", "engine_handoff", "waiting_to_first_schedule", "prefill", "decode",
      "engine_finalize", "response_transfer"].map modulePrefixed).Nodup
    decide
  exact List.inj_on_of_nodup_map hnames hi hj h

/-- A stage whose name was sent is not empty. -/
theorem Hierarchy.nonempty_of_listed {ge a w p d l count : ℤ} {nodes : List Node}
    (h : Hierarchy root g (requestStages a g.startNs w p d l ge rootEnd) rootEnd ge count
      (validNodes rootEnd nodes))
    {i : String × ℤ × ℤ} (hi : i ∈ requestStages a g.startNs w p d l ge rootEnd)
    (hlisted : ∃ n ∈ validNodes rootEnd nodes, n.name = i.1) : i.2.1 < i.2.2 := by
  obtain ⟨n, hn, hname⟩ := hlisted
  obtain ⟨hexpected, hpartition⟩ := h.stageNames i hi
  rw [← hname] at hexpected hpartition
  cases h.part n hn with
  | root he =>
    rw [he, h.rootNode.1] at hpartition
    exact absurd (by decide) hpartition
  | generation he =>
    rw [he, show (underRoot root g).name = g.name from rfl, h.generationNode.1] at hpartition
    exact absurd (by decide) hpartition
  | stage _ hspan _ =>
    obtain ⟨e, he, hpos, _⟩ := h.ended n hn
    have hvalid := (mem_validNodes.mp hn).2
    rw [← requestStages_inj hspan hi hname]
    simpa [effectiveEnd, nodeSpan, he, hpos.ne'] using hvalid
  | detail _ hdetail =>
    have hdisjoint : ∀ name ∈ optionalNames, name ∉ expectedNames := by decide
    exact absurd hexpected (hdisjoint _ hdetail)

/-- Stages that are not empty follow one another. -/
theorem requestStages_lt {a gs w p d l ge b : ℤ}
    (h : ∀ i ∈ requestStages a gs w p d l ge b, i.2.1 < i.2.2) : a < gs ∧ gs < ge ∧ ge < b := by
  simp only [requestStages, boundaryList, List.mem_append, List.mem_cons, List.not_mem_nil,
    or_false, forall_eq, or_imp, forall_and] at h
  omega

/-- **Every name is sent exactly if** none of the stages is empty. -/
theorem listed_iff
    (h : Timeline uuid event root (some g) rootEnd api transfer segs details)
    (hb : Bounds root (some g) rootEnd) {ge w p d l count : ℤ} (hpos : 0 < ge)
    (hsegs : segs.map Segment.piece =
      (boundaryList g.startNs w p d l ge).filter fun i => nonempty i.2)
    (hsent : Hierarchy root g (requestStages root.startNs g.startNs w p d l ge rootEnd) rootEnd ge
      count (validNodes rootEnd (root :: (body root (some g) api transfer segs
        (reparent event.apiIntervals details)).insertionSort keyOrder))) :
    (∀ name ∈ expectedNames, ∃ n ∈ validNodes rootEnd (root :: (body root (some g) api transfer segs
      (reparent event.apiIntervals details)).insertionSort keyOrder), n.name = name) ↔
      ∀ i ∈ requestStages root.startNs g.startNs w p d l ge rootEnd, i.2.1 < i.2.2 := by
  have hge := hsent.generationNode.2.2
  constructor
  · intro hlisted i hi
    exact hsent.nonempty_of_listed hi (hlisted i.1 (hsent.stageNames i hi).1)
  · intro hne name hname
    have hsorted : ∀ n ∈ body root (some g) api transfer segs (reparent event.apiIntervals details),
        n ∈ root :: (body root (some g) api transfer segs
          (reparent event.apiIntervals details)).insertionSort keyOrder := fun n hn =>
      List.mem_cons_of_mem _ ((List.perm_insertionSort keyOrder _).mem_iff.mpr hn)
    have hrootpos := hb.positive
    obtain ⟨h1, h2, h3⟩ := requestStages_lt hne
    have hnames : ∀ name ∈ expectedNames, name = "serve-model-request" ∨
        name = "generate-response" ∨ name ∈ ["api_prepare", "engine_handoff",
          "waiting_to_first_schedule", "prefill", "decode", "engine_finalize",
          "response_transfer"].map modulePrefixed := by decide
    rcases hnames name hname with rfl | rfl | hstage
    · refine ⟨root, mem_validNodes.mpr ⟨List.mem_cons_self, ?_⟩, hsent.rootNode.1⟩
      rw [effectiveEnd, hsent.rootNode.2.2.2]
      dsimp only
      rw [if_neg (by omega)]
      omega
    · refine ⟨underRoot root g, mem_validNodes.mpr ⟨hsorted _ (by simp [body]), ?_⟩,
        hsent.generationNode.1⟩
      rw [effectiveEnd, show (underRoot root g).endNs = g.endNs from rfl, hge]
      dsimp only
      rw [if_neg hpos.ne']
      exact h2
    · obtain ⟨i, hi, rfl⟩ : ∃ i ∈ requestStages root.startNs g.startNs w p d l ge rootEnd,
          i.1 = name := List.mem_map.mp hstage
      have hlt := hne i hi
      obtain ⟨n, hn, hnname, hstart, hend⟩ := stage_node h hge hpos hsegs hi hlt
      obtain ⟨_, _, hinside, _, _⟩ := h.body_inside hb n hn
      refine ⟨n, mem_validNodes.mpr ⟨hsorted n hn, ?_⟩, hnname⟩
      rw [effectiveEnd, hend, hstart]
      dsimp only
      rw [if_neg (by omega)]
      exact hlt

end Timeline

/-- The keys of a stage's segment: none is already in milliseconds. -/
theorem segmentMetadata_keys (error count a b : ℤ) {stages : Stages} {d : Node}
    (hd : stages.decode = some d) (hmeta : d.metadata = stageMetadata error (.int 0) count a b) :
    ∀ key ∈ (segmentMetadata stages (modulePrefixed "decode")).keys, key ∈
      ["timing_source", "module", "calibration_error_ns", "sequence_index", "count",
        "total_seconds", "mean_seconds"] := by
  intro key hkey
  rw [segmentMetadata, segmentExtra_decode hd, ownMetadata, hmeta, Dict.mem_keys_update,
    Dict.mem_keys_ofList, ← Dict.keys, Dict.mem_keys_erase, stageMetadata,
    Dict.mem_keys_ofList] at hkey
  simp only [List.map_cons, List.map_nil, List.mem_cons, List.not_mem_nil, or_false] at hkey ⊢
  tauto

/-- What is read back of the decode that was recorded. -/
theorem showsDecode_of_recorded (error count a b : ℤ) {stages : Stages} {d : Node}
    (hd : stages.decode = some d) (hmeta : d.metadata = stageMetadata error (.int 0) count a b) :
    ShowsDecode (millisecondsMetadata
      (segmentMetadata stages (modulePrefixed "decode")).entries) count := by
  obtain ⟨hcount, htotal, hmean⟩ := stageMetadata_get? error (.int 0) count a b
  rw [← hmeta] at hcount htotal hmean
  have hextra := segmentExtra_decode hd
  have hcount := segmentMetadata_get? hextra (by decide) hcount
  have htotal := segmentMetadata_get? hextra (by decide) htotal
  have hmean := segmentMetadata_get? hextra (by decide) hmean
  have hkeys : ∀ key ∉ ["timing_source", "module", "calibration_error_ns", "sequence_index",
      "count", "total_seconds", "mean_seconds"],
      key ∉ (segmentMetadata stages (modulePrefixed "decode")).keys :=
    fun key hnot hkey => hnot (segmentMetadata_keys error count a b hd hmeta key hkey)
  obtain ⟨m, hm, hvalue⟩ : ∃ x : Number, meanOf (((b - a : ℤ) : ℚ) / 1000000000) count = .num x ∧
      x.toFlt = .fin (if count = 0 then 0 else ((b - a : ℤ) : ℚ) / 1000000000 / count) := by
    unfold meanOf
    split
    · exact ⟨.int 0, rfl, rfl⟩
    · exact ⟨.float _, rfl, rfl⟩
  rw [hm] at hmean
  refine ⟨((b - a : ℤ) : ℚ) / 1000000000 * 1000,
    (if count = 0 then 0 else ((b - a : ℤ) : ℚ) / 1000000000 / count) * 1000, ?_, ?_, ?_, ?_⟩
  · rw [millisecondsMetadata, Dict.ofList, millisecondsMetadata_get? _ _ (Dict.nodup _) Dict.empty,
      ← Dict.get?, hcount]
    · rfl
    · intro base h
      simpa using congrArg (fun s => s.toList.reverse) h
    · intro value
      cases value with
      | num x => rw [toMilliseconds, show withoutSuffix "_seconds" "count" = none by decide,
          show withoutSuffix "_ns" "count" = none by decide]
      | _ => rfl
  · exact millisecondsMetadata_seconds "total" htotal (hkeys _ (by decide))
      (hkeys _ (by decide))
  · have hshown := millisecondsMetadata_seconds "mean" hmean (hkeys _ (by decide))
      (hkeys _ (by decide))
    rw [hvalue] at hshown
    exact hshown
  · split
    · exact zero_mul _
    · ring

end VllmObserver.Scripts
