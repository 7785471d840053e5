import Mathlib.Data.List.Sort
import VllmObserver.Core.Trace

/-! # The exported timeline

`timelineNodes` turns an event into the nodes of the exported waterfall: the
top-level segments, the engine segments of the generation, and the API detail
intervals clipped into them. `LangfuseSink` filters the result and opens one
span for each node, looking its parent up among the spans opened before. -/
namespace VllmObserver.Exporter
open VllmObserver.Lib VllmObserver.Core

def timelineModule : String := "vllm-observer.timeline"

/-- The process that owns each stage. -/
def moduleByStage : List (String × String) := [
  ("api_prepare", "api-server"),
  ("render_input", "api-server"),
  ("sampling_params", "api-server"),
  ("input_process", "api-server"),
  ("submit_engine", "api-server"),
  ("output_processor_add", "api-server"),
  ("response_transfer", "api-server"),
  ("engine_handoff", "engine-core"),
  ("waiting_to_first_schedule", "engine-core"),
  ("prefill", "engine-core"),
  ("decode", "engine-core"),
  ("engine_finalize", "engine-core")]

def modulePrefixed (name : String) : String :=
  match moduleByStage.lookup name with
  | some owner => owner ++ "." ++ name
  | none => name

/-- A segment built by `_segment`. Its bounds are integers, unlike a node's. -/
structure Segment where
  id : String
  parentId : String
  name : String
  startNs : ℤ
  endNs : ℤ
  metadata : Metadata

def Segment.toNode (s : Segment) : Node where
  id := s.id
  parentId := some s.parentId
  name := s.name
  type := .span
  startNs := s.startNs
  endNs := some s.endNs
  metadata := s.metadata

/-- The parameters of `_segment`, which a metadata key may not repeat. -/
def segmentParameters : List String := ["node_id", "parent_id", "name", "start_ns", "end_ns"]

def segment (nodeId parentId name : String) (startNs endNs : ℤ) (metadata : Metadata) :
    Except PyError Segment :=
  match metadata.keys.find? (fun k => decide (k ∈ segmentParameters)) with
  | some key => .error (.typeError ("_segment() got multiple values for argument " ++ key))
  | none => .ok {
      id := nodeId
      parentId := parentId
      name := name
      startNs := startNs
      endNs := endNs
      metadata := (Dict.ofList [("timing_source", .str "boundary_partition"),
        ("module", .str timelineModule)]).update metadata.entries }

/-- An end in arithmetic; a missing one is `None`. -/
def integer (value : Option ℤ) : Except PyError ℤ :=
  match value with
  | some n => .ok n
  | none => .error (.typeError "unsupported operand type: 'NoneType'")

def clamp (value lo hi : ℤ) : ℤ := max lo (min value hi)

def stageNames : List String := ["queue", "waiting_to_first_schedule", "prefill", "decode"]

/-- The stage observations by name. A later one replaces an earlier one. -/
def engineStages (observations : List Node) : Dict String Node :=
  observations.foldl
    (fun engine node => if node.name ∈ stageNames then engine.set node.name node else engine)
    Dict.empty

/-- The looked-up stages a generation's segments are built from. -/
structure Stages where
  queue : Option Node
  waiting : Option Node
  prefill : Option Node
  decode : Option Node

def lookupStages (observations : List Node) : Stages :=
  let engine := engineStages observations
  { queue := engine.get? "queue"
    waiting := (engine.get? "waiting_to_first_schedule").or (engine.get? "queue")
    prefill := engine.get? "prefill"
    decode := engine.get? "decode" }

namespace Stages

def wStart (stages : Stages) (genStart : ℤ) : ℤ :=
  (stages.waiting.map Node.startNs).getD genStart

def pStart (stages : Stages) (genStart : ℤ) : ℤ :=
  (stages.prefill.map Node.startNs).getD (stages.wStart genStart)

def dStart (stages : Stages) (genStart : ℤ) : ℤ :=
  (stages.decode.map Node.startNs).getD (stages.pStart genStart)

/-- The only observed end that is read: the decode's, else the prefill's. -/
def dEnd (stages : Stages) (genStart : ℤ) : Option ℤ :=
  match stages.decode, stages.prefill with
  | some decode, _ => decode.endNs
  | none, some prefill => prefill.endNs
  | none, none => some (stages.dStart genStart)

end Stages

/-- The five boundaries of a generation. -/
def boundaries (stages : Stages) (genStart genEnd : ℤ) :
    Except PyError (List (String × ℤ × ℤ)) := do
  let wStart := clamp (stages.wStart genStart) genStart genEnd
  let pStart := clamp (stages.pStart genStart) genStart genEnd
  let dStart := clamp (stages.dStart genStart) genStart genEnd
  let dEnd ← integer (stages.dEnd genStart)
  let dEnd := clamp dEnd genStart genEnd
  .ok [
    (modulePrefixed "engine_handoff", genStart, wStart),
    (modulePrefixed "waiting_to_first_schedule", wStart, pStart),
    (modulePrefixed "prefill", pStart, dStart),
    (modulePrefixed "decode", dStart, dEnd),
    (modulePrefixed "engine_finalize", dEnd, genEnd)]

/-- A stage's metadata without its own timing source. -/
def ownMetadata (stage : Node) : Metadata := stage.metadata.erase "timing_source"

/-- The waiting stage also carries the total of the queue stage. -/
def waitingMetadata (queue : Option Node) (waiting : Node) : Metadata :=
  match queue.bind (fun queue => queue.metadata.get? "total_seconds") with
  | some total => (ownMetadata waiting).set "queue_total_seconds" total
  | none => ownMetadata waiting

/-- `if name == ... and stage: extra = ...`. -/
def stageExtra (label : String) (stage : Option Node) (metadata : Node → Metadata)
    (name : String) (extra : Metadata) : Metadata :=
  match stage with
  | some stage => if name = modulePrefixed label then metadata stage else extra
  | none => extra

/-- The metadata a stage hands to its segment. -/
def segmentExtra (stages : Stages) (name : String) : Metadata :=
  let extra := stageExtra "waiting_to_first_schedule" stages.waiting
    (waitingMetadata stages.queue) name Dict.empty
  let extra := stageExtra "prefill" stages.prefill ownMetadata name extra
  stageExtra "decode" stages.decode ownMetadata name extra

/-- The loop over the boundaries. `seen` is the last boundary passed, and
`drawn` counts the identifiers taken so far; empty segments take none. -/
def generationSegments (uuid : ℕ → String) (generationId : String) (genEnd : ℤ)
    (extra : String → Metadata) :
    List (String × ℤ × ℤ) → ℤ → ℕ → Except PyError (List Segment)
  | [], _, _ => .ok []
  | (name, segStart, segEnd) :: rest, seen, drawn =>
    -- Never allow a segment to start before the previous boundary.
    let segStart := max segStart seen
    let segEnd := max segStart (min segEnd genEnd)
    if segEnd ≤ segStart then
      generationSegments uuid generationId genEnd extra rest segEnd drawn
    else do
      let seg ← segment (uuid drawn) generationId name segStart segEnd (extra name)
      let segs ← generationSegments uuid generationId genEnd extra rest segEnd (drawn + 1)
      .ok (seg :: segs)

/-- A clipped API interval, under the name it was recorded with. -/
structure Detail where
  rawName : String
  container : Segment
  node : Node
  startNs : ℤ
  endNs : ℤ

/-- Clip an API interval into the container of its midpoint. -/
def detailOf (containers : List Segment) (node : Node) : Except PyError (Option Detail) := do
  let endNs ← integer node.endNs
  let midpoint := (node.startNs + endNs) / 2
  match containers.find? (fun c => decide (c.startNs ≤ midpoint ∧ midpoint < c.endNs)) with
  | none => .ok none
  | some container =>
    let startNs := max node.startNs container.startNs
    let endNs := min endNs container.endNs
    if endNs ≤ startNs then .ok none
    else .ok (some {
      rawName := node.name
      container := container
      startNs := startNs
      endNs := endNs
      node := { node with
        name := modulePrefixed node.name
        parentId := some container.id
        startNs := startNs
        endNs := some endNs } })

def detailsOf (containers : List Segment) : List Node → Except PyError (List Detail)
  | [] => .ok []
  | node :: rest => do
    let detail ← detailOf containers node
    let details ← detailsOf containers rest
    .ok (detail.toList ++ details)

/-- Which detail each recorded name refers to, by position. A later detail of
the same name replaces an earlier one. -/
def assigned (details : List Detail) : Dict String ℕ :=
  details.zipIdx.foldl (fun names d => names.set d.1.rawName d.2) Dict.empty

def Detail.setParent (d : Detail) (parentId : String) : Detail :=
  { d with node := { d.node with parentId := some parentId } }

/-- The calls made inside `submit_engine`. -/
def nestedCalls : List String := ["input_process", "output_processor_add"]

/-- One visit: a nested call inside the submission moves under it. -/
def reparentOne (names : Dict String ℕ) (details : List Detail) (node : Node) : List Detail :=
  if node.name ∈ nestedCalls then
    match names.get? node.name, names.get? "submit_engine" with
    | some i, some j => match details[i]?, details[j]? with
      | some detail, some submit =>
        if submit.startNs ≤ detail.startNs ∧ detail.endNs ≤ submit.endNs then
          details.set i (detail.setParent submit.node.id)
        else details
      | _, _ => details
    | _, _ => details
  else details

def reparent (intervals : List Node) (details : List Detail) : List Detail :=
  intervals.foldl (reparentOne (assigned details)) details

/-- The sort key: the start, and on equal starts the longer node first. -/
def precedes (a b : ℤ × ℤ) : Prop := a.1 < b.1 ∨ a.1 = b.1 ∧ b.2 ≤ a.2

instance (a b : ℤ × ℤ) : Decidable (precedes a b) := inferInstanceAs (Decidable (_ ∨ _))

/-- The keys of `sorted`, all computed before anything moves. -/
def withKeys : List Node → Except PyError (List ((ℤ × ℤ) × Node))
  | [] => .ok []
  | node :: rest => do
    let endNs ← integer node.endNs
    let keyed ← withKeys rest
    .ok (((node.startNs, endNs - node.startNs), node) :: keyed)

def sortNodes (nodes : List Node) : Except PyError (List Node) := do
  let keyed ← withKeys nodes
  .ok ((keyed.insertionSort (fun a b => precedes a.1 b.1)).map Prod.snd)

def genStart (generation : Option Node) (endNs : ℤ) : ℤ :=
  (generation.map Node.startNs).getD endNs

/-- `generation.get("end_ns") or end`: an end of zero counts as missing. -/
def genEnd (generation : Option Node) (endNs : ℤ) : ℤ :=
  match generation.bind Node.endNs with
  | some n => if n = 0 then endNs else n
  | none => endNs

/-- A copy of the generation, moved under the root. -/
def underRoot (root g : Node) : Node := { g with parentId := some root.id }

/-- The moved generation and its segments. -/
def generationPart (uuid : ℕ → String) (stages : Stages) (root : Node)
    (generation : Option Node) (genStart genEnd : ℤ) : Except PyError (List Node × List Segment) :=
  match generation with
  | none => .ok ([], [])
  | some g => do
    let bounds ← boundaries stages genStart genEnd
    let segments ← generationSegments uuid g.id genEnd (segmentExtra stages) bounds genStart 2
    .ok ([underRoot root g], segments)

def timelineNodes (uuid : ℕ → String) (event : Event) (root : Node)
    (generation : Option Node) : Except PyError (List Node) := do
  let startNs := root.startNs
  let endNs ← integer root.endNs
  let genStart := genStart generation endNs
  let genEnd := genEnd generation endNs
  let stages := lookupStages event.observations
  let api ← segment (uuid 0) root.id (modulePrefixed "api_prepare") startNs genStart
    (Dict.ofList [("note", .str "routing + render + sampling + submit; details nested")])
  let transfer ← segment (uuid 1) root.id (modulePrefixed "response_transfer") genEnd endNs
    (Dict.ofList [("note", .str "detokenize + SSE flush + response completion")])
  let top := if transfer.endNs > transfer.startNs then [api, transfer] else [api]
  let (generations, segments) ← generationPart uuid stages root generation genStart genEnd
  let details ← detailsOf ([api, transfer] ++ segments) event.apiIntervals
  let details := reparent event.apiIntervals details
  let sorted ← sortNodes (top.map Segment.toNode ++ generations ++ segments.map Segment.toNode ++
    details.map Detail.node)
  .ok (root :: sorted)

/-! ## What the sink does with the nodes -/

/-- The root node of an event. -/
def rootNode (event : Event) (httpTotal : ℚ) : Node where
  id := event.rootSpanId
  parentId := none
  name := "serve-model-request"
  type := .span
  startNs := event.startedNs
  endNs := some (event.startedNs + nanos httpTotal)
  metadata := Dict.ofList [("route", .str event.route)]

/-- The generation the sink exports: the first one observed. -/
def firstGeneration (event : Event) : Option Node :=
  event.observations.find? (fun node => node.type = .generation)

/-- `node.get("end_ns") or end`. -/
def effectiveEnd (rootEnd : ℤ) (node : Node) : ℤ :=
  match node.endNs with
  | some n => if n = 0 then rootEnd else n
  | none => rootEnd

/-- Nodes of positive duration; the others are counted and dropped. -/
def validNodes (rootEnd : ℤ) (nodes : List Node) : List Node :=
  nodes.filter (fun node => decide (node.startNs < effectiveEnd rootEnd node))

/-- The lookups `contexts[node["parent_id"]]`, with the identifiers opened so
far. A parent that is not open yet raises `KeyError`, and the trace is lost. -/
def openSpans (contexts : List (Option String)) : List Node → Except PyError Unit
  | [] => .ok ()
  | node :: rest =>
    if node.parentId ∈ contexts then openSpans (some node.id :: contexts) rest
    else .error (.keyError (node.parentId.getD "None"))

end VllmObserver.Exporter
