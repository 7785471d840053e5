import VllmObserver.Exporter.Sink
import Mathlib.Data.List.Induction

/-! # The audit of an exported trace

`auditObservations` follows `audit_observations` of `scripts/verify_langfuse.py`:
the observations read back from Langfuse are checked by name, shape, time and
count, and the first assertion that fails ends the audit. -/
namespace VllmObserver.Scripts
open VllmObserver.Lib VllmObserver.Core VllmObserver.Exporter

/-- An observation as it is read back. Its times are the microseconds that their
texts stand for. -/
structure Row where
  id : String
  traceId : String
  parentObservationId : Option String
  name : String
  type : String
  startTime : ℤ
  endTime : ℤ
  model : Option String
  usageDetails : Dict String ℤ
  metadata : Metadata

/-- The assertion that failed, with what its message shows. -/
inductive Finding where
  | names
  | nonPartition (names : List String)
  | root
  | generationType
  | generationParent
  | model
  | usage
  | demoUsage
  | traceId (name : String)
  | detailsTraceId (name : String)
  | inverted (name : String)
  | outsideParent (name : String)
  | segmentType (name : String)
  | segmentParent (name : String)
  | childrenSum (name : String) (total parent : ℚ)
  | decodeCount
  | decodeMean
deriving DecidableEq

inductive AuditError where
  | assertion (finding : Finding)
  | raised (e : PyError)
deriving DecidableEq

abbrev Audit (α : Type) := Except AuditError α

/-- `assert holds, finding`. -/
def require (holds : Prop) [Decidable holds] (finding : Finding) : Audit Unit :=
  if holds then .ok () else .error (.assertion finding)

def raising {α : Type} (value : Except PyError α) : Audit α := value.mapError .raised

/-- `d[key]`. -/
def item {α : Type} (d : Dict String α) (key : String) : Audit α :=
  match d.get? key with
  | some value => .ok value
  | none => .error (.raised (.keyError key))

def expectedNames : List String := [
  "serve-model-request",
  "api-server.api_prepare",
  "generate-response",
  "engine-core.engine_handoff",
  "engine-core.waiting_to_first_schedule",
  "engine-core.prefill",
  "engine-core.decode",
  "engine-core.engine_finalize",
  "api-server.response_transfer"]

def optionalNames : List String := [
  "api-server.render_input",
  "api-server.sampling_params",
  "api-server.input_process",
  "api-server.submit_engine",
  "api-server.output_processor_add"]

/-- Diagnostics that overlap the partition. -/
def forbiddenNames : List String :=
  ["http_first_body", "execute_model", "schedule_total", "queue"]

/-- The engine segments whose place is checked. -/
def engineNames : List String := [
  "engine-core.engine_handoff",
  "engine-core.waiting_to_first_schedule",
  "engine-core.prefill",
  "engine-core.decode"]

/-- The levels whose children have to add up. -/
def partitionNames : List String := ["serve-model-request", "generate-response"]

/-- `{row["name"]: row for row in rows}`. -/
def byName (rows : List Row) : Dict String Row := Dict.ofList (rows.map fun row => (row.name, row))

def byId (rows : List Row) : Dict String Row := Dict.ofList (rows.map fun row => (row.id, row))

def auditNames (rows : List Row) : Audit Unit := do
  let names := rows.map Row.name
  require ((∀ name ∈ expectedNames, name ∈ names) ∧
    ∀ name ∈ names, name ∈ expectedNames ++ optionalNames) .names
  require (∀ name ∈ names, name ∉ forbiddenNames)
    (.nonPartition (names.filter fun name => decide (name ∈ forbiddenNames)))

/-- The shape of the root and of the generation, and the tokens in and out. -/
def auditGeneration (root generation : Row) (model : String) : Audit ℤ := do
  require (root.type = "SPAN" ∧ root.parentObservationId.getD "" = "") .root
  require (generation.type = "GENERATION") .generationType
  require (generation.parentObservationId = some root.id) .generationParent
  require (generation.model = some model) .model
  let input ← item generation.usageDetails "input"
  require (0 < input) .usage
  let output ← item generation.usageDetails "output"
  require (0 < output) .usage
  if model = "demo-model" then
    require (input = 8 ∧ output = 4) .demoUsage
  .ok output

def auditRow (rows : Dict String Row) (identifier : String) (row : Row) : Audit Unit := do
  require (row.traceId = identifier) (.traceId row.name)
  match ← item row.metadata "traceId" with
  | .str traceId => require (traceId = identifier) (.detailsTraceId row.name)
  | _ => .error (.assertion (.detailsTraceId row.name))
  require (row.startTime ≤ row.endTime) (.inverted row.name)
  match row.parentObservationId.bind rows.get? with
  | none => .ok ()
  | some parent =>
    require (parent.startTime ≤ row.startTime) (.outsideParent row.name)
    require (row.endTime ≤ parent.endTime) (.outsideParent row.name)

def auditSegment (nodes : Dict String Row) (generation : Row) (name : String) : Audit Unit := do
  let node ← item nodes name
  require (node.type = "SPAN") (.segmentType name)
  require (node.parentObservationId = some generation.id) (.segmentParent name)

/-- `children.setdefault(parent, []).append(row)`. -/
def addChild (children : Dict String (List Row)) (parent : String) (row : Row) :
    Dict String (List Row) :=
  children.set parent ((children.get? parent).getD [] ++ [row])

/-- The rows under each parent that is there, parents in the order they come up. -/
def childrenByParent (rows : Dict String Row) (all : List Row) : Dict String (List Row) :=
  all.foldl (fun children row => match row.parentObservationId with
    | some parent => if parent ∈ rows.keys then addChild children parent row else children
    | none => children) Dict.empty

/-- `(end - start).total_seconds()`. -/
def Row.seconds (row : Row) : ℚ := ((row.endTime - row.startTime : ℤ) : ℚ) / 1000000

def auditChildren (rows : Dict String Row) (children : String × List Row) : Audit Unit := do
  let parent ← item rows children.1
  -- the other containers hold optional details, with gaps
  if parent.name ∈ partitionNames then
    let total := (children.2.map Row.seconds).sum
    require (|total - parent.seconds| < 1 / 1000000) (.childrenSum parent.name total parent.seconds)

/-- `abs(x - y) < 1e-6`. -/
def nearly (x y : Flt) : Bool :=
  (Flt.fin (-(1 / 1000000))).lt (x.sub y) && (x.sub y).lt (.fin (1 / 1000000))

/-- `float(d[key])` or `int(d[key])`. -/
def reading {α : Type} (read : Json → Except PyError α) (d : Metadata) (key : String) : Audit α :=
  item d key >>= fun value => raising (read value)

def decodeMean (reader : Reader) (decode : Metadata) (count : ℤ) : Audit Flt :=
  if count = 0 then .ok (.fin 0)
  else do
    let total ← reading reader.floatOf decode "total_ms"
    .ok (Number.div (.float total) (.int count))

def auditDecode (reader : Reader) (decode : Metadata) (output : ℤ) : Audit Unit := do
  let count := max 0 (output - 1)
  let shown ← reading (integerOf reader) decode "count"
  require (shown = count) .decodeCount
  let mean ← decodeMean reader decode count
  let shownMean ← reading reader.floatOf decode "mean_ms"
  require (nearly mean shownMean = true) .decodeMean

def auditObservations (reader : Reader) (rows : List Row) (identifier model : String) :
    Audit (Dict String Row) := do
  auditNames rows
  let nodes := byName rows
  let root ← item nodes "serve-model-request"
  let generation ← item nodes "generate-response"
  let output ← auditGeneration root generation model
  let known := byId rows
  rows.forM (auditRow known identifier)
  engineNames.forM (auditSegment nodes generation)
  (childrenByParent known rows).entries.forM (auditChildren known)
  let decode ← item nodes "engine-core.decode"
  auditDecode reader decode.metadata output
  .ok nodes

/-! ## What passes -/

section Passing
variable {α β : Type} {finding : Finding} {holds : Prop} [Decidable holds]

theorem require_ok (h : holds) : require holds finding = .ok () := if_pos h

theorem require_bind (h : holds) (next : Unit → Audit α) :
    (require holds finding >>= next) = next () := by
  rw [require_ok h]
  rfl

theorem item_bind {d : Dict String β} {key : String} {value : β} (h : d.get? key = some value)
    (next : β → Audit α) : (item d key >>= next) = next value := by
  rw [item, h]
  rfl

theorem forM_ok {xs : List β} {f : β → Audit Unit} (h : ∀ x ∈ xs, f x = .ok ()) :
    xs.forM f = .ok () := by
  induction xs with
  | nil => rfl
  | cons x rest ih =>
    show (f x >>= fun _ => rest.forM f) = .ok ()
    rw [h x List.mem_cons_self]
    exact ih fun y hy => h y (List.mem_cons_of_mem _ hy)

end Passing

/-- What the decode segment shows: the tokens behind the first one, their time and
their mean. -/
def ShowsDecode (metadata : Metadata) (count : ℤ) : Prop := ∃ total mean : ℚ,
  metadata.get? "count" = some (.int count) ∧
  metadata.get? "total_ms" = some (.float (.fin total)) ∧
  metadata.get? "mean_ms" = some (.float (.fin mean)) ∧
  mean = if count = 0 then 0 else total / count

/-- The rows of a complete trace. Each name of the waterfall is there, the rows lie
inside their parents, and the two levels of the partition add up. -/
structure Waterfall (identifier model : String) (rows : List Row) (root generation : Row)
    (input output : ℤ) : Prop where
  listed : ∀ name ∈ expectedNames, ∃ row ∈ rows, row.name = name
  known : ∀ row ∈ rows, row.name ∈ expectedNames ++ optionalNames
  isRoot : ∀ row ∈ rows, row.name = "serve-model-request" → row = root
  rootShape : root.type = "SPAN" ∧ root.parentObservationId = none
  isGeneration : ∀ row ∈ rows, row.name = "generate-response" → row = generation
  generationShape : generation.type = "GENERATION" ∧
    generation.parentObservationId = some root.id ∧ generation.model = some model
  usage : generation.usageDetails.get? "input" = some input ∧
    generation.usageDetails.get? "output" = some output
  traces : ∀ row ∈ rows, row.traceId = identifier ∧
    row.metadata.get? "traceId" = some (.str identifier)
  ordered : ∀ row ∈ rows, row.startTime ≤ row.endTime
  inside : ∀ row ∈ rows, ∀ parent ∈ rows, row.parentObservationId = some parent.id →
    parent.startTime ≤ row.startTime ∧ row.endTime ≤ parent.endTime
  segments : ∀ row ∈ rows, row.name ∈ engineNames →
    row.type = "SPAN" ∧ row.parentObservationId = some generation.id
  sums : ∀ parent ∈ rows, parent.name ∈ partitionNames →
    ((rows.filter fun row => decide (row.parentObservationId = some parent.id)).map
      Row.seconds).sum = parent.seconds
  decode : ∀ row ∈ rows, row.name = "engine-core.decode" →
    ShowsDecode row.metadata (max 0 (output - 1))

/-! ### The dictionaries -/

theorem byName_get? {rows : List Row} {name : String} {row : Row}
    (h : (byName rows).get? name = some row) : row ∈ rows ∧ row.name = name := by
  rcases Dict.mem_of_get?_update h with hmem | hempty
  · obtain ⟨r, hr, he⟩ := List.mem_map.mp hmem
    obtain ⟨rfl, rfl⟩ := Prod.mk.inj he
    exact ⟨hr, rfl⟩
  · cases hempty

theorem byId_get? {rows : List Row} {id : String} {row : Row}
    (h : (byId rows).get? id = some row) : row ∈ rows ∧ row.id = id := by
  rcases Dict.mem_of_get?_update h with hmem | hempty
  · obtain ⟨r, hr, he⟩ := List.mem_map.mp hmem
    obtain ⟨rfl, rfl⟩ := Prod.mk.inj he
    exact ⟨hr, rfl⟩
  · cases hempty

/-- A name that some row bears. -/
theorem byName_some {rows : List Row} {name : String} (h : ∃ row ∈ rows, row.name = name) :
    ∃ row, (byName rows).get? name = some row ∧ row ∈ rows ∧ row.name = name := by
  obtain ⟨r, hr, rfl⟩ := h
  have hkey : r.name ∈ (byName rows).keys :=
    Dict.mem_keys_update.mpr (.inl (List.mem_map.mpr
      ⟨(r.name, r), List.mem_map.mpr ⟨r, hr, rfl⟩, rfl⟩))
  obtain ⟨row, hrow⟩ := Dict.mem_keys_iff.mp hkey
  exact ⟨row, hrow, byName_get? hrow⟩

theorem childrenByParent_concat (known : Dict String Row) (rows : List Row) (row : Row) :
    childrenByParent known (rows ++ [row]) = match row.parentObservationId with
      | some parent =>
        if parent ∈ known.keys then addChild (childrenByParent known rows) parent row
        else childrenByParent known rows
      | none => childrenByParent known rows := by
  rw [childrenByParent, List.foldl_append]
  rfl

/-- The rows under a parent, in their order. -/
theorem childrenByParent_get? (known : Dict String Row) (rows : List Row) (id : String)
    (hid : id ∈ known.keys) : ((childrenByParent known rows).get? id).getD [] =
      rows.filter fun row => decide (row.parentObservationId = some id) := by
  induction rows using List.reverseRecOn with
  | nil => rfl
  | append_singleton rows row ih =>
    rw [childrenByParent_concat, List.filter_append]
    cases hparent : row.parentObservationId with
    | none => simpa [hparent] using ih
    | some parent =>
      by_cases he : parent = id
      · subst he
        simp [hid, addChild, Dict.get?_set, ih, hparent]
      · by_cases hk : parent ∈ known.keys
        · simp [hk, addChild, Dict.get?_set, Ne.symm he, ih, hparent, he]
        · simp [hk, ih, hparent, he]

/-- Only rows that are there have children. -/
theorem childrenByParent_known {known : Dict String Row} {rows : List Row} {id : String}
    (h : id ∈ (childrenByParent known rows).keys) : id ∈ known.keys := by
  induction rows using List.reverseRecOn with
  | nil => cases h
  | append_singleton rows row ih =>
    rw [childrenByParent_concat] at h
    split at h
    · split at h
      · rename_i hknown
        rcases Dict.mem_keys_set.mp h with rfl | h
        · exact hknown
        · exact ih h
      · exact ih h
    · exact ih h

/-! ### The audit -/

section Waterfall
variable {α : Type} {identifier model : String} {rows : List Row} {root generation : Row}
  {input output : ℤ}

theorem Waterfall.names (h : Waterfall identifier model rows root generation input output) :
    auditNames rows = .ok () := by
  have hforbidden : ∀ name ∈ expectedNames ++ optionalNames, name ∉ forbiddenNames := by decide
  have hknown : ∀ name ∈ rows.map Row.name, name ∈ expectedNames ++ optionalNames := by
    intro name hname
    obtain ⟨row, hrow, rfl⟩ := List.mem_map.mp hname
    exact h.known row hrow
  rw [auditNames]
  refine (require_bind ⟨fun name hname => ?_, hknown⟩ _).trans (require_ok fun name hname => ?_)
  · exact hforbidden name (hknown name hname)
  · obtain ⟨row, hrow, rfl⟩ := h.listed name hname
    exact List.mem_map_of_mem hrow

theorem Waterfall.tokens (h : Waterfall identifier model rows root generation input output)
    (hin : 0 < input) (hout : 0 < output)
    (hdemo : model = "demo-model" → input = 8 ∧ output = 4) :
    auditGeneration root generation model = .ok output := by
  obtain ⟨htype, hparent, hmodel⟩ := h.generationShape
  rw [auditGeneration]
  refine (require_bind ⟨h.rootShape.1, by rw [h.rootShape.2]; rfl⟩ _).trans ?_
  refine (require_bind htype _).trans ((require_bind hparent _).trans ?_)
  refine (require_bind hmodel _).trans ((item_bind h.usage.1 _).trans ?_)
  refine (require_bind hin _).trans ((item_bind h.usage.2 _).trans ?_)
  refine (require_bind hout _).trans ?_
  split
  · rename_i he
    exact require_bind (hdemo he) _
  · rfl

theorem Waterfall.row (h : Waterfall identifier model rows root generation input output)
    {row : Row} (hrow : row ∈ rows) : auditRow (byId rows) identifier row = .ok () := by
  obtain ⟨htrace, hmeta⟩ := h.traces row hrow
  rw [auditRow]
  refine (require_bind htrace _).trans ((item_bind hmeta _).trans ?_)
  refine (require_bind rfl _).trans ((require_bind (h.ordered row hrow) _).trans ?_)
  split
  · rfl
  · rename_i parent hparent
    obtain ⟨id, hid, hget⟩ := Option.bind_eq_some_iff.mp hparent
    obtain ⟨hmem, rfl⟩ := byId_get? hget
    obtain ⟨hstart, hend⟩ := h.inside row hrow parent hmem hid
    exact (require_bind hstart _).trans (require_ok hend)

theorem Waterfall.segment (h : Waterfall identifier model rows root generation input output)
    {name : String} (hname : name ∈ engineNames) :
    auditSegment (byName rows) generation name = .ok () := by
  have hexpected : ∀ name ∈ engineNames, name ∈ expectedNames := by decide
  obtain ⟨row, hget, hrow, rfl⟩ := byName_some (h.listed name (hexpected name hname))
  obtain ⟨htype, hparent⟩ := h.segments row hrow hname
  rw [auditSegment]
  exact (item_bind hget _).trans ((require_bind htype _).trans (require_ok hparent))

theorem Waterfall.children (h : Waterfall identifier model rows root generation input output)
    {entry : String × List Row} (hentry : entry ∈ (childrenByParent (byId rows) rows).entries) :
    auditChildren (byId rows) entry = .ok () := by
  obtain ⟨id, kids⟩ := entry
  have hget : (childrenByParent (byId rows) rows).get? id = some kids :=
    Dict.mem_entries_iff.mp hentry
  have hkeys : id ∈ (byId rows).keys := childrenByParent_known (Dict.mem_keys_iff.mpr ⟨_, hget⟩)
  obtain ⟨parent, hparent⟩ := Dict.mem_keys_iff.mp hkeys
  obtain ⟨hmem, rfl⟩ := byId_get? hparent
  have hkids := childrenByParent_get? (byId rows) rows parent.id hkeys
  rw [hget, Option.getD_some] at hkids
  rw [auditChildren]
  refine (item_bind hparent _).trans ?_
  split
  · rename_i hname
    have hsum := h.sums parent hmem hname
    rw [← hkids] at hsum
    refine require_ok ?_
    show |(kids.map Row.seconds).sum - parent.seconds| < 1 / 1000000
    rw [hsum, sub_self, abs_zero]
    norm_num
  · rfl

theorem nearly_self (q : ℚ) : nearly (.fin q) (.fin q) = true := by
  simp [nearly, Flt.sub, Flt.neg, Flt.add]

theorem reading_int {reader : Reader} {d : Metadata} {key : String} {n : ℤ}
    (h : d.get? key = some (.int n)) (next : ℤ → Audit α) :
    (reading (integerOf reader) d key >>= next) = next n := by
  rw [reading, item, h]
  rfl

theorem reading_float (reader : Reader) {d : Metadata} {key : String} {x : Flt}
    (h : d.get? key = some (.float x)) (next : Flt → Audit α) :
    (reading reader.floatOf d key >>= next) = next x := by
  rw [reading, item, h]
  rfl

theorem decodeMean_ok (reader : Reader) {metadata : Metadata} {count : ℤ} {total : ℚ}
    (h : metadata.get? "total_ms" = some (.float (.fin total))) :
    decodeMean reader metadata count = .ok (.fin (if count = 0 then 0 else total / count)) := by
  unfold decodeMean
  split
  · rfl
  · exact reading_float reader h _

theorem auditDecode_ok (reader : Reader) {metadata : Metadata}
    (h : ShowsDecode metadata (max 0 (output - 1))) :
    auditDecode reader metadata output = .ok () := by
  obtain ⟨total, mean, hcount, htotal, hmean, he⟩ := h
  rw [auditDecode]
  refine (reading_int hcount _).trans ((require_bind rfl _).trans ?_)
  rw [decodeMean_ok reader htotal, ← he]
  exact (reading_float reader hmean _).trans (require_ok (nearly_self mean))

/-- **A complete trace passes.** -/
theorem audit_ok (reader : Reader)
    (h : Waterfall identifier model rows root generation input output)
    (hin : 0 < input) (hout : 0 < output)
    (hdemo : model = "demo-model" → input = 8 ∧ output = 4) :
    auditObservations reader rows identifier model = .ok (byName rows) := by
  obtain ⟨r, hr, hrmem, hrname⟩ := byName_some (h.listed "serve-model-request" (by decide))
  obtain ⟨g, hg, hgmem, hgname⟩ := byName_some (h.listed "generate-response" (by decide))
  obtain ⟨d, hd, hdmem, hdname⟩ := byName_some (h.listed "engine-core.decode" (by decide))
  obtain rfl := h.isRoot r hrmem hrname
  obtain rfl := h.isGeneration g hgmem hgname
  rw [auditObservations, h.names]
  refine (item_bind hr _).trans ((item_bind hg _).trans ?_)
  rw [h.tokens hin hout hdemo]
  have hrows : rows.forM (auditRow (byId rows) identifier) = .ok () := forM_ok fun _ => h.row
  have hsegments : engineNames.forM (auditSegment (byName rows) g) = .ok () :=
    forM_ok fun _ => h.segment
  have hchildren : (childrenByParent (byId rows) rows).entries.forM (auditChildren (byId rows)) =
      .ok () := forM_ok fun _ => h.children
  simp only [hrows, hsegments, hchildren]
  refine (item_bind hd _).trans ?_
  rw [auditDecode_ok reader (h.decode d hdmem hdname)]
  rfl

end Waterfall

/-- What passes bears every name. -/
theorem listed_of_audit {reader : Reader} {rows : List Row} {identifier model : String}
    {nodes : Dict String Row} (h : auditObservations reader rows identifier model = .ok nodes) :
    ∀ name ∈ expectedNames, ∃ row ∈ rows, row.name = name := by
  by_cases hlisted : (∀ name ∈ expectedNames, name ∈ rows.map Row.name) ∧
      ∀ name ∈ rows.map Row.name, name ∈ expectedNames ++ optionalNames
  · exact fun name hname => List.mem_map.mp (hlisted.1 name hname)
  · rw [auditObservations, auditNames, require, if_neg hlisted] at h
    cases h

end VllmObserver.Scripts
