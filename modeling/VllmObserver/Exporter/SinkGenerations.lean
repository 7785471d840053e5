import VllmObserver.Exporter.Sink
import VllmObserver.Exporter.TimelineResult

/-! # Which generations the sink exports

The timeline is built around the first generation of the event, and no other
node of it is a generation. With its own attributes it leaves exactly once; a
second generation of the same request does not leave at all. -/
namespace VllmObserver.Exporter
open VllmObserver.Lib VllmObserver.Core

/-! ## The keys of the attributes -/

theorem prefixed_inj {a b : String} (h : metadataPrefix ++ a = metadataPrefix ++ b) : a = b := by
  simpa using h

/-- The keys set on generations only. -/
def generationKeys : List String := [
  "langfuse.observation.model.name",
  "gen_ai.request.model",
  "gen_ai.usage.prompt_tokens",
  "gen_ai.usage.completion_tokens",
  "langfuse.observation.usage_details",
  "langfuse.observation.completion_start_time",
  "langfuse.observation.input",
  "langfuse.observation.output",
  "langfuse.observation.model.parameters"]

/-- An attribute that is set only when there is a value. -/
theorem optional_keys {α : Type} (key : String) (f : α → Attribute) (o : Option α) :
    ((o.map fun a => (key, f a)).toList.map Prod.fst).Sublist [key] := by
  cases o with
  | none => exact List.nil_sublist _
  | some a => exact List.Sublist.refl _

theorem generationAttributes_keys (event : Event) (node : Node) :
    ((generationAttributes event node).map Prod.fst).Sublist generationKeys := by
  have hparameters : ((if (parameters event.requestPayload).isEmpty then []
      else [("langfuse.observation.model.parameters",
        Attribute.dumps (.obj (parameters event.requestPayload)))]).map Prod.fst).Sublist
      ["langfuse.observation.model.parameters"] := by
    split
    · exact List.nil_sublist _
    · exact List.Sublist.refl _
  simp only [generationAttributes, List.map_append]
  exact (((((((List.Sublist.refl _).append (optional_keys _ _ _)).append
    (optional_keys _ _ _)).append (List.Sublist.refl _)).append (optional_keys _ _ _)).append
    (List.Sublist.refl _)).append hparameters)

theorem mem_metadataAttributes {entries : List (String × Json)} {key : String}
    (h : key ∈ (metadataAttributes entries).map Prod.fst) :
    ∃ name ∈ entries.map Prod.fst, key = metadataPrefix ++ name := by
  rw [metadataAttributes, List.map_map] at h
  obtain ⟨e, he, rfl⟩ := List.mem_map.mp h
  exact ⟨e.1, List.mem_map_of_mem he, rfl⟩

/-- The four attributes before the metadata. -/
def commonKeys : List String := ["langfuse.observation.type", "langfuse.trace.name",
  "langfuse.environment", "observer.status"]

/-- The metadata does not touch a key outside its namespace. -/
theorem commonAttributes_get? {config : SinkConfig} {event : Event} {node : Node} {key : String}
    (h : ∀ name, key ≠ metadataPrefix ++ name) :
    (Dict.ofList (commonAttributes config event node)).get? key =
      (Dict.ofList ((commonAttributes config event node).take 4)).get? key := by
  have hother : ∀ entries, key ∉ (metadataAttributes entries).map Prod.fst := by
    intro entries hmem
    obtain ⟨name, _, rfl⟩ := mem_metadataAttributes hmem
    exact h name rfl
  have htrace : key ∉ [(metadataPrefix ++ "traceId", Attribute.value (.str event.traceId))].map
      Prod.fst := fun hmem => h _ (List.mem_singleton.mp hmem)
  rw [commonAttributes, Dict.ofList_append, Dict.get?_update_of_not_mem htrace,
    Dict.ofList_append, Dict.get?_update_of_not_mem (hother _), Dict.ofList_append,
    Dict.get?_update_of_not_mem (hother _)]
  rfl

theorem generationKey_not_prefixed {key : String} (h : key ∈ generationKeys) (name : String) :
    key ≠ metadataPrefix ++ name := by
  intro he
  have hlist := congrArg String.toList he
  simp only [generationKeys, List.mem_cons, List.not_mem_nil, or_false] at h
  rcases h with rfl | rfl | rfl | rfl | rfl | rfl | rfl | rfl | rfl <;>
    simp [metadataPrefix] at hlist

theorem rootAttributes_type {config : SinkConfig} {event : Event} {why : String} {residual : ℤ}
    {node : Node} :
    "langfuse.observation.type" ∉ (rootAttributes config event why residual node).map Prod.fst := by
  have hstage : ∀ (stage : String × Aggregate.Exported) (entry : String × Json),
      "langfuse.observation.type" ≠
        "observer." ++ stage.1 ++ "." ++ (toMilliseconds entry.1 entry.2).1 := by
    intro stage entry h
    simpa using congrArg String.toList h
  have htpot : "langfuse.observation.type" ∉ (tpotAttributes config event).map Prod.fst := by
    unfold tpotAttributes
    split
    · simp
    · split
      · simp
      · dsimp only
        split <;> simp
  have hresidual : "langfuse.observation.type" ∉
      (if residual = 0 then [] else [("observer.clock_calibration_error_ms",
        Attribute.value (.float ((Number.int residual).toFlt.scale (1 / 1000000))))]).map
          Prod.fst := by
    split <;> simp
  simp only [rootAttributes, List.map_append, List.mem_append, not_or]
  refine ⟨⟨⟨⟨⟨⟨⟨⟨?_, ?_⟩, ?_⟩, hresidual⟩, ?_⟩, ?_⟩, ?_⟩, ?_⟩, htpot⟩
  · exact fun h => by simpa using (optional_keys _ _ _).subset h
  · exact fun h => by simpa using (optional_keys _ _ _).subset h
  · simp
  · simp
  · intro h
    obtain ⟨_, hmem, he⟩ := List.mem_map.mp h
    obtain ⟨stage, _, hmem⟩ := List.mem_flatMap.mp hmem
    obtain ⟨entry, _, rfl⟩ := List.mem_map.mp hmem
    exact hstage stage entry he.symm
  · exact fun h => by simpa using (optional_keys _ _ _).subset h
  · simp

/-! ## What a span of the batch says -/

section Span
variable {config : SinkConfig} {event : Event} {why : String} {residual rootEnd : ℤ}
  {node : Node}

def Span.isGeneration (span : Span) : Bool :=
  match span.attributes.get? "langfuse.observation.type" with
  | some (.value (.str type)) => type == "generation"
  | _ => false

theorem commonAttributes_type : (Dict.ofList (commonAttributes config event node)).get?
    "langfuse.observation.type" = some (.value (.str (typeText node.type))) := by
  refine (commonAttributes_get? fun name h => ?_).trans rfl
  simpa [metadataPrefix] using congrArg String.toList h

theorem spanOf_isGeneration :
    (spanOf config event why residual rootEnd node).isGeneration =
      decide (node.type = .generation) := by
  have hgeneration : "langfuse.observation.type" ∉
      (if node.type = .generation then generationAttributes event node else []).map Prod.fst := by
    split
    · exact fun h => absurd ((generationAttributes_keys event node).subset h) (by decide)
    · simp
  have hroot : "langfuse.observation.type" ∉ (if node.parentId = none then
      rootAttributes config event why residual node else []).map Prod.fst := by
    split
    · exact rootAttributes_type
    · simp
  have htype : (spanOf config event why residual rootEnd node).attributes.get?
      "langfuse.observation.type" = some (.value (.str (typeText node.type))) := by
    rw [spanOf, Dict.ofList_append, Dict.get?_update_of_not_mem hroot, Dict.ofList_append,
      Dict.get?_update_of_not_mem hgeneration, commonAttributes_type]
  rw [Span.isGeneration, htype]
  cases node.type <;> rfl

/-- The exported span of a generation: its own name, start, usage and metadata,
and the model of the request. -/
structure ExportedAs (event : Event) (g : Node) (span : Span) : Prop where
  id : span.id = g.id
  name : span.name = g.name
  startNs : span.startNs = g.startNs
  parent : span.parentId = some event.rootSpanId
  usage : span.attributes.get? "langfuse.observation.usage_details" = some (.dumps (usageJson g))
  promptTokens : span.attributes.get? "gen_ai.usage.prompt_tokens" =
    (g.usage.get? "input").map fun n => .value (.int n)
  completionTokens : span.attributes.get? "gen_ai.usage.completion_tokens" =
    (g.usage.get? "output").map fun n => .value (.int n)
  model : span.attributes.get? "gen_ai.request.model" = some (.value (.str (modelName event)))
  modelName : span.attributes.get? "langfuse.observation.model.name" =
    some (.value (.str (modelName event)))
  metadata : ∀ key value, (millisecondsMetadata g.metadata.entries).get? key = some value →
    key ≠ "traceId" → span.attributes.get? (metadataPrefix ++ key) = some (.value value)
  request : ∀ value, g.metadata.get? "request_id" = some value →
    span.attributes.get? (metadataPrefix ++ "request_id") = some (.value value)

/-! ### The metadata -/

/-- Metadata other than a duration is shown under its own key. -/
theorem millisecondsMetadata_get? {key : String} (hms : ∀ base, base ++ "_ms" ≠ key)
    (hkey : ∀ value, toMilliseconds key value = (key, value)) {es : List (String × Json)}
    (hes : (es.map Prod.fst).Nodup) (d : Metadata) :
    (d.update (es.map fun e => toMilliseconds e.1 e.2)).get? key =
      (es.lookup key).or (d.get? key) := by
  induction es generalizing d with
  | nil => rfl
  | cons e rest ih =>
    obtain ⟨k, v⟩ := e
    rw [List.map_cons, List.nodup_cons] at hes
    rw [List.map_cons, Dict.update, List.foldl_cons]
    refine (ih hes.2 _).trans ?_
    rw [Dict.get?_set, List.lookup_cons]
    by_cases hk : key = k
    · have hn : rest.lookup key = none := by
        rw [List.lookup_eq_none_iff]
        intro p hp
        have hne : key ≠ p.1 := fun he => hes.1 (List.mem_map.mpr ⟨p, hp, he.symm.trans hk⟩)
        simpa using hne
      subst hk
      simp [hkey, hn]
    · have hb : (key == k) = false := by simpa using hk
      have hother : key ≠ (toMilliseconds k v).1 := by
        unfold toMilliseconds
        split
        · split
          · exact (hms _).symm
          · exact (hms _).symm
          · exact hk
        · exact hk
      rw [if_neg hother, hb]

theorem withoutSuffix_eq_some {suffix key base : String} :
    withoutSuffix suffix key = some base ↔ key = base ++ suffix := by
  unfold withoutSuffix
  constructor
  · intro h
    split at h
    · rename_i hs
      obtain ⟨front, hfront⟩ := hs
      rw [← Option.some.inj h, ← String.toList_inj, String.toList_append, String.toList_ofList,
        ← hfront]
      simp
    · cases h
  · rintro rfl
    rw [String.toList_append, if_pos (List.suffix_append _ _), List.length_append,
      Nat.add_sub_cancel, List.take_left, String.ofList_toList]

/-- What a key is shown under. -/
theorem toMilliseconds_key (key : String) (value : Json) :
    (toMilliseconds key value).1 = key ∨ ∃ base, (toMilliseconds key value).1 = base ++ "_ms" ∧
      (key = base ++ "_seconds" ∨ key = base ++ "_ns") := by
  cases value with
  | num x =>
    rw [toMilliseconds]
    cases hseconds : withoutSuffix "_seconds" key with
    | some base => exact .inr ⟨base, rfl, .inl (withoutSuffix_eq_some.mp hseconds)⟩
    | none =>
      cases hns : withoutSuffix "_ns" key with
      | some base => exact .inr ⟨base, rfl, .inr (withoutSuffix_eq_some.mp hns)⟩
      | none => exact .inl rfl
  | _ => exact .inl rfl

/-- Seconds are shown as milliseconds, where no other entry takes their key. -/
theorem millisecondsMetadata_seconds {metadata : Metadata} (base : String) {x : Number}
    (h : metadata.get? (base ++ "_seconds") = some (.num x))
    (hms : base ++ "_ms" ∉ metadata.keys) (hns : base ++ "_ns" ∉ metadata.keys) :
    (millisecondsMetadata metadata.entries).get? (base ++ "_ms") =
      some (.float (x.toFlt.scale 1000)) := by
  have hshown : toMilliseconds (base ++ "_seconds") (.num x) =
      (base ++ "_ms", .float (x.toFlt.scale 1000)) := by
    rw [toMilliseconds, withoutSuffix_eq_some.mpr rfl]
  have hkey : base ++ "_ms" ∈ (millisecondsMetadata metadata.entries).keys := by
    refine Dict.mem_keys_update.mpr (.inl ?_)
    rw [List.map_map]
    refine List.mem_map.mpr ⟨_, Dict.mem_entries_iff.mpr h, ?_⟩
    exact congrArg Prod.fst hshown
  obtain ⟨value, hvalue⟩ := Dict.mem_keys_iff.mp hkey
  rw [hvalue]
  rcases Dict.mem_of_get?_update hvalue with hmem | hempty
  · obtain ⟨⟨key, v⟩, hentry, he⟩ := List.mem_map.mp hmem
    have hin : key ∈ metadata.keys := List.mem_map_of_mem hentry
    have hkey' : (toMilliseconds key v).1 = base ++ "_ms" := congrArg Prod.fst he
    -- only the seconds of the base are shown under its milliseconds
    obtain rfl : key = base ++ "_seconds" := by
      rcases toMilliseconds_key key v with h1 | ⟨b, h1, h2⟩
      · exact absurd ((h1.symm.trans hkey') ▸ hin) hms
      · have hb : b = base := by simpa using h1.symm.trans hkey'
        subst hb
        exact h2.resolve_right fun hk => hns (hk ▸ hin)
    obtain rfl := Option.some.inj ((Dict.mem_entries_iff.mp hentry).symm.trans h)
    exact congrArg some (congrArg Prod.snd (he.symm.trans hshown))
  · cases hempty

theorem requestId_get? (metadata : Metadata) :
    (millisecondsMetadata metadata.entries).get? "request_id" = metadata.get? "request_id" := by
  refine (millisecondsMetadata_get? ?_ ?_ metadata.nodup Dict.empty).trans (Option.or_none ..)
  · intro base h
    simpa using congrArg (fun s => s.toList.reverse) h
  · intro value
    have hseconds : withoutSuffix "_seconds" "request_id" = none := by decide
    have hns : withoutSuffix "_ns" "request_id" = none := by decide
    cases value with
    | num x => simp only [toMilliseconds, hseconds, hns]
    | _ => rfl

theorem metadataAttributes_nodup {entries : List (String × Json)}
    (h : (entries.map Prod.fst).Nodup) : ((metadataAttributes entries).map Prod.fst).Nodup := by
  have hmap : (metadataAttributes entries).map Prod.fst =
      (entries.map Prod.fst).map (metadataPrefix ++ ·) := by simp [metadataAttributes]
  rw [hmap]
  exact h.map fun _ _ => prefixed_inj

theorem metadataAttributes_lookup (entries : List (String × Json)) (key : String) :
    (metadataAttributes entries).lookup (metadataPrefix ++ key) =
      (entries.lookup key).map Attribute.value := by
  induction entries with
  | nil => rfl
  | cons e rest ih =>
    obtain ⟨k, v⟩ := e
    rw [metadataAttributes, List.map_cons, List.lookup_cons, List.lookup_cons]
    by_cases hk : key = k
    · simp [hk]
    · have hb : (key == k) = false := by simpa using hk
      have hb' : (metadataPrefix ++ key == metadataPrefix ++ k) = false := by
        simpa using fun h => hk (prefixed_inj h)
      rw [hb, hb']
      exact ih

/-- The metadata of a node comes through, except under the key of the trace. -/
theorem commonAttributes_metadata {key : String} {value : Json}
    (h : (millisecondsMetadata node.metadata.entries).get? key = some value)
    (hkey : key ≠ "traceId") :
    (Dict.ofList (commonAttributes config event node)).get? (metadataPrefix ++ key) =
      some (.value value) := by
  have htrace : metadataPrefix ++ key ∉ [(metadataPrefix ++ "traceId",
      Attribute.value (.str event.traceId))].map Prod.fst :=
    fun hmem => hkey (prefixed_inj (List.mem_singleton.mp hmem))
  rw [commonAttributes, Dict.ofList_append, Dict.get?_update_of_not_mem htrace,
    Dict.ofList_append,
    Dict.get?_update (metadataAttributes_nodup (millisecondsMetadata node.metadata.entries).nodup),
    metadataAttributes_lookup]
  rw [Dict.get?] at h
  rw [h]
  rfl

/-! ### The span of a generation -/

/-- A generation under the root has the common attributes and its own. -/
theorem spanOf_attributes {g root : Node} (h : g.type = .generation) :
    (spanOf config event why residual rootEnd (underRoot root g)).attributes =
      (Dict.ofList (commonAttributes config event g)).update (generationAttributes event g) := by
  have hgen : (underRoot root g).type = .generation := h
  have hparent : (underRoot root g).parentId ≠ none := by simp [underRoot]
  rw [spanOf, if_pos hgen, if_neg hparent, List.append_nil, Dict.ofList_append]
  rfl

/-- A key of the generation's own attributes is looked up there. -/
theorem spanOf_get? {g root : Node} (h : g.type = .generation) {key : String}
    (hkey : key ∈ generationKeys) :
    (spanOf config event why residual rootEnd (underRoot root g)).attributes.get? key =
      (generationAttributes event g).lookup key := by
  have hcommon : (Dict.ofList (commonAttributes config event g)).get? key = none := by
    rw [commonAttributes_get? (generationKey_not_prefixed hkey), Dict.get?_eq_none_iff,
      Dict.ofList, Dict.mem_keys_update]
    have hfour : ∀ k ∈ generationKeys, k ∉ commonKeys := by decide
    exact fun hmem => hmem.elim (hfour key hkey) (by simp)
  have hnodup : ((generationAttributes event g).map Prod.fst).Nodup :=
    (by decide : generationKeys.Nodup).sublist (generationAttributes_keys event g)
  rw [spanOf_attributes h, Dict.get?_update hnodup, hcommon, Option.or_none]

theorem spanOf_metadata {g root : Node} (h : g.type = .generation) (key : String) :
    (spanOf config event why residual rootEnd (underRoot root g)).attributes.get?
        (metadataPrefix ++ key) =
      (Dict.ofList (commonAttributes config event g)).get? (metadataPrefix ++ key) := by
  rw [spanOf_attributes h, Dict.get?_update_of_not_mem]
  exact fun hmem => generationKey_not_prefixed
    ((generationAttributes_keys event g).subset hmem) key rfl

/-- A count that the generation does not have is not set under any key. -/
theorem promptTokens_lookup (event : Event) (node : Node) :
    (generationAttributes event node).lookup "gen_ai.usage.prompt_tokens" =
      (node.usage.get? "input").map fun n => .value (.int n) := by
  rw [generationAttributes]
  cases node.usage.get? "input" with
  | some n => rfl
  | none =>
    cases node.usage.get? "output" <;> cases node.completionStartNs.filter (· ≠ 0) <;>
      split <;> rfl

theorem completionTokens_lookup (event : Event) (node : Node) :
    (generationAttributes event node).lookup "gen_ai.usage.completion_tokens" =
      (node.usage.get? "output").map fun n => .value (.int n) := by
  rw [generationAttributes]
  cases node.usage.get? "output" with
  | some n => cases node.usage.get? "input" <;> rfl
  | none =>
    cases node.usage.get? "input" <;> cases node.completionStartNs.filter (· ≠ 0) <;>
      split <;> rfl

theorem spanOf_exportedAs {g root : Node} (h : g.type = .generation)
    (hroot : root.id = event.rootSpanId) :
    ExportedAs event g (spanOf config event why residual rootEnd (underRoot root g)) where
  id := rfl
  name := rfl
  startNs := rfl
  parent := congrArg some hroot
  usage := by
    rw [spanOf_get? h (by decide), generationAttributes]
    cases g.usage.get? "input" <;> cases g.usage.get? "output" <;> rfl
  promptTokens := by
    rw [spanOf_get? h (by decide)]
    exact promptTokens_lookup event g
  completionTokens := by
    rw [spanOf_get? h (by decide)]
    exact completionTokens_lookup event g
  model := by
    rw [spanOf_get? h (by decide)]
    rfl
  modelName := by
    rw [spanOf_get? h (by decide)]
    rfl
  metadata := fun key value hvalue hkey => by
    rw [spanOf_metadata h]
    exact commonAttributes_metadata hvalue hkey
  request := fun value hvalue => by
    rw [spanOf_metadata h]
    exact commonAttributes_metadata ((requestId_get? g.metadata).trans hvalue) (by decide)

end Span

/-! ## The generations of the timeline -/

/-- The generations that were recorded, one for each call of the engine. -/
def generations (event : Event) : List Node :=
  event.observations.filter fun node => decide (node.type = .generation)

theorem generations_type {event : Event} {g : Node} (h : g ∈ generations event) :
    g.type = .generation := of_decide_eq_true (List.mem_filter.mp h).2

theorem firstGeneration_eq (event : Event) : firstGeneration event = (generations event).head? :=
  (List.head?_filter ..).symm

section Parts
variable {uuid : ℕ → String} {event : Event} {root : Node} {generation : Option Node}

theorem detail_type {containers : List Segment} {details : List Detail} {d : Detail}
    (h : detailsOf containers event.apiIntervals = .ok details)
    (hapi : ∀ n ∈ event.apiIntervals, n.type = .span)
    (hd : d ∈ reparent event.apiIntervals details) : d.node.type = .span := by
  obtain ⟨i, d, hi, rfl⟩ := mem_reparent h hd
  obtain ⟨n, hn, hc⟩ := details_mem h (List.mem_of_getElem? hi)
  obtain ⟨_, _, _, _, _, _, _, hnode⟩ := clipped_spec hc
  have htype : d.node.type = .span := by rw [hnode]; exact hapi n hn
  rcases place_cases details i d with he | ⟨_, _, _, he⟩ <;> rw [he]
  · exact htype
  · exact htype

/-- The given generation is the only one of the timeline. -/
theorem timeline_generations {nodes : List Node}
    (h : timelineNodes uuid event root generation = .ok nodes) (hroot : root.type = .span)
    (hapi : ∀ n ∈ event.apiIntervals, n.type = .span)
    (hgen : ∀ g, generation = some g → g.type = .generation) :
    nodes.filter (fun node => decide (node.type = .generation)) =
      (generation.map (underRoot root)).toList := by
  obtain ⟨endNs, api, transfer, segs, details, ht, rfl⟩ := timelineNodes_spec h
  have hsegments : ∀ xs : List Segment, (xs.map Segment.toNode).filter
      (fun node => decide (node.type = .generation)) = [] := by
    intro xs
    refine List.filter_eq_nil_iff.mpr fun n hn => ?_
    obtain ⟨s, _, rfl⟩ := List.mem_map.mp hn
    simp [Segment.toNode]
  have hdetails : ((reparent event.apiIntervals details).map Detail.node).filter
      (fun node => decide (node.type = .generation)) = [] := by
    refine List.filter_eq_nil_iff.mpr fun n hn => ?_
    obtain ⟨d, hd, rfl⟩ := List.mem_map.mp hn
    simp [detail_type ht.isDetails hapi hd]
  have hown : (generation.map (underRoot root)).toList.filter
      (fun node => decide (node.type = .generation)) =
        (generation.map (underRoot root)).toList := by
    refine List.filter_eq_self.mpr fun n hn => ?_
    obtain ⟨g, hg, rfl⟩ := Option.map_eq_some_iff.mp (Option.mem_toList.mp hn)
    exact decide_eq_true (hgen g hg)
  have hbody : (body root generation api transfer segs
      (reparent event.apiIntervals details)).filter
      (fun node => decide (node.type = .generation)) =
        (generation.map (underRoot root)).toList := by
    rw [body, List.filter_append, List.filter_append, List.filter_append, hsegments, hsegments,
      hdetails, hown, List.nil_append, List.append_nil, List.append_nil]
  have hperm := (List.perm_insertionSort keyOrder (body root generation api transfer segs
    (reparent event.apiIntervals details))).filter (fun node => decide (node.type = .generation))
  rw [hbody] at hperm
  rw [List.filter_cons_of_neg (by simp [hroot])]
  cases generation with
  | none => exact List.perm_nil.mp hperm
  | some g => exact List.perm_singleton.mp hperm

end Parts

/-! ## One generation or several -/

/-- A generation of positive duration inside the root. -/
def PositiveInside (startNs endNs : ℤ) (g : Node) : Prop :=
  ∃ e, g.endNs = some e ∧ startNs ≤ g.startNs ∧ g.startNs < e ∧ e ≤ endNs

instance (startNs endNs : ℤ) (g : Node) : Decidable (PositiveInside startNs endNs g) :=
  match he : g.endNs with
  | none => .isFalse (by rintro ⟨e, h, _⟩; rw [he] at h; cases h)
  | some e => decidable_of_iff (startNs ≤ g.startNs ∧ g.startNs < e ∧ e ≤ endNs)
    ⟨fun h => ⟨e, he, h⟩, by rintro ⟨e', h, hrest⟩; rw [he] at h; cases h; exact hrest⟩

theorem PositiveInside.valid {startNs endNs : ℤ} {g root : Node}
    (h : PositiveInside startNs endNs g) : g.startNs < effectiveEnd endNs (underRoot root g) := by
  obtain ⟨e, he, _, hpos, hle⟩ := h
  have hend : (underRoot root g).endNs = some e := he
  rw [effectiveEnd, hend]
  dsimp only
  split
  · omega
  · exact hpos

/-- The generation is one node of the batch, with what belongs to it. -/
def SentOnce (event : Event) (spans : List Span) (g : Node) : Prop :=
  ∃ span, spans.filter (fun s => s.isGeneration && s.id == g.id) = [span] ∧
    ExportedAs event g span

/-- The generations of a batch that was sent. -/
theorem sinkCall_generations {config : SinkConfig} {draw : ℚ} {uuid : ℕ → String}
    {delivers : List Span → Bool} {event : Event} {total : ℚ} {spans : List Span}
    (h : sinkCall config draw uuid delivers event = .ok (some spans))
    (htotal : httpTotal event = .ok total)
    (hapi : ∀ n ∈ event.apiIntervals, n.type = .span)
    (hpos : ∀ g ∈ generations event,
      PositiveInside event.startedNs (event.startedNs + nanos total) g) :
    ∃ why residual, spans.filter Span.isGeneration =
      ((generations event).head?.map fun g => spanOf config event why residual
        (event.startedNs + nanos total) (underRoot (rootNode event total) g)).toList := by
  unfold sinkCall at h
  cases hwhy : sampled config draw event with
  | none => rw [hwhy] at h; cases h
  | some why =>
    rw [hwhy] at h
    obtain ⟨total', htotal', h⟩ := bind_eq_ok.mp h
    rw [htotal] at htotal'
    obtain rfl := Except.ok.inj htotal'
    obtain ⟨nodes, hnodes, h⟩ := bind_eq_ok.mp h
    obtain ⟨errors, _, h⟩ := bind_eq_ok.mp h
    obtain ⟨_, _, h⟩ := bind_eq_ok.mp h
    obtain rfl : spans = ((validNodes (event.startedNs + nanos total) nodes).map
        (spanOf config event why (errors.max?.getD 0)
          (event.startedNs + nanos total))).reverse := by
      dsimp only at h
      split at h
      · exact (Option.some.inj (Except.ok.inj h)).symm
      · cases h
    refine ⟨why, errors.max?.getD 0, ?_⟩
    have hfirst : ∀ g, (generations event).head? = some g → g ∈ generations event :=
      fun g hg => List.mem_of_mem_head? hg
    have hone := timeline_generations hnodes rfl hapi fun g hg =>
      generations_type (hfirst g (firstGeneration_eq event ▸ hg))
    rw [firstGeneration_eq] at hone
    rw [List.filter_reverse, List.filter_map]
    have hpredicate : Span.isGeneration ∘ spanOf config event why (errors.max?.getD 0)
        (event.startedNs + nanos total) = fun node => decide (node.type = .generation) :=
      funext fun node => spanOf_isGeneration
    rw [hpredicate, validNodes, List.filter_comm, hone]
    cases hg : (generations event).head? with
    | none => rfl
    | some g =>
      have hvalid : g.startNs < effectiveEnd (event.startedNs + nanos total)
          (underRoot (rootNode event total) g) := (hpos g (hfirst g hg)).valid
      have hstart : (underRoot (rootNode event total) g).startNs = g.startNs := rfl
      rw [Option.map_some, Option.toList_some, List.filter_cons_of_pos]
      · rfl
      · exact decide_eq_true (hstart ▸ hvalid)

/-- **Every generation is exported exactly if** there is at most one. -/
theorem generations_exported_iff (config : SinkConfig) (draw : ℚ) (uuid : ℕ → String)
    (delivers : List Span → Bool) (event : Event) (total : ℚ) (spans : List Span)
    (hexport : sinkCall config draw uuid delivers event = .ok (some spans))
    (htotal : httpTotal event = .ok total)
    (hids : ((generations event).map Node.id).Nodup)
    (hapi : ∀ n ∈ event.apiIntervals, n.type = .span)
    (hpos : ∀ g ∈ generations event,
      PositiveInside event.startedNs (event.startedNs + nanos total) g) :
    (∀ g ∈ generations event, SentOnce event spans g) ↔ (generations event).length ≤ 1 := by
  obtain ⟨why, residual, hspans⟩ := sinkCall_generations hexport htotal hapi hpos
  have hfilter : ∀ g : Node, spans.filter (fun s => s.isGeneration && s.id == g.id) =
      (spans.filter Span.isGeneration).filter fun s => s.id == g.id := fun g => by
    rw [List.filter_filter]
    simp only [Bool.and_comm]
  cases hgens : generations event with
  | nil => simp
  | cons first rest =>
    rw [hgens, List.head?_cons, Option.map_some, Option.toList_some] at hspans
    have hfirst : first.type = .generation := generations_type (hgens ▸ List.mem_cons_self)
    constructor
    · intro hall
      cases rest with
      | nil => simp
      | cons second rest =>
        -- The batch holds the first generation only, and the second has another identifier.
        obtain ⟨span, hspan, _⟩ := hall second (List.mem_cons_of_mem _ List.mem_cons_self)
        rw [hfilter, hspans, List.filter_cons_of_neg, List.filter_nil] at hspan
        · cases hspan
        · rw [hgens, List.map_cons, List.nodup_cons] at hids
          have hne : first.id ≠ second.id := fun he => hids.1 (he ▸ by simp)
          simpa [spanOf, underRoot] using hne
    · intro hlen g hg
      obtain rfl : rest = [] := by simpa using hlen
      obtain rfl := List.mem_singleton.mp hg
      refine ⟨spanOf config event why residual (event.startedNs + nanos total)
        (underRoot (rootNode event total) g), ?_, spanOf_exportedAs hfirst rfl⟩
      rw [hfilter, hspans, List.filter_cons_of_pos, List.filter_nil]
      simp [spanOf, underRoot]

/-! ### A request with two calls -/

/-- Every request is sampled, and numbers are read from no text. -/
def everySample : SinkConfig where
  environment := "production"
  sampleRate := 1
  tpotThreshold := 1 / 10
  reader := {
    float := fun _ => .error (.valueError "could not convert string to float")
    int := fun _ => .error (.valueError "invalid literal for int()")
    loads := fun _ => .error (.valueError "Expecting value") }

/-- A request of ninety nanoseconds with these generations. -/
def sentEvent (observations : List Node) : Event :=
  { smallEvent observations [] with
    stages := Dict.ofList [("http_total",
      { count := .int 1, totalSeconds := .fin (90 / 1000000000), meanSeconds := .fin 0 })] }

def firstCall : Node :=
  { smallGeneration with
    metadata := Dict.ofList [("request_id", .str "a")]
    usage := Dict.ofList [("input", 3), ("output", 2)] }

def secondCall : Node :=
  { smallGeneration with
    id := "h"
    startNs := 30
    metadata := Dict.ofList [("request_id", .str "b")]
    usage := Dict.ofList [("input", 7), ("output", 1)] }

theorem sent_of_isSome {result : Except PyError (Option (List Span))}
    (h : result.toOption.join.isSome = true) : ∃ spans, result = .ok (some spans) := by
  rcases result with _ | _ | spans
  · cases h
  · cases h
  · exact ⟨spans, rfl⟩

theorem generations_exported_iff_small :
    ∃ spans, sinkCall everySample 0 drawnId (fun _ => true) (sentEvent [firstCall]) =
        .ok (some spans) ∧
      ((∀ g ∈ generations (sentEvent [firstCall]), SentOnce (sentEvent [firstCall]) spans g) ↔
        (generations (sentEvent [firstCall])).length ≤ 1) := by
  obtain ⟨spans, hspans⟩ := sent_of_isSome (show (sinkCall everySample 0 drawnId
    (fun _ => true) (sentEvent [firstCall])).toOption.join.isSome = true by decide +kernel)
  exact ⟨spans, hspans, generations_exported_iff everySample 0 drawnId (fun _ => true)
    (sentEvent [firstCall]) (90 / 1000000000) spans hspans rfl (by decide)
    (by simp [sentEvent, smallEvent]) (by decide +kernel)⟩

/-- Both generations lie inside the request, and the second one is lost. -/
theorem second_call_not_exported :
    ∃ spans, sinkCall everySample 0 drawnId (fun _ => true)
        (sentEvent [firstCall, secondCall]) = .ok (some spans) ∧
      (∀ g ∈ [firstCall, secondCall], g ∈ generations (sentEvent [firstCall, secondCall]) ∧
        PositiveInside 10 100 g) ∧
      (spans.filter Span.isGeneration).map Span.id = ["g"] ∧
      ¬ SentOnce (sentEvent [firstCall, secondCall]) spans secondCall := by
  obtain ⟨spans, hspans⟩ := sent_of_isSome (show (sinkCall everySample 0 drawnId (fun _ => true)
    (sentEvent [firstCall, secondCall])).toOption.join.isSome = true by decide +kernel)
  obtain ⟨why, residual, hone⟩ := sinkCall_generations hspans
    (show httpTotal (sentEvent [firstCall, secondCall]) = .ok (90 / 1000000000) from rfl)
    (by simp [sentEvent, smallEvent]) (by decide +kernel)
  have hids : (spans.filter Span.isGeneration).map Span.id = ["g"] := by
    rw [hone]
    rfl
  refine ⟨spans, hspans, ?_, hids, ?_⟩
  · intro g hg
    have hmem : g ∈ generations (sentEvent [firstCall, secondCall]) := hg
    have hpos : ∀ g ∈ [firstCall, secondCall], PositiveInside 10 100 g := by decide
    exact ⟨hmem, hpos g hg⟩
  · rintro ⟨span, hspan, _⟩
    have hmem : span ∈ spans.filter fun s => s.isGeneration && s.id == secondCall.id :=
      hspan ▸ List.mem_singleton_self span
    have hspan' := List.mem_filter.mp hmem
    rw [Bool.and_eq_true] at hspan'
    have hid : span.id ∈ (spans.filter Span.isGeneration).map Span.id :=
      List.mem_map_of_mem (List.mem_filter.mpr ⟨hspan'.1, hspan'.2.1⟩)
    rw [hids, List.mem_singleton] at hid
    exact absurd (hid ▸ eq_of_beq hspan'.2.2) (by decide)

end VllmObserver.Exporter
