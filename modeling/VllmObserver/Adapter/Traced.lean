import VllmObserver.Adapter.Record
import VllmObserver.Lib.StableSort
import VllmObserver.Exporter.TimelineAttribution

/-! # What the recorders keep of a trace

`Quiet` says which stages a trace has recorded and that they can be exported;
`Traced` adds one generation and where it stands. Every recorder keeps them, or
adds the one observation it is there to record. -/
namespace VllmObserver.Adapter
open VllmObserver.Lib VllmObserver.Core VllmObserver.Stages VllmObserver.Exporter

/-- The recorded stages of a trace, in order. -/
def stagesOf (observations : List Node) : List Node :=
  observations.filter fun o => decide (o.name ∈ stageNames)

/-- The stages recorded so far are `stages`, and everything recorded can be
exported. The clock is that of `base`. -/
structure Quiet (base : RequestTrace) (stages : List Node) (trace : RequestTrace) : Prop where
  stages : stagesOf trace.observations = stages
  recorded : RecordedStages trace.observations
  generations : ∀ o ∈ trace.observations, o.type = .generation → o.name ∉ stageNames
  apiEnds : ∀ n ∈ trace.apiIntervals, n.endNs ≠ none
  startedNs : trace.startedNs = base.startedNs
  started : trace.started = base.started

/-- Moreover the generation `g` stands at position `gen`. -/
structure Traced (base : RequestTrace) (gen : ℕ) (g : Node) (stages : List Node)
    (trace : RequestTrace) : Prop extends Quiet base stages trace where
  split : ∃ pre post, trace.observations = pre ++ g :: post ∧ pre.length = gen
  isGeneration : g.type = .generation

theorem modify_split {α : Type} (f : α → α) (x : α) (post : List α) : ∀ pre : List α,
    (pre ++ x :: post).modify pre.length f = pre ++ f x :: post
  | [] => rfl
  | y :: pre => by
    rw [List.cons_append, List.length_cons, List.modify_succ_cons, modify_split f x post pre]
    rfl

theorem freeKeys_update {metadata : Metadata} {entries : List (String × Json)}
    (h : FreeKeys metadata) (he : ∀ k ∈ entries.map Prod.fst, k ∉ segmentParameters) :
    FreeKeys (metadata.update entries) := by
  intro k hk
  rcases Dict.mem_keys_update.mp hk with hk | hk
  · exact he k hk
  · exact h k hk

theorem freeKeys_ofList {entries : List (String × Json)}
    (he : ∀ k ∈ entries.map Prod.fst, k ∉ segmentParameters) : FreeKeys (Dict.ofList entries) :=
  freeKeys_update FreeKeys.empty he

section Keep
variable {base trace trace' : RequestTrace} {gen : ℕ} {g : Node} {stages : List Node}

theorem Quiet.congr (h : Quiet base stages trace) (ho : trace'.observations = trace.observations)
    (ha : ∀ n ∈ trace'.apiIntervals, n.endNs ≠ none) (h1 : trace'.startedNs = trace.startedNs)
    (h2 : trace'.started = trace.started) : Quiet base stages trace' where
  stages := ho ▸ h.stages
  recorded := ho ▸ h.recorded
  generations := ho ▸ h.generations
  apiEnds := ha
  startedNs := h1.trans h.startedNs
  started := h2.trans h.started

/-- A span is appended; it is a stage of the generation if it is named so. -/
theorem Quiet.append (h : Quiet base stages trace) {o : Node} (hk : FreeKeys o.metadata)
    (he : o.name ∈ stageNames → o.endNs ≠ none)
    (hg : o.type = .generation → o.name ∉ stageNames) :
    Quiet base (stages ++ stagesOf [o])
      { trace with observations := trace.observations ++ [o] } where
  stages := by rw [← h.stages]; exact List.filter_append ..
  recorded := by
    intro x hx
    rcases List.mem_append.mp hx with hx | hx
    · exact h.recorded x hx
    · rw [List.mem_singleton.mp hx]
      exact ⟨hk, he⟩
  generations := by
    intro x hx
    rcases List.mem_append.mp hx with hx | hx
    · exact h.generations x hx
    · rw [List.mem_singleton.mp hx]
      exact hg
  apiEnds := h.apiEnds
  startedNs := h.startedNs
  started := h.started

/-- A generation changes, without becoming a stage. -/
theorem Quiet.modify (h : Quiet base stages trace) {i : ℕ} {f : Node → Node}
    (hf : ∀ x, trace.observations[i]? = some x → x.type = .generation ∧
      (f x).name = x.name ∧ (FreeKeys x.metadata → FreeKeys (f x).metadata)) :
    Quiet base stages { trace with observations := trace.observations.modify i f } := by
  cases hx : trace.observations[i]? with
  | none =>
    rw [List.modify_eq_self (List.getElem?_eq_none_iff.mp hx)]
    exact h
  | some x =>
    obtain ⟨htype, hname, hkeys⟩ := hf x hx
    obtain ⟨pre, post, hsplit, rfl⟩ := split_at hx
    have hmem : x ∈ trace.observations := by simp [hsplit]
    have hun := h.generations x hmem htype
    rw [hsplit, modify_split]
    have hrest : ∀ y ∈ pre ++ f x :: post, y = f x ∨ y ∈ trace.observations := by
      intro y hy
      rcases List.mem_append.mp hy with hy | hy
      · exact Or.inr (by simp [hsplit, hy])
      · rcases List.mem_cons.mp hy with rfl | hy
        · exact Or.inl rfl
        · exact Or.inr (by simp [hsplit, hy])
    refine ⟨?_, ?_, ?_, h.apiEnds, h.startedNs, h.started⟩
    · rw [← h.stages, hsplit, stagesOf, stagesOf, List.filter_append, List.filter_append,
        List.filter_cons_of_neg (by simpa [hname] using hun),
        List.filter_cons_of_neg (by simpa using hun)]
    · intro y hy
      rcases hrest y hy with rfl | hy
      · exact ⟨hkeys (h.recorded x hmem).1, fun hn => absurd (hname ▸ hn) hun⟩
      · exact h.recorded y hy
    · intro y hy ht
      rcases hrest y hy with rfl | hy
      · exact hname ▸ hun
      · exact h.generations y hy ht

theorem Traced.generation (h : Traced base gen g stages trace) :
    trace.observations[gen]? = some g := by
  obtain ⟨pre, post, hsplit, rfl⟩ := h.split
  simp [hsplit]

theorem Traced.nowNs (h : Traced base gen g stages trace) (perf : ℚ) :
    trace.nowNs perf = base.nowNs perf :=
  RequestTrace.nowNs_congr h.startedNs h.started _

theorem Traced.congr (h : Traced base gen g stages trace)
    (ho : trace'.observations = trace.observations)
    (ha : ∀ n ∈ trace'.apiIntervals, n.endNs ≠ none) (h1 : trace'.startedNs = trace.startedNs)
    (h2 : trace'.started = trace.started) : Traced base gen g stages trace' :=
  ⟨h.toQuiet.congr ho ha h1 h2, ho ▸ h.split, h.isGeneration⟩

theorem Traced.append (h : Traced base gen g stages trace) {o : Node} (hk : FreeKeys o.metadata)
    (he : o.name ∈ stageNames → o.endNs ≠ none)
    (hg : o.type = .generation → o.name ∉ stageNames) :
    Traced base gen g (stages ++ stagesOf [o])
      { trace with observations := trace.observations ++ [o] } := by
  obtain ⟨pre, post, hsplit, hlen⟩ := h.split
  exact ⟨h.toQuiet.append hk he hg, ⟨pre, post ++ [o], by simp [hsplit], hlen⟩, h.isGeneration⟩

/-- The traced generation itself changes. -/
theorem Traced.modify (h : Traced base gen g stages trace) {f : Node → Node}
    (htype : (f g).type = g.type) (hname : (f g).name = g.name)
    (hkeys : FreeKeys g.metadata → FreeKeys (f g).metadata) :
    Traced base gen (f g) stages
      { trace with observations := trace.observations.modify gen f } := by
  refine ⟨h.toQuiet.modify fun x hx => ?_, ?_, htype.trans h.isGeneration⟩
  · obtain rfl := Option.some.inj (h.generation.symm.trans hx)
    exact ⟨h.isGeneration, hname, hkeys⟩
  · obtain ⟨pre, post, hsplit, rfl⟩ := h.split
    exact ⟨pre, post, by rw [hsplit, modify_split], rfl⟩

/-- Another node changes. -/
theorem Traced.modify_ne (h : Traced base gen g stages trace) {i : ℕ} (hne : i ≠ gen)
    {f : Node → Node} (hf : ∀ x, trace.observations[i]? = some x → x.type = .generation ∧
      (f x).name = x.name ∧ (FreeKeys x.metadata → FreeKeys (f x).metadata)) :
    Traced base gen g stages { trace with observations := trace.observations.modify i f } := by
  refine ⟨h.toQuiet.modify hf, split_at ?_, h.isGeneration⟩
  rw [List.getElem?_modify_ne _ _ hne]
  exact h.generation

theorem Traced.add (h : Traced base gen g stages trace) (stage : String) (duration count : Number) :
    Traced base gen g stages (trace.add stage duration count) :=
  h.congr rfl h.apiEnds rfl rfl

end Keep

/-! ## Recorders -/

/-- From a trace with `P` the recorder leaves one with `Q`, also where it raises. -/
def Leaves (P Q : RequestTrace → Prop) (r : Recording) : Prop := ∀ trace, P trace → Q (r trace).1

theorem andThen_ok {first next : Recording} {trace trace' : RequestTrace}
    (h : first trace = (trace', .ok ())) : (first.andThen next) trace = next trace' := by
  rw [Recording.andThen, h]

section Leaves
variable {P Q R : RequestTrace → Prop} {r next : Recording}

theorem Leaves.pre (h : Leaves R Q r) (hp : ∀ trace, P trace → R trace) : Leaves P Q r :=
  fun trace h' => h trace (hp trace h')

theorem Leaves.mono (h : Leaves P R r) (hq : ∀ trace, R trace → Q trace) : Leaves P Q r :=
  fun trace hp => hq _ (h trace hp)

theorem Leaves.done : Leaves P P .done := fun _ h => h

theorem Leaves.raise (e : PyError) : Leaves P P (.raise e) := fun _ h => h

/-- The step between two recorders also stands if the first one raises. -/
theorem Leaves.andThen (h1 : Leaves P R r) (hq : ∀ trace, R trace → Q trace)
    (h2 : Leaves R Q next) : Leaves P Q (r.andThen next) := by
  intro trace hp
  have h := h1 trace hp
  unfold Recording.andThen
  split
  · rename_i trace' heq
    rw [heq] at h
    exact h2 _ h
  · rename_i trace' e heq
    rw [heq] at h
    exact hq _ h

/-- The first recorder does not raise. -/
theorem Leaves.andThen_of_ok (h1 : Leaves P R r) (hok : ∀ trace, (r trace).2 = .ok ())
    (h2 : Leaves R Q next) : Leaves P Q (r.andThen next) := by
  intro trace hp
  rw [andThen_ok (Prod.ext rfl (hok trace))]
  exact h2 _ (h1 trace hp)

theorem Leaves.withValue {α : Type} {value : Except PyError α} {next : α → Recording}
    (hq : ∀ trace, P trace → Q trace) (h : ∀ a, value = .ok a → Leaves P Q (next a)) :
    Leaves P Q (.withValue value next) := by
  cases value with
  | ok a => exact h a rfl
  | error e => exact fun trace hp => hq trace hp

/-- The check reads the start of the generation and the clock. -/
theorem Leaves.ifWithin {gen : ℕ} {perf : ℚ} {a b : ℤ} {inside outside : Recording}
    (hq : ∀ trace, P trace → Q trace)
    (hin : a ≤ b → Leaves (fun trace => P trace ∧ ∃ g, trace.observations[gen]? = some g ∧
      g.startNs ≤ a) Q inside)
    (hout : Leaves P Q outside) : Leaves P Q (.ifWithin gen perf a b inside outside) := by
  intro trace hp
  unfold Recording.ifWithin
  split
  · exact hq _ hp
  · rename_i g hg
    split
    · rename_i hw
      exact hin hw.2.1 _ ⟨hp, g, hg, hw.1⟩
    · exact hout _ hp

end Leaves

/-- A generation that keeps its identity and bounds stands at `gen`. -/
def Held (base : RequestTrace) (gen : ℕ) (g₀ : Node) (stages : List Node)
    (trace : RequestTrace) : Prop :=
  ∃ g, Traced base gen g stages trace ∧ g.id = g₀.id ∧ g.startNs = g₀.startNs ∧
    g.endNs = g₀.endNs

section Held
variable {base : RequestTrace} {gen : ℕ} {g₀ : Node} {stages : List Node}

theorem leaves_setMetadata {entries : List (String × Json)}
    (he : ∀ k ∈ entries.map Prod.fst, k ∉ segmentParameters) :
    Leaves (Held base gen g₀ stages) (Held base gen g₀ stages) (setMetadata gen entries) := by
  rintro trace ⟨g, h, hid⟩
  exact ⟨_, h.modify rfl rfl fun hk => freeKeys_update hk he, hid⟩

theorem leaves_addValues (stage : String) (duration count : Json) :
    Leaves (Held base gen g₀ stages) (Held base gen g₀ stages)
      (addValues stage duration count) := by
  rintro trace ⟨g, h, hid⟩
  unfold addValues
  split
  · exact ⟨g, h, hid⟩
  · split
    · exact ⟨g, h.add _ _ _, hid⟩
    · exact ⟨g, h.congr rfl h.apiEnds rfl rfl, hid⟩

/-- The observation that `trace.interval` appends. -/
def intervalNode (uuid : String) (g : Node) (name : String) (startNs endNs : ℤ)
    (metadata : Metadata) : Node where
  id := uuid
  parentId := some g.id
  name := name
  type := .span
  startNs := startNs
  endNs := some endNs
  metadata := metadata

theorem stagesOf_stage {uuid name : String} {a b : ℤ} {metadata : Metadata} {g : Node}
    (h : name ∈ stageNames) : stagesOf [intervalNode uuid g name a b metadata] =
      [intervalNode uuid g name a b metadata] := by
  simp [stagesOf, intervalNode, h]

theorem stagesOf_other {uuid name : String} {a b : ℤ} {metadata : Metadata} {g : Node}
    (h : name ∉ stageNames) : stagesOf [intervalNode uuid g name a b metadata] = [] := by
  simp [stagesOf, intervalNode, h]

theorem interval_run {uuid name : String} {startNs endNs : ℤ} {metadata : Metadata} {g : Node}
    {trace : RequestTrace} (h : Traced base gen g stages trace) (hle : startNs ≤ endNs) :
    Recording.interval uuid gen name startNs endNs metadata trace =
      ({ trace with observations := trace.observations ++
        [intervalNode uuid g name startNs endNs metadata] }, .ok ()) := by
  simp only [Recording.interval, h.generation, RequestTrace.interval, if_neg (not_lt.mpr hle)]
  rfl

/-- Appending an interval of the generation. -/
theorem Traced.interval {g : Node} {trace : RequestTrace} (h : Traced base gen g stages trace)
    (uuid name : String) (startNs endNs : ℤ) {metadata : Metadata} (hk : FreeKeys metadata) :
    Traced base gen g (stages ++ stagesOf [intervalNode uuid g name startNs endNs metadata])
      { trace with observations := trace.observations ++
        [intervalNode uuid g name startNs endNs metadata] } :=
  h.append hk (fun _ => Option.some_ne_none _) (fun ht => by cases ht)

theorem leaves_interval (base : RequestTrace) (gen : ℕ) (g₀ : Node) (stages : List Node)
    (uuid name : String) {startNs endNs : ℤ} {metadata : Metadata} (hk : FreeKeys metadata)
    (hle : startNs ≤ endNs) :
    Leaves (Held base gen g₀ stages)
      (Held base gen g₀ (stages ++ stagesOf [intervalNode uuid g₀ name startNs endNs metadata]))
      (.interval uuid gen name startNs endNs metadata) := by
  rintro trace ⟨g, h, hid⟩
  rw [interval_run h hle]
  refine ⟨g, ?_, hid⟩
  have hnode : intervalNode uuid g name startNs endNs metadata =
      intervalNode uuid g₀ name startNs endNs metadata := by
    simp only [intervalNode, hid.1]
  rw [← hnode]
  exact h.interval uuid name startNs endNs hk

end Held

end VllmObserver.Adapter
