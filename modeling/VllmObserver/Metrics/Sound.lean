import VllmObserver.Metrics.Filter

/-! # Every metric belongs to the instance

Whatever happens to the registry, it holds metrics of the program, and where a
child has a label for the service, the model or the instance, it has the values
of this one. -/
namespace VllmObserver.Metrics
open VllmObserver.Lib VllmObserver.Core VllmObserver.Exporter

/-- All metrics of the program. -/
def allMetrics : List Family := filterMetrics ++ exportGauges ++ writerMetrics

/-- `RemoteWriter.identity`. -/
def Labels.identity (labels : Labels) : Dict String String := Dict.ofList [
  ("service", labels.service), ("model", labels.model), ("instance_id", labels.instanceId),
  ("job", "observer")]

/-- A child of the metric that agrees with the instance. -/
structure ChildOf (labels : Labels) (family : Family) (child : Child) : Prop where
  name : child.1 = family.name
  length : child.2.length = family.labelNames.length
  agrees : ∀ name value, (name, value) ∈ family.labelNames.zip child.2 →
    ∀ own, labels.identity.get? name = some own → value = own

structure Sound (labels : Labels) (r : Registry) : Prop where
  known : ∀ family ∈ r.families, family ∈ allMetrics
  base : ∀ family ∈ filterMetrics, family ∈ r.families
  numbers : ∀ child ∈ r.numbers.keys,
    ∃ family ∈ r.families, family.kind ≠ .histogram ∧ ChildOf labels family child
  observed : ∀ child ∈ r.observed.keys,
    ∃ family ∈ r.families, family.kind = .histogram ∧ ChildOf labels family child

/-- The update keeps it, also where it raises. -/
def Keeps (P : Registry → Prop) (update : Update) : Prop := ∀ r, P r → P (update r).1

section Keeps
variable {P : Registry → Prop} {first next : Update}

theorem Keeps.done : Keeps P .done := fun _ h => h

theorem Keeps.raise (e : PyError) : Keeps P (.raise e) := fun _ h => h

theorem Keeps.andThen (h : Keeps P first) (h' : Keeps P next) : Keeps P (first.andThen next) := by
  intro r hr
  have hfirst := h r hr
  unfold Update.andThen
  split
  · rename_i r' heq
    rw [heq] at hfirst
    exact h' _ hfirst
  · rename_i r' e heq
    rw [heq] at hfirst
    exact hfirst

theorem Keeps.forEach {α : Type} {f : α → Update} : ∀ {xs : List α},
    (∀ x ∈ xs, Keeps P (f x)) → Keeps P (.forEach xs f)
  | [], _ => Keeps.done
  | x :: _, h => (h x List.mem_cons_self).andThen
      (Keeps.forEach fun y hy => h y (List.mem_cons_of_mem x hy))

theorem Keeps.ifRegistered {family : Family} {update : Update}
    (h : ∀ r, family ∈ r.families → P r → P (update r).1) :
    Keeps P (ifRegistered family update) := by
  intro r hr
  unfold Metrics.ifRegistered
  split
  · exact h r ‹_› hr
  · exact hr

/-- The gauges that the exporter and the remote writer set. -/
def addedGauges : List Family := exportGauges ++ [heartbeat, alive, healthy]

/-- All that a step of the program does to the registry. -/
theorem keeps_step {client : Client} {reader : Reader} {labels : Labels} {op : MetricsOp}
    (hprocess : ∀ settings event, op = .process settings event →
      Keeps P (process client reader settings labels event))
    (hinflight : ∀ value, Keeps P (.set inflight labels.values value))
    (hunavailable : Keeps P (.set langfuseUnavailable [] (.fin 1)))
    (hset : ∀ family ∈ addedGauges, ∀ value, Keeps P (setRegistered family value))
    (hregister : ∀ family ∈ exportGauges ++ writerMetrics, Keeps P (.register family))
    (hfailed : Keeps P (Metrics.ifRegistered failures (.inc client failures [] (.fin 1)))) :
    ∀ r, P r → P (step client reader labels r op) := by
  cases op with
  | process settings event => exact hprocess settings event rfl
  | inflight change => exact fun r => hinflight _ r
  | unavailable => exact hunavailable
  | attach => exact Keeps.forEach fun family h => hregister family (List.mem_append_left _ h)
  | exporter queueSize dropped failed =>
    exact (hset _ (by decide) _).andThen ((hset _ (by decide) _).andThen (hset _ (by decide) _))
  | createWriter =>
    exact Keeps.forEach fun family h => hregister family (List.mem_append_right _ h)
  | heartbeat seconds => exact hset _ (by decide) _
  | alive value => exact hset _ (by decide) _
  | healthy value => exact hset _ (by decide) _
  | pushFailed => exact hfailed

end Keeps

section Sound
variable {labels : Labels} {r : Registry} {family : Family} {values : List String}

theorem Sound.setNumber (h : Sound labels r) (hf : family ∈ r.families)
    (hk : family.kind ≠ .histogram) (hc : ChildOf labels family (family.labels values))
    (value : Flt) : Sound labels (r.setNumber (family.labels values) value) where
  known := h.known
  base := h.base
  numbers := by
    intro child hchild
    rcases Dict.mem_keys_set.mp hchild with rfl | hchild
    · exact ⟨family, hf, hk, hc⟩
    · exact h.numbers child hchild
  observed := h.observed

/-- Whatever the child of a histogram has observed. -/
theorem Sound.setObserved (h : Sound labels r) (hf : family ∈ r.families)
    (hk : family.kind = .histogram) (hc : ChildOf labels family (family.labels values))
    (amounts : List Flt) :
    Sound labels { r with observed := r.observed.set (family.labels values) amounts } where
  known := h.known
  base := h.base
  numbers := h.numbers
  observed := by
    intro child hchild
    rcases Dict.mem_keys_set.mp hchild with rfl | hchild
    · exact ⟨family, hf, hk, hc⟩
    · exact h.observed child hchild

/-- A child of the metric, label by label. -/
theorem childOf_of {labelNames : List String} (hl : family.labelNames = labelNames)
    (hlength : values.length = labelNames.length)
    (h : ∀ label ∈ labelNames.zip values, ∀ own, labels.identity.get? label.1 = some own →
      label.2 = own) : ChildOf labels family (family.labels values) :=
  ⟨rfl, by rw [hl]; exact hlength, fun name value hmem => h (name, value) (by rwa [← hl])⟩

theorem own_service : ∀ own, labels.identity.get? "service" = some own → labels.service = own :=
  fun _ h => Option.some.inj h

theorem own_model : ∀ own, labels.identity.get? "model" = some own → labels.model = own :=
  fun _ h => Option.some.inj h

theorem own_instanceId :
    ∀ own, labels.identity.get? "instance_id" = some own → labels.instanceId = own :=
  fun _ h => Option.some.inj h

/-- A label that the identity does not have. -/
theorem own_none {name : String} (h : labels.identity.get? name = none) (value : String) :
    ∀ own, labels.identity.get? name = some own → value = own := by
  intro own hown
  rw [h] at hown
  cases hown

/-- A metric without labels has one child. -/
theorem childOf_nil (hl : family.labelNames = []) : ChildOf labels family (family.labels []) :=
  childOf_of hl rfl (List.forall_mem_nil _)

/-- The metrics with the labels of the instance, and one more. -/
theorem childOf_values (hl : family.labelNames = names) :
    ChildOf labels family (family.labels labels.values) := by
  refine childOf_of hl rfl ?_
  simp only [names, Labels.values, List.zip_cons_cons, List.zip_nil_right, List.forall_mem_cons]
  exact ⟨own_service, own_model, own_instanceId, List.forall_mem_nil _⟩

/-- The same with a label that is not the instance's. -/
theorem childOf_extra {extra : String} (hl : family.labelNames = names ++ [extra])
    (hextra : labels.identity.get? extra = none) (value : String) :
    ChildOf labels family (family.labels (labels.values ++ [value])) := by
  refine childOf_of hl rfl ?_
  simp only [names, Labels.values, List.cons_append, List.nil_append, List.zip_cons_cons,
    List.zip_nil_right, List.forall_mem_cons]
  exact ⟨own_service, own_model, own_instanceId, own_none hextra value, List.forall_mem_nil _⟩

theorem childOf_model (hl : family.labelNames = ["model"]) :
    ChildOf labels family (family.labels [labels.model]) := by
  refine childOf_of hl rfl ?_
  simp only [List.zip_cons_cons, List.zip_nil_right, List.forall_mem_cons]
  exact ⟨own_model, List.forall_mem_nil _⟩

theorem childOf_stage_model (hl : family.labelNames = ["stage", "model"]) (stage : String) :
    ChildOf labels family (family.labels [stage, labels.model]) := by
  refine childOf_of hl rfl ?_
  simp only [List.zip_cons_cons, List.zip_nil_right, List.forall_mem_cons]
  exact ⟨own_none rfl stage, own_model, List.forall_mem_nil _⟩

/-! ## The updates keep it -/

theorem keeps_inc {client : Client} {amount : Flt} (hf : family ∈ filterMetrics)
    (hk : family.kind ≠ .histogram) (hc : ChildOf labels family (family.labels values)) :
    Keeps (Sound labels) (.inc client family values amount) := by
  intro r h
  unfold Update.inc
  simp only
  split
  · exact h.setNumber (h.base family hf) hk hc _
  · exact h.setNumber (h.base family hf) hk hc _

theorem keeps_set {value : Flt} (hf : family ∈ filterMetrics) (hk : family.kind ≠ .histogram)
    (hc : ChildOf labels family (family.labels values)) :
    Keeps (Sound labels) (.set family values value) :=
  fun _ h => h.setNumber (h.base family hf) hk hc value

theorem keeps_observe {amount : Flt} (hf : family ∈ filterMetrics)
    (hk : family.kind = .histogram) (hc : ChildOf labels family (family.labels values)) :
    Keeps (Sound labels) (.observe family values amount) :=
  fun _ h => h.setObserved (h.base family hf) hk hc _

theorem keeps_labels (hf : family ∈ filterMetrics) (hk : family.kind = .histogram)
    (hc : ChildOf labels family (family.labels values)) :
    Keeps (Sound labels) (.labels family values) :=
  fun _ h => h.setObserved (h.base family hf) hk hc _

theorem keeps_setRegistered {value : Flt} (hk : family.kind ≠ .histogram)
    (hl : family.labelNames = []) : Keeps (Sound labels) (setRegistered family value) :=
  .ifRegistered fun _ hf h => h.setNumber hf hk (childOf_nil hl) value

theorem keeps_register (hm : family ∈ allMetrics) (hk : family.kind ≠ .histogram)
    (hl : family.labelNames = []) : Keeps (Sound labels) (.register family) := by
  intro r h
  unfold Update.register Registry.register
  split
  · rename_i r' heq
    split at heq
    · cases heq
    · cases heq
      have hstill : ∀ child, (∃ family' ∈ r.families, family'.kind ≠ .histogram ∧
          ChildOf labels family' child) → ∃ family' ∈ r.families ++ [family],
          family'.kind ≠ .histogram ∧ ChildOf labels family' child := by
        rintro child ⟨family', hmem, hrest⟩
        exact ⟨family', List.mem_append_left _ hmem, hrest⟩
      refine ⟨?_, fun f hf => List.mem_append_left _ (h.base f hf), ?_, ?_⟩
      · intro f hf
        rcases List.mem_append.mp hf with hf | hf
        · exact h.known f hf
        · exact List.mem_singleton.mp hf ▸ hm
      · intro child hchild
        rcases Dict.mem_keys_set.mp hchild with rfl | hchild
        · exact ⟨family, List.mem_append_right _ (List.mem_singleton_self _), hk, childOf_nil hl⟩
        · exact hstill child (h.numbers child hchild)
      · intro child hchild
        obtain ⟨family', hmem, hrest⟩ := h.observed child hchild
        exact ⟨family', List.mem_append_left _ hmem, hrest⟩
  · exact h

/-- The gauges of the exporter and the writer's metrics have no labels. -/
theorem added_metrics : ∀ family ∈ exportGauges ++ writerMetrics,
    family ∈ allMetrics ∧ family.kind ≠ .histogram ∧ family.labelNames = [] := by
  decide

theorem added_gauges : addedGauges ⊆ exportGauges ++ writerMetrics := by decide

theorem keeps_process (client : Client) (reader : Reader) (settings : TpotSettings)
    (labels : Labels) (event : Event) :
    Keeps (Sound labels) (process client reader settings labels event) := by
  refine (keeps_inc (by decide) (by decide) (childOf_extra rfl rfl _)).andThen <|
    Keeps.andThen ?_ <| Keeps.andThen ?_ <| Keeps.forEach fun name _ => ?_
  · unfold processTotal
    split
    · exact (keeps_labels (by decide) rfl (childOf_values rfl)).andThen (Keeps.raise _)
    · exact keeps_observe (by decide) rfl (childOf_values rfl)
  · unfold processDecode
    split
    · exact Keeps.done
    · split
      · exact Keeps.done
      · refine (keeps_observe (by decide) rfl (childOf_model rfl)).andThen ?_
        split
        · exact Keeps.raise _
        · split
          · exact keeps_inc (by decide) (by decide) (childOf_model rfl)
          · exact Keeps.done
  · unfold processStage
    split
    · exact Keeps.done
    · exact (keeps_inc (by decide) (by decide) (childOf_extra rfl rfl _)).andThen <|
        (keeps_inc (by decide) (by decide) (childOf_extra rfl rfl _)).andThen <|
        keeps_observe (by decide) rfl (childOf_stage_model rfl _)

/-- **Every step keeps it.** -/
theorem Sound.step (client : Client) (reader : Reader) (h : Sound labels r) (op : MetricsOp) :
    Sound labels (Metrics.step client reader labels r op) := by
  refine keeps_step (fun settings event _ => keeps_process client reader settings labels event)
    (fun value => keeps_set (by decide) (by decide) (childOf_values rfl))
    (keeps_set (by decide) (by decide) (childOf_nil rfl)) ?_ ?_ ?_ r h
  · intro family hmem value
    obtain ⟨_, hk, hl⟩ := added_metrics family (added_gauges hmem)
    exact keeps_setRegistered hk hl
  · intro family hmem
    obtain ⟨hm, hk, hl⟩ := added_metrics family hmem
    exact keeps_register hm hk hl
  · refine Keeps.ifRegistered (fun r hf h => ?_)
    unfold Update.inc
    simp only
    split
    · exact h.setNumber hf (by decide) (childOf_nil rfl) _
    · exact h.setNumber hf (by decide) (childOf_nil rfl) _

theorem sound_create (labels : Labels) : Sound labels (create labels) where
  known := fun family hf => List.mem_append_left _ (List.mem_append_left _ hf)
  base := fun _ hf => hf
  numbers := by
    intro child hchild
    simp only [create, Dict.ofList, Dict.mem_keys_update, List.map_cons, List.map_nil,
      List.mem_cons, List.not_mem_nil, or_false, Dict.keys_empty] at hchild
    rcases hchild with rfl | rfl | rfl
    · exact ⟨info, by simp [create, filterMetrics], by decide, childOf_values rfl⟩
    · exact ⟨inflight, by simp [create, filterMetrics], by decide, childOf_values rfl⟩
    · exact ⟨langfuseUnavailable, by simp [create, filterMetrics], by decide, childOf_nil rfl⟩
  observed := by
    intro child hchild
    cases hchild

/-- **Every registry that the program makes is sound.** -/
theorem sound_run (client : Client) (reader : Reader) (labels : Labels) (ops : List MetricsOp) :
    Sound labels (run (step client reader labels) (create labels) ops) :=
  run_invariant_all _ (fun _ op h => h.step client reader op) (sound_create labels)

end Sound

end VllmObserver.Metrics
