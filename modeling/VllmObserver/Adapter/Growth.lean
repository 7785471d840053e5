import VllmObserver.Adapter.Traced

/-! # How a recorder changes a trace

A recorder works for one generation. It changes that generation's node, appends
spans and adds to the aggregates; `Grew` says of a trace that nothing else has
happened to it since `base`. -/
namespace VllmObserver.Adapter
open VllmObserver.Lib VllmObserver.Core VllmObserver.Stages VllmObserver.Exporter

/-- Since `base` the node at `gen` has become one with `keep`, nodes with `new`
were appended, and the aggregates have come to satisfy `sums`. -/
structure Grew (base : RequestTrace) (gen : ℕ) (keep new : Node → Prop)
    (sums : Dict String Aggregate → Prop) (trace : RequestTrace) : Prop where
  generation : ∃ g, trace.observations[gen]? = some g ∧ keep g
  others : ∀ i, i < base.observations.length → i ≠ gen →
    trace.observations[i]? = base.observations[i]?
  length : base.observations.length ≤ trace.observations.length
  added : ∀ (i : ℕ) (o : Node), base.observations.length ≤ i →
    trace.observations[i]? = some o → new o
  stages : sums trace.stages
  rest : { trace with observations := base.observations, stages := base.stages } = base

section Grew
variable {base trace : RequestTrace} {gen : ℕ} {keep keep' new new' : Node → Prop}
  {sums sums' : Dict String Aggregate → Prop}

theorem Grew.refl {g : Node} (hg : base.observations[gen]? = some g) (hk : keep g)
    (hs : sums base.stages) : Grew base gen keep new sums base where
  generation := ⟨g, hg, hk⟩
  others := fun _ _ _ => rfl
  length := le_refl _
  added := by
    intro i o hi ho
    have hlt := (List.getElem?_eq_some_iff.mp ho).1
    omega
  stages := hs
  rest := rfl

theorem Grew.startedNs (h : Grew base gen keep new sums trace) :
    trace.startedNs = base.startedNs := (congrArg RequestTrace.startedNs h.rest :)

theorem Grew.started (h : Grew base gen keep new sums trace) : trace.started = base.started :=
  (congrArg RequestTrace.started h.rest :)

theorem Grew.engineRequests (h : Grew base gen keep new sums trace) :
    trace.engineRequests = base.engineRequests := (congrArg RequestTrace.engineRequests h.rest :)

theorem Grew.nowNs (h : Grew base gen keep new sums trace) (perf : ℚ) :
    trace.nowNs perf = base.nowNs perf :=
  RequestTrace.nowNs_congr h.startedNs h.started _

theorem Grew.imp (h : Grew base gen keep new sums trace) (hk : ∀ g, keep g → keep' g)
    (hn : ∀ o, new o → new' o) (hs : ∀ s, sums s → sums' s) :
    Grew base gen keep' new' sums' trace := by
  obtain ⟨g, hg, hkg⟩ := h.generation
  exact ⟨⟨g, hg, hk g hkg⟩, h.others, h.length, fun i o hi ho => hn o (h.added i o hi ho),
    hs _ h.stages, h.rest⟩

/-- What was appended stands behind the nodes from `k` on. -/
theorem Grew.drop (h : Grew base gen keep new sums trace) {k : ℕ} (hk : gen < k)
    (hle : k ≤ base.observations.length) : ∃ rest,
      trace.observations.drop k = base.observations.drop k ++ rest ∧ ∀ o ∈ rest, new o := by
  refine ⟨trace.observations.drop base.observations.length, ?_, ?_⟩
  · refine List.ext_getElem? fun i => ?_
    have hlen : (base.observations.drop k).length = base.observations.length - k :=
      List.length_drop
    rw [List.getElem?_drop]
    rcases Nat.lt_or_ge i (base.observations.length - k) with hlt | hge
    · rw [List.getElem?_append_left (hlen ▸ hlt), List.getElem?_drop]
      exact h.others (k + i) (by omega) (by omega)
    · rw [List.getElem?_append_right (hlen ▸ hge), List.getElem?_drop, hlen]
      congr 1
      omega
  · intro o ho
    obtain ⟨i, hi⟩ := List.mem_iff_getElem?.mp ho
    rw [List.getElem?_drop] at hi
    exact h.added _ o (Nat.le_add_right _ _) hi

/-- The generation changes. -/
theorem Grew.modify (h : Grew base gen keep new sums trace) {f : Node → Node}
    (hlt : gen < base.observations.length) (hf : ∀ g, keep g → keep' (f g)) :
    Grew base gen keep' new sums
      { trace with observations := trace.observations.modify gen f } := by
  obtain ⟨g, hg, hk⟩ := h.generation
  have hne : ∀ i, i ≠ gen → (trace.observations.modify gen f)[i]? = trace.observations[i]? :=
    fun i hi => List.getElem?_modify_ne _ _ (Ne.symm hi)
  refine ⟨⟨f g, ?_, hf g hk⟩, ?_, ?_, ?_, h.stages, h.rest⟩
  · rw [List.getElem?_modify_eq, hg]
    rfl
  · intro i hi hig
    rw [hne i hig]
    exact h.others i hi hig
  · rw [List.length_modify]
    exact h.length
  · intro i o hi ho
    rw [hne i (by omega)] at ho
    exact h.added i o hi ho

/-- A node is appended. -/
theorem Grew.append (h : Grew base gen keep new sums trace) {o : Node} (ho : new o) :
    Grew base gen keep new sums { trace with observations := trace.observations ++ [o] } := by
  obtain ⟨g, hg, hk⟩ := h.generation
  have hold : ∀ i, i < trace.observations.length →
      (trace.observations ++ [o])[i]? = trace.observations[i]? :=
    fun i hi => List.getElem?_append_left hi
  refine ⟨⟨g, ?_, hk⟩, ?_, ?_, ?_, h.stages, h.rest⟩
  · rw [hold gen (List.getElem?_eq_some_iff.mp hg).1]
    exact hg
  · intro i hi hig
    rw [hold i (lt_of_lt_of_le hi h.length)]
    exact h.others i hi hig
  · rw [List.length_append]
    exact le_trans h.length (Nat.le_add_right _ _)
  · intro i o' hi ho'
    rcases Nat.lt_or_ge i trace.observations.length with hlt | hge
    · rw [hold i hlt] at ho'
      exact h.added i o' hi ho'
    · rw [List.getElem?_append_right hge] at ho'
      rwa [List.mem_singleton.mp (List.mem_of_getElem? ho')]

/-- An aggregate is replaced. -/
theorem Grew.setStages (h : Grew base gen keep new sums trace) {stages : Dict String Aggregate}
    (hs : sums' stages) : Grew base gen keep new sums' { trace with stages := stages } :=
  ⟨h.generation, h.others, h.length, h.added, hs, h.rest⟩

theorem Grew.onGeneration {f : Node → Node} (hlt : gen < base.observations.length)
    (hf : ∀ g, keep g → keep' (f g)) :
    Leaves (Grew base gen keep new sums) (Grew base gen keep' new sums)
      (.onGeneration gen f) := fun _ h => h.modify hlt hf

theorem Grew.setMetadata {entries : List (String × Json)} (hlt : gen < base.observations.length)
    (hf : ∀ g, keep g → keep' (withMetadata entries g)) :
    Leaves (Grew base gen keep new sums) (Grew base gen keep' new sums)
      (setMetadata gen entries) := fun _ h => h.modify hlt hf

theorem Grew.interval {uuid name : String} {a b : ℤ} {metadata : Metadata}
    (hn : ∀ g, keep g → new (intervalNode uuid g name a b metadata)) :
    Leaves (Grew base gen keep new sums) (Grew base gen keep new sums)
      (.interval uuid gen name a b metadata) := by
  intro trace h
  obtain ⟨g, hg, hk⟩ := h.generation
  simp only [Recording.interval, hg, RequestTrace.interval]
  by_cases hab : b < a
  · rw [if_pos hab]
    exact h
  · rw [if_neg hab]
    exact h.append (hn g hk)

/-- Adding values of unknown type: where the duration is none the count is added
alone. -/
theorem Grew.addValues {stage : String} {duration count : Json}
    (hno : count.number.toOption = none → ∀ s, sums s → sums' s)
    (hadd : ∀ n, count.number = .ok n → ∀ s, sums s →
      (∀ d, addedSeconds duration = .ok d →
        sums' (s.set stage (((s.get? stage).getD {}).add d (Number.max (.int 1) n)))) ∧
      ((addedSeconds duration).toOption = none → sums' (s.set stage
        { (s.get? stage).getD {} with
          count := ((s.get? stage).getD {}).count.add (Number.max (.int 1) n) }))) :
    Leaves (Grew base gen keep new sums) (Grew base gen keep new sums')
      (addValues stage duration count) := by
  intro trace h
  unfold Stages.addValues
  cases hc : count.number with
  | error e => exact h.imp (fun _ => id) (fun _ => id) (hno (by rw [hc]; rfl))
  | ok n =>
    obtain ⟨hok, herr⟩ := hadd n hc _ h.stages
    cases hd : addedSeconds duration with
    | error e => exact h.setStages (herr (by rw [hd]; rfl))
    | ok d => exact h.setStages (hok d hd)

/-- Adding numbers, whatever their sign. -/
theorem Grew.addNumber {stages : Dict String Aggregate} (stage : String)
    {duration count : Json} {d n : Number} (hd : addedSeconds duration = .ok d)
    (hn : count.number = .ok n) :
    Leaves (Grew base gen keep new (· = stages))
      (Grew base gen keep new (· = stages.set stage
        (((stages.get? stage).getD {}).add d (Number.max (.int 1) n))))
      (Stages.addValues stage duration count) := by
  refine Grew.addValues (fun h => by rw [hn] at h; cases h) ?_
  rintro n' hn' s rfl
  cases hn.symm.trans hn'
  refine ⟨fun d' hd' => ?_, fun h => by rw [hd] at h; cases h⟩
  cases hd.symm.trans hd'
  rfl

theorem addValues_ok (stage : String) {duration count : Json} {d n : Number}
    (hd : addedSeconds duration = .ok d) (hn : count.number = .ok n) (trace : RequestTrace) :
    (addValues stage duration count trace).2 = .ok () := by
  rw [Stages.addValues, hn, hd]

/-- The check lets through intervals between the start of the generation and the
present. -/
theorem Grew.ifWithin {perf : ℚ} {a b : ℤ} {inside outside : Recording}
    {Q : RequestTrace → Prop}
    (hin : (∃ g, keep g ∧ g.startNs ≤ a) → a ≤ b → b ≤ base.nowNs perf →
      Leaves (Grew base gen keep new sums) Q inside)
    (hout : Leaves (Grew base gen keep new sums) Q outside) :
    Leaves (Grew base gen keep new sums) Q (.ifWithin gen perf a b inside outside) := by
  intro trace h
  obtain ⟨g, hg, hk⟩ := h.generation
  simp only [Recording.ifWithin, hg]
  split
  · rename_i hw
    rw [h.nowNs] at hw
    exact hin ⟨g, hk, hw.1⟩ hw.2.1 hw.2.2 trace h
  · exact hout trace h

end Grew

end VllmObserver.Adapter
