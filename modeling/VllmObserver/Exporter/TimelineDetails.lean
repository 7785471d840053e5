import VllmObserver.Exporter.TimelineShape
import Mathlib.Data.List.Induction

/-! # Nesting of the API details

After clipping, the last `input_process` and the last `output_processor_add`
move under the last `submit_engine` when it encloses them. `place` says where
each detail ends up; `reparent` puts every detail there. -/
namespace VllmObserver.Exporter
open VllmObserver.Lib VllmObserver.Core

theorem assigned_append (ds : List Detail) (d : Detail) :
    assigned (ds ++ [d]) = (assigned ds).set d.rawName ds.length := by
  simp [assigned, List.zipIdx_append, List.foldl_append]

/-- A recorded name refers to its last detail. -/
theorem assigned_get? (ds : List Detail) (name : String) (i : ℕ) :
    (assigned ds).get? name = some i ↔ ∃ d, ds[i]? = some d ∧ d.rawName = name ∧
      ∀ (k : ℕ) (e : Detail), ds[k]? = some e → e.rawName = name → k ≤ i := by
  induction ds using List.reverseRecOn generalizing i with
  | nil => simp [assigned]
  | append_singleton ds d ih =>
    rw [assigned_append, Dict.get?_set]
    by_cases hn : name = d.rawName
    · rw [if_pos hn]
      constructor
      · intro h
        cases h
        refine ⟨d, by simp, hn.symm, ?_⟩
        intro k e hk _
        have := (List.getElem?_eq_some_iff.mp hk).1
        simp only [List.length_append, List.length_singleton] at this
        omega
      · rintro ⟨e, he, _, hlast⟩
        have h1 := hlast ds.length d (by simp) hn.symm
        have h2 := (List.getElem?_eq_some_iff.mp he).1
        simp only [List.length_append, List.length_singleton] at h2
        exact congrArg some (by omega)
    · rw [if_neg hn, ih]
      have key : ∀ (k : ℕ) (e : Detail), (ds ++ [d])[k]? = some e → e.rawName = name →
          ds[k]? = some e := by
        intro k e hk hne
        rcases Nat.lt_or_ge k ds.length with hlt | hge
        · rwa [List.getElem?_append_left hlt] at hk
        · have hlen := (List.getElem?_eq_some_iff.mp hk).1
          simp only [List.length_append, List.length_singleton] at hlen
          obtain rfl : k = ds.length := by omega
          rw [List.getElem?_concat_length] at hk
          exact absurd (Option.some.inj hk ▸ hne).symm hn
      constructor
      · rintro ⟨e, he, hne, hlast⟩
        have hlt := (List.getElem?_eq_some_iff.mp he).1
        exact ⟨e, by rw [List.getElem?_append_left hlt]; exact he, hne,
          fun k e' hk hn' => hlast k e' (key k e' hk hn') hn'⟩
      · rintro ⟨e, he, hne, hlast⟩
        refine ⟨e, key i e he hne, hne, fun k e' hk hn' => hlast k e' ?_ hn'⟩
        rw [List.getElem?_append_left (List.getElem?_eq_some_iff.mp hk).1]
        exact hk

/-- The same by a split of the list: no detail of the name follows. -/
theorem assigned_split (pre post : List Detail) (d : Detail) (name : String) :
    (assigned (pre ++ d :: post)).get? name = some pre.length ↔
      d.rawName = name ∧ ∀ e ∈ post, e.rawName ≠ name := by
  rw [assigned_get?]
  have hat : (pre ++ d :: post)[pre.length]? = some d := by simp
  constructor
  · rintro ⟨d', hd', hn, hlast⟩
    obtain rfl := Option.some.inj (hat.symm.trans hd')
    refine ⟨hn, fun e he hen => ?_⟩
    obtain ⟨k, hk⟩ := List.mem_iff_getElem?.mp he
    have hle := hlast (pre.length + (k + 1)) e
      (by rw [List.getElem?_append_right (by omega)]; simpa using hk) hen
    omega
  · rintro ⟨hn, hpost⟩
    refine ⟨d, hat, hn, fun k e hk hen => ?_⟩
    by_contra hlt
    rw [List.getElem?_append_right (by omega)] at hk
    obtain ⟨m, hm⟩ : ∃ m, k - pre.length = m + 1 := ⟨k - pre.length - 1, by omega⟩
    rw [hm, List.getElem?_cons_succ] at hk
    exact hpost e (List.mem_of_getElem? hk) hen

/-- The `submit_engine` detail that nested calls move under. -/
def submitOf (ds : List Detail) : Option Detail :=
  ((assigned ds).get? "submit_engine").bind fun j => ds[j]?

/-- The detail at position `i` moves under `submit`. -/
def MovesUnder (ds : List Detail) (i : ℕ) (d submit : Detail) : Prop :=
  d.rawName ∈ nestedCalls ∧ (assigned ds).get? d.rawName = some i ∧
    submit.startNs ≤ d.startNs ∧ d.endNs ≤ submit.endNs

instance (ds : List Detail) (i : ℕ) (d submit : Detail) : Decidable (MovesUnder ds i d submit) :=
  inferInstanceAs (Decidable (_ ∧ _ ∧ _ ∧ _))

/-- Where the detail at position `i` ends up. -/
def place (ds : List Detail) (i : ℕ) (d : Detail) : Detail :=
  match submitOf ds with
  | some submit => if MovesUnder ds i d submit then d.setParent submit.node.id else d
  | none => d

theorem place_cases (ds : List Detail) (i : ℕ) (d : Detail) :
    place ds i d = d ∨ ∃ submit, submitOf ds = some submit ∧ MovesUnder ds i d submit ∧
      place ds i d = d.setParent submit.node.id := by
  unfold place
  split
  · rename_i submit hs
    split
    · rename_i hm
      exact Or.inr ⟨submit, hs, hm, rfl⟩
    · exact Or.inl rfl
  · exact Or.inl rfl

theorem place_of_not_nested {ds : List Detail} {i : ℕ} {d : Detail} (h : d.rawName ∉ nestedCalls) :
    place ds i d = d := by
  rcases place_cases ds i d with he | ⟨_, _, hm, _⟩
  · exact he
  · exact absurd hm.1 h

/-- Only the last detail of a name moves. -/
theorem place_of_not_assigned {ds : List Detail} {i : ℕ} {d : Detail}
    (h : (assigned ds).get? d.rawName ≠ some i) : place ds i d = d := by
  rcases place_cases ds i d with he | ⟨_, _, hm, _⟩
  · exact he
  · exact absurd hm.2.1 h

/-- The details once the intervals named in `names` have been visited. -/
def visited (ds : List Detail) (names : List String) : List Detail :=
  ds.mapIdx fun i d => if d.rawName ∈ names then place ds i d else d

theorem visited_getElem? (ds : List Detail) (names : List String) (i : ℕ) :
    (visited ds names)[i]? = ds[i]?.map fun d =>
      if d.rawName ∈ names then place ds i d else d := by
  simp [visited, List.getElem?_mapIdx]

/-- Visiting a name that moves nothing. -/
theorem visited_of_stay {ds : List Detail} {names : List String} {name : String}
    (h : ∀ (i : ℕ) (d : Detail), ds[i]? = some d → d.rawName = name → place ds i d = d) :
    visited ds (names ++ [name]) = visited ds names := by
  apply List.ext_getElem?
  intro i
  rw [visited_getElem?, visited_getElem?]
  cases hd : ds[i]? with
  | none => rfl
  | some d =>
    simp only [Option.map_some, List.mem_append, List.mem_singleton]
    by_cases hn : d.rawName = name
    · simp [hn, h i d hd hn]
    · simp [hn]

/-- A visit before may have moved a detail already, to the same place. -/
theorem visited_at {ds : List Detail} {i : ℕ} {d : Detail} (hd : ds[i]? = some d)
    (names : List String) : ∃ d', (visited ds names)[i]? = some d' ∧
      d'.startNs = d.startNs ∧ d'.endNs = d.endNs ∧ ∀ p, d'.setParent p = d.setParent p := by
  rw [visited_getElem?, hd, Option.map_some]
  refine ⟨_, rfl, ?_⟩
  split
  · rcases place_cases ds i d with he | ⟨_, _, _, he⟩ <;> rw [he]
    · exact ⟨rfl, rfl, fun _ => rfl⟩
    · exact ⟨rfl, rfl, fun _ => rfl⟩
  · exact ⟨rfl, rfl, fun _ => rfl⟩

/-- Visiting the name of a detail that moves. -/
theorem visited_of_move {ds : List Detail} {names : List String} {i : ℕ} {d : Detail}
    (hi : (assigned ds).get? d.rawName = some i) (hd : ds[i]? = some d) :
    (visited ds names).set i (place ds i d) = visited ds (names ++ [d.rawName]) := by
  apply List.ext_getElem?
  intro k
  by_cases hk : i = k
  · subst hk
    have hlt : i < (visited ds names).length := by
      simpa [visited] using (List.getElem?_eq_some_iff.mp hd).1
    rw [List.getElem?_set_self hlt, visited_getElem?, hd]
    simp
  · rw [List.getElem?_set_ne hk, visited_getElem?, visited_getElem?]
    cases he : ds[k]? with
    | none => rfl
    | some e =>
      simp only [Option.map_some, List.mem_append, List.mem_singleton]
      by_cases hn : e.rawName = d.rawName
      · have hstay : place ds k e = e := by
          refine place_of_not_assigned ?_
          rw [hn, hi]
          simpa using hk
        simp [hn, hstay]
      · simp [hn]

/-- One visit of the loop is one name visited more. -/
theorem reparentOne_visited (ds : List Detail) (names : List String) (node : Node) :
    reparentOne (assigned ds) (visited ds names) node = visited ds (names ++ [node.name]) := by
  unfold reparentOne
  by_cases hin : node.name ∈ nestedCalls
  swap
  · rw [if_neg hin, visited_of_stay]
    intro i d _ hn
    exact place_of_not_nested (hn ▸ hin)
  rw [if_pos hin]
  -- the visit moves the last detail of this name, if anything
  cases hi : (assigned ds).get? node.name with
  | none =>
    rw [visited_of_stay]
    intro i d _ hn
    exact place_of_not_assigned (by simp [hn, hi])
  | some i =>
    cases hj : (assigned ds).get? "submit_engine" with
    | none =>
      rw [visited_of_stay]
      intro k d _ _
      simp [place, submitOf, hj]
    | some j =>
      obtain ⟨d, hd, hdn, _⟩ := (assigned_get? ds node.name i).mp hi
      obtain ⟨s, hs, hsn, _⟩ := (assigned_get? ds "submit_engine" j).mp hj
      have hsub : submitOf ds = some s := by simp [submitOf, hj, hs]
      have hsin : s.rawName ∉ nestedCalls := by rw [hsn]; decide
      have hvs : (visited ds names)[j]? = some s := by
        rw [visited_getElem?, hs, Option.map_some, place_of_not_nested hsin, ite_self]
      obtain ⟨d', hvd, hstart, hend, hset⟩ := visited_at hd names
      simp only [hvd, hvs, hstart, hend, hset]
      rw [← hdn] at hi hin ⊢
      by_cases hc : s.startNs ≤ d.startNs ∧ d.endNs ≤ s.endNs
      · have hpl : place ds i d = d.setParent s.node.id := by
          simp [place, hsub, MovesUnder, hin, hi, hc]
        rw [if_pos hc, ← hpl, visited_of_move hi hd]
      · rw [if_neg hc, visited_of_stay]
        intro k e he hn
        by_cases hk : i = k
        · subst hk
          obtain rfl := Option.some.inj (hd.symm.trans he)
          simp [place, hsub, MovesUnder, hc]
        · refine place_of_not_assigned ?_
          rw [hn, hi]
          simpa using hk

theorem reparent_visited (ds : List Detail) (intervals : List Node) :
    reparent intervals ds = visited ds (intervals.map Node.name) := by
  have h0 : visited ds [] = ds := by
    apply List.ext_getElem?
    intro i
    rw [visited_getElem?]
    cases ds[i]? <;> simp
  have aux : ∀ (rest : List Node) (names : List String),
      rest.foldl (reparentOne (assigned ds)) (visited ds names) =
        visited ds (names ++ rest.map Node.name) := by
    intro rest
    induction rest with
    | nil => simp
    | cons node rest ih =>
      intro names
      rw [List.foldl_cons, reparentOne_visited, ih]
      simp
  have h := aux intervals []
  rwa [h0, List.nil_append] at h

/-- Every detail ends up where `place` says. -/
theorem reparent_eq {intervals : List Node} {ds : List Detail}
    (h : ∀ d ∈ ds, ∃ n ∈ intervals, n.name = d.rawName) :
    reparent intervals ds = ds.mapIdx (place ds) := by
  rw [reparent_visited]
  apply List.ext_getElem?
  intro i
  rw [visited_getElem?, List.getElem?_mapIdx]
  cases hd : ds[i]? with
  | none => rfl
  | some d =>
    obtain ⟨n, hn, he⟩ := h d (List.mem_of_getElem? hd)
    have hm : d.rawName ∈ intervals.map Node.name := List.mem_map.mpr ⟨n, hn, he⟩
    simp only [Option.map_some, if_pos hm]

end VllmObserver.Exporter
