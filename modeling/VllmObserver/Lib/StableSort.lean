import Mathlib.Data.List.Sort

/-! # Precedence in a stably sorted list

`List.insertionSort` is stable, so it gives the list any stable sort gives. Two
facts say which elements come first: a strictly smaller key always does, and of
two related elements the one recorded first stays first. -/
namespace VllmObserver.Lib

variable {α : Type}

/-- Some occurrence of `p` stands before the given suffix of the list. -/
theorem mem_prefix_of_sublist {l pre post : List α} {p n : α} (hnd : l.Nodup)
    (hl : l = pre ++ n :: post) (h : [p, n].Sublist l) : p ∈ pre := by
  subst hl
  obtain ⟨_, hrest, hdis⟩ := List.nodup_append.mp hnd
  have hn : n ∉ post := (List.nodup_cons.mp hrest).1
  -- the pair splits over the append; `n` can only be matched at its own place
  obtain ⟨l₁, l₂, he, h₁, h₂⟩ := List.sublist_append_iff.mp h
  cases l₁ with
  | nil =>
    have hsub : [p, n].Sublist (n :: post) := by simpa [he] using h₂
    cases hsub with
    | cons _ hs => exact absurd (hs.subset (by simp)) hn
    | cons_cons _ hs => exact absurd (List.singleton_sublist.mp hs) hn
  | cons x l₁ =>
    have hx : p = x := by simpa using congrArg List.head? he
    subst hx
    exact h₁.subset (by simp)

/-- Conversely an element that follows `n` is not in front of it. -/
theorem not_mem_prefix_of_sublist {l pre post : List α} {p n : α} (hnd : l.Nodup)
    (hl : l = pre ++ n :: post) (h : [n, p].Sublist l) : p ∉ pre := by
  intro hp
  obtain ⟨u, v, rfl⟩ := List.append_of_mem hp
  have hn : n ∈ u := mem_prefix_of_sublist hnd (by simpa using hl) h
  have hdis := (List.nodup_append.mp (hl ▸ hnd)).2.2
  exact hdis n (by simp [hn]) n (by simp) rfl

theorem pair_sublist_append {p n : α} {xs ys : List α} (hp : p ∈ xs) (hn : n ∈ ys) :
    [p, n].Sublist (xs ++ ys) :=
  (List.singleton_sublist.mpr hp).append (List.singleton_sublist.mpr hn)

/-- Positions of a list in order give a pair in order. -/
theorem pair_sublist_of_lt {l : List α} {i j : ℕ} {p n : α} (hi : l[i]? = some p)
    (hj : l[j]? = some n) (h : i < j) : [p, n].Sublist l := by
  have hp : p ∈ l.take j := List.mem_of_getElem? (i := i) (by rw [List.getElem?_take_of_lt h, hi])
  have hn : n ∈ l.drop j := List.mem_of_getElem? (i := 0) (by simpa using hj)
  simpa using pair_sublist_append hp hn

/-- A position splits the list. -/
theorem split_at {l : List α} {i : ℕ} {x : α} (h : l[i]? = some x) :
    ∃ pre post, l = pre ++ x :: post ∧ pre.length = i := by
  obtain ⟨hlt, hx⟩ := List.getElem?_eq_some_iff.mp h
  refine ⟨l.take i, l.drop (i + 1), ?_, by rw [List.length_take]; omega⟩
  rw [← hx, List.getElem_cons_drop, List.take_append_drop]

/-- Positions in order split it twice. -/
theorem split_pair {l : List α} {i j : ℕ} {x y : α} (hi : l[i]? = some x)
    (hj : l[j]? = some y) (h : i < j) : ∃ pre mid post, l = pre ++ x :: (mid ++ y :: post) ∧
      pre.length = i ∧ (pre ++ x :: mid).length = j := by
  obtain ⟨pre, rest, rfl, rfl⟩ := split_at hi
  obtain ⟨k, rfl⟩ : ∃ k, j = pre.length + (k + 1) := ⟨j - pre.length - 1, by omega⟩
  rw [List.getElem?_append_right (by omega), Nat.add_sub_cancel_left,
    List.getElem?_cons_succ] at hj
  obtain ⟨mid, post, rfl, rfl⟩ := split_at hj
  exact ⟨pre, mid, post, rfl, rfl, by simp⟩

/-- A split of a filtered list comes from a split of the list. -/
theorem filter_split {l pre post : List α} {n : α} {q : α → Bool}
    (h : l.filter q = pre ++ n :: post) :
    ∃ l₁ l₂, l = l₁ ++ n :: l₂ ∧ pre = l₁.filter q := by
  obtain ⟨a, b, rfl, ha, hb⟩ := List.filter_eq_append_iff.mp h
  obtain ⟨c, d, rfl, hc, _, _⟩ := List.filter_eq_cons_iff.mp hb
  refine ⟨a ++ c, d, by simp, ?_⟩
  rw [List.filter_append, ha, List.filter_eq_nil_iff.mpr hc, List.append_nil]

/-- A split of a list that was mapped and filtered comes from a split of the list. -/
theorem filterMap_split {β : Type} {f : α → Option β} {l : List α} {pre post : List β} {b : β}
    (h : l.filterMap f = pre ++ b :: post) : ∃ l₁ a l₂, l = l₁ ++ a :: l₂ ∧ f a = some b ∧
      pre = l₁.filterMap f ∧ post = l₂.filterMap f := by
  obtain ⟨u, v, rfl, hu, hv⟩ := List.filterMap_eq_append_iff.mp h
  obtain ⟨w, a, x, rfl, hw, ha, hx⟩ := List.filterMap_eq_cons_iff.mp hv
  refine ⟨u ++ w, a, x, by simp, ha, ?_, hx.symm⟩
  rw [List.filterMap_append, hu, List.filterMap_eq_nil_iff.mpr hw, List.append_nil]

section Sorted
variable (r : α → α → Prop) [DecidableRel r]

/-- An element that is strictly below `n` precedes every occurrence of `n`. -/
theorem mem_prefix_of_not_rel [Std.Total r] [IsTrans α r] {l pre post : List α} {p n : α}
    (hl : l.insertionSort r = pre ++ n :: post) (hp : p ∈ l) (hlt : ¬ r n p) : p ∈ pre := by
  have hs := List.pairwise_insertionSort r l
  have hm : p ∈ pre ++ n :: post := hl ▸ (List.mem_insertionSort r).mpr hp
  rw [hl] at hs
  rcases List.mem_append.mp hm with h | h
  · exact h
  · have hn := (List.pairwise_append.mp hs).2.1
    rcases List.mem_cons.mp h with rfl | h
    · exact absurd (Std.Total.total (r := r) p p |>.elim id id) hlt
    · exact absurd ((List.pairwise_cons.mp hn).1 p h) hlt

/-- Stability: of two related elements the earlier one stays earlier. -/
theorem mem_prefix_of_pair {l pre post : List α} {p n : α} (hnd : l.Nodup)
    (hl : l.insertionSort r = pre ++ n :: post) (h : [p, n].Sublist l) (hr : r p n) :
    p ∈ pre :=
  mem_prefix_of_sublist ((List.perm_insertionSort r l).nodup_iff.mpr hnd) hl
    (List.pair_sublist_insertionSort hr h)

end Sorted

end VllmObserver.Lib
