import Mathlib.Data.List.Nodup
import Mathlib.Data.List.Dedup
import Mathlib.Data.List.Sort

/-! # Insertion-ordered dictionaries

A dictionary keeps its entries in insertion order. Assigning to a present key
replaces the value and keeps the key's position, as Python's `dict` does. Every
key occurs once, which the structure carries as a field. -/
namespace VllmObserver.Lib

variable {κ ν : Type} [DecidableEq κ]

/-- Replace the value of `k` in place, or append the entry. -/
def setEntries (k : κ) (v : ν) : List (κ × ν) → List (κ × ν)
  | [] => [(k, v)]
  | e :: rest => if e.1 = k then (k, v) :: rest else e :: setEntries k v rest

theorem keys_setEntries (k : κ) (v : ν) : ∀ es : List (κ × ν),
    (setEntries k v es).map Prod.fst =
      if k ∈ es.map Prod.fst then es.map Prod.fst else es.map Prod.fst ++ [k]
  | [] => by simp [setEntries]
  | e :: rest => by
    have ih := keys_setEntries k v rest
    by_cases he : e.1 = k
    · simp [setEntries, he]
    · simp only [setEntries, if_neg he, List.map_cons, ih, List.mem_cons, Ne.symm he, false_or]
      split <;> rfl

theorem nodup_setEntries (k : κ) (v : ν) {es : List (κ × ν)}
    (h : (es.map Prod.fst).Nodup) : ((setEntries k v es).map Prod.fst).Nodup := by
  rw [keys_setEntries]
  split
  · exact h
  · rename_i hk
    rw [List.nodup_append]
    refine ⟨h, List.nodup_singleton k, ?_⟩
    intro a ha b hb he
    rw [List.mem_singleton] at hb
    exact hk (hb ▸ he ▸ ha)

structure Dict (κ ν : Type) where
  entries : List (κ × ν)
  nodup : (entries.map Prod.fst).Nodup

namespace Dict

instance [DecidableEq ν] : DecidableEq (Dict κ ν) := fun a b =>
  decidable_of_iff (a.entries = b.entries) (by cases a; cases b; simp)

def empty : Dict κ ν := ⟨[], by simp⟩

def keys (d : Dict κ ν) : List κ := d.entries.map Prod.fst

def get? (d : Dict κ ν) (k : κ) : Option ν := d.entries.lookup k

def set (d : Dict κ ν) (k : κ) (v : ν) : Dict κ ν :=
  ⟨setEntries k v d.entries, nodup_setEntries k v d.nodup⟩

def erase (d : Dict κ ν) (k : κ) : Dict κ ν :=
  ⟨d.entries.filter (fun e => e.1 ≠ k),
    d.nodup.sublist (List.filter_sublist.map Prod.fst)⟩

/-- Rewrite every value in place. -/
def mapValues {ν' : Type} (f : κ → ν → ν') (d : Dict κ ν) : Dict κ ν' :=
  ⟨d.entries.map (fun e => (e.1, f e.1 e.2)), by simpa [Function.comp_def] using d.nodup⟩

/-- Assign the entries of a list from left to right, later ones winning. -/
def update (d : Dict κ ν) (es : List (κ × ν)) : Dict κ ν :=
  es.foldl (fun d e => d.set e.1 e.2) d

def ofList (es : List (κ × ν)) : Dict κ ν := empty.update es

theorem lookup_setEntries (k k' : κ) (v : ν) : ∀ es : List (κ × ν),
    (setEntries k v es).lookup k' = if k' = k then some v else es.lookup k'
  | [] => by
    by_cases h : k' = k
    · simp [setEntries, h]
    · have hb : (k' == k) = false := by simpa using h
      simp [setEntries, List.lookup_cons, h, hb]
  | (k₀, v₀) :: rest => by
    have ih := lookup_setEntries k k' v rest
    by_cases he : k₀ = k
    · subst he
      by_cases h : k' = k₀
      · simp [setEntries, h]
      · have hb : (k' == k₀) = false := by simpa using h
        simp [setEntries, List.lookup_cons, h, hb]
    · simp only [setEntries, if_neg he, List.lookup_cons, ih]
      by_cases h : k' = k
      · subst h
        have hb : (k' == k₀) = false := by simpa using Ne.symm he
        simp [hb]
      · simp [h]

@[simp] theorem get?_empty (k : κ) : (empty : Dict κ ν).get? k = none := rfl

theorem get?_set (d : Dict κ ν) (k k' : κ) (v : ν) :
    (d.set k v).get? k' = if k' = k then some v else d.get? k' :=
  lookup_setEntries k k' v d.entries

theorem get?_erase (d : Dict κ ν) (k k' : κ) :
    (d.erase k).get? k' = if k' = k then none else d.get? k' := by
  obtain ⟨es, hes⟩ := d
  simp only [get?, erase]
  clear hes
  induction es with
  | nil => simp
  | cons e rest ih =>
    obtain ⟨k₀, v₀⟩ := e
    by_cases h₀ : k₀ = k
    · rw [List.filter_cons_of_neg (by simp [h₀]), ih]
      by_cases h : k' = k
      · simp [h]
      · have hb : (k' == k₀) = false := by simpa [h₀] using h
        simp [h, List.lookup_cons, hb]
    · rw [List.filter_cons_of_pos (by simp [h₀]), List.lookup_cons, List.lookup_cons, ih]
      by_cases h : k' = k
      · have hb : (k == k₀) = false := by simpa using Ne.symm h₀
        simp [h, hb]
      · simp [h]

theorem get?_mapValues {ν' : Type} (f : κ → ν → ν') (d : Dict κ ν) (k : κ) :
    (d.mapValues f).get? k = (d.get? k).map (f k) := by
  obtain ⟨es, hes⟩ := d
  simp only [get?, mapValues]
  clear hes
  induction es with
  | nil => rfl
  | cons e rest ih =>
    obtain ⟨k₀, v₀⟩ := e
    rw [List.map_cons, List.lookup_cons, List.lookup_cons, ih]
    by_cases h : k = k₀
    · simp [h]
    · have hb : (k == k₀) = false := by simpa using h
      simp [hb]

theorem get?_set_some {d : Dict κ ν} {k k' : κ} {v v' : ν} (h : (d.set k v).get? k' = some v') :
    k' = k ∧ v' = v ∨ k' ≠ k ∧ d.get? k' = some v' := by
  rw [get?_set] at h
  split at h
  · exact Or.inl ⟨‹_›, (Option.some.inj h).symm⟩
  · exact Or.inr ⟨‹_›, h⟩

theorem get?_erase_some {d : Dict κ ν} {k k' : κ} {v : ν} (h : (d.erase k).get? k' = some v) :
    k' ≠ k ∧ d.get? k' = some v := by
  rw [get?_erase] at h
  split at h
  · cases h
  · exact ⟨‹_›, h⟩

/-- Assigned entries win, the others stay. -/
theorem get?_update {es : List (κ × ν)} (h : (es.map Prod.fst).Nodup) (d : Dict κ ν) (k : κ) :
    (d.update es).get? k = (es.lookup k).or (d.get? k) := by
  induction es generalizing d with
  | nil => rfl
  | cons e rest ih =>
    obtain ⟨k₀, v₀⟩ := e
    rw [List.map_cons, List.nodup_cons] at h
    rw [update, List.foldl_cons]
    refine (ih h.2 (d.set k₀ v₀)).trans ?_
    rw [get?_set, List.lookup_cons]
    by_cases hk : k = k₀
    · have hn : rest.lookup k = none := by
        rw [List.lookup_eq_none_iff]
        intro p hp
        have hne : k ≠ p.1 := fun he => h.1 (List.mem_map.mpr ⟨p, hp, he.symm.trans hk⟩)
        simpa using hne
      simp [hk, hk ▸ hn]
    · have hb : (k == k₀) = false := by simpa using hk
      simp [hk, hb]

/-- A key that is not assigned keeps its value. -/
theorem get?_update_of_not_mem {es : List (κ × ν)} {k : κ} (h : k ∉ es.map Prod.fst)
    (d : Dict κ ν) : (d.update es).get? k = d.get? k := by
  induction es generalizing d with
  | nil => rfl
  | cons e rest ih =>
    rw [List.map_cons, List.mem_cons, not_or] at h
    rw [update, List.foldl_cons]
    refine (ih h.2 (d.set e.1 e.2)).trans ?_
    rw [get?_set, if_neg h.1]

theorem ofList_append (es es' : List (κ × ν)) : ofList (es ++ es') = (ofList es).update es' :=
  List.foldl_append

theorem entries_set_of_not_mem {d : Dict κ ν} {k : κ} (h : k ∉ d.keys) (v : ν) :
    (d.set k v).entries = d.entries ++ [(k, v)] := by
  obtain ⟨es, hes⟩ := d
  simp only [keys, set] at h ⊢
  clear hes
  induction es with
  | nil => rfl
  | cons e rest ih =>
    rw [List.map_cons, List.mem_cons, not_or] at h
    rw [setEntries, if_neg (Ne.symm h.1), ih h.2]
    rfl

/-- New keys are appended. -/
theorem entries_update_of_disjoint {es : List (κ × ν)} (h : (es.map Prod.fst).Nodup)
    {d : Dict κ ν} (hd : ∀ k ∈ es.map Prod.fst, k ∉ d.keys) :
    (d.update es).entries = d.entries ++ es := by
  induction es generalizing d with
  | nil => exact (List.append_nil _).symm
  | cons e rest ih =>
    rw [List.map_cons, List.nodup_cons] at h
    have hnew : e.1 ∉ d.keys := hd e.1 List.mem_cons_self
    have hrest : ∀ k ∈ rest.map Prod.fst, k ∉ (d.set e.1 e.2).keys := by
      intro k hk
      rw [keys, entries_set_of_not_mem hnew, List.map_append, List.mem_append, not_or]
      refine ⟨hd k (List.mem_cons_of_mem _ hk), ?_⟩
      rw [List.map_singleton, List.mem_singleton]
      rintro rfl
      exact h.1 hk
    rw [update, List.foldl_cons]
    refine (ih h.2 hrest).trans ?_
    rw [entries_set_of_not_mem hnew, List.append_assoc]
    rfl

theorem entries_ofList {es : List (κ × ν)} (h : (es.map Prod.fst).Nodup) :
    (ofList es).entries = es :=
  entries_update_of_disjoint h fun _ _ hk => by cases hk

theorem ofList_entries (d : Dict κ ν) : ofList d.entries = d := by
  have hext : ∀ e : Dict κ ν, e.entries = d.entries → e = d := by
    intro e h
    cases d
    cases e
    cases h
    rfl
  exact hext _ (entries_ofList d.nodup)

theorem get?_update_dict (d e : Dict κ ν) (k : κ) :
    (d.update e.entries).get? k = (e.get? k).or (d.get? k) := get?_update e.nodup d k

omit [DecidableEq κ] in
@[simp] theorem keys_empty : (empty : Dict κ ν).keys = [] := rfl

theorem keys_set (d : Dict κ ν) (k : κ) (v : ν) :
    (d.set k v).keys = if k ∈ d.keys then d.keys else d.keys ++ [k] :=
  keys_setEntries k v d.entries

theorem mem_keys_set {d : Dict κ ν} {k k' : κ} {v : ν} :
    k' ∈ (d.set k v).keys ↔ k' = k ∨ k' ∈ d.keys := by
  rw [keys_set]
  split
  · rename_i h
    exact ⟨Or.inr, fun h' => h'.elim (fun e => e ▸ h) id⟩
  · simp [or_comm]

theorem mem_keys_update {d : Dict κ ν} {es : List (κ × ν)} {k : κ} :
    k ∈ (d.update es).keys ↔ k ∈ es.map Prod.fst ∨ k ∈ d.keys := by
  induction es generalizing d with
  | nil => simp [update]
  | cons e rest ih =>
    rw [update, List.foldl_cons]
    refine (ih (d := d.set e.1 e.2)).trans ?_
    rw [mem_keys_set, List.map_cons, List.mem_cons]
    tauto

theorem mem_keys_ofList {es : List (κ × ν)} {k : κ} :
    k ∈ (ofList es).keys ↔ k ∈ es.map Prod.fst := by
  rw [ofList, mem_keys_update]
  simp

/-- A dictionary has no entries that were not assigned. -/
theorem mem_of_get?_update {es : List (κ × ν)} {d : Dict κ ν} {k : κ} {v : ν}
    (h : (d.update es).get? k = some v) : (k, v) ∈ es ∨ d.get? k = some v := by
  induction es generalizing d with
  | nil => exact .inr h
  | cons e rest ih =>
    rw [update, List.foldl_cons] at h
    rcases ih h with hrest | hset
    · exact .inl (List.mem_cons_of_mem e hrest)
    · rcases get?_set_some hset with ⟨rfl, rfl, -⟩ | ⟨-, hd⟩
      · exact .inl List.mem_cons_self
      · exact .inr hd

theorem mem_keys_erase {d : Dict κ ν} {k k' : κ} :
    k' ∈ (d.erase k).keys ↔ k' ≠ k ∧ k' ∈ d.keys := by
  simp only [keys, erase, List.mem_map, List.mem_filter, decide_eq_true_eq]
  constructor
  · rintro ⟨e, ⟨he, hne⟩, rfl⟩
    exact ⟨hne, e, he, rfl⟩
  · rintro ⟨hne, e, he, rfl⟩
    exact ⟨e, ⟨he, hne⟩, rfl⟩

omit [DecidableEq κ] in
@[simp] theorem keys_mapValues {ν' : Type} (f : κ → ν → ν') (d : Dict κ ν) :
    (d.mapValues f).keys = d.keys := by
  simp [keys, mapValues, Function.comp_def]

theorem mem_keys_iff {d : Dict κ ν} {k : κ} : k ∈ d.keys ↔ ∃ v, d.get? k = some v := by
  obtain ⟨es, hes⟩ := d
  simp only [keys, get?]
  clear hes
  induction es with
  | nil => simp
  | cons e rest ih =>
    obtain ⟨k₀, v₀⟩ := e
    by_cases h : k = k₀
    · simp [h]
    · have hb : (k == k₀) = false := by simpa using h
      simp [List.lookup_cons, h, hb, ih]

theorem mem_entries_of_get? {d : Dict κ ν} {k : κ} {v : ν} (h : d.get? k = some v) :
    (k, v) ∈ d.entries := by
  obtain ⟨before, after, heq, -⟩ := List.lookup_eq_some_iff.mp h
  rw [heq]
  simp

theorem mem_entries_iff {d : Dict κ ν} {k : κ} {v : ν} :
    (k, v) ∈ d.entries ↔ d.get? k = some v := by
  refine ⟨fun h => ?_, mem_entries_of_get?⟩
  obtain ⟨v', hv'⟩ := mem_keys_iff.mp (List.mem_map_of_mem (f := Prod.fst) h)
  have heq := List.inj_on_of_nodup_map d.nodup h (mem_entries_of_get? hv') rfl
  rw [hv', Prod.mk.inj heq |>.2]

theorem get?_eq_none_iff {d : Dict κ ν} {k : κ} : d.get? k = none ↔ k ∉ d.keys := by
  rw [mem_keys_iff]
  cases d.get? k <;> simp

omit [DecidableEq κ] in
theorem keys_nodup (d : Dict κ ν) : d.keys.Nodup := d.nodup

section Sorted
variable {κ ν : Type} [LinearOrder κ] (d : Dict κ ν)

/-- The entries in the order of their keys. As these differ, the values are
never compared. -/
def sorted : List (κ × ν) := d.entries.insertionSort (fun a b => a.1 ≤ b.1)

theorem mem_sorted {d : Dict κ ν} {e : κ × ν} : e ∈ d.sorted ↔ e ∈ d.entries :=
  List.mem_insertionSort _

theorem sorted_increasing : (d.sorted.map Prod.fst).Pairwise (· < ·) := by
  have hle : d.sorted.Pairwise (fun a b => a.1 ≤ b.1) := List.pairwise_insertionSort _ _
  have hperm : d.sorted.Perm d.entries := List.perm_insertionSort _ _
  have hne : (d.sorted.map Prod.fst).Nodup := (hperm.map Prod.fst).nodup_iff.mpr d.nodup
  exact ((List.pairwise_map.mpr hle).and hne).imp fun ⟨hab, hab'⟩ => lt_of_le_of_ne hab hab'

end Sorted

end Dict

end VllmObserver.Lib
