import Mathlib.Algebra.BigOperators.Group.List.Basic
import VllmObserver.Lib.Dict
import VllmObserver.Lib.Runs

/-! # Ledgers

Accounts that amounts are posted to. After a run of postings the accounts of a
group hold together what they held and what was posted to them; a single account
is such a group. -/
namespace VllmObserver.Lib

variable {κ M : Type} [DecidableEq κ] [AddCommMonoid M]

/-- What an account holds. One that was not opened holds nothing. -/
def balance (accounts : Dict κ M) (k : κ) : M := (accounts.get? k).getD 0

def post (accounts : Dict κ M) (entry : κ × M) : Dict κ M :=
  accounts.set entry.1 (balance accounts entry.1 + entry.2)

/-- The amounts posted to the accounts of a group. -/
def postedTo (group : κ → Bool) (entries : List (κ × M)) : List M :=
  (entries.filter fun entry => group entry.1).map Prod.snd

/-- What the accounts of a group hold together. -/
def holdings (group : κ → Bool) (accounts : Dict κ M) : M := (postedTo group accounts.entries).sum

omit [DecidableEq κ] [AddCommMonoid M] in
theorem postedTo_append (group : κ → Bool) (xs ys : List (κ × M)) :
    postedTo group (xs ++ ys) = postedTo group xs ++ postedTo group ys := by
  rw [postedTo, List.filter_append, List.map_append]
  rfl

omit [DecidableEq κ] in
theorem sum_postedTo_cons (group : κ → Bool) (entry : κ × M) (rest : List (κ × M)) :
    (postedTo group (entry :: rest)).sum =
      (if group entry.1 then entry.2 else 0) + (postedTo group rest).sum := by
  by_cases h : group entry.1
  · simp [postedTo, h]
  · simp [postedTo, h]

/-- Replacing an entry changes the sum by the difference. -/
theorem sum_setEntries (group : κ → Bool) (k : κ) (x : M) : ∀ entries : List (κ × M),
    (postedTo group (setEntries k ((entries.lookup k).getD 0 + x) entries)).sum =
      (postedTo group entries).sum + if group k then x else 0
  | [] => by
    rw [setEntries, sum_postedTo_cons, List.lookup_nil, Option.getD_none, zero_add, add_comm]
  | (k₀, x₀) :: rest => by
    by_cases h : k₀ = k
    · subst h
      rw [setEntries, if_pos rfl, sum_postedTo_cons, sum_postedTo_cons]
      simp only [List.lookup_cons, beq_self_eq_true, Option.getD_some]
      split
      · exact add_right_comm _ _ _
      · rw [add_zero]
    · have hb : (k == k₀) = false := by simpa using Ne.symm h
      rw [setEntries, if_neg h, List.lookup_cons, hb, sum_postedTo_cons, sum_postedTo_cons,
        sum_setEntries group k x rest, add_assoc]

/-- **A group of accounts holds together what was posted to it.** -/
theorem holdings_run (group : κ → Bool) : ∀ (entries : List (κ × M)) (accounts : Dict κ M),
    holdings group (run post accounts entries) =
      holdings group accounts + (postedTo group entries).sum
  | [], _ => (add_zero _).symm
  | entry :: rest, accounts => by
    have hpost : holdings group (post accounts entry) =
        holdings group accounts + if group entry.1 then entry.2 else 0 :=
      sum_setEntries group entry.1 entry.2 accounts.entries
    rw [run_cons, holdings_run group rest, hpost, sum_postedTo_cons, add_assoc]

/-- An account outside the group may be replaced. -/
theorem holdings_set_of_not {group : κ → Bool} {k : κ} (h : group k = false) (x : M)
    (accounts : Dict κ M) : holdings group (accounts.set k x) = holdings group accounts := by
  obtain ⟨entries, hnodup⟩ := accounts
  simp only [holdings, Dict.set]
  clear hnodup
  induction entries with
  | nil => simp [setEntries, postedTo, h]
  | cons entry rest ih =>
    by_cases hk : entry.1 = k
    · subst hk
      rw [setEntries, if_pos rfl, sum_postedTo_cons, sum_postedTo_cons]
      simp [h]
    · rw [setEntries, if_neg hk, sum_postedTo_cons, sum_postedTo_cons, ih]

/-- A single account is a group. -/
theorem holdings_single (accounts : Dict κ M) (k : κ) :
    holdings (fun k' => decide (k' = k)) accounts = balance accounts k := by
  obtain ⟨entries, hnodup⟩ := accounts
  simp only [holdings, balance, Dict.get?]
  induction entries with
  | nil => rfl
  | cons entry rest ih =>
    obtain ⟨k₀, x₀⟩ := entry
    rw [List.map_cons, List.nodup_cons] at hnodup
    rw [sum_postedTo_cons, ih hnodup.2, List.lookup_cons]
    by_cases hk : k₀ = k
    · subst hk
      have hnone : rest.lookup k₀ = none := by
        rw [List.lookup_eq_none_iff]
        intro entry hentry
        have hne : k₀ ≠ entry.1 := fun he => hnodup.1 (List.mem_map.mpr ⟨entry, hentry, he.symm⟩)
        simpa using hne
      simp [hnone]
    · have hb : (k == k₀) = false := by simpa using Ne.symm hk
      simp [hk, hb]

/-- The accounts that are open. -/
theorem mem_keys_run_post {k : κ} : ∀ {entries : List (κ × M)} {accounts : Dict κ M},
    k ∈ (run post accounts entries).keys ↔ k ∈ accounts.keys ∨ ∃ entry ∈ entries, entry.1 = k
  | [], accounts => by simp
  | entry :: rest, accounts => by
    rw [run_cons, mem_keys_run_post, post, Dict.mem_keys_set, List.exists_mem_cons_iff, or_assoc,
      or_left_comm, eq_comm]

/-! ## Sums of postings -/

omit [DecidableEq κ] in
theorem sum_postedTo_flatMap {α : Type} (group : κ → Bool) (f : α → List (κ × M)) :
    ∀ xs : List α, (postedTo group (xs.flatMap f)).sum =
      (xs.map fun x => (postedTo group (f x)).sum).sum
  | [] => rfl
  | x :: rest => by
    rw [List.flatMap_cons, postedTo_append, List.sum_append, sum_postedTo_flatMap group f rest]
    rfl

omit [DecidableEq κ] in
/-- Nothing was posted to the group. -/
theorem sum_postedTo_of_not {group : κ → Bool} : ∀ {entries : List (κ × M)},
    (∀ entry ∈ entries, group entry.1 = false) → (postedTo group entries).sum = 0
  | [], _ => rfl
  | entry :: rest, h => by
    rw [sum_postedTo_cons, h entry List.mem_cons_self,
      sum_postedTo_of_not fun e he => h e (List.mem_cons_of_mem _ he)]
    simp

/-- Of distinct terms one counts. -/
theorem sum_map_single {g : κ → M} {a : κ} : ∀ {xs : List κ}, xs.Nodup →
    (xs.map fun x => if x = a then g x else 0).sum = if a ∈ xs then g a else 0
  | [], _ => by simp
  | x :: rest, h => by
    rw [List.nodup_cons] at h
    rw [List.map_cons, List.sum_cons, sum_map_single h.2]
    by_cases hx : x = a
    · subst hx
      simp [h.1]
    · simp [hx, Ne.symm hx]

/-- Terms that are not there count nothing. -/
theorem sum_map_getD {α : Type} (f : α → Option M) : ∀ xs : List α,
    (xs.map fun x => (f x).getD 0).sum = (xs.filterMap f).sum
  | [] => rfl
  | x :: rest => by
    rw [List.map_cons, List.sum_cons, sum_map_getD f rest]
    cases h : f x with
    | none => simp [h]
    | some y => simp [h]

end VllmObserver.Lib
