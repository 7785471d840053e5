import VllmObserver.Lib.Runs
import Mathlib.Data.List.Infix
import Mathlib.Logic.Function.Basic

/-! # Interleaved processes

Any number of processes run their programs, each on a state of its own, and take
turns in any order over a shared state. What a process has come to depends on its
own steps only, but for what it has read of the shared state. -/
namespace VllmObserver.Lib

variable {κ α σ τ : Type} [DecidableEq κ]

/-- The steps of one process. -/
def project (k : κ) (steps : List (κ × α)) : List α :=
  steps.filterMap fun entry => if entry.1 = k then some entry.2 else none

/-- Each process has taken a first part of its program. -/
def Interleaves (program : κ → List α) (steps : List (κ × α)) : Prop :=
  ∀ k, project k steps <+: program k

/-- The states of the processes, and the one that they share. -/
structure Processes (κ σ τ : Type) where
  own : κ → σ
  shared : τ

/-- One of the processes takes a step on the shared state that it finds. -/
def Processes.step (step : τ → σ → α → σ) (share : τ → σ → α → τ) (s : Processes κ σ τ)
    (entry : κ × α) : Processes κ σ τ where
  own := Function.update s.own entry.1 (step s.shared (s.own entry.1) entry.2)
  shared := share s.shared (s.own entry.1) entry.2

@[simp] theorem project_nil (k : κ) : project k ([] : List (κ × α)) = [] := rfl

@[simp] theorem project_append (k : κ) (xs ys : List (κ × α)) :
    project k (xs ++ ys) = project k xs ++ project k ys := List.filterMap_append

theorem project_cons (k : κ) (entry : κ × α) (rest : List (κ × α)) :
    project k (entry :: rest) =
      if entry.1 = k then entry.2 :: project k rest else project k rest := by
  unfold project
  rw [List.filterMap_cons]
  by_cases h : entry.1 = k
  · rw [if_pos h, if_pos h]
  · rw [if_neg h, if_neg h]

/-- The steps of a single process. -/
theorem project_same (k : κ) (xs : List α) : project k (xs.map (Prod.mk k)) = xs := by
  rw [project, List.filterMap_map]
  simp

theorem project_other {k j : κ} (h : k ≠ j) (xs : List α) :
    project j (xs.map (Prod.mk k)) = [] := by
  rw [project, List.filterMap_map]
  simp [h]

section Blind
variable {step : τ → σ → α → σ} {share : τ → σ → α → τ} {p : σ → Prop} {k : κ}

theorem own_step_same (s : Processes κ σ τ) (a : α) :
    (s.step step share (k, a)).own k = step s.shared (s.own k) a :=
  Function.update_self ..

theorem own_step_other (s : Processes κ σ τ) {entry : κ × α} (h : entry.1 ≠ k) :
    (s.step step share entry).own k = s.own k :=
  Function.update_of_ne (fun he => h he.symm) ..

/-- **A process that reads nothing more is blind to the others**: it might have
run alone, on any shared state. -/
theorem own_run_blind (hblind : ∀ t t' s a, p s → step t s a = step t' s a ∧ p (step t s a))
    (found : τ) : ∀ (steps : List (κ × α)) (s : Processes κ σ τ), p (s.own k) →
      (run (Processes.step step share) s steps).own k =
        run (step found) (s.own k) (project k steps)
  | [], _, _ => rfl
  | entry :: rest, s, hp => by
    obtain ⟨j, a⟩ := entry
    rw [run_cons, project_cons]
    by_cases h : j = k
    · obtain rfl := h.symm
      obtain ⟨heq, hnext⟩ := hblind s.shared found (s.own k) a hp
      have hown : (s.step step share (k, a)).own k = step s.shared (s.own k) a := own_step_same s a
      rw [if_pos rfl, run_cons, own_run_blind hblind found rest _ (hown ▸ hnext), hown, heq]
    · have hown : (s.step step share (j, a)).own k = s.own k := own_step_other s h
      rw [if_neg h, own_run_blind hblind found rest _ (hown ▸ hp), hown]

/-- **A process that reads at its first step only** has come to what it comes to
alone, on the shared state that it found there. -/
theorem own_run_first (hblind : ∀ t t' s a, p s → step t s a = step t' s a ∧ p (step t s a)) :
    ∀ (steps : List (κ × α)) (s : Processes κ σ τ),
      (∀ t a rest, project k steps = a :: rest → p (step t (s.own k) a)) →
      project k steps = [] ∧ (run (Processes.step step share) s steps).own k = s.own k ∨
      ∃ pre a post, steps = pre ++ (k, a) :: post ∧ project k pre = [] ∧
        (run (Processes.step step share) s steps).own k =
          run (step (run (Processes.step step share) s pre).shared) (s.own k) (project k steps)
  | [], _, _ => .inl ⟨rfl, rfl⟩
  | entry :: rest, s, hfirst => by
    obtain ⟨j, a⟩ := entry
    rw [project_cons] at hfirst ⊢
    by_cases h : j = k
    · obtain rfl := h.symm
      rw [if_pos rfl] at hfirst ⊢
      have hown : (s.step step share (k, a)).own k = step s.shared (s.own k) a := own_step_same s a
      refine .inr ⟨[], a, rest, rfl, rfl, ?_⟩
      rw [run_cons, own_run_blind hblind s.shared rest _ (hown ▸ hfirst s.shared a _ rfl), hown]
      rfl
    · rw [if_neg h] at hfirst ⊢
      have hown : (s.step step share (j, a)).own k = s.own k := own_step_other s h
      rcases own_run_first hblind rest (s.step step share (j, a)) (hown ▸ hfirst) with
        ⟨hnil, hrun⟩ | ⟨pre, b, post, rfl, hpre, hrun⟩
      · exact .inl ⟨hnil, hrun.trans hown⟩
      · refine .inr ⟨(j, a) :: pre, b, post, rfl, ?_, ?_⟩
        · rw [project_cons, if_neg h, hpre]
        · rw [run_cons, hrun, hown]
          rfl

end Blind

namespace Interleaves
variable {program : κ → List α} {xs ys : List (κ × α)} {k : κ} {a : α}

theorem initial (h : Interleaves program (xs ++ ys)) : Interleaves program xs := fun k =>
  (List.prefix_append _ _).trans (project_append k xs ys ▸ h k)

/-- The next step of a process is the one its program stands at. -/
theorem next (h : Interleaves program (xs ++ [(k, a)])) :
    ∃ rest, program k = project k xs ++ a :: rest := by
  obtain ⟨rest, hrest⟩ := h k
  refine ⟨rest, ?_⟩
  rw [← hrest, project_append, project_cons, if_pos rfl, List.append_assoc]
  rfl

end Interleaves

/-! ## Steps of one kind -/

section Kind
variable (p : α → Bool)

/-- The processes that take a step of a kind, in the order of these steps. -/
def keysOf (steps : List (κ × α)) : List κ := (steps.filter fun entry => p entry.2).map Prod.fst

variable {p} {program : κ → List α} {steps : List (κ × α)} {k : κ}

omit [DecidableEq κ] in
theorem keysOf_concat (xs : List (κ × α)) (entry : κ × α) :
    keysOf p (xs ++ [entry]) = keysOf p xs ++ if p entry.2 then [entry.1] else [] := by
  rw [keysOf, List.filter_append, List.map_append]
  cases h : p entry.2 <;> simp [keysOf, h]

theorem count_keysOf (k : κ) : ∀ (steps : List (κ × α)),
    (keysOf p steps).count k = (project k steps).countP p
  | [] => rfl
  | entry :: rest => by
    have ih := count_keysOf k rest
    rw [keysOf] at ih ⊢
    rw [project_cons]
    cases hp : p entry.2 <;> by_cases hk : entry.1 = k <;> simp [hp, hk, ih]

theorem mem_keysOf : k ∈ keysOf p steps ↔ ∃ a ∈ project k steps, p a = true := by
  rw [← List.count_pos_iff, count_keysOf, List.countP_pos_iff]

/-- A step that a program takes once is taken once. -/
theorem nodup_keysOf (h : Interleaves program steps) (hp : ∀ k, (program k).countP p ≤ 1) :
    (keysOf p steps).Nodup := by
  rw [List.nodup_iff_count]
  intro k
  rw [count_keysOf]
  exact (h k).sublist.countP_le.trans (hp k)

end Kind

end VllmObserver.Lib
