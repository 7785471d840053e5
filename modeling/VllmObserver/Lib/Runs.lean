import Mathlib.Data.List.Basic

/-! # Runs of a deterministic step function

A run feeds a list of inputs to a step function. An invariant that every
admitted step preserves holds in every state the run passes through, and a log
that every step extends by what it emits holds what the run emits. -/
namespace VllmObserver.Lib

variable {σ α : Type} (step : σ → α → σ)

/-- The state after the inputs. -/
def run (s : σ) (inputs : List α) : σ := inputs.foldl step s

@[simp] theorem run_nil (s : σ) : run step s [] = s := rfl

@[simp] theorem run_cons (s : σ) (a : α) (rest : List α) :
    run step s (a :: rest) = run step (step s a) rest := rfl

@[simp] theorem run_append (s : σ) (xs ys : List α) :
    run step s (xs ++ ys) = run step (run step s xs) ys := List.foldl_append ..

/-- Every step of the run meets a condition on the state before it and its input. -/
def RunMeets (cond : σ → α → Prop) : σ → List α → Prop
  | _, [] => True
  | s, a :: rest => cond s a ∧ RunMeets cond (step s a) rest

theorem RunMeets.append {cond : σ → α → Prop} : ∀ {xs ys : List α} {s : σ},
    RunMeets step cond s (xs ++ ys) → RunMeets step cond s xs ∧
      RunMeets step cond (run step s xs) ys
  | [], _, _, h => ⟨trivial, h⟩
  | _ :: _, _, _, ⟨hc, h⟩ =>
    have ih := RunMeets.append h
    ⟨⟨hc, ih.1⟩, ih.2⟩

/-- A split of a run one step longer is at the new step or within the run. -/
theorem split_concat {xs before after : List α} {x a : α} (h : xs ++ [x] = before ++ a :: after) :
    (before = xs ∧ x = a) ∨ ∃ rest, xs = before ++ a :: rest := by
  rcases List.eq_nil_or_concat after with rfl | ⟨rest, last, rfl⟩
  · obtain ⟨rfl, hlast⟩ := List.append_inj' h rfl
    exact .inl ⟨rfl, List.head_eq_of_cons_eq hlast⟩
  · have hinj : xs ++ [x] = (before ++ a :: rest) ++ [last] := by simpa using h
    exact .inr ⟨rest, List.append_inj_left' hinj rfl⟩

/-- A run meets a condition when each of its steps does. -/
theorem runMeets_iff {cond : σ → α → Prop} : ∀ {inputs : List α} {s : σ},
    RunMeets step cond s inputs ↔
      ∀ pre a post, inputs = pre ++ a :: post → cond (run step s pre) a
  | [], s => by simp [RunMeets]
  | b :: rest, s => by
    rw [RunMeets, runMeets_iff]
    constructor
    · rintro ⟨hb, hrest⟩ pre a post heq
      cases pre with
      | nil =>
        obtain ⟨rfl, _⟩ := List.cons.inj heq
        exact hb
      | cons c pre =>
        obtain ⟨rfl, htail⟩ := List.cons.inj heq
        exact hrest pre a post htail
    · intro h
      exact ⟨h [] b rest rfl, fun pre a post heq => h (b :: pre) a post (by rw [heq]; rfl)⟩

/-- A condition on the inputs alone. -/
theorem RunMeets.of_forall {cond : α → Prop} : ∀ {inputs : List α} (s : σ),
    (∀ a ∈ inputs, cond a) → RunMeets step (fun _ a => cond a) s inputs
  | [], _, _ => trivial
  | a :: _, s, h => ⟨h a List.mem_cons_self,
      RunMeets.of_forall (step s a) fun b hb => h b (List.mem_cons_of_mem _ hb)⟩

theorem RunMeets.and {cond cond' : σ → α → Prop} : ∀ {inputs : List α} {s : σ},
    RunMeets step cond s inputs → RunMeets step cond' s inputs →
      RunMeets step (fun s a => cond s a ∧ cond' s a) s inputs
  | [], _, _, _ => trivial
  | _ :: _, _, ⟨hc, h⟩, ⟨hc', h'⟩ => ⟨⟨hc, hc'⟩, h.and h'⟩

/-- The induction over a run, packaged once: an invariant that each step
meeting the condition preserves holds after the run. -/
theorem run_invariant {cond : σ → α → Prop} {I : σ → Prop}
    (hstep : ∀ s a, I s → cond s a → I (step s a)) {inputs : List α} {s : σ}
    (h : RunMeets step cond s inputs) (hi : I s) : I (run step s inputs) := by
  induction inputs generalizing s with
  | nil => exact hi
  | cons a rest ih => exact ih h.2 (hstep s a hi h.1)

/-- The unconditional form. -/
theorem run_invariant_all {I : σ → Prop} (hstep : ∀ s a, I s → I (step s a))
    {inputs : List α} {s : σ} (hi : I s) : I (run step s inputs) := by
  induction inputs generalizing s with
  | nil => exact hi
  | cons a rest ih => exact ih (hstep s a hi)

/-! ## What a run emits -/

section Emitted
variable {β : Type} (emit : σ → α → List β)

/-- What the steps of a run emit, in order. -/
def emitted : σ → List α → List β
  | _, [] => []
  | s, a :: rest => emit s a ++ emitted (step s a) rest

theorem emitted_append : ∀ (xs ys : List α) (s : σ),
    emitted step emit s (xs ++ ys) =
      emitted step emit s xs ++ emitted step emit (run step s xs) ys
  | [], _, _ => rfl
  | a :: xs, ys, s => by
    rw [List.cons_append, emitted, emitted, run_cons, emitted_append xs ys, List.append_assoc]

/-- A log to which each step adds what it emits. -/
theorem log_run {log : σ → List β} (h : ∀ s a, log (step s a) = log s ++ emit s a) :
    ∀ (inputs : List α) (s : σ), log (run step s inputs) = log s ++ emitted step emit s inputs
  | [], _ => (List.append_nil _).symm
  | a :: rest, s => by rw [run_cons, log_run h rest, h, emitted, List.append_assoc]

end Emitted

end VllmObserver.Lib
