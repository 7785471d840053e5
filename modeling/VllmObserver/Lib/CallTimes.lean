import Mathlib.Data.List.Perm.Basic
import Mathlib.Order.Basic
import VllmObserver.Lib.CallStack

/-! # The calls of each task

What a wrapper that labels and times the calls has logged: every labelled call
once, and the intervals of a task nested. -/
namespace VllmObserver.Lib.CallStack

section Calls
variable {μ ν ω ℓ χ τ : Type}

/-! ## Every call is logged once -/

/-- The wrapper tells calls apart by labels. A call without one it lets through. -/
structure Labelled {ι : Type} (w : Wrapper μ ν χ ω ℓ τ) (label : μ → χ → Option ι) (noted : ω → ι)
    (logged : ℓ → ι) : Prop where
  enter : ∀ method context watch, (w.enter method context watch).1.map noted = label method context
  leave : ∀ note watch, logged (w.leave note watch).1 = noted note

def View.callsOf (v : View μ χ ω ℓ τ) (i : ℕ) : List (μ × χ) :=
  (v.calls.filter fun call => call.1 = i).map Prod.snd

def View.logOf (v : View μ χ ω ℓ τ) (i : ℕ) : List ℓ :=
  (v.log.filter fun entry => entry.1 = i).map Prod.snd

/-- The labelled calls of each task are the logged ones and those that are not over. -/
def CalledOnce {ι : Type} (label : μ → χ → Option ι) (noted : ω → ι) (logged : ℓ → ι)
    (v : View μ χ ω ℓ τ) : Prop :=
  ∀ i, ((v.callsOf i).filterMap fun call => label call.1 call.2).Perm
    ((v.logOf i).map logged ++ (v.notes i).map noted)

theorem filter_concat_task {α : Type} (xs : List (ℕ × α)) (j : ℕ) (x : α) (i : ℕ) :
    ((xs ++ [(j, x)]).filter fun entry => entry.1 = i).map Prod.snd =
      (xs.filter fun entry => entry.1 = i).map Prod.snd ++ if j = i then [x] else [] := by
  by_cases h : j = i <;> simp [h]

theorem CalledOnce.sight {ι : Type} {w : Wrapper μ ν χ ω ℓ τ} {label : μ → χ → Option ι}
    {noted : ω → ι} {logged : ℓ → ι} (hlabelled : Labelled w label noted logged)
    {v v' : View μ χ ω ℓ τ} (h : Sight w v v') (hv : CalledOnce label noted logged v) :
    CalledOnce label noted logged v' := by
  intro i
  have hi := hv i
  cases h with
  | tells message => exact hi
  | calls j method context =>
    have hlabel := hlabelled.enter method context v.watch
    simp only [View.callsOf, View.logOf, filter_concat_task] at hi ⊢
    by_cases hj : j = i
    · subst hj
      rw [Function.update_self, if_pos rfl, List.filterMap_append, List.map_append,
        show [(method, context)].filterMap (fun call => label call.1 call.2) =
          (w.enter method context v.watch).1.toList.map noted by
        rw [List.filterMap_cons, List.filterMap_nil, ← hlabel]
        cases (w.enter method context v.watch).1 <;> rfl]
      -- the new note stands before the older ones
      refine (hi.append_right _).trans ?_
      rw [List.append_assoc]
      exact List.perm_append_comm.append_left _
    · rw [Function.update_of_ne (Ne.symm hj), if_neg hj, List.append_nil]
      exact hi
  | @returns j note rest hnotes =>
    simp only [View.callsOf, View.logOf, filter_concat_task] at hi ⊢
    by_cases hj : j = i
    · subst hj
      rw [hnotes] at hi
      rw [Function.update_self, if_pos rfl, List.map_append, List.map_cons, List.map_nil,
        hlabelled.leave, List.append_assoc]
      exact hi
    · rw [Function.update_of_ne (Ne.symm hj), if_neg hj, List.append_nil]
      exact hi

/-! ## The calls of a task are nested -/

/-- Of two intervals the one that ended later holds the other or lies behind it. -/
def Nests {R : Type} [Preorder R] (a b : R × R) : Prop := a.2 ≤ b.1 ∨ b.1 ≤ a.1 ∧ a.2 ≤ b.2

/-- The wrapper times the calls on a clock that does not run backwards. -/
structure TimesCalls {R : Type} [Preorder R] (w : Wrapper μ ν χ ω ℓ τ) (next : τ → R)
    (began : ω → R) (interval : ℓ → R × R) : Prop where
  enter : ∀ method context watch, next watch ≤ next (w.enter method context watch).2 ∧
    ∀ note, (w.enter method context watch).1 = some note →
      next watch ≤ began note ∧ began note ≤ next (w.enter method context watch).2
  leave : ∀ note watch, (interval (w.leave note watch).1).1 = began note ∧
    next watch ≤ (interval (w.leave note watch).1).2 ∧
    (interval (w.leave note watch).1).2 ≤ next (w.leave note watch).2
  tell : ∀ message watch, next watch ≤ next (w.tell message watch)

/-- The calls of one task that are over, and the starts of those that are not. -/
structure WellTimed {R : Type} [Preorder R] (now : R) (opened : List R) (done : List (R × R)) :
    Prop where
  forwards : ∀ a ∈ done, a.1 ≤ a.2 ∧ a.2 ≤ now
  nested : done.Pairwise Nests
  past : ∀ s ∈ opened, s ≤ now
  stacked : opened.Pairwise fun inner outer => outer ≤ inner
  apart : ∀ s ∈ opened, ∀ a ∈ done, a.2 ≤ s ∨ s ≤ a.1

section WellTimed
variable {R : Type} [Preorder R] {now later : R} {opened : List R} {done : List (R × R)}

theorem WellTimed.wait (h : WellTimed now opened done) (hle : now ≤ later) :
    WellTimed later opened done where
  forwards a ha := ⟨(h.forwards a ha).1, (h.forwards a ha).2.trans hle⟩
  nested := h.nested
  past s hs := (h.past s hs).trans hle
  stacked := h.stacked
  apart := h.apart

theorem WellTimed.push (h : WellTimed now opened done) {s : R} (hs : now ≤ s) (hlater : s ≤ later) :
    WellTimed later (s :: opened) done := by
  have hwait := h.wait (hs.trans hlater)
  refine ⟨hwait.forwards, h.nested, List.forall_mem_cons.mpr ⟨hlater, hwait.past⟩,
    List.pairwise_cons.mpr ⟨fun t ht => (h.past t ht).trans hs, h.stacked⟩,
    List.forall_mem_cons.mpr ⟨fun a ha => .inl ((h.forwards a ha).2.trans hs), h.apart⟩⟩

theorem WellTimed.pop {s e : R} (h : WellTimed now (s :: opened) done) (hnow : now ≤ e)
    (hlater : e ≤ later) : WellTimed later opened (done ++ [(s, e)]) := by
  obtain ⟨hs, hpast⟩ := List.forall_mem_cons.mp h.past
  obtain ⟨hbelow, hstacked⟩ := List.pairwise_cons.mp h.stacked
  obtain ⟨hapart, hrest⟩ := List.forall_mem_cons.mp h.apart
  have hwait := h.wait (hnow.trans hlater)
  refine ⟨?_, ?_, fun t ht => hwait.past t (List.mem_cons_of_mem _ ht), hstacked, ?_⟩
  · intro a ha
    rcases List.mem_append.mp ha with ha | ha
    · exact hwait.forwards a ha
    · rw [List.mem_singleton.mp ha]
      exact ⟨hs.trans hnow, hlater⟩
  · refine List.pairwise_append.mpr ⟨h.nested, List.pairwise_singleton _ _, fun a ha b hb => ?_⟩
    rw [List.mem_singleton.mp hb]
    -- what was over when the call began lies before it, the rest within
    exact (hapart a ha).imp_right fun hin => ⟨hin, (h.forwards a ha).2.trans hnow⟩
  · intro t ht a ha
    rcases List.mem_append.mp ha with ha | ha
    · exact hrest t ht a ha
    · rw [List.mem_singleton.mp ha]
      exact .inr (hbelow t ht)

/-- The intervals of every task are nested, as far as its calls are over. -/
def Nested (next : τ → R) (began : ω → R) (interval : ℓ → R × R) (v : View μ χ ω ℓ τ) : Prop :=
  ∀ i, WellTimed (next v.watch) ((v.notes i).map began) ((v.logOf i).map interval)

theorem Nested.sight {w : Wrapper μ ν χ ω ℓ τ} {next : τ → R} {began : ω → R}
    {interval : ℓ → R × R} (hclock : TimesCalls w next began interval) {v v' : View μ χ ω ℓ τ}
    (h : Sight w v v') (hv : Nested next began interval v) : Nested next began interval v' := by
  intro i
  have hi := hv i
  cases h with
  | tells message => exact hi.wait (hclock.tell message v.watch)
  | calls j method context =>
    obtain ⟨hle, hnote⟩ := hclock.enter method context v.watch
    by_cases hj : j = i
    · subst hj
      simp only [Function.update_self]
      cases hentered : (w.enter method context v.watch).1 with
      | none => exact hi.wait hle
      | some note => exact hi.push (hnote note hentered).1 (hnote note hentered).2
    · simp only [Function.update_of_ne (Ne.symm hj)]
      exact hi.wait hle
  | @returns j note rest hnotes =>
    obtain ⟨hbegan, hnow, hlater⟩ := hclock.leave note v.watch
    simp only [View.logOf, filter_concat_task] at hi ⊢
    by_cases hj : j = i
    · subst hj
      rw [hnotes] at hi
      rw [Function.update_self, if_pos rfl, List.map_append, List.map_cons, List.map_nil]
      rw [show interval (w.leave note v.watch).1 =
        (began note, (interval (w.leave note v.watch).1).2) from Prod.ext hbegan rfl]
      exact hi.pop hnow hlater
    · rw [Function.update_of_ne (Ne.symm hj), if_neg hj, List.append_nil]
      exact hi.wait (hnow.trans hlater)

end WellTimed

end Calls

end VllmObserver.Lib.CallStack
