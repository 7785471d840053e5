import Mathlib.Logic.Function.Basic
import Mathlib.Logic.Relation
import VllmObserver.Lib.Runs

/-! # Tasks that call wrapped methods

Tasks over a shared state: each has a context and a stack of calls, pauses for
the answers of an event loop and may start further tasks. A wrapper around the
methods they call keeps a state of its own. The tasks run as without it, and what
it sees is a sequence of calls and returns in which each task returns from the
call it entered last. -/
namespace VllmObserver.Lib.CallStack

/-- What the code of a task does next. -/
inductive Move (κ μ ν α : Type) where
  | goes (point : κ)
  | tells (message : ν) (point : κ)
  | spawns (entry point : κ)
  | awaits (point : κ)
  | calls (method : μ) (entry back : κ)
  | ends (outcome : α)

/-- How a point of the code is reached. -/
inductive Given (α β : Type) where
  | entered
  | answered (answer : β)
  | returned (outcome : α)
deriving DecidableEq

/-- The code of the tasks, from a point on. An outcome or an answer may be an
exception as well. -/
abbrev Code (κ μ ν α β χ σ : Type) := κ → Given α β → χ → σ → Move κ μ ν α × χ × σ

/-- A wrapper around methods: what it does before the method and behind it. A call
that it lets through leaves no note. -/
structure Wrapper (μ ν χ ω ℓ τ : Type) where
  enter : μ → χ → τ → Option ω × τ
  leave : ω → τ → ℓ × τ
  tell : ν → τ → τ

/-- No wrapper. -/
def Wrapper.bare {μ ν χ : Type} : Wrapper μ ν χ Empty Empty Unit where
  enter := fun _ _ _ => (none, ())
  leave := fun note _ => nomatch note
  tell := fun _ _ => ()

inductive Frame (κ ω : Type) where
  | caller (back : κ)
  | wrapper (note : ω)
deriving DecidableEq

inductive Control (κ α β : Type) where
  | runs (point : κ) (given : Given α β)
  | waits (point : κ)
  | ended (outcome : α)
deriving DecidableEq

structure Task (κ ω α β χ : Type) where
  context : χ
  stack : List (Frame κ ω) := []
  control : Control κ α β
deriving DecidableEq

/-- All tasks, with the calls made so far and what the wrapper made of them. -/
structure Machine (κ μ ω ℓ α β χ σ τ : Type) where
  tasks : List (Task κ ω α β χ)
  shared : σ
  watch : τ
  calls : List (ℕ × μ × χ) := []
  log : List (ℕ × ℓ) := []
deriving DecidableEq

/-- The event loop lets a task go on, or answers what it waits for. -/
inductive LoopStep (β : Type) where
  | goOn (task : ℕ)
  | answer (task : ℕ) (value : β)
deriving DecidableEq

section Machine
variable {κ μ ν ω ℓ α β χ σ τ : Type}

/-- Where a task is when a frame has ended. -/
structure Unwound (κ ω ℓ α β τ : Type) where
  control : Control κ α β
  stack : List (Frame κ ω)
  log : List ℓ
  watch : τ

/-- The outcome goes through the wrappers on top to the caller. -/
def unwind (w : Wrapper μ ν χ ω ℓ τ) (outcome : α) :
    List (Frame κ ω) → τ → Unwound κ ω ℓ α β τ
  | [], watch => ⟨.ended outcome, [], [], watch⟩
  | .caller back :: rest, watch => ⟨.runs back (.returned outcome), rest, [], watch⟩
  | .wrapper note :: rest, watch =>
    let left := unwind w outcome rest (w.leave note watch).2
    { left with log := (w.leave note watch).1 :: left.log }

namespace Machine

def put (s : Machine κ μ ω ℓ α β χ σ τ) (i : ℕ) (task : Task κ ω α β χ) :
    Machine κ μ ω ℓ α β χ σ τ :=
  { s with tasks := s.tasks.set i task }

/-- A move of task `i`. -/
def advance (w : Wrapper μ ν χ ω ℓ τ) (s : Machine κ μ ω ℓ α β χ σ τ) (i : ℕ)
    (stack : List (Frame κ ω)) (context : χ) : Move κ μ ν α → Machine κ μ ω ℓ α β χ σ τ
  | .goes point => s.put i ⟨context, stack, .runs point .entered⟩
  | .tells message point =>
    { s.put i ⟨context, stack, .runs point .entered⟩ with watch := w.tell message s.watch }
  | .spawns entry point =>
    -- the new task gets a copy of the context
    { s with tasks := s.tasks.set i ⟨context, stack, .runs point .entered⟩ ++
        [⟨context, [], .runs entry .entered⟩] }
  | .awaits point => s.put i ⟨context, stack, .waits point⟩
  | .calls method entry back =>
    let entered := w.enter method context s.watch
    { s.put i ⟨context, (entered.1.map Frame.wrapper).toList ++ .caller back :: stack,
        .runs entry .entered⟩ with
      watch := entered.2
      calls := s.calls ++ [(i, method, context)] }
  | .ends outcome =>
    let left := unwind w outcome stack s.watch
    { s.put i ⟨context, left.stack, left.control⟩ with
      watch := left.watch
      log := s.log ++ left.log.map (i, ·) }

def turn (code : Code κ μ ν α β χ σ) (w : Wrapper μ ν χ ω ℓ τ)
    (s : Machine κ μ ω ℓ α β χ σ τ) : LoopStep β → Machine κ μ ω ℓ α β χ σ τ
  | .goOn i =>
    match s.tasks[i]? with
    | some ⟨context, stack, .runs point given⟩ =>
      let next := code point given context s.shared
      { s with shared := next.2.2 }.advance w i stack next.2.1 next.1
    | _ => s
  | .answer i value =>
    match s.tasks[i]? with
    | some ⟨context, stack, .waits point⟩ => s.put i ⟨context, stack, .runs point (.answered value)⟩
    | _ => s

/-- Tasks at their first points, each with the context it got. -/
def start (entries : List (χ × κ)) (shared : σ) (watch : τ) : Machine κ μ ω ℓ α β χ σ τ where
  tasks := entries.map fun entry => ⟨entry.1, [], .runs entry.2 .entered⟩
  shared := shared
  watch := watch

end Machine

/-! ## The tasks run as without a wrapper -/

def Frame.bare? : Frame κ ω → Option (Frame κ Empty)
  | .caller back => some (.caller back)
  | .wrapper _ => none

def Task.bare (task : Task κ ω α β χ) : Task κ Empty α β χ where
  context := task.context
  stack := task.stack.filterMap Frame.bare?
  control := task.control

/-- What remains without the wrapper. -/
def Machine.bare (s : Machine κ μ ω ℓ α β χ σ τ) : Machine κ μ Empty Empty α β χ σ Unit where
  tasks := s.tasks.map Task.bare
  shared := s.shared
  watch := ()
  calls := s.calls

theorem unwind_bare (w : Wrapper μ ν χ ω ℓ τ) (outcome : α) :
    ∀ (stack : List (Frame κ ω)) (watch : τ),
      let left : Unwound κ ω ℓ α β τ := unwind w outcome stack watch
      unwind (Wrapper.bare (μ := μ) (ν := ν) (χ := χ)) outcome (stack.filterMap Frame.bare?) () =
        ⟨left.control, left.stack.filterMap Frame.bare?, [], ()⟩
  | [], _ => rfl
  | .caller _ :: _, _ => rfl
  | .wrapper note :: rest, watch => unwind_bare w outcome rest (w.leave note watch).2

theorem bare_put (s : Machine κ μ ω ℓ α β χ σ τ) (i : ℕ) (task : Task κ ω α β χ) :
    (s.put i task).bare = s.bare.put i task.bare := by
  simp [Machine.bare, Machine.put, List.map_set]

theorem bare_advance (w : Wrapper μ ν χ ω ℓ τ) (s : Machine κ μ ω ℓ α β χ σ τ) (i : ℕ)
    (stack : List (Frame κ ω)) (context : χ) (move : Move κ μ ν α) :
    (s.advance w i stack context move).bare =
      s.bare.advance .bare i (stack.filterMap Frame.bare?) context move := by
  cases move with
  | goes point => exact bare_put s i _
  | tells message point => exact bare_put s i _
  | spawns entry point => simp [Machine.bare, Machine.advance, List.map_set, Task.bare]
  | awaits point => exact bare_put s i _
  | calls method entry back =>
    have hstack : ((((w.enter method context s.watch).1.map Frame.wrapper).toList ++
        Frame.caller back :: stack).filterMap Frame.bare? : List (Frame κ Empty)) =
        .caller back :: stack.filterMap Frame.bare? := by
      cases (w.enter method context s.watch).1 <;> rfl
    simp only [Machine.advance, Machine.bare, Machine.put, List.map_set, Task.bare, hstack]
    rfl
  | ends outcome =>
    have hleft := unwind_bare (α := α) (β := β) w outcome stack s.watch
    simp only [Machine.advance, Machine.bare, Machine.put, List.map_set, Task.bare, hleft,
      List.map_nil, List.append_nil]

theorem bare_turn (code : Code κ μ ν α β χ σ) (w : Wrapper μ ν χ ω ℓ τ)
    (s : Machine κ μ ω ℓ α β χ σ τ) (t : LoopStep β) :
    (s.turn code w t).bare = s.bare.turn code .bare t := by
  have hget : ∀ i : ℕ, s.bare.tasks[i]? = (s.tasks[i]?).map Task.bare := fun _ =>
    List.getElem?_map
  cases t with
  | goOn i =>
    simp only [Machine.turn, hget]
    cases s.tasks[i]? with
    | none => rfl
    | some task =>
      obtain ⟨context, stack, control⟩ := task
      cases control with
      | runs point given => exact bare_advance w _ i stack _ _
      | waits point => rfl
      | ended outcome => rfl
  | answer i value =>
    simp only [Machine.turn, hget]
    cases s.tasks[i]? with
    | none => rfl
    | some task =>
      obtain ⟨context, stack, control⟩ := task
      cases control with
      | runs point given => rfl
      | waits point => exact bare_put s i _
      | ended outcome => rfl

/-- **Wrapped tasks do what they do without the wrapper**, turn by turn. -/
theorem bare_run (code : Code κ μ ν α β χ σ) (w : Wrapper μ ν χ ω ℓ τ) :
    ∀ (turns : List (LoopStep β)) (s : Machine κ μ ω ℓ α β χ σ τ),
      (run (Machine.turn code w) s turns).bare = run (Machine.turn code .bare) s.bare turns
  | [], _ => rfl
  | t :: rest, s => by rw [run_cons, run_cons, bare_run code w rest, bare_turn]

/-! ## What the wrapper sees -/

def Frame.note? : Frame κ ω → Option ω
  | .caller _ => none
  | .wrapper note => some note

def Task.notes (task : Task κ ω α β χ) : List ω := task.stack.filterMap Frame.note?

/-- The wrapper's side of a machine. Its notes on the calls of a task that are not
over stand last call first. -/
structure View (μ χ ω ℓ τ : Type) where
  watch : τ
  calls : List (ℕ × μ × χ)
  log : List (ℕ × ℓ)
  notes : ℕ → List ω

def notesOf (tasks : List (Task κ ω α β χ)) (i : ℕ) : List ω :=
  ((tasks[i]?).map Task.notes).getD []

def Machine.view (s : Machine κ μ ω ℓ α β χ σ τ) : View μ χ ω ℓ τ where
  watch := s.watch
  calls := s.calls
  log := s.log
  notes := notesOf s.tasks

/-- What a wrapper can see next: a message, a call of some task, or the return from
the call that a task has entered last. -/
inductive Sight (w : Wrapper μ ν χ ω ℓ τ) : View μ χ ω ℓ τ → View μ χ ω ℓ τ → Prop
  | tells (v : View μ χ ω ℓ τ) (message : ν) :
      Sight w v { v with watch := w.tell message v.watch }
  | calls (v : View μ χ ω ℓ τ) (i : ℕ) (method : μ) (context : χ) : Sight w v
      { v with
        watch := (w.enter method context v.watch).2
        calls := v.calls ++ [(i, method, context)]
        notes := Function.update v.notes i
          ((w.enter method context v.watch).1.toList ++ v.notes i) }
  | returns (v : View μ χ ω ℓ τ) {i : ℕ} {note : ω} {rest : List ω} (h : v.notes i = note :: rest) :
      Sight w v
      { v with
        watch := (w.leave note v.watch).2
        log := v.log ++ [(i, (w.leave note v.watch).1)]
        notes := Function.update v.notes i rest }

section Notes
variable {tasks : List (Task κ ω α β χ)} {i : ℕ} {old : Task κ ω α β χ}

theorem notesOf_get (h : tasks[i]? = some old) : notesOf tasks i = old.notes := by
  rw [notesOf, h]
  rfl

theorem notesOf_set (h : tasks[i]? = some old) (task : Task κ ω α β χ) :
    notesOf (tasks.set i task) = Function.update (notesOf tasks) i task.notes := by
  obtain ⟨hi, _⟩ := List.getElem?_eq_some_iff.mp h
  funext j
  by_cases hj : j = i
  · subst hj
    rw [Function.update_self, notesOf, List.getElem?_set_self hi]
    rfl
  · rw [Function.update_of_ne hj, notesOf, List.getElem?_set_ne (Ne.symm hj), notesOf]

/-- The stack stays as it is. -/
theorem notesOf_set_same (h : tasks[i]? = some old) {task : Task κ ω α β χ}
    (hstack : task.stack = old.stack) : notesOf (tasks.set i task) = notesOf tasks := by
  rw [notesOf_set h, Task.notes, hstack, ← Task.notes, ← notesOf_get h, Function.update_eq_self]

theorem notesOf_concat {task : Task κ ω α β χ} (h : task.stack = []) :
    notesOf (tasks ++ [task]) = notesOf tasks := by
  funext j
  simp only [notesOf]
  rcases Nat.lt_trichotomy j tasks.length with hj | rfl | hj
  · rw [List.getElem?_append_left hj]
  · simp [Task.notes, h]
  · rw [List.getElem?_eq_none (by rw [List.length_append]; exact hj),
      List.getElem?_eq_none (Nat.le_of_lt hj)]

end Notes

theorem unwind_sights (w : Wrapper μ ν χ ω ℓ τ) (i : ℕ) (outcome : α) :
    ∀ (stack : List (Frame κ ω)) (v : View μ χ ω ℓ τ), v.notes i = stack.filterMap Frame.note? →
      let left : Unwound κ ω ℓ α β τ := unwind w outcome stack v.watch
      Relation.ReflTransGen (Sight w) v
        { v with
          watch := left.watch
          log := v.log ++ left.log.map (i, ·)
          notes := Function.update v.notes i (left.stack.filterMap Frame.note?) }
  | [], v, h => by
    simp only [unwind, List.map_nil, List.append_nil, ← h, Function.update_eq_self]
    exact .refl
  | .caller _ :: rest, v, h => by
    have hrest : v.notes i = rest.filterMap Frame.note? := h
    simp only [unwind, List.map_nil, List.append_nil, ← hrest, Function.update_eq_self]
    exact .refl
  | .wrapper note :: rest, v, h => by
    have hnotes : v.notes i = note :: rest.filterMap Frame.note? := h
    refine .head (.returns v hnotes) ?_
    have ih := unwind_sights w i outcome rest
      { v with
        watch := (w.leave note v.watch).2
        log := v.log ++ [(i, (w.leave note v.watch).1)]
        notes := Function.update v.notes i (rest.filterMap Frame.note?) }
      (Function.update_self ..)
    simpa [unwind] using ih

theorem advance_sights (w : Wrapper μ ν χ ω ℓ τ) {s : Machine κ μ ω ℓ α β χ σ τ} {i : ℕ}
    {stack : List (Frame κ ω)} {control : Control κ α β} {context₀ : χ}
    (h : s.tasks[i]? = some ⟨context₀, stack, control⟩) (context : χ) (move : Move κ μ ν α) :
    Relation.ReflTransGen (Sight w) s.view (s.advance w i stack context move).view := by
  have hsame : ∀ control', notesOf (s.tasks.set i ⟨context, stack, control'⟩) = notesOf s.tasks :=
    fun _ => notesOf_set_same h rfl
  cases move with
  | goes point =>
    have hview : (s.advance w i stack context (.goes point)).view = s.view :=
      congrArg (View.mk s.watch s.calls s.log) (hsame _)
    rw [hview]
  | tells message point =>
    have hview : (s.advance w i stack context (.tells message point)).view =
        { s.view with watch := w.tell message s.watch } :=
      congrArg (View.mk (w.tell message s.watch) s.calls s.log) (hsame _)
    rw [hview]
    exact .single (.tells s.view message)
  | spawns entry point =>
    have hview : (s.advance w i stack context (.spawns entry point)).view = s.view :=
      congrArg (View.mk s.watch s.calls s.log) ((notesOf_concat rfl).trans (hsame _))
    rw [hview]
  | awaits point =>
    have hview : (s.advance w i stack context (.awaits point)).view = s.view :=
      congrArg (View.mk s.watch s.calls s.log) (hsame _)
    rw [hview]
  | calls method entry back =>
    have hnotes : notesOf (s.tasks.set i ⟨context, ((w.enter method context s.watch).1.map
        Frame.wrapper).toList ++ .caller back :: stack, .runs entry .entered⟩) =
        Function.update (notesOf s.tasks) i
          ((w.enter method context s.watch).1.toList ++ notesOf s.tasks i) := by
      rw [notesOf_set h, notesOf_get h]
      cases (w.enter method context s.watch).1 <;> rfl
    have hview : (s.advance w i stack context (.calls method entry back)).view = _ :=
      congrArg (View.mk (w.enter method context s.watch).2
        (s.calls ++ [(i, method, context)]) s.log) hnotes
    rw [hview]
    exact .single (.calls s.view i method context)
  | ends outcome =>
    let left : Unwound κ ω ℓ α β τ := unwind w outcome stack s.watch
    have hview : (s.advance w i stack context (.ends outcome)).view = _ :=
      congrArg (View.mk left.watch s.calls (s.log ++ left.log.map (i, ·)))
        (notesOf_set h ⟨context, left.stack, left.control⟩)
    rw [hview]
    exact unwind_sights w i outcome stack s.view (notesOf_get h)

/-- **A turn shows the wrapper sights alone.** -/
theorem turn_sights (code : Code κ μ ν α β χ σ) (w : Wrapper μ ν χ ω ℓ τ)
    (s : Machine κ μ ω ℓ α β χ σ τ) (t : LoopStep β) :
    Relation.ReflTransGen (Sight w) s.view (s.turn code w t).view := by
  cases t with
  | goOn i =>
    cases h : s.tasks[i]? with
    | none => simp only [Machine.turn, h, Relation.ReflTransGen.refl]
    | some task =>
      obtain ⟨context, stack, control⟩ := task
      cases control with
      | runs point given =>
        simp only [Machine.turn, h]
        exact advance_sights (s := { s with shared := (code point given context s.shared).2.2 }) w h
          _ _
      | waits point => simp only [Machine.turn, h, Relation.ReflTransGen.refl]
      | ended outcome => simp only [Machine.turn, h, Relation.ReflTransGen.refl]
  | answer i value =>
    cases h : s.tasks[i]? with
    | none => simp only [Machine.turn, h, Relation.ReflTransGen.refl]
    | some task =>
      obtain ⟨context, stack, control⟩ := task
      cases control with
      | runs point given => simp only [Machine.turn, h, Relation.ReflTransGen.refl]
      | waits point =>
        simp only [Machine.turn, h]
        have hsame : notesOf (s.tasks.set i ⟨context, stack, .runs point (.answered value)⟩) =
            notesOf s.tasks := notesOf_set_same h rfl
        have hview : (s.put i ⟨context, stack, .runs point (.answered value)⟩).view = s.view :=
          congrArg (View.mk s.watch s.calls s.log) hsame
        rw [hview]
      | ended outcome => simp only [Machine.turn, h, Relation.ReflTransGen.refl]

theorem run_sights (code : Code κ μ ν α β χ σ) (w : Wrapper μ ν χ ω ℓ τ) :
    ∀ (turns : List (LoopStep β)) (s : Machine κ μ ω ℓ α β χ σ τ),
      Relation.ReflTransGen (Sight w) s.view (run (Machine.turn code w) s turns).view
  | [], _ => .refl
  | t :: rest, s => (turn_sights code w s t).trans (run_sights code w rest _)

/-- What every sight keeps holds after the run. -/
theorem run_view (code : Code κ μ ν α β χ σ) {w : Wrapper μ ν χ ω ℓ τ}
    {I : View μ χ ω ℓ τ → Prop} (hsight : ∀ v v', Sight w v v' → I v → I v')
    {s : Machine κ μ ω ℓ α β χ σ τ} (turns : List (LoopStep β)) (h : I s.view) :
    I (run (Machine.turn code w) s turns).view := by
  have hsights := run_sights code w turns s
  generalize (run (Machine.turn code w) s turns).view = last at hsights ⊢
  induction hsights with
  | refl => exact h
  | tail _ step ih => exact hsight _ _ step ih

/-! ## A task that has ended -/

/-- A task has ended only when none of its calls is left. -/
def Settled (tasks : List (Task κ ω α β χ)) : Prop :=
  ∀ task ∈ tasks, ∀ outcome, task.control = .ended outcome → task.stack = []

theorem Settled.set {tasks : List (Task κ ω α β χ)} (h : Settled tasks) (i : ℕ)
    {task : Task κ ω α β χ} (htask : ∀ outcome, task.control = .ended outcome → task.stack = []) :
    Settled (tasks.set i task) := by
  intro other hother
  rcases List.mem_or_eq_of_mem_set hother with hold | rfl
  · exact h other hold
  · exact htask

theorem Settled.runs {tasks : List (Task κ ω α β χ)} (h : Settled tasks) (i : ℕ) (context : χ)
    (stack : List (Frame κ ω)) (point : κ) (given : Given α β) :
    Settled (tasks.set i ⟨context, stack, .runs point given⟩) := h.set i nofun

theorem unwind_settled (w : Wrapper μ ν χ ω ℓ τ) (outcome : α) {result : α} :
    ∀ (stack : List (Frame κ ω)) (watch : τ),
      (unwind (β := β) w outcome stack watch).control = .ended result →
        (unwind (β := β) w outcome stack watch).stack = []
  | [], _, _ => rfl
  | .wrapper note :: rest, watch, h => unwind_settled w outcome rest (w.leave note watch).2 h

theorem Settled.turn {code : Code κ μ ν α β χ σ} {w : Wrapper μ ν χ ω ℓ τ}
    {s : Machine κ μ ω ℓ α β χ σ τ} (h : Settled s.tasks) (t : LoopStep β) :
    Settled (s.turn code w t).tasks := by
  cases t with
  | goOn i =>
    simp only [Machine.turn]
    split
    · rename_i context stack point given _
      cases (code point given context s.shared).1 with
      | goes => exact h.runs i _ stack _ _
      | tells => exact h.runs i _ stack _ _
      | spawns entry point =>
        intro task htask
        rcases List.mem_append.mp htask with hold | hnew
        · exact h.runs i _ stack _ _ task hold
        · rw [List.mem_singleton.mp hnew]
          intro outcome hended
          cases hended
      | awaits => exact h.set i nofun
      | calls => exact h.runs i _ _ _ _
      | ends outcome => exact h.set i fun _ => unwind_settled w outcome stack s.watch
    · exact h
  | answer i value =>
    simp only [Machine.turn]
    split
    · exact h.runs i _ _ _ _
    · exact h

theorem settled_run (code : Code κ μ ν α β χ σ) (w : Wrapper μ ν χ ω ℓ τ) (entries : List (χ × κ))
    (shared : σ) (watch : τ) (steps : List (LoopStep β)) :
    Settled (run (Machine.turn code w) (Machine.start entries shared watch) steps).tasks :=
  run_invariant_all (Machine.turn code w) (I := fun s => Settled s.tasks) (fun _ t h => h.turn t)
    fun task htask => by
      obtain ⟨entry, _, rfl⟩ := List.mem_map.mp htask
      intro outcome hended
      cases hended

/-- Nothing is noted on a task that has ended. -/
theorem Settled.notes {tasks : List (Task κ ω α β χ)} (h : Settled tasks) {i : ℕ}
    (hended : ∀ task, tasks[i]? = some task → ∃ outcome, task.control = .ended outcome) :
    notesOf tasks i = [] := by
  cases hget : tasks[i]? with
  | none => simp [notesOf, hget]
  | some task =>
    obtain ⟨outcome, hcontrol⟩ := hended task hget
    rw [notesOf_get hget, Task.notes, h task (List.mem_of_getElem? hget) outcome hcontrol]
    rfl

theorem bare_start (entries : List (χ × κ)) (shared : σ) (watch : τ) :
    (Machine.start entries shared watch : Machine κ μ ω ℓ α β χ σ τ).bare =
      Machine.start entries shared () := by
  simp [Machine.bare, Machine.start, Task.bare]

theorem notes_start (entries : List (χ × κ)) (shared : σ) (watch : τ) (i : ℕ) :
    (Machine.start entries shared watch : Machine κ μ ω ℓ α β χ σ τ).view.notes i = [] := by
  simp only [Machine.view, Machine.start, notesOf, List.getElem?_map]
  cases entries[i]? <;> rfl

end Machine

end VllmObserver.Lib.CallStack
