import VllmObserver.Lib.Interleave
import VllmObserver.Middleware.Call

/-! # Concurrent calls

A server runs its calls as tasks that take turns. Of what the middleware keeps,
a task owns its exchange; the in-flight gauge and the filters are shared. Between
two turns the shared state is the one that the ended calls leave when they run
one after the other, but for the calls in flight. Only a scrape of the metrics
reads it. -/
namespace VllmObserver.Middleware
open VllmObserver.Lib VllmObserver.Core

variable {ε : Type}

/-- A call of the middleware. -/
structure Call (ε : Type) where
  scope : Scope
  readings : Readings
  app : App ε

/-- The application is not asked for the metrics. -/
def Call.ran (c : Call ε) : App ε :=
  if c.scope.path = "/observer/metrics" then ⟨[], .returned⟩ else c.app

/-- `__call__` as one step. -/
def Call.serve (config : Config) (c : Call ε) (server : Server) : Server × Outcome ε :=
  call config c.scope c.readings c.app server

/-- What a task does between two of its suspensions. -/
inductive Turn (ε : Type) where
  | enter (scope : Scope) (readings : Readings)
  | op (op : Op)
  | leave (ending : Ending ε)

def Turn.isEnter : Turn ε → Bool
  | .enter _ _ => true
  | _ => false

def Turn.isLeave : Turn ε → Bool
  | .leave _ => true
  | _ => false

def Call.program (c : Call ε) : List (Turn ε) :=
  .enter c.scope c.readings :: (c.ran.ops.map .op ++ [.leave c.ran.ending])

/-! ## One task -/

inductive Task (ε : Type) where
  | waiting
  | observed (readings : Readings) (exchange : Exchange)
  | passing (sent : List SendMessage)
  | ended (outcome : Outcome ε) (sent : List SendMessage)

/-- The part of the server that the tasks share. -/
structure Shared where
  inflight : ℤ := 0
  events : List Event := []

/-- The server as an ending call finds it; nothing was sent on its channel. -/
def Shared.server (shared : Shared) : Server := ⟨none, shared.inflight, shared.events, []⟩

/-- The answer on the path of the metrics. -/
def Config.metricsAnswer (config : Config) (readings : Readings) (shared : Shared) :
    List SendMessage := [
  .start 200 (some [(encodeLatin1 "content-type",
    encodeLatin1 "text/plain; version=0.0.4; charset=utf-8")]),
  .body (some (config.rendered shared.inflight shared.events readings.gauges)) none]

section Step
variable (config : Config)

/-- What a turn of a task does to it. -/
def Task.step (shared : Shared) : Task ε → Turn ε → Task ε
  | .waiting, .enter scope readings =>
    if scope.path = "/observer/metrics" then .passing (config.metricsAnswer readings shared)
    else if scope.path ∈ paths then
      .observed readings { trace := Config.newTrace scope readings }
    else .passing []
  | .observed readings s, .op op => .observed readings (s.step config.captureContent op)
  | .passing sent, .op op => .passing (sent ++ sentMessages [op])
  | .observed readings s, .leave ending =>
    let (server, outcome) := config.conclude readings none idle s ending
    .ended outcome server.sent
  | .passing sent, .leave ending => .ended (.ended ending) sent
  | task, _ => task

/-- What a turn of a task does to the shared state. -/
def Shared.step (shared : Shared) : Task ε → Turn ε → Shared
  | .waiting, .enter scope _ =>
    if scope.path ∈ paths then { shared with inflight := shared.inflight + 1 } else shared
  | .observed readings s, .leave ending =>
    let server := (config.conclude readings none shared.server s ending).1
    ⟨server.inflight, server.events⟩
  | _, _ => shared

end Step

/-- The tasks, by the ids that the event loop knows them under. -/
abbrev Tasks (κ ε : Type) := Processes κ (Task ε) Shared

section Tasks
variable {κ : Type} [DecidableEq κ] (config : Config)

def Tasks.start : Tasks κ ε := ⟨fun _ => .waiting, {}⟩

def Tasks.step : Tasks κ ε → κ × Turn ε → Tasks κ ε :=
  Processes.step (Task.step config) (Shared.step config)

theorem Tasks.step_shared (s : Tasks κ ε) (turn : κ × Turn ε) :
    (Tasks.step config s turn).shared = s.shared.step config (s.own turn.1) turn.2 := rfl

/-- The calls that have ended, in the order of their ends. -/
def endedCalls (turns : List (κ × Turn ε)) : List κ := keysOf Turn.isLeave turns

/-- The observed calls that have begun and not ended. -/
def running (calls : κ → Call ε) (turns : List (κ × Turn ε)) : List κ :=
  (keysOf Turn.isEnter turns).filter fun k =>
    decide ((calls k).scope.path ∈ paths ∧ k ∉ endedCalls turns)

end Tasks

/-! ## What a call adds to a server -/

theorem metrics_not_mem : "/observer/metrics" ∉ paths := by
  decide

/-- A server with what was added to an idle one, which ended alike. -/
structure Adds (server : Server) (fresh after : Server × Outcome ε) : Prop where
  events : after.1.events = server.events ++ fresh.1.events
  inflight : after.1.inflight = server.inflight + fresh.1.inflight
  sent : after.1.sent = server.sent ++ fresh.1.sent
  outcome : after.2 = fresh.2

section Adds
variable (config : Config)

theorem conclude_adds (readings : Readings) (token : Option RequestTrace) (server : Server)
    (s : Exchange) (ending : Ending ε) :
    Adds server (config.conclude readings none idle s ending)
      (config.conclude readings token server s ending) := by
  unfold Config.conclude
  dsimp only
  split
  · split
    · exact ⟨(List.append_nil _).symm, (add_zero _).symm, rfl, rfl⟩
    · exact ⟨rfl, sub_eq_add_neg _ _, rfl, rfl⟩
  · exact ⟨rfl, sub_eq_add_neg _ _, rfl, rfl⟩

/-- A call that has entered is in flight until it is concluded. -/
theorem observe_adds (scope : Scope) (readings : Readings) (app : App ε) (server : Server) :
    Adds server (config.observe scope readings app idle)
      (config.observe scope readings app server) := by
  have hserver := conclude_adds config readings server.currentRequest
    { server with
      currentRequest := some (Config.newTrace scope readings)
      inflight := server.inflight + 1 }
    (config.exchange scope readings app.ops) app.ending
  have hidle := conclude_adds config readings idle.currentRequest
    { idle with
      currentRequest := some (Config.newTrace scope readings)
      inflight := idle.inflight + 1 }
    (config.exchange scope readings app.ops) app.ending
  refine ⟨?_, ?_, ?_, hserver.outcome.trans hidle.outcome.symm⟩
  · rw [Config.observe, Config.observe, hserver.events, hidle.events]
    rfl
  · rw [Config.observe, Config.observe, hserver.inflight, hidle.inflight]
    change _ = server.inflight + (0 + 1 + _)
    ring
  · rw [Config.observe, Config.observe, hserver.sent, hidle.sent]
    rfl

theorem serve_adds {c : Call ε} (h : c.scope.path ≠ "/observer/metrics") (server : Server) :
    Adds server (c.serve config idle) (c.serve config server) := by
  unfold Call.serve call
  rw [if_neg h, if_neg h]
  split
  · exact observe_adds _ _ _ _ _
  · exact ⟨(List.append_nil _).symm, (add_zero _).symm, rfl, rfl⟩

/-- A call that is not observed leaves the server as it is, but for what is sent. -/
theorem serve_passing {c : Call ε} (h : c.scope.path ∉ paths) (server : Server) :
    (c.serve config server).1.events = server.events ∧
      (c.serve config server).1.inflight = server.inflight := by
  unfold Call.serve call
  rw [if_neg h]
  split
  · exact ⟨rfl, rfl⟩
  · exact ⟨rfl, rfl⟩

/-- What a call adds to the shared state does not depend on it. -/
theorem serve_counts (c : Call ε) (server : Server) :
    (c.serve config server).1.events = server.events ++ (c.serve config idle).1.events ∧
    (c.serve config server).1.inflight =
      server.inflight + (c.serve config idle).1.inflight := by
  by_cases h : c.scope.path ∈ paths
  · have hmetrics : c.scope.path ≠ "/observer/metrics" := fun he => metrics_not_mem (he ▸ h)
    have hadds := serve_adds config hmetrics server
    exact ⟨hadds.events, hadds.inflight⟩
  · obtain ⟨hevents, hinflight⟩ := serve_passing config h server
    obtain ⟨hnone, hzero⟩ := serve_passing config h idle
    rw [hevents, hinflight, hnone, hzero]
    exact ⟨(List.append_nil _).symm, (add_zero _).symm⟩

/-- Calls that run one after the other. -/
theorem serial_adds {κ : Type} (calls : κ → Call ε) : ∀ (ks : List κ) (server : Server),
    (ks.foldl (fun server k => ((calls k).serve config server).1) server).events =
      server.events ++ ks.flatMap (fun k => ((calls k).serve config idle).1.events) ∧
    (ks.foldl (fun server k => ((calls k).serve config server).1) server).inflight =
      server.inflight + (ks.map fun k => ((calls k).serve config idle).1.inflight).sum
  | [], server => ⟨(List.append_nil _).symm, (add_zero _).symm⟩
  | k :: rest, server => by
    obtain ⟨hkevents, hkinflight⟩ := serve_counts config (calls k) server
    obtain ⟨hevents, hinflight⟩ := serial_adds calls rest ((calls k).serve config server).1
    rw [List.foldl_cons, hevents, hinflight, hkevents, hkinflight]
    simp [add_assoc]

end Adds

/-! ## One call in its turns -/

section Program
variable {config : Config} {found : Shared}

/-- A task that has entered does not look at what is shared. -/
theorem step_blind (config : Config) (found found' : Shared) (task : Task ε) (turn : Turn ε)
    (h : task ≠ .waiting) :
    task.step config found turn = task.step config found' turn ∧
      task.step config found turn ≠ .waiting := by
  cases task with
  | waiting => exact absurd rfl h
  | observed readings s => cases turn <;> exact ⟨rfl, fun hw => by cases hw⟩
  | passing sent => cases turn <;> exact ⟨rfl, fun hw => by cases hw⟩
  | ended outcome sent => exact ⟨rfl, fun hw => by cases hw⟩

theorem step_enter (config : Config) (found : Shared) (scope : Scope) (readings : Readings) :
    (Task.waiting : Task ε).step config found (.enter scope readings) ≠ .waiting := by
  rw [Task.step]
  split_ifs <;> exact fun hw => by cases hw

theorem run_observed (readings : Readings) : ∀ (ops : List Op) (s : Exchange),
    run (Task.step config found) (.observed readings s : Task ε) (ops.map .op) =
      .observed readings (run (Exchange.step config.captureContent) s ops)
  | [], _ => rfl
  | _ :: rest, _ => run_observed readings rest _

theorem run_passing : ∀ (ops : List Op) (sent : List SendMessage),
    run (Task.step config found) (.passing sent : Task ε) (ops.map .op) =
      .passing (sent ++ sentMessages ops)
  | [], sent => by
    rw [sentMessages, List.filterMap_nil, List.append_nil]
    rfl
  | op :: rest, sent => by
    have happend : sentMessages (op :: rest) = sentMessages [op] ++ sentMessages rest := by
      rw [sentMessages, sentMessages, sentMessages, ← List.filterMap_append]
      rfl
    rw [List.map_cons, run_cons, Task.step, run_passing rest, happend, List.append_assoc]

/-- The turn that a program stands at. -/
theorem program_split {c : Call ε} {before after : List (Turn ε)} {turn : Turn ε}
    (h : c.program = before ++ turn :: after) :
    before = [] ∧ turn = .enter c.scope c.readings ∨
    (∃ done op todo, c.ran.ops = done ++ op :: todo ∧
      before = .enter c.scope c.readings :: done.map .op ∧ turn = .op op) ∨
    before = .enter c.scope c.readings :: c.ran.ops.map .op ∧ turn = .leave c.ran.ending ∧
      after = [] := by
  cases before with
  | nil =>
    obtain ⟨rfl, _⟩ := List.cons.inj h
    exact .inl ⟨rfl, rfl⟩
  | cons first before =>
    obtain ⟨rfl, htail⟩ := List.cons.inj h
    rcases split_concat htail with ⟨rfl, rfl⟩ | ⟨rest, hops⟩
    · have hafter := List.append_cancel_left htail
      exact .inr (.inr ⟨rfl, rfl, (List.cons.inj hafter).2.symm⟩)
    · obtain ⟨done, todo, hsplit, rfl, htodo⟩ := List.map_eq_append_iff.mp hops
      obtain ⟨op, todo, rfl, rfl, _⟩ := List.map_eq_cons_iff.mp htodo
      exact .inr (.inl ⟨done, op, todo, hsplit, rfl, rfl⟩)

theorem ran_observed {c : Call ε} (h : c.scope.path ∈ paths) : c.ran = c.app := by
  refine if_neg fun he => metrics_not_mem ?_
  rwa [he] at h

theorem serve_observed {c : Call ε} (h : c.scope.path ∈ paths) (server : Server) :
    c.serve config server = config.observe c.scope c.readings c.app server :=
  call_observed h _ _ _

/-- A task that has begun, and has done some of the operations. -/
theorem run_entered_observed {c : Call ε} (h : c.scope.path ∈ paths) (ops : List Op) :
    run (Task.step config found) (.waiting : Task ε) (.enter c.scope c.readings :: ops.map .op) =
      .observed c.readings (config.exchange c.scope c.readings ops) := by
  have hmetrics : c.scope.path ≠ "/observer/metrics" := fun he => metrics_not_mem (he ▸ h)
  rw [run_cons, Task.step, if_neg hmetrics, if_pos h, run_observed]
  rfl

/-- What a task sends that is not observed, on the state that it has entered at. -/
theorem run_entered_passing (config : Config) (found : Shared) {c : Call ε}
    (h : c.scope.path ∉ paths) (ops : List Op) :
    ∃ first, run (Task.step config found) (.waiting : Task ε)
        (.enter c.scope c.readings :: ops.map .op) = .passing (first ++ sentMessages ops) ∧
      (c.serve config found.server).1 =
          { found.server with sent := first ++ sentMessages c.ran.ops } ∧
        (c.serve config found.server).2 = .ended c.ran.ending := by
  by_cases hmetrics : c.scope.path = "/observer/metrics"
  · refine ⟨config.metricsAnswer c.readings found, ?_, ?_⟩
    · rw [run_cons, Task.step, if_pos hmetrics, run_passing]
    · simp only [Call.serve, Call.ran, call, if_pos hmetrics]
      exact ⟨by simp [sentMessages, Config.metricsAnswer, Shared.server], trivial⟩
  · refine ⟨[], ?_, ?_⟩
    · rw [run_cons, Task.step, if_neg hmetrics, if_neg h, run_passing]
    · simp only [Call.serve, Call.ran, call, if_neg hmetrics, if_neg h]
      exact ⟨rfl, trivial⟩

/-- **A task that has run its program has ended as the call does** on the state
that it has entered at. -/
theorem run_program (config : Config) (found : Shared) (c : Call ε) :
    run (Task.step config found) .waiting c.program =
      .ended (c.serve config found.server).2 (c.serve config found.server).1.sent := by
  have hsplit : c.program =
      (.enter c.scope c.readings :: c.ran.ops.map .op) ++ [.leave c.ran.ending] := rfl
  rw [hsplit, run_append]
  by_cases h : c.scope.path ∈ paths
  · have hconclude := conclude_adds config c.readings none
      { found.server with
        currentRequest := some (Config.newTrace c.scope c.readings)
        inflight := found.inflight + 1 }
      (config.exchange c.scope c.readings c.app.ops) c.app.ending
    have hserve : c.serve config found.server = config.conclude c.readings none
        { found.server with
          currentRequest := some (Config.newTrace c.scope c.readings)
          inflight := found.inflight + 1 }
        (config.exchange c.scope c.readings c.app.ops) c.app.ending :=
      serve_observed h found.server
    rw [run_entered_observed h, ran_observed h, hserve, hconclude.outcome, hconclude.sent]
    rfl
  · obtain ⟨first, hrun, hserved, houtcome⟩ := run_entered_passing config found h c.ran.ops
    rw [hrun, hserved, houtcome]
    rfl

end Program

/-! ## Any order of the turns -/

section Run
variable {κ : Type} [DecidableEq κ] {config : Config} {calls : κ → Call ε}
  {turns : List (κ × Turn ε)}

/-- The turns are those of the calls, each in its own order. -/
def Scheduled (calls : κ → Call ε) (turns : List (κ × Turn ε)) : Prop :=
  Interleaves (fun k => (calls k).program) turns

/-- **A task has come to what it comes to alone**, on the shared state that it has
entered at. -/
theorem tasks_run (config : Config) (h : Scheduled calls turns) (k : κ) :
    project k turns = [] ∧ (run (Tasks.step config) Tasks.start turns).own k = .waiting ∨
    ∃ pre turn post, turns = pre ++ (k, turn) :: post ∧ project k pre = [] ∧
      (run (Tasks.step config) Tasks.start turns).own k =
        run (Task.step config (run (Tasks.step config) Tasks.start pre).shared) .waiting
          (project k turns) := by
  refine own_run_first (step_blind config) turns Tasks.start fun found turn rest hproject => ?_
  obtain ⟨todo, hprogram⟩ := h k
  rw [hproject] at hprogram
  obtain ⟨rfl, _⟩ := List.cons.inj hprogram
  exact step_enter config found _ _

/-- The state that a task has entered at, whatever it is. -/
theorem tasks_run_found (config : Config) (h : Scheduled calls turns) (k : κ) :
    ∃ found, (run (Tasks.step config) Tasks.start turns).own k =
      run (Task.step config found) .waiting (project k turns) := by
  rcases tasks_run config h k with ⟨hnil, hwaiting⟩ | ⟨pre, _, _, _, _, hrun⟩
  · exact ⟨{}, by rw [hnil, hwaiting]; rfl⟩
  · exact ⟨_, hrun⟩

theorem Scheduled.entered_nodup (h : Scheduled calls turns) :
    (keysOf Turn.isEnter turns).Nodup := by
  refine nodup_keysOf h fun k => ?_
  have hnone : ((calls k).ran.ops.map Turn.op ++ [Turn.leave (calls k).ran.ending]).countP
      Turn.isEnter = 0 := by
    rw [List.countP_eq_zero]
    intro turn hmem
    rcases List.mem_append.mp hmem with hmem | hmem
    · obtain ⟨op, _, rfl⟩ := List.mem_map.mp hmem
      simp [Turn.isEnter]
    · rw [List.mem_singleton.mp hmem]
      simp [Turn.isEnter]
  rw [Call.program, List.countP_cons, hnone]
  exact le_of_eq rfl

omit [DecidableEq κ] in
theorem endedCalls_concat (turns : List (κ × Turn ε)) (k : κ) (turn : Turn ε) :
    endedCalls (turns ++ [(k, turn)]) = endedCalls turns ++ if turn.isLeave then [k] else [] :=
  keysOf_concat _ _

theorem running_op (calls : κ → Call ε) (turns : List (κ × Turn ε)) (k : κ) (op : Op) :
    running calls (turns ++ [(k, .op op)]) = running calls turns := by
  rw [running, endedCalls_concat, keysOf_concat]
  simp only [Turn.isEnter, Turn.isLeave, Bool.false_eq_true, if_false, List.append_nil]
  rfl

theorem running_enter (calls : κ → Call ε) {turns : List (κ × Turn ε)} {k : κ}
    (hleave : k ∉ endedCalls turns) (scope : Scope) (readings : Readings) :
    running calls (turns ++ [(k, .enter scope readings)]) =
      running calls turns ++ if (calls k).scope.path ∈ paths then [k] else [] := by
  rw [running, endedCalls_concat, keysOf_concat, List.filter_append]
  simp only [Turn.isEnter, Turn.isLeave, Bool.false_eq_true, if_false, if_true, List.append_nil,
    List.filter_singleton, hleave, not_false_eq_true, and_true]
  rw [running, Bool.cond_decide]

/-- A call that is not observed is not counted. -/
theorem running_leave_passing (calls : κ → Call ε) (turns : List (κ × Turn ε)) {k : κ}
    (hpath : (calls k).scope.path ∉ paths) (ending : Ending ε) :
    running calls (turns ++ [(k, .leave ending)]) = running calls turns := by
  rw [running, endedCalls_concat, keysOf_concat]
  simp only [Turn.isEnter, Turn.isLeave, if_true, Bool.false_eq_true, if_false, List.append_nil]
  refine List.filter_congr fun j _ => decide_eq_decide.mpr (and_congr_right fun hj => ?_)
  have hne : j ≠ k := fun he => hpath (he ▸ hj)
  simp [hne]

/-- The call that ends is no longer running. -/
theorem length_running_leave (h : Scheduled calls turns) {k : κ}
    (henter : k ∈ keysOf Turn.isEnter turns) (hleave : k ∉ endedCalls turns)
    (hpath : (calls k).scope.path ∈ paths) (ending : Ending ε) :
    (running calls (turns ++ [(k, .leave ending)])).length + 1 = (running calls turns).length := by
  have hmem : k ∈ running calls turns := List.mem_filter.mpr ⟨henter, by simp [hpath, hleave]⟩
  have hnodup : (running calls turns).Nodup := h.entered_nodup.filter _
  have herase : running calls (turns ++ [(k, .leave ending)]) = (running calls turns).erase k := by
    rw [hnodup.erase_eq_filter, running, endedCalls_concat, keysOf_concat, running,
      List.filter_filter]
    simp only [Turn.isEnter, Turn.isLeave, if_true, Bool.false_eq_true, if_false, List.append_nil]
    refine List.filter_congr fun j _ => ?_
    by_cases hj : j = k <;> simp [hj]
  have hpos := List.length_pos_of_mem hmem
  rw [herase, List.length_erase_of_mem hmem]
  omega

/-- What a call that has ended adds, seen from its last turn. -/
theorem serve_concluded (config : Config) {c : Call ε} (h : c.scope.path ∈ paths)
    (shared : Shared) :
    let concluded := (config.conclude c.readings none shared.server
      (config.exchange c.scope c.readings c.app.ops) c.app.ending).1
    concluded.events = shared.events ++ (c.serve config idle).1.events ∧
      concluded.inflight + 1 = shared.inflight + (c.serve config idle).1.inflight := by
  have hshared := conclude_adds config c.readings none shared.server
    (config.exchange c.scope c.readings c.app.ops) c.app.ending
  have hidle := conclude_adds config c.readings none
    { idle with currentRequest := some (Config.newTrace c.scope c.readings), inflight := 1 }
    (config.exchange c.scope c.readings c.app.ops) c.app.ending
  have hserve : c.serve config idle = config.conclude c.readings none
      { idle with currentRequest := some (Config.newTrace c.scope c.readings), inflight := 1 }
      (config.exchange c.scope c.readings c.app.ops) c.app.ending := serve_observed h idle
  refine ⟨?_, ?_⟩
  · rw [hshared.events, hserve, hidle.events]
    rfl
  · rw [hshared.inflight, hserve, hidle.inflight]
    change shared.inflight + _ + 1 = shared.inflight + (1 + _)
    ring

/-- What the tasks share, in terms of the calls that have ended. -/
theorem shared_run (config : Config) (h : Scheduled calls turns) :
    (run (Tasks.step config) Tasks.start turns).shared.events =
      (endedCalls turns).flatMap (fun k => ((calls k).serve config idle).1.events) ∧
    (run (Tasks.step config) Tasks.start turns).shared.inflight =
      ((endedCalls turns).map fun k => ((calls k).serve config idle).1.inflight).sum +
        (running calls turns).length := by
  induction turns using List.reverseRecOn with
  | nil => exact ⟨rfl, rfl⟩
  | append_singleton turns entry ih =>
    obtain ⟨k, turn⟩ := entry
    have hbefore : Scheduled calls turns := Interleaves.initial h
    obtain ⟨hevents, hinflight⟩ := ih hbefore
    obtain ⟨found, htask⟩ := tasks_run_found config hbefore k
    obtain ⟨after, hprogram⟩ := Interleaves.next h
    rw [run_append, endedCalls_concat]
    simp only [run_cons, run_nil]
    rw [Tasks.step_shared, htask]
    rcases program_split hprogram with ⟨hnil, rfl⟩ | ⟨done, op, todo, hops, hdone, rfl⟩ |
      ⟨hdone, rfl, _⟩
    · -- the call enters
      have hleave : k ∉ endedCalls turns := by
        rw [endedCalls, mem_keysOf, hnil]
        simp
      rw [hnil, running_enter calls hleave]
      simp only [run_nil, Shared.step, Turn.isLeave, Bool.false_eq_true, if_false, List.append_nil]
      by_cases hpath : (calls k).scope.path ∈ paths
      · rw [if_pos hpath, if_pos hpath]
        refine ⟨hevents, ?_⟩
        rw [List.length_append, List.length_singleton, hinflight]
        push_cast
        ring
      · rw [if_neg hpath, if_neg hpath, List.append_nil]
        exact ⟨hevents, hinflight⟩
    · -- an operation stays within its task
      rw [hdone, running_op]
      simp only [Turn.isLeave, Bool.false_eq_true, if_false, List.append_nil]
      by_cases hpath : (calls k).scope.path ∈ paths
      · rw [run_entered_observed hpath]
        exact ⟨hevents, hinflight⟩
      · obtain ⟨first, hrun, _⟩ := run_entered_passing config found hpath done
        rw [hrun]
        exact ⟨hevents, hinflight⟩
    · -- the call ends
      simp only [Turn.isLeave, if_true, List.flatMap_append, List.flatMap_singleton,
        List.map_append, List.map_singleton, List.sum_append, List.sum_singleton]
      by_cases hpath : (calls k).scope.path ∈ paths
      · have henter : k ∈ keysOf Turn.isEnter turns := by
          rw [mem_keysOf, hdone]
          exact ⟨_, List.mem_cons_self, rfl⟩
        have hleave : k ∉ endedCalls turns := by
          rw [endedCalls, mem_keysOf, hdone]
          simp [Turn.isLeave]
        have hlength := length_running_leave hbefore henter hleave hpath (calls k).ran.ending
        obtain ⟨hconcluded, hcount⟩ := serve_concluded config hpath
          (run (Tasks.step config) Tasks.start turns).shared
        rw [hdone, run_entered_observed hpath, ran_observed hpath]
        simp only [Shared.step]
        rw [ran_observed hpath] at hlength
        refine ⟨by rw [hconcluded, hevents], ?_⟩
        omega
      · obtain ⟨first, hrun, _⟩ := run_entered_passing config found hpath (calls k).ran.ops
        obtain ⟨hnone, hzero⟩ := serve_passing config hpath idle
        rw [hdone, hrun, running_leave_passing calls turns hpath, hnone, hzero]
        simp only [Shared.step]
        exact ⟨hevents.trans (List.append_nil _).symm, by rw [hinflight, idle, add_zero]⟩

/-- A call that has ended has run its program. -/
theorem project_ended (h : Scheduled calls turns) {k : κ} (hk : k ∈ endedCalls turns) :
    project k turns = (calls k).program := by
  obtain ⟨turn, hturn, hleave⟩ := mem_keysOf.mp hk
  obtain ⟨before, after, hproject⟩ := List.append_of_mem hturn
  obtain ⟨rest, hrest⟩ := h k
  rw [hproject, List.append_assoc] at hrest
  rcases program_split hrest.symm with ⟨_, rfl⟩ | ⟨_, _, _, _, _, rfl⟩ | ⟨_, _, hnil⟩
  · cases hleave
  · cases hleave
  · obtain ⟨rfl, rfl⟩ := List.append_eq_nil_iff.mp hnil
    rw [hproject]
    simpa using hrest

/-- **Concurrent calls are serializable.** Between any two turns the shared state
is that of a server that ran the ended calls one after the other, in the order of
their ends, but for the calls in flight; and a call that has ended has sent and
returned what it does alone on the shared state that it entered at, which matters
for a scrape of the metrics only. -/
theorem calls_serializable (config : Config) (calls : κ → Call ε) {turns : List (κ × Turn ε)}
    (h : Scheduled calls turns) :
    let s := run (Tasks.step config) Tasks.start turns
    let serial := (endedCalls turns).foldl (fun server k => ((calls k).serve config server).1) idle
    s.shared.events = serial.events ∧
    s.shared.inflight = serial.inflight + (running calls turns).length ∧
    ∀ k ∈ endedCalls turns, ∃ pre post,
      turns = pre ++ (k, .enter (calls k).scope (calls k).readings) :: post ∧
      let found := (run (Tasks.step config) Tasks.start pre).shared.server
      let served := (calls k).serve config found
      s.own k = .ended served.2 served.1.sent ∧
      ((calls k).scope.path ≠ "/observer/metrics" →
        served.2 = ((calls k).serve config idle).2 ∧
          served.1.sent = ((calls k).serve config idle).1.sent) := by
  intro s serial
  obtain ⟨hevents, hinflight⟩ := shared_run config h
  obtain ⟨hserial, hcount⟩ := serial_adds config calls (endedCalls turns) idle
  refine ⟨hevents.trans hserial.symm, ?_, fun k hk => ?_⟩
  · rw [hinflight, hcount]
    change _ = 0 + _ + _
    rw [zero_add]
  · have hproject := project_ended h hk
    rcases tasks_run config h k with ⟨hnil, _⟩ | ⟨pre, turn, post, rfl, hpre, hrun⟩
    · cases hproject.symm.trans hnil
    · have hturn : turn = .enter (calls k).scope (calls k).readings := by
        rw [project_append, hpre, project_cons, if_pos rfl] at hproject
        exact (List.cons.inj hproject).1
      subst hturn
      refine ⟨pre, post, rfl, ?_, fun hpath => ?_⟩
      · rw [hproject, run_program] at hrun
        exact hrun
      · have hadds := serve_adds config hpath
          (run (Tasks.step config) Tasks.start pre).shared.server
        exact ⟨hadds.outcome, hadds.sent⟩

/-- A stream, and a call that fails, as its response cannot be read. -/
def twoCalls (k : ℕ) : Call String := ⟨chatScope, readings, if k = 0 then streamed else answered⟩

/-- The second call runs in the middle of the first one. -/
def twoTurns : List (ℕ × Turn String) :=
  ((twoCalls 0).program.take 2).map (Prod.mk 0) ++ (twoCalls 1).program.map (Prod.mk 1) ++
    ((twoCalls 0).program.drop 2).map (Prod.mk 0)

theorem twoTurns_scheduled : Scheduled twoCalls twoTurns := by
  intro k
  rw [twoTurns, project_append, project_append]
  by_cases h0 : (0 : ℕ) = k
  · subst h0
    rw [project_same, project_same, project_other (by decide), List.append_nil,
      List.take_append_drop]
  · rw [project_other h0, project_other h0]
    by_cases h1 : (1 : ℕ) = k
    · subst h1
      rw [project_same, List.append_nil]
      exact List.prefix_refl _
    · rw [project_other h1]
      exact List.nil_prefix

theorem calls_serializable_two :
    (run (Tasks.step capturing) Tasks.start twoTurns).shared.events.length = 1 ∧
    (run (Tasks.step capturing) Tasks.start twoTurns).shared.inflight = 1 := by
  obtain ⟨hevents, hinflight, _⟩ := calls_serializable capturing twoCalls twoTurns_scheduled
  rw [hevents, hinflight]
  decide +kernel

end Run

end VllmObserver.Middleware
