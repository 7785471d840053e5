import VllmObserver.Core.Plain
import VllmObserver.Lib.Runs

/-! # Pushing metrics

`RemoteWriter` runs one background task: it asks for the health of the model,
pushes a snapshot of the registry, waits, and starts over until `close` sets the
stop event; then it pushes once more, as a dead instance. The push runs in a
thread, and `close` may be called at any point. -/
namespace VllmObserver.RemoteWrite
open VllmObserver.Lib VllmObserver.Core

/-- What `encode_registry` reads of the writer's own metrics, under the
timestamp of every sample of the batch. -/
structure Snapshot where
  timestampMs : ℤ
  heartbeat : ℚ
  alive : ℤ
  healthy : ℤ
  failures : ℕ
deriving DecidableEq

/-- How `wait_for(health_check(), timeout)` ends. -/
inductive HealthCheck where
  | returned (healthy : Bool)
  | raised
  | timedOut
deriving DecidableEq

/-- `int(healthy)`; an exception, also of the timeout, counts as unhealthy. -/
def HealthCheck.gauge : HealthCheck → ℤ
  | returned true => 1
  | returned false | raised | timedOut => 0

/-- Where the task stands in `_run`. There is none before `start`; it is at the
test of the stop event, at the health check, in the push thread before or after
the snapshot, at the wait, or at the end. `final` is the push behind the loop. -/
inductive Phase where
  | idle
  | testing
  | checking
  | pushing (final : Bool)
  | sending (final : Bool)
  | waiting
  | ended
deriving DecidableEq

/-- What the task has done: a health check, an attempted snapshot, the result of
its push. -/
inductive Event where
  | checked (health : HealthCheck)
  | attempted (snapshot : Snapshot)
  | pushed (ok : Bool)
deriving DecidableEq

structure RemoteWriter where
  lastTimestamp : ℤ := 0
  stop : Bool := false
  heartbeat : ℚ := 0
  alive : ℤ := 0
  healthy : ℤ := 0
  failures : ℕ := 0
  phase : Phase := .idle
  log : List Event := []

namespace RemoteWriter

def positive (x : Flt) : Bool := x.isFinite && (Flt.fin 0).lt x

/-- `RemoteWriter(metrics, url, interval, timeout)`. -/
def create (url : String) (interval timeout : Flt) : Except PyError RemoteWriter :=
  if !(positive interval && positive timeout) then
    .error (.valueError "Push interval and timeout must be positive finite seconds")
  else if !("http://".toList.isPrefixOf url.toList || "https://".toList.isPrefixOf url.toList) then
    .error (.valueError "Remote Write URL must use HTTP(S)")
  else .ok {}

def start (w : RemoteWriter) : RemoteWriter :=
  if w.phase = .idle then { w with alive := 1, phase := .testing } else w

/-- `close`; what it awaits is the task itself. -/
def close (w : RemoteWriter) : RemoteWriter := { w with stop := true }

/-- The test of the loop. Behind the loop the instance is taken offline. -/
def test (w : RemoteWriter) : RemoteWriter :=
  if w.stop then { w with alive := 0, healthy := 0, phase := .pushing true }
  else { w with phase := .checking }

def checked (w : RemoteWriter) (health : HealthCheck) : RemoteWriter :=
  { w with
    healthy := health.gauge
    phase := .pushing false
    log := w.log ++ [.checked health] }

/-- `_push_snapshot` up to the encoded registry, at readings of `time.time` and
`time.time_ns`. -/
def pushSnapshot (w : RemoteWriter) (final : Bool) (time : ℚ) (timeNs : ℤ) : RemoteWriter :=
  let timestamp := max (w.lastTimestamp + 1) (timeNs / 1000000)
  { w with
    heartbeat := time
    lastTimestamp := timestamp
    phase := .sending final
    log := w.log ++ [.attempted {
      timestampMs := timestamp
      heartbeat := time
      alive := w.alive
      healthy := w.healthy
      failures := w.failures }] }

/-- The end of `push`, which counts any exception. -/
def pushed (w : RemoteWriter) (final ok : Bool) : RemoteWriter :=
  { w with
    failures := if ok then w.failures else w.failures + 1
    phase := if final then .ended else .waiting
    log := w.log ++ [.pushed ok] }

end RemoteWriter

/-- What happens next: a call of `start` or `close`, or a step of the task with
what its surroundings answer. -/
inductive WriterOp where
  | start
  | close
  | test
  | health (health : HealthCheck)
  | snapshot (time : ℚ) (timeNs : ℤ)
  | pushed (ok : Bool)
  | woken

/-- A step of the task is taken where the task stands at it. -/
def RemoteWriter.apply (w : RemoteWriter) : WriterOp → RemoteWriter
  | .start => w.start
  | .close => w.close
  | .test => match w.phase with
    | .testing => w.test
    | _ => w
  | .health health => match w.phase with
    | .checking => w.checked health
    | _ => w
  | .snapshot time timeNs => match w.phase with
    | .pushing final => w.pushSnapshot final time timeNs
    | _ => w
  | .pushed ok => match w.phase with
    | .sending final => w.pushed final ok
    | _ => w
  | .woken => match w.phase with
    | .waiting => { w with phase := .testing } -- stopped or timed out
    | _ => w

/-! ## The protocol -/

/-- The attempted snapshots, in order. -/
def attempts (log : List Event) : List Snapshot :=
  log.filterMap fun
    | .attempted snapshot => some snapshot
    | _ => none

def failedPushes (log : List Event) : ℕ := log.count (.pushed false)

/-- The snapshot comes right after a health check, whose result it carries, from
a live instance. -/
def Online (before : List Event) (s : Snapshot) : Prop :=
  s.alive = 1 ∧ ∃ earlier health, before = earlier ++ [.checked health] ∧ s.healthy = health.gauge

/-- Every attempted snapshot is online and carries the number of failures. -/
def AllOnline (log : List Event) : Prop :=
  ∀ before s after, log = before ++ .attempted s :: after →
    Online before s ∧ s.failures = failedPushes before

/-- The last attempted snapshot is offline, and those before it are online. -/
def SignedOff (log : List Event) : Prop :=
  ∃ before s after, log = before ++ .attempted s :: after ∧ AllOnline before ∧
    s.alive = 0 ∧ s.healthy = 0 ∧ s.failures = failedPushes before ∧ attempts after = []

theorem attempts_append (xs ys : List Event) : attempts (xs ++ ys) = attempts xs ++ attempts ys :=
  List.filterMap_append

theorem failedPushes_append (xs ys : List Event) :
    failedPushes (xs ++ ys) = failedPushes xs + failedPushes ys := List.count_append

theorem AllOnline.append {log : List Event} (h : AllOnline log) {e : Event}
    (he : ∀ s, e = .attempted s → Online log s ∧ s.failures = failedPushes log) :
    AllOnline (log ++ [e]) := by
  intro before s after heq
  rcases split_concat heq with ⟨rfl, hlast⟩ | ⟨rest, hrest⟩
  · exact he s hlast
  · exact h before s rest hrest

theorem AllOnline.signOff {log : List Event} (h : AllOnline log) {s : Snapshot} (ha : s.alive = 0)
    (hh : s.healthy = 0) (hf : s.failures = failedPushes log) :
    SignedOff (log ++ [.attempted s]) :=
  ⟨log, s, [], rfl, h, ha, hh, hf, rfl⟩

theorem SignedOff.append {log : List Event} (h : SignedOff log) {e : Event}
    (he : attempts [e] = []) : SignedOff (log ++ [e]) := by
  obtain ⟨before, s, after, rfl, hon, ha, hh, hf, hafter⟩ := h
  refine ⟨before, s, after ++ [e], by simp, hon, ha, hh, hf, ?_⟩
  rw [attempts_append, hafter, he]
  rfl

/-- What the gauges and the log are where the task stands in a phase. -/
def AtPhase (w : RemoteWriter) : Phase → Prop
  | .idle => w.log = []
  | .testing | .checking | .sending false | .waiting => w.alive = 1 ∧ AllOnline w.log
  | .pushing false => w.alive = 1 ∧ AllOnline w.log ∧
      ∃ earlier health, w.log = earlier ++ [.checked health] ∧ w.healthy = health.gauge
  | .pushing true => w.alive = 0 ∧ w.healthy = 0 ∧ AllOnline w.log
  | .sending true | .ended => SignedOff w.log

structure Protocol (w : RemoteWriter) : Prop where
  increasing : (attempts w.log).Pairwise (fun s t => s.timestampMs < t.timestampMs)
  latest : ∀ s ∈ attempts w.log, s.timestampMs ≤ w.lastTimestamp
  failures : w.failures = failedPushes w.log
  phase : AtPhase w w.phase

namespace Protocol
variable {w : RemoteWriter}

theorem start (h : Protocol w) : Protocol w.start := by
  unfold RemoteWriter.start
  split
  · rename_i hidle
    have hlog : w.log = [] := by
      have hp := h.phase
      rw [hidle] at hp
      exact hp
    refine { h with phase := ⟨rfl, ?_⟩ }
    intro before s after heq
    simp [hlog] at heq
  · exact h

/-- `close` touches neither the gauges nor the log. -/
theorem close (h : Protocol w) : Protocol w.close := by
  have hphase : AtPhase w.close w.phase = AtPhase w w.phase := by
    cases w.phase <;> rfl
  exact { h with phase := hphase ▸ h.phase }

theorem test (h : Protocol w) (hp : w.phase = .testing) : Protocol w.test := by
  have hphase := h.phase
  rw [hp] at hphase
  unfold RemoteWriter.test
  split
  · exact { h with phase := ⟨rfl, rfl, hphase.2⟩ }
  · exact { h with phase := hphase }

theorem checked (h : Protocol w) (hp : w.phase = .checking) (health : HealthCheck) :
    Protocol (w.checked health) := by
  have hphase := h.phase
  rw [hp] at hphase
  have hattempts : attempts (w.log ++ [.checked health]) = attempts w.log := by
    rw [attempts_append]
    exact List.append_nil _
  refine ⟨?_, ?_, ?_, hphase.1, hphase.2.append (by simp), w.log, health, rfl, rfl⟩
  · exact hattempts ▸ h.increasing
  · exact hattempts ▸ h.latest
  · exact h.failures.trans (failedPushes_append w.log [.checked health]).symm

/-- The next snapshot is later than all before it, whatever the wall clock says. -/
theorem pushSnapshot (h : Protocol w) {final : Bool} (hp : w.phase = .pushing final) (time : ℚ)
    (timeNs : ℤ) : Protocol (w.pushSnapshot final time timeNs) := by
  have hphase := h.phase
  rw [hp] at hphase
  have hlt : ∀ s ∈ attempts w.log,
      s.timestampMs < max (w.lastTimestamp + 1) (timeNs / 1000000) := by
    intro s hs
    have := h.latest s hs
    omega
  refine ⟨?_, ?_, ?_, ?_⟩
  · simp only [RemoteWriter.pushSnapshot, attempts_append]
    refine List.pairwise_append.mpr ⟨h.increasing, List.pairwise_singleton _ _, ?_⟩
    intro s hs t ht
    rw [List.mem_singleton.mp ht]
    exact hlt s hs
  · simp only [RemoteWriter.pushSnapshot, attempts_append]
    intro s hs
    rcases List.mem_append.mp hs with hs | hs
    · exact (hlt s hs).le
    · rw [List.mem_singleton.mp hs]
  · exact h.failures.trans (failedPushes_append w.log [.attempted _]).symm
  · cases final with
    | false =>
      obtain ⟨halive, hon, hcheck⟩ := hphase
      refine ⟨halive, hon.append ?_⟩
      intro s hs
      cases hs
      exact ⟨⟨halive, hcheck⟩, h.failures⟩
    | true =>
      obtain ⟨halive, hhealthy, hon⟩ := hphase
      exact hon.signOff halive hhealthy h.failures

theorem pushed (h : Protocol w) {final : Bool} (hp : w.phase = .sending final) (ok : Bool) :
    Protocol (w.pushed final ok) := by
  have hphase := h.phase
  rw [hp] at hphase
  have hattempts : attempts (w.log ++ [.pushed ok]) = attempts w.log := by
    rw [attempts_append]
    exact List.append_nil _
  refine ⟨?_, ?_, ?_, ?_⟩
  · exact hattempts ▸ h.increasing
  · exact hattempts ▸ h.latest
  · simp only [RemoteWriter.pushed]
    rw [failedPushes_append, ← h.failures]
    cases ok <;> rfl
  · cases final with
    | false => exact ⟨hphase.1, hphase.2.append (by simp)⟩
    | true => exact SignedOff.append hphase rfl

theorem step (h : Protocol w) (op : WriterOp) : Protocol (w.apply op) := by
  cases op with
  | start => exact h.start
  | close => exact h.close
  | test =>
    simp only [RemoteWriter.apply]
    split
    · exact h.test ‹_›
    · exact h
  | health health =>
    simp only [RemoteWriter.apply]
    split
    · exact h.checked ‹_› health
    · exact h
  | snapshot time timeNs =>
    simp only [RemoteWriter.apply]
    split
    · exact h.pushSnapshot ‹_› time timeNs
    · exact h
  | pushed ok =>
    simp only [RemoteWriter.apply]
    split
    · exact h.pushed ‹_› ok
    · exact h
  | woken =>
    simp only [RemoteWriter.apply]
    split
    · rename_i hp
      have hphase := h.phase
      rw [hp] at hphase
      exact { h with phase := hphase }
    · exact h

end Protocol

theorem protocol_run (ops : List WriterOp) : Protocol (run RemoteWriter.apply {} ops) :=
  run_invariant_all RemoteWriter.apply (fun _ op h => h.step op)
    ⟨List.Pairwise.nil, by simp [attempts], rfl, rfl⟩

theorem AtPhase.log {w : RemoteWriter} (h : AtPhase w w.phase) :
    AllOnline w.log ∨ SignedOff w.log := by
  cases hp : w.phase with
  | idle =>
    rw [hp] at h
    left
    intro before s after heq
    rw [show w.log = [] from h] at heq
    simp at heq
  | pushing final =>
    rw [hp] at h
    cases final with
    | false => exact Or.inl h.2.1
    | true => exact Or.inl h.2.2
  | sending final =>
    rw [hp] at h
    cases final with
    | false => exact Or.inl h.2
    | true => exact Or.inr h
  | ended =>
    rw [hp] at h
    exact Or.inr h
  | _ =>
    rw [hp] at h
    exact Or.inl h.2

/-- **The push protocol.** In every state of every run the timestamps of the
attempted snapshots increase, and the snapshots are online, all of them or all
but the last; once the task has ended the last one is offline. -/
theorem push_protocol (ops : List WriterOp) :
    (attempts (run RemoteWriter.apply {} ops).log).Pairwise
        (fun s t => s.timestampMs < t.timestampMs) ∧
      (AllOnline (run RemoteWriter.apply {} ops).log ∨
        SignedOff (run RemoteWriter.apply {} ops).log) ∧
      ((run RemoteWriter.apply {} ops).phase = .ended →
        SignedOff (run RemoteWriter.apply {} ops).log) := by
  have h := protocol_run ops
  refine ⟨h.increasing, h.phase.log, fun hended => ?_⟩
  have hphase := h.phase
  rw [hended] at hphase
  exact hphase

/-- A failed push, a clock that goes back, and a close during the second push. -/
example : attempts (run RemoteWriter.apply {} [.start, .test, .health (.returned true),
      .snapshot 5 5000000000, .pushed false, .woken, .test, .health .timedOut,
      .snapshot 3 3000000000, .close, .pushed true, .woken, .test, .snapshot 4 4000000000,
      .close, .pushed true, .test]).log =
    [⟨5000, 5, 1, 1, 0⟩, ⟨5001, 3, 1, 0, 1⟩, ⟨5002, 4, 0, 0, 1⟩] := by
  decide +kernel

/-! ## The steps of the task -/

/-- What an operation leaves in the log, where the task stands at it. -/
def RemoteWriter.logged (w : RemoteWriter) : WriterOp → List Event
  | .health health => match w.phase with
    | .checking => [.checked health]
    | _ => []
  | .snapshot time timeNs => match w.phase with
    | .pushing _ => [.attempted {
        timestampMs := max (w.lastTimestamp + 1) (timeNs / 1000000)
        heartbeat := time
        alive := w.alive
        healthy := w.healthy
        failures := w.failures }]
    | _ => []
  | .pushed ok => match w.phase with
    | .sending _ => [.pushed ok]
    | _ => []
  | .start | .close | .test | .woken => []

/-- The operation is a step that the task takes. -/
def RemoteWriter.takes (w : RemoteWriter) : WriterOp → Bool
  | .start | .close => false
  | .test => w.phase = .testing
  | .health _ => w.phase = .checking
  | .snapshot _ _ => ∃ final, w.phase = .pushing final
  | .pushed _ => ∃ final, w.phase = .sending final
  | .woken => w.phase = .waiting

/-- The operations of a run that are steps of the task. -/
def stepsTaken (w : RemoteWriter) (ops : List WriterOp) : List WriterOp :=
  emitted RemoteWriter.apply (fun w op => if w.takes op then [op] else []) w ops

/-- The steps to the end of a stopped task. -/
def Phase.remaining : Phase → ℕ
  | .idle | .ended => 0
  | .sending true => 1
  | .pushing true => 2
  | .testing => 3
  | .waiting => 4
  | .sending false => 5
  | .pushing false => 6
  | .checking => 7

theorem start_log (w : RemoteWriter) : w.start.log = w.log := by
  unfold RemoteWriter.start
  split <;> rfl

theorem test_log (w : RemoteWriter) : w.test.log = w.log := by
  unfold RemoteWriter.test
  split <;> rfl

theorem apply_log (w : RemoteWriter) (op : WriterOp) :
    (w.apply op).log = w.log ++ w.logged op := by
  cases op with
  | start => exact (start_log w).trans (List.append_nil _).symm
  | close => exact (List.append_nil _).symm
  | test =>
    simp only [RemoteWriter.apply, RemoteWriter.logged, List.append_nil]
    split
    · exact test_log w
    · rfl
  | health health =>
    simp only [RemoteWriter.apply, RemoteWriter.logged]
    split
    · rfl
    · exact (List.append_nil _).symm
  | snapshot time timeNs =>
    simp only [RemoteWriter.apply, RemoteWriter.logged]
    split
    · rfl
    · exact (List.append_nil _).symm
  | pushed ok =>
    simp only [RemoteWriter.apply, RemoteWriter.logged]
    split
    · rfl
    · exact (List.append_nil _).symm
  | woken =>
    simp only [RemoteWriter.apply, RemoteWriter.logged, List.append_nil]
    split
    · rfl
    · rfl

/-- The log holds exactly what the operations leave: each health result, each
snapshot and each result of a push where the task stands at it, in order. -/
theorem run_log (ops : List WriterOp) :
    (run RemoteWriter.apply {} ops).log =
      emitted RemoteWriter.apply RemoteWriter.logged {} ops :=
  log_run RemoteWriter.apply RemoteWriter.logged apply_log ops {}

/-- What one operation leaves, between what those before and behind it leave. -/
theorem run_log_at (before after : List WriterOp) (op : WriterOp) :
    (run RemoteWriter.apply {} (before ++ op :: after)).log =
      (run RemoteWriter.apply {} before).log ++ (run RemoteWriter.apply {} before).logged op ++
        emitted RemoteWriter.apply RemoteWriter.logged
          ((run RemoteWriter.apply {} before).apply op) after := by
  rw [run_log, emitted_append, emitted, ← run_log, List.append_assoc]

/-- The writer is started, and `close` was called. -/
structure Stopped (w : RemoteWriter) : Prop where
  stop : w.stop = true
  started : w.phase ≠ .idle

/-- What is no step of the task changes nothing any more. -/
theorem Stopped.untaken {w : RemoteWriter} (h : Stopped w) {op : WriterOp}
    (hop : w.takes op = false) : w.apply op = w := by
  have hclosed : w.close = w := by
    obtain ⟨hstop, _⟩ := h
    cases w
    cases hstop
    rfl
  cases op with
  | start => exact if_neg h.started
  | close => exact hclosed
  | test =>
    simp only [RemoteWriter.takes, decide_eq_false_iff_not] at hop
    simp only [RemoteWriter.apply]
  | health health =>
    simp only [RemoteWriter.takes, decide_eq_false_iff_not] at hop
    simp only [RemoteWriter.apply]
  | snapshot time timeNs =>
    simp only [RemoteWriter.takes, decide_eq_false_iff_not, not_exists] at hop
    simp only [RemoteWriter.apply]
  | pushed ok =>
    simp only [RemoteWriter.takes, decide_eq_false_iff_not, not_exists] at hop
    simp only [RemoteWriter.apply]
  | woken =>
    simp only [RemoteWriter.takes, decide_eq_false_iff_not] at hop
    simp only [RemoteWriter.apply]

/-- A stopped task never goes back into the loop. -/
theorem Stopped.taken {w : RemoteWriter} (h : Stopped w) {op : WriterOp} (hop : w.takes op = true) :
    Stopped (w.apply op) ∧ (w.apply op).phase.remaining + 1 = w.phase.remaining := by
  obtain ⟨hstop, _⟩ := h
  cases op with
  | start => cases hop
  | close => cases hop
  | test =>
    have hp : w.phase = .testing := of_decide_eq_true hop
    have htest : w.test = { w with alive := 0, healthy := 0, phase := .pushing true } :=
      if_pos hstop
    simp only [RemoteWriter.apply, hp, htest]
    exact ⟨⟨hstop, nofun⟩, rfl⟩
  | health health =>
    have hp : w.phase = .checking := of_decide_eq_true hop
    simp only [RemoteWriter.apply, hp]
    exact ⟨⟨hstop, nofun⟩, rfl⟩
  | snapshot time timeNs =>
    obtain ⟨final, hp⟩ : ∃ final, w.phase = .pushing final := of_decide_eq_true hop
    simp only [RemoteWriter.apply, hp]
    cases final <;> exact ⟨⟨hstop, nofun⟩, rfl⟩
  | pushed ok =>
    obtain ⟨final, hp⟩ : ∃ final, w.phase = .sending final := of_decide_eq_true hop
    simp only [RemoteWriter.apply, hp]
    cases final <;> exact ⟨⟨hstop, nofun⟩, rfl⟩
  | woken =>
    have hp : w.phase = .waiting := of_decide_eq_true hop
    simp only [RemoteWriter.apply, hp]
    exact ⟨⟨hstop, nofun⟩, rfl⟩

theorem Stopped.run : ∀ (ops : List WriterOp) {w : RemoteWriter}, Stopped w →
    Stopped (run RemoteWriter.apply w ops) ∧
      (run RemoteWriter.apply w ops).phase.remaining + (stepsTaken w ops).length =
        w.phase.remaining
  | [], _, h => ⟨h, rfl⟩
  | op :: rest, w, h => by
    rw [run_cons, stepsTaken, emitted, List.length_append]
    by_cases hop : w.takes op = true
    · obtain ⟨hnext, hone⟩ := h.taken hop
      obtain ⟨hend, hrest⟩ := Stopped.run rest hnext
      refine ⟨hend, ?_⟩
      rw [if_pos hop, ← hone, ← hrest, stepsTaken]
      exact (Nat.add_left_comm ..).trans (Nat.add_comm ..)
    · obtain ⟨hend, hrest⟩ := Stopped.run rest h
      rw [if_neg hop, h.untaken (Bool.eq_false_iff.mpr hop)]
      refine ⟨hend, ?_⟩
      rw [List.length_nil, Nat.zero_add]
      exact hrest

/-- Outside its beginning and its end the task has a step to take. -/
theorem remaining_eq_zero {phase : Phase} (h : phase ≠ .idle) :
    phase.remaining = 0 ↔ phase = .ended := by
  cases phase with
  | idle => exact absurd rfl h
  | pushing final => cases final <;> simp [Phase.remaining]
  | sending final => cases final <;> simp [Phase.remaining]
  | _ => simp [Phase.remaining]

/-- **Closing the writer.** Behind `close` the task of a started writer takes no
more steps than it has left. It has ended when it has taken them all, and not
before; then its last snapshot is offline. -/
theorem close_signs_off (before after : List WriterOp)
    (hstarted : (run RemoteWriter.apply {} before).phase ≠ .idle) :
    (stepsTaken (run RemoteWriter.apply {} before).close after).length ≤
        (run RemoteWriter.apply {} before).phase.remaining ∧
      ((run RemoteWriter.apply {} (before ++ .close :: after)).phase = .ended ↔
        (stepsTaken (run RemoteWriter.apply {} before).close after).length =
          (run RemoteWriter.apply {} before).phase.remaining) ∧
      ((run RemoteWriter.apply {} (before ++ .close :: after)).phase = .ended →
        SignedOff (run RemoteWriter.apply {} (before ++ .close :: after)).log) := by
  have hsigned (hended : (run RemoteWriter.apply {} (before ++ .close :: after)).phase = .ended) :
      SignedOff (run RemoteWriter.apply {} (before ++ .close :: after)).log := by
    have hphase := (protocol_run (before ++ .close :: after)).phase
    rw [hended] at hphase
    exact hphase
  have hstopped : Stopped (run RemoteWriter.apply {} before).close := ⟨rfl, hstarted⟩
  obtain ⟨⟨_, hrunning⟩, hcount⟩ := Stopped.run after hstopped
  change _ = (run RemoteWriter.apply {} before).phase.remaining at hcount
  refine ⟨by omega, ?_, hsigned⟩
  rw [run_append, run_cons]
  refine (remaining_eq_zero hrunning).symm.trans ⟨fun hzero => ?_, fun hall => ?_⟩
  · rw [← hcount, hzero, Nat.zero_add]
  · omega

end VllmObserver.RemoteWrite
