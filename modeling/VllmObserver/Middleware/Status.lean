import VllmObserver.Middleware.Call
import Mathlib.Data.List.Induction

/-! # The status of an event

The status is written in four places, and the last writer wins. Over a whole run
of the application it stays `ok` as long as no error response starts and no
disconnect comes before the response is complete; at the end a response that is
not complete is cancelled. -/
namespace VllmObserver.Middleware
open VllmObserver.Lib VllmObserver.Core

/-- Of each body sent, whether it is final. -/
def finals (ops : List Op) : List Bool :=
  (sentMessages ops).filterMap fun
    | .body _ moreBody => some (!moreBody.getD false)
    | _ => none

/-- The last body sent is final, and there is one. -/
def Complete (ops : List Op) : Prop := (finals ops).getLast? = some true

/-- No response starts with an error status. -/
def NoErrorStart (ops : List Op) : Prop :=
  ∀ status headers firstBody now, .send (.start status headers) firstBody now ∈ ops → status < 400

/-- Every disconnect is delivered after the response is complete. -/
def LateDisconnects (ops : List Op) : Prop :=
  ∀ before after, ops = before ++ .receive .disconnect :: after → Complete before

theorem finals_append (xs ys : List Op) : finals (xs ++ ys) = finals xs ++ finals ys := by
  rw [finals, sentMessages, List.filterMap_append, List.filterMap_append]
  rfl

/-- A step further, a disconnect there must be late. -/
theorem lateDisconnects_concat (ops : List Op) (op : Op) :
    LateDisconnects (ops ++ [op]) ↔
      LateDisconnects ops ∧ (op = .receive .disconnect → Complete ops) := by
  constructor
  · intro h
    refine ⟨fun before after he => h before (after ++ [op]) (by simp [he]), ?_⟩
    rintro rfl
    exact h ops [] rfl
  · rintro ⟨hops, hop⟩ before after he
    rcases split_concat he with ⟨rfl, hlast⟩ | ⟨rest, hrest⟩
    · exact hop hlast
    · exact hops before rest hrest

theorem noErrorStart_concat (ops : List Op) (op : Op) :
    NoErrorStart (ops ++ [op]) ↔ NoErrorStart ops ∧ NoErrorStart [op] := by
  simp only [NoErrorStart, List.mem_append]
  constructor
  · intro h
    exact ⟨fun _ _ _ _ hm => h _ _ _ _ (Or.inl hm), fun _ _ _ _ hm => h _ _ _ _ (Or.inr hm)⟩
  · rintro ⟨hops, hop⟩ _ _ _ _ (hm | hm)
    · exact hops _ _ _ _ hm
    · exact hop _ _ _ _ hm

/-- What one step does to the flag. -/
theorem step_complete (capture : Bool) (s : Exchange) (op : Op) :
    (s.step capture op).complete = (finals [op]).getLast?.getD s.complete := by
  cases op with
  | receive message => cases message with
    | request _ _ => cases capture <;> rfl
    | disconnect =>
      simp only [Exchange.step, Exchange.tracedReceive]
      split <;> rfl
  | send message _ _ => cases message <;> rfl
  | hook _ => rfl

theorem tracedSend_body_status (capture : Bool) (s : Exchange) (body : Option Bytes)
    (moreBody : Option Bool) (firstBody now : ℚ) :
    (s.tracedSend capture (.body body moreBody) firstBody now).trace.status = s.trace.status := by
  simp only [Exchange.tracedSend]
  split <;> rfl

/-- One step keeps the status unless it starts an error response or delivers a
disconnect too early. -/
theorem step_status_ok (capture : Bool) (s : Exchange) (op : Op) :
    (s.step capture op).trace.status = .ok ↔
      s.trace.status = .ok ∧ NoErrorStart [op] ∧
        (op = .receive .disconnect → s.complete = true) := by
  cases op with
  | receive message => cases message with
    | request body moreBody =>
      have hs : (s.step capture (.receive (.request body moreBody))).trace.status =
          s.trace.status := by cases capture <;> rfl
      simp [hs, NoErrorStart]
    | disconnect =>
      simp only [Exchange.step, Exchange.tracedReceive]
      split
      · rename_i hc
        simp [hc, NoErrorStart]
      · rename_i hc
        simp [hc]
  | send message firstBody now => cases message with
    | start status headers =>
      simp only [Exchange.step, Exchange.tracedSend]
      split
      · rename_i hle
        simp [NoErrorStart, hle]
      · rename_i hlt
        have hno : NoErrorStart [.send (.start status headers) firstBody now] := by
          intro status' _ _ _ hm
          cases List.mem_singleton.mp hm
          exact not_le.mp hlt
        simp [hno]
    | body body moreBody =>
      rw [Exchange.step, tracedSend_body_status]
      simp [NoErrorStart]
    | other type => simp [Exchange.step, Exchange.tracedSend, NoErrorStart]
  | hook hook =>
    have hs : (s.step capture (.hook hook)).trace.status = s.trace.status := hook.status s.trace
    simp [hs, NoErrorStart]

/-- After a run the flag says whether the response is complete. -/
theorem run_complete (capture : Bool) {s : Exchange} (h : s.complete = false) (ops : List Op) :
    (run (Exchange.step capture) s ops).complete = true ↔ Complete ops := by
  induction ops using List.reverseRecOn with
  | nil => simp [h, Complete, finals, sentMessages]
  | append_singleton ops op ih =>
    rw [run_append, run_cons, run_nil, step_complete, Complete, finals_append, List.getLast?_append]
    cases hl : (finals [op]).getLast? with
    | none => simpa [Complete] using ih
    | some final => simp

/-- After a run the status is `ok` if nothing on the way was in its way. -/
theorem run_status_ok (capture : Bool) {s : Exchange} (hc : s.complete = false)
    (hs : s.trace.status = .ok) (ops : List Op) :
    (run (Exchange.step capture) s ops).trace.status = .ok ↔
      NoErrorStart ops ∧ LateDisconnects ops := by
  induction ops using List.reverseRecOn with
  | nil => simp [hs, NoErrorStart, LateDisconnects]
  | append_singleton ops op ih =>
    rw [run_append, run_cons, run_nil, step_status_ok, ih, run_complete capture hc,
      noErrorStart_concat, lateDisconnects_concat]
    tauto

theorem settle_ok_iff {ε : Type} (s : Exchange) (ending : Ending ε) :
    s.settle ending = .ok ↔
      ending = .returned ∧ s.complete = true ∧ s.trace.status = .ok := by
  cases ending with
  | returned =>
    cases hc : s.complete <;> cases hs : s.trace.status <;> simp [Exchange.settle, hc, hs]
  | raised e => simp [Exchange.settle]
  | cancelled => simp [Exchange.settle]

/-- **What status ok means.** With content capture off, the event of an observed
request has it exactly if the application returned, no error response was
started, the last body was final, and each disconnect came after a final body. -/
theorem event_status_ok_iff {ε : Type} {config : Config} {scope : Scope}
    (hpath : scope.path ∈ paths) (hcapture : config.captureContent = false)
    (readings : Readings) (app : App ε) (server : Server) :
    ∃ event, (call config scope readings app server).1.events = server.events ++ [event] ∧
      (event.status = .ok ↔ app.ending = .returned ∧ NoErrorStart app.ops ∧ Complete app.ops ∧
        LateDisconnects app.ops) := by
  have hevents : (call config scope readings app server).1.events = server.events ++
      [config.event { (config.exchange scope readings app.ops).trace with
        status := (config.exchange scope readings app.ops).settle app.ending } readings] := by
    rw [call_observed hpath, Config.observe, Config.conclude]
    simp only [hcapture]
    rfl
  refine ⟨_, hevents, ?_⟩
  have hstatus : (config.event { (config.exchange scope readings app.ops).trace with
      status := (config.exchange scope readings app.ops).settle app.ending } readings).status =
      (config.exchange scope readings app.ops).settle app.ending := rfl
  rw [hstatus, settle_ok_iff, Config.exchange, run_complete _ rfl, run_status_ok _ rfl rfl]
  tauto

/-- A response that completes before the client goes away. -/
def completed : App String where
  ops := [
    .receive (.request none none),
    .send (.start 200 none) 1 1,
    .send (.body (some (encodeLatin1 "last")) none) 1 1,
    .receive .disconnect]
  ending := .returned

def uncaptured : Config := { capturing with captureContent := false }

theorem event_status_ok_completed :
    ∃ event, (call uncaptured chatScope readings completed idle).1.events =
        idle.events ++ [event] ∧
      (event.status = .ok ↔ completed.ending = .returned ∧ NoErrorStart completed.ops ∧
        Complete completed.ops ∧ LateDisconnects completed.ops) :=
  event_status_ok_iff (by decide) rfl readings completed idle

end VllmObserver.Middleware
