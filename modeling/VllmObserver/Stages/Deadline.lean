import VllmObserver.Core.Plain

/-! # The deadline guard

Before every `schedule` the guard finishes the requests that are older than a
deadline, through the scheduler's own `finish_requests`. -/
namespace VllmObserver.Stages
open VllmObserver.Lib VllmObserver.Core

/-- A request of the scheduler's table. -/
structure Request where
  requestId : String
  arrivalTime : Option ℚ
  isFinished : Bool
deriving DecidableEq

/-- `scheduler.requests`, by id. -/
abbrev Requests := Dict String Request

/-- `finish_requests(ids, FINISHED_ABORTED)`, which removes the ids. -/
def Requests.finish (requests : Requests) (requestIds : List String) : Requests :=
  requestIds.foldl Dict.erase requests

/-- What one run of the guard meets: the environment variable, whether vLLM's
status can be imported, whether `finish_requests` returns, and the clock. -/
structure Guard where
  deadline : Option String
  importable : Bool
  finishes : Bool
  now : ℚ

/-- An invalid deadline disables the guard. -/
def deadlineSeconds (reader : Reader) (deadline : Option String) : Except PyError Flt :=
  match reader.float (deadline.getD "0") with
  | .error (.valueError _) => .ok (.fin 0)
  | result => result

def expired (ttl : Flt) (now : ℚ) (requests : Requests) : List String :=
  let unfinished := (requests.entries.map Prod.snd).filter fun request =>
    !request.isFinished && ttl.lt (.fin (now - request.arrivalTime.getD now))
  unfinished.map Request.requestId

/-- The ids that the guard finishes. Whatever it raises, scheduling goes on. -/
def dropExpired (reader : Reader) (guard : Guard) (requests : Requests) : List String :=
  match deadlineSeconds reader guard.deadline with
  | .error _ => []
  | .ok ttl =>
    if ttl.le (.fin 0) || !guard.importable || !guard.finishes then []
    else expired ttl guard.now requests

end VllmObserver.Stages
