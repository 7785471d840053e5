import VllmObserver.Core.Plain
import VllmObserver.Lib.Ledger

/-! # The registry

What the program tells `prometheus_client`: the metrics it registers, and for
each child of a metric, addressed by the values of its labels, the number it
stands at or the amounts it has observed. How a counter takes an amount is left
to the client. -/
namespace VllmObserver.Metrics
open VllmObserver.Lib VllmObserver.Core

inductive Kind where
  | gauge
  | counter
  | histogram
deriving DecidableEq

/-- A metric, as it is registered. -/
structure Family where
  name : String
  kind : Kind
  labelNames : List String := []
deriving DecidableEq

/-- The name of a metric and the values of its labels. -/
abbrev Child := String × List String

def Family.labels (family : Family) (values : List String) : Child := (family.name, values)

structure Registry where
  families : List Family := []
  numbers : Dict Child Flt := Dict.empty
  observed : Dict Child (List Flt) := Dict.empty

/-- `Counter.inc` on a value. -/
structure Client where
  inc : Flt → Flt → Except PyError Flt

/-- `Counter.inc` raises exactly on negative amounts, and adds the others. -/
structure Client.Documented (client : Client) : Prop where
  negative : ∀ value amount, amount.lt (.fin 0) = true → ∃ e, client.inc value amount = .error e
  adds : ∀ value amount, amount.lt (.fin 0) = false → client.inc value amount = .ok (value + amount)

/-- A client that counts as documented. -/
def counting : Client where
  inc := fun value amount =>
    if amount.lt (.fin 0) then
      .error (.valueError "Counters can only be incremented by non-negative amounts.")
    else .ok (value + amount)

theorem counting_documented : counting.Documented where
  negative := fun value amount h => ⟨_, if_pos h⟩
  adds := fun value amount h => if_neg (by simp [h])

namespace Registry

/-- A name is registered once. A metric without labels has its child at once. -/
def register (r : Registry) (family : Family) : Except PyError Registry :=
  if family.name ∈ r.families.map Family.name then
    .error (.valueError ("Duplicated timeseries in CollectorRegistry: " ++ family.name))
  else .ok { r with
    families := r.families ++ [family]
    numbers := if family.labelNames = [] then r.numbers.set (family.labels []) 0 else r.numbers }

def setNumber (r : Registry) (child : Child) (value : Flt) : Registry :=
  { r with numbers := r.numbers.set child value }

/-- A child of a histogram stands in the registry once it has been asked for. -/
def addChild (r : Registry) (child : Child) : Registry :=
  { r with observed := r.observed.set child ((r.observed.get? child).getD []) }

def observe (r : Registry) (child : Child) (amount : Flt) : Registry :=
  { r with observed := r.observed.set child ((r.observed.get? child).getD [] ++ [amount]) }

end Registry

/-! ## Updates -/

/-- An update leaves a registry also where it raises. -/
abbrev Update := Registry → Registry × Except PyError Unit

namespace Update

def done : Update := fun r => (r, .ok ())

def raise (e : PyError) : Update := fun r => (r, .error e)

def andThen (first next : Update) : Update := fun r =>
  match first r with
  | (r, .ok ()) => next r
  | (r, .error e) => (r, .error e)

def forEach {α : Type} (xs : List α) (f : α → Update) : Update :=
  xs.foldr (fun x rest => (f x).andThen rest) done

/-- `metric.labels(*values).inc(amount)`; `labels` makes the child. -/
def inc (client : Client) (family : Family) (values : List String) (amount : Flt) : Update :=
  fun r =>
    let child := family.labels values
    let value := balance r.numbers child
    match client.inc value amount with
    | .ok value => (r.setNumber child value, .ok ())
    | .error e => (r.setNumber child value, .error e)

/-- `metric.labels(*values).set(value)`. -/
def set (family : Family) (values : List String) (value : Flt) : Update := fun r =>
  (r.setNumber (family.labels values) value, .ok ())

/-- `metric.labels(*values)` of a histogram. -/
def labels (family : Family) (values : List String) : Update := fun r =>
  (r.addChild (family.labels values), .ok ())

/-- `metric.labels(*values).observe(amount)`. -/
def observe (family : Family) (values : List String) (amount : Flt) : Update := fun r =>
  (r.observe (family.labels values) amount, .ok ())

/-- Registering a metric. -/
def register (family : Family) : Update := fun r =>
  match r.register family with
  | .ok r => (r, .ok ())
  | .error e => (r, .error e)

end Update

/-! ## Changes -/

/-- What an update that returns has done: counters took amounts and histograms
observed some. -/
inductive Change where
  | inc (child : Child) (amount : Flt)
  | observe (child : Child) (amount : Flt)

def Registry.record (r : Registry) : Change → Registry
  | .inc child amount => { r with numbers := post r.numbers (child, amount) }
  | .observe child amount => r.observe child amount

/-- The amounts for the counters. -/
def increments (changes : List Change) : List (Child × Flt) :=
  changes.filterMap fun
    | .inc child amount => some (child, amount)
    | .observe _ _ => none

/-- The update returns, and has done all of the changes. -/
def Performs (update : Update) (changes : List Change) : Prop :=
  ∀ r, update r = (run Registry.record r changes, .ok ())

section Performs
variable {first next : Update} {xs ys : List Change}

theorem Performs.done : Performs .done [] := fun _ => rfl

theorem Performs.andThen (h : Performs first xs) (h' : Performs next ys) :
    Performs (first.andThen next) (xs ++ ys) := by
  intro r
  rw [Update.andThen, h r, run_append]
  exact h' _

theorem Performs.forEach {α : Type} {f : α → Update} {changes : α → List Change} :
    ∀ {xs : List α}, (∀ x ∈ xs, Performs (f x) (changes x)) →
      Performs (.forEach xs f) (xs.flatMap changes)
  | [], _ => Performs.done
  | x :: _, h => (h x List.mem_cons_self).andThen
      (Performs.forEach fun y hy => h y (List.mem_cons_of_mem x hy))

/-- A counter takes what is not negative. -/
theorem Performs.inc {client : Client} (hc : client.Documented) (family : Family)
    (values : List String) {amount : Flt} (h : amount.Nonneg) :
    Performs (.inc client family values amount) [.inc (family.labels values) amount] := by
  intro r
  simp only [Update.inc, hc.adds _ _ h.not_lt]
  rfl

theorem Performs.observe (family : Family) (values : List String) (amount : Flt) :
    Performs (.observe family values amount) [.observe (family.labels values) amount] :=
  fun _ => rfl

/-- The counters are a ledger. -/
theorem numbers_record : ∀ (changes : List Change) (r : Registry),
    (run Registry.record r changes).numbers = run post r.numbers (increments changes)
  | [], _ => rfl
  | .inc child amount :: rest, r => numbers_record rest (r.record (.inc child amount))
  | .observe child amount :: rest, r => numbers_record rest (r.record (.observe child amount))

end Performs

end VllmObserver.Metrics
