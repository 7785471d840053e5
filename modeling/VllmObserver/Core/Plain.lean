import VllmObserver.Lib.Dict
import VllmObserver.Lib.Num

/-! # Plain values and exceptions

The values that JSON text decodes to and that span metadata holds, with the
operations the instrumentation applies to values of unknown shape, and the
exceptions those operations raise. -/
namespace VllmObserver.Core
open VllmObserver.Lib

inductive PyError where
  | typeError (message : String)
  | attributeError (message : String)
  | keyError (key : String)
  | indexError (message : String)
  | valueError (message : String)
  | overflowError (message : String)
  | runtimeError (message : String)
deriving DecidableEq, Repr

/-- A computation that returned ran both of its halves. -/
theorem bind_eq_ok {α β : Type} {x : Except PyError α} {f : α → Except PyError β} {b : β} :
    (x >>= f) = .ok b ↔ ∃ a, x = .ok a ∧ f a = .ok b := by
  constructor
  · intro h
    cases x with
    | error e => cases h
    | ok a => exact ⟨a, rfl, h⟩
  · rintro ⟨a, rfl, h⟩
    exact h

@[simp] theorem ok_bind {α β : Type} (a : α) (f : α → Except PyError β) :
    ((.ok a : Except PyError α) >>= f) = f a := rfl

/-- `None`, a truth value, a number, a string, a list or a dictionary. The
entries of a dictionary are in text order; of a repeated key the last counts. -/
inductive Json where
  | null
  | bool (b : Bool)
  | num (x : Number)
  | str (s : String)
  | arr (xs : List Json)
  | obj (entries : List (String × Json))

abbrev Metadata := Dict String Json

namespace Json

def int (n : ℤ) : Json := num (.int n)
def float (x : Flt) : Json := num (.float x)

/-- `bool(value)`. -/
def truthy : Json → Bool
  | null => false
  | bool b => b
  | num x => !x.isZero
  | str s => s != ""
  | arr xs => !xs.isEmpty
  | obj es => !es.isEmpty

/-- `value or other`. -/
def orElse (value other : Json) : Json := if value.truthy then value else other

def typeName : Json → String
  | null => "NoneType"
  | bool _ => "bool"
  | num (.int _) => "int"
  | num (.float _) => "float"
  | str _ => "str"
  | arr _ => "list"
  | obj _ => "dict"

def isObj : Json → Bool
  | obj _ => true
  | _ => false

/-- The last entry under the key. -/
def find? (key : String) (entries : List (String × Json)) : Option Json :=
  entries.reverse.lookup key

/-- `value.get(key, default)`, which only a dictionary has. -/
def get (value : Json) (key : String) (default : Json := null) : Except PyError Json :=
  match value with
  | obj es => .ok ((find? key es).getD default)
  | v => .error (.attributeError ("'" ++ v.typeName ++ "' object has no attribute 'get'"))

/-- The element at an index; negative indices count from the end. -/
def element {α : Type} (xs : List α) (i : ℤ) : Option α :=
  if 0 ≤ i then xs[i.toNat]?
  else if 0 ≤ xs.length + i then xs[(xs.length + i).toNat]? else none

/-- `value[i]`. A dictionary decoded from JSON has string keys only. -/
def index (value : Json) (i : ℤ) : Except PyError Json :=
  match value with
  | arr xs => match element xs i with
    | some x => .ok x
    | none => .error (.indexError "list index out of range")
  | str s => match element s.toList i with
    | some c => .ok (str (String.singleton c))
    | none => .error (.indexError "string index out of range")
  | obj _ => .error (.keyError (toString i))
  | v => .error (.typeError ("'" ++ v.typeName ++ "' object is not subscriptable"))

/-- `len(value)`. -/
def len : Json → Except PyError ℤ
  | arr xs => .ok xs.length
  | str s => .ok s.length
  | obj es => .ok (es.map Prod.fst).eraseDups.length
  | v => .error (.typeError ("object of type '" ++ v.typeName ++ "' has no len()"))

/-- A value in arithmetic or comparison with a number. -/
def number : Json → Except PyError Number
  | num x => .ok x
  | bool b => .ok (.int (if b then 1 else 0))
  | v => .error (.typeError ("unsupported operand type: '" ++ v.typeName ++ "'"))

end Json

/-- How the runtime reads text: `float(s)`, `int(s)` and `json.loads(s)`. The
development holds for all of them. -/
structure Reader where
  float : String → Except PyError Flt
  int : String → Except PyError ℤ
  loads : String → Except PyError Json

/-- A number where a float is needed. -/
def floatOfNumber : Number → Except PyError Flt
  | .int n =>
    if (Flt.fin n).inRange then .ok (.fin n)
    else .error (.overflowError "int too large to convert to float")
  | .float x => .ok x

theorem floatOfNumber_ok {n : Number} {x : Flt} (h : floatOfNumber n = .ok x) : x = n.toFlt := by
  cases n with
  | int n =>
    rw [floatOfNumber] at h
    split at h
    · exact (Except.ok.inj h).symm
    · cases h
  | float y => exact (Except.ok.inj h).symm

theorem floatOfNumber_int {n : ℤ} (h : (Flt.fin n).inRange = true) :
    floatOfNumber (.int n) = .ok (.fin n) := if_pos h

theorem floatOfNumber_large {n : ℤ} (h : (Flt.fin n).inRange = false) :
    floatOfNumber (.int n) = .error (.overflowError "int too large to convert to float") :=
  if_neg (by rw [h]; exact Bool.false_ne_true)

/-- `float(value)`. -/
def Reader.floatOf (reader : Reader) : Json → Except PyError Flt
  | .num x => floatOfNumber x
  | .bool b => .ok (.fin (if b then 1 else 0))
  | .str s => reader.float s
  | v => .error (.typeError ("float() argument must be a string or a real number, not '" ++
      v.typeName ++ "'"))

/-- `int(x)` of a float. -/
def intOf : Flt → Except PyError ℤ
  | .fin q => .ok (truncate q)
  | .inf _ => .error (.overflowError "cannot convert float infinity to integer")
  | .nan => .error (.valueError "cannot convert float NaN to integer")

end VllmObserver.Core
