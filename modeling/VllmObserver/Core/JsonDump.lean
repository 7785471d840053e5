import VllmObserver.Core.JsonLiteral

/-! # Writing JSON

`json.dumps` as the program calls it: with or without escapes for characters
beyond ASCII, with or without blanks behind the separators. How a float is
written is left to the runtime. -/
namespace VllmObserver.Core
open VllmObserver.Lib

/-- `ensure_ascii`, and `separators=(",", ":")` or none. -/
structure DumpStyle where
  ensureAscii : Bool := true
  compact : Bool := false

namespace DumpStyle

/-- What stands behind a separator. -/
def gap (style : DumpStyle) : List Char := if style.compact then [] else [' ']

def comma (style : DumpStyle) : List Char := ',' :: style.gap

def colon (style : DumpStyle) : List Char := ':' :: style.gap

end DumpStyle

/-! ## Literals -/

def hexDigit (n : ℕ) : Char := if n < 10 then Char.ofNat (48 + n) else Char.ofNat (87 + n)

def unitEscape (code : ℕ) : List Char :=
  ['\\', 'u', hexDigit (code / 4096 % 16), hexDigit (code / 256 % 16),
    hexDigit (code / 16 % 16), hexDigit (code % 16)]

/-- A character beyond the first plane is two surrogates. -/
def codeUnits (c : Char) : List ℕ :=
  if c.toNat < 0x10000 then [c.toNat]
  else [0xd800 + (c.toNat - 0x10000) / 0x400, 0xdc00 + (c.toNat - 0x10000) % 0x400]

/-- The characters that have a short escape. -/
def shortEscapes : List (Char × Char) := [
  ('"', '"'),
  ('\\', '\\'),
  ('\n', 'n'),
  ('\r', 'r'),
  ('\t', 't'),
  ('\x0c', 'f'),
  ('\x08', 'b')]

def DumpStyle.escapes (style : DumpStyle) (c : Char) : Bool :=
  decide (c.toNat < 0x20) || style.ensureAscii && decide (0x7e < c.toNat)

def dumpChar (style : DumpStyle) (c : Char) : List Char :=
  match shortEscapes.lookup c with
  | some e => ['\\', e]
  | none => if style.escapes c then (codeUnits c).flatMap unitEscape else [c]

def dumpString (style : DumpStyle) (text : String) : List Char :=
  '"' :: (text.toList.flatMap (dumpChar style) ++ ['"'])

/-! ## Values -/

def intText (n : ℤ) : List Char :=
  if n < 0 then '-' :: Nat.toDigits 10 n.natAbs else Nat.toDigits 10 n.natAbs

/-- `int.__repr__`, which refuses integers of more digits than can be read. -/
def dumpInt (n : ℤ) : Except PyError (List Char) :=
  if maxIntDigits < (Nat.toDigits 10 n.natAbs).length then
    .error (.valueError "Exceeds the limit (4300 digits) for integer string conversion")
  else .ok (intText n)

def dumpFloat (repr : ℚ → String) : Flt → List Char
  | .fin q => (repr q).toList
  | .inf false => "Infinity".toList
  | .inf true => "-Infinity".toList
  | .nan => "NaN".toList

section Dump
variable (style : DumpStyle) (repr : ℚ → String)

mutual

def dumpValue : Json → Except PyError (List Char)
  | .null => .ok "null".toList
  | .bool true => .ok "true".toList
  | .bool false => .ok "false".toList
  | .num (.int n) => dumpInt n
  | .num (.float x) => .ok (dumpFloat repr x)
  | .str s => .ok (dumpString style s)
  | .arr xs => do
    let elements ← dumpElements xs
    .ok ('[' :: (elements ++ [']']))
  | .obj entries => do
    let members ← dumpMembers entries
    .ok ('{' :: (members ++ ['}']))

def dumpElements : List Json → Except PyError (List Char)
  | [] => .ok []
  | x :: rest => do
    let text ← dumpValue x
    let others ← dumpElements rest
    .ok (if rest.isEmpty then text else text ++ (style.comma ++ others))

def dumpMembers : List (String × Json) → Except PyError (List Char)
  | [] => .ok []
  | (key, x) :: rest => do
    let text ← dumpValue x
    let others ← dumpMembers rest
    let member := dumpString style key ++ (style.colon ++ text)
    .ok (if rest.isEmpty then member else member ++ (style.comma ++ others))

end

/-- `json.dumps(value)`. -/
def dumps (value : Json) : Except PyError String := do
  let text ← dumpValue style repr value
  .ok (String.ofList text)

end Dump

/-! ## The stack of the interpreter -/

mutual

/-- How deep lists and dictionaries are nested. -/
def Json.depth : Json → ℕ
  | .arr xs => elementsDepth xs + 1
  | .obj entries => membersDepth entries + 1
  | _ => 0

def elementsDepth : List Json → ℕ
  | [] => 0
  | x :: rest => max x.depth (elementsDepth rest)

def membersDepth : List (String × Json) → ℕ
  | [] => 0
  | (_, x) :: rest => max x.depth (membersDepth rest)

end

/-- `RecursionError`, which is a `RuntimeError`. -/
def recursionError : PyError := .runtimeError "maximum recursion depth exceeded"

/-- `json.dumps` where the stack has room for `limit` levels. -/
def dumpsWithin (limit : ℕ) (style : DumpStyle) (repr : ℚ → String) (value : Json) :
    Except PyError String :=
  if value.depth ≤ limit then dumps style repr value else .error recursionError

/-- `json.loads` where the stack has room for `limit` levels. Which exception a text
raises that is both too deep and no JSON is left open. -/
def loadsWithin (limit : ℕ) (text : String) : Except PyError Json := do
  let value ← loads text
  if value.depth ≤ limit then .ok value else .error recursionError

/-! ## The numbers of a value -/

mutual

/-- Every number of the value meets a condition. -/
def Json.NumbersMeet (p : Number → Prop) : Json → Prop
  | .num x => p x
  | .arr xs => elementsMeet p xs
  | .obj entries => membersMeet p entries
  | _ => True

def elementsMeet (p : Number → Prop) : List Json → Prop
  | [] => True
  | x :: rest => x.NumbersMeet p ∧ elementsMeet p rest

def membersMeet (p : Number → Prop) : List (String × Json) → Prop
  | [] => True
  | (_, x) :: rest => x.NumbersMeet p ∧ membersMeet p rest

end

/-- An integer of no more digits than can be written. -/
def Number.Short : Number → Prop
  | .int n => n.natAbs < 10 ^ maxIntDigits
  | .float _ => True

section Written
variable {style : DumpStyle} {repr : ℚ → String}

theorem dumpInt_short {n : ℤ} (h : n.natAbs < 10 ^ maxIntDigits) : dumpInt n = .ok (intText n) := by
  have hlength : (Nat.toDigits 10 n.natAbs).length ≤ maxIntDigits :=
    (Nat.length_toDigits_le_iff (by decide) (by decide)).mpr h
  rw [dumpInt, if_neg (Nat.not_lt.mpr hlength)]

mutual

theorem dumpValue_short : ∀ (value : Json), value.NumbersMeet Number.Short →
    ∃ text, dumpValue style repr value = .ok text
  | .null, _ => ⟨_, rfl⟩
  | .bool true, _ => ⟨_, rfl⟩
  | .bool false, _ => ⟨_, rfl⟩
  | .num (.int _), h => ⟨_, dumpInt_short h⟩
  | .num (.float _), _ => ⟨_, rfl⟩
  | .str _, _ => ⟨_, rfl⟩
  | .arr xs, h => by
    obtain ⟨text, htext⟩ := dumpElements_short xs h
    exact ⟨_, by rw [dumpValue, htext]; rfl⟩
  | .obj entries, h => by
    obtain ⟨text, htext⟩ := dumpMembers_short entries h
    exact ⟨_, by rw [dumpValue, htext]; rfl⟩

theorem dumpElements_short : ∀ (xs : List Json), elementsMeet Number.Short xs →
    ∃ text, dumpElements style repr xs = .ok text
  | [], _ => ⟨_, rfl⟩
  | x :: rest, h => by
    obtain ⟨text, htext⟩ := dumpValue_short x h.1
    obtain ⟨others, hothers⟩ := dumpElements_short rest h.2
    exact ⟨_, by rw [dumpElements, htext, hothers]; rfl⟩

theorem dumpMembers_short : ∀ (entries : List (String × Json)), membersMeet Number.Short entries →
    ∃ text, dumpMembers style repr entries = .ok text
  | [], _ => ⟨_, rfl⟩
  | (key, x) :: rest, h => by
    obtain ⟨text, htext⟩ := dumpValue_short x h.1
    obtain ⟨others, hothers⟩ := dumpMembers_short rest h.2
    exact ⟨_, by rw [dumpMembers, htext, hothers]; rfl⟩

end

end Written

end VllmObserver.Core
