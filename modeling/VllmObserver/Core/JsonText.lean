import VllmObserver.Core.Plain

/-! # Reading JSON text

`json.loads` on text: blanks, string literals with their escapes, numbers, the
words, lists and dictionaries. A value is read from the front of the text, and
what is left is returned with it. Lists and dictionaries may nest as deep as the
text is long; a lone surrogate, which is no character here, is replaced. -/
namespace VllmObserver.Core
open VllmObserver.Lib

def isBlank (c : Char) : Bool := c == ' ' || c == '\t' || c == '\n' || c == '\r'

def skipBlanks (text : List Char) : List Char := text.dropWhile isBlank

def isDigit (c : Char) : Bool := 48 ≤ c.toNat && c.toNat ≤ 57

def hexDigit? (c : Char) : Option ℕ :=
  let n := c.toNat
  if 48 ≤ n ∧ n ≤ 57 then some (n - 48)
  else if 65 ≤ n ∧ n ≤ 70 then some (n - 55)
  else if 97 ≤ n ∧ n ≤ 102 then some (n - 87)
  else none

def hexCode? (a b c d : Char) : Option ℕ := do
  let a ← hexDigit? a
  let b ← hexDigit? b
  let c ← hexDigit? c
  let d ← hexDigit? d
  some (((a * 16 + b) * 16 + c) * 16 + d)

/-- The code that a character stands for behind a backslash. -/
def shortEscape? : Char → Option ℕ
  | '"' => some 0x22
  | '\\' => some 0x5c
  | '/' => some 0x2f
  | 'b' => some 0x08
  | 'f' => some 0x0c
  | 'n' => some 0x0a
  | 'r' => some 0x0d
  | 't' => some 0x09
  | _ => none

/-- The codes of a string literal behind its opening quote, and the text behind
the closing one. Control characters have to be escaped. -/
def readString : List Char → Option (List ℕ × List Char)
  | '"' :: rest => some ([], rest)
  | '\\' :: 'u' :: a :: b :: c :: d :: rest => do
    let code ← hexCode? a b c d
    let (codes, rest) ← readString rest
    some (code :: codes, rest)
  | '\\' :: e :: rest => do
    let code ← shortEscape? e
    let (codes, rest) ← readString rest
    some (code :: codes, rest)
  | c :: rest =>
    if c = '\\' ∨ c.toNat < 0x20 then none
    else do
      let (codes, rest) ← readString rest
      some (c.toNat :: codes, rest)
  | [] => none

def charOf (code : ℕ) : Char := if code.isValidChar then Char.ofNat code else '\uFFFD'

/-- The characters of a literal; two surrogates in a row are one character. -/
def joinCodes : List ℕ → List Char
  | high :: low :: rest =>
    if 0xd800 ≤ high ∧ high < 0xdc00 ∧ 0xdc00 ≤ low ∧ low < 0xe000 then
      Char.ofNat (0x10000 + (high - 0xd800) * 0x400 + (low - 0xdc00)) :: joinCodes rest
    else charOf high :: joinCodes (low :: rest)
  | [code] => [charOf code]
  | [] => []

def literalText (codes : List ℕ) : String := String.ofList (joinCodes codes)

def digitsValue (digits : List Char) : ℕ := digits.foldl (fun n c => 10 * n + (c.toNat - 48)) 0

/-- An integer of more digits is refused. -/
def maxIntDigits : ℕ := 4300

/-- The digits behind a point, if there are any. -/
def readFraction : List Char → List Char × List Char
  | '.' :: rest =>
    if (rest.takeWhile isDigit).isEmpty then ([], '.' :: rest)
    else (rest.takeWhile isDigit, rest.dropWhile isDigit)
  | text => ([], text)

def readSign : List Char → Bool × List Char
  | '-' :: rest => (true, rest)
  | '+' :: rest => (false, rest)
  | text => (false, text)

/-- The exponent, if there is one with a digit. -/
def readExponent : List Char → Option ℤ × List Char
  | [] => (none, [])
  | c :: rest =>
    let (negative, digits) := readSign rest
    if (c = 'e' ∨ c = 'E') ∧ (digits.takeWhile isDigit).isEmpty = false then
      let n : ℤ := digitsValue (digits.takeWhile isDigit)
      (some (if negative then -n else n), digits.dropWhile isDigit)
    else (none, c :: rest)

/-- The digits before the point; none follow a leading zero. -/
def readWhole : List Char → List Char × List Char
  | '0' :: rest => (['0'], rest)
  | text => (text.takeWhile isDigit, text.dropWhile isDigit)

def numberOf (negative : Bool) (whole fraction : List Char) (exponent : Option ℤ) :
    Option Number :=
  if fraction.isEmpty && exponent.isNone then
    if maxIntDigits < whole.length then none
    else some (.int (if negative then -digitsValue whole else digitsValue whole))
  else
    let q : ℚ := digitsValue (whole ++ fraction) * 10 ^ (exponent.getD 0 - fraction.length)
    some (.float (.fin (if negative then -q else q)))

def readMinus : List Char → Bool × List Char
  | '-' :: rest => (true, rest)
  | text => (false, text)

def readNumber (text : List Char) : Option (Json × List Char) :=
  let sign := readMinus text
  let whole := readWhole sign.2
  let fraction := readFraction whole.2
  let exponent := readExponent fraction.2
  if whole.1.isEmpty then none
  else (numberOf sign.1 whole.1 fraction.1 exponent.1).map fun x => (.num x, exponent.2)

/-- The words that are values. -/
def jsonWords : List (List Char × Json) := [
  (['n', 'u', 'l', 'l'], .null),
  (['t', 'r', 'u', 'e'], .bool true),
  (['f', 'a', 'l', 's', 'e'], .bool false),
  (['N', 'a', 'N'], .float .nan),
  (['I', 'n', 'f', 'i', 'n', 'i', 't', 'y'], .float (.inf false)),
  (['-', 'I', 'n', 'f', 'i', 'n', 'i', 't', 'y'], .float (.inf true))]

def readAtom (text : List Char) : Option (Json × List Char) :=
  match jsonWords.find? fun word => word.1.isPrefixOf text with
  | some (word, value) => some (value, text.drop word.length)
  | none => readNumber text

/-- The elements of a list from the first one on, up to the closing bracket. -/
def readElements (value : List Char → Option (Json × List Char)) :
    ℕ → List Char → Option (List Json × List Char)
  | 0, _ => none
  | n + 1, text => do
    let (x, rest) ← value text
    match skipBlanks rest with
    | ',' :: rest => do
      let (xs, rest) ← readElements value n (skipBlanks rest)
      some (x :: xs, rest)
    | ']' :: rest => some ([x], rest)
    | _ => none

/-- The members of a dictionary from the first one on, up to the closing brace. -/
def readMembers (value : List Char → Option (Json × List Char)) :
    ℕ → List Char → Option (List (String × Json) × List Char)
  | n + 1, '"' :: text => do
    let (key, rest) ← readString text
    match skipBlanks rest with
    | ':' :: rest => do
      let (x, rest) ← value (skipBlanks rest)
      match skipBlanks rest with
      | ',' :: rest => do
        let (members, rest) ← readMembers value n (skipBlanks rest)
        some ((literalText key, x) :: members, rest)
      | '}' :: rest => some ([(literalText key, x)], rest)
      | _ => none
    | _ => none
  | _, _ => none

/-- A value at the front of the text. -/
def readValue : ℕ → List Char → Option (Json × List Char)
  | 0, _ => none
  | n + 1, text => match text with
    | '"' :: rest => do
      let (codes, rest) ← readString rest
      some (.str (literalText codes), rest)
    | '[' :: rest => match skipBlanks rest with
      | ']' :: rest => some (.arr [], rest)
      | rest => do
        let (xs, rest) ← readElements (readValue n) n rest
        some (.arr xs, rest)
    | '{' :: rest => match skipBlanks rest with
      | '}' :: rest => some (.obj [], rest)
      | rest => do
        let (members, rest) ← readMembers (readValue n) n rest
        some (.obj members, rest)
    | text => readAtom text

/-- `json.loads(text)`. -/
def loads (text : String) : Except PyError Json :=
  match readValue (text.toList.length + 1) (skipBlanks text.toList) with
  | some (value, rest) =>
    if (skipBlanks rest).isEmpty then .ok value else .error (.valueError "Extra data")
  | none => .error (.valueError "Expecting value")

end VllmObserver.Core
