import Mathlib.Data.List.Basic

/-! # Bytes and text

The byte and string operations that the middleware needs. A string is worked on
as its list of characters. -/
namespace VllmObserver.Core

abbrev Bytes := List UInt8

/-- `bytes.decode("latin1")`: every byte is a character. -/
def latin1 (bytes : Bytes) : String := String.ofList (bytes.map fun b => Char.ofNat b.toNat)

/-- `text.encode("latin1")`, for text of that range. -/
def encodeLatin1 (text : String) : Bytes := text.toList.map fun c => UInt8.ofNat c.toNat

/-- `bytes.lower()`, which changes ASCII letters only. -/
def lower (bytes : Bytes) : Bytes := bytes.map fun b => if 65 ≤ b && b ≤ 90 then b + 32 else b

/-- `str.isspace`. -/
def isSpace (c : Char) : Bool :=
  let n := c.toNat
  (0x09 ≤ n && n ≤ 0x0d) || (0x1c ≤ n && n ≤ 0x20) || n == 0x85 || n == 0xa0 || n == 0x1680 ||
    (0x2000 ≤ n && n ≤ 0x200a) || n == 0x2028 || n == 0x2029 || n == 0x202f || n == 0x205f ||
    n == 0x3000

/-- The characters at which `str.splitlines` ends a line. -/
def isLineBreak (c : Char) : Bool :=
  let n := c.toNat
  (0x0a ≤ n && n ≤ 0x0d) || (0x1c ≤ n && n ≤ 0x1e) || n == 0x85 || n == 0x2028 || n == 0x2029

def lstrip (text : List Char) : List Char := text.dropWhile isSpace

def strip (text : List Char) : List Char := (lstrip (lstrip text).reverse).reverse

/-- The lines after the characters of the current one, which are reversed. -/
def splitLinesFrom (line : List Char) : List Char → List (List Char)
  | [] => if line.isEmpty then [] else [line.reverse]
  | '\r' :: '\n' :: rest => line.reverse :: splitLinesFrom [] rest
  | c :: rest =>
    if isLineBreak c then line.reverse :: splitLinesFrom [] rest
    else splitLinesFrom (c :: line) rest

def splitLines (text : List Char) : List (List Char) := splitLinesFrom [] text

example : splitLines "data: 1\r\n\ndata: 2".toList =
    ["data: 1".toList, [], "data: 2".toList] := by decide

end VllmObserver.Core
