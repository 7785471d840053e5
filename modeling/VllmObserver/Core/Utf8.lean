import VllmObserver.Core.Plain
import VllmObserver.Core.Text

/-! # UTF-8

The encoding of text, and its decoding with the replacement character for what
is ill-formed. -/
namespace VllmObserver.Core

/-- `text.encode("utf-8")`. -/
def encodeUtf8 (text : List Char) : Bytes := text.flatMap String.utf8EncodeChar

/-- The second bytes that a first byte of several admits. -/
def secondByte (first second : UInt8) : Bool :=
  if first == 0xe0 then 0xa0 ≤ second && second ≤ 0xbf
  else if first == 0xed then 0x80 ≤ second && second ≤ 0x9f
  else if first == 0xf0 then 0x90 ≤ second && second ≤ 0xbf
  else if first == 0xf4 then 0x80 ≤ second && second ≤ 0x8f
  else 0x80 ≤ second && second ≤ 0xbf

/-- How many bytes at the start, which decode to no character, are replaced: as
many as begin a character. -/
def brokenLength : Bytes → ℕ
  | first :: second :: third :: _ =>
    if 0xe0 ≤ first && first ≤ 0xf4 && secondByte first second then
      if 0xf0 ≤ first && 0x80 ≤ third && third ≤ 0xbf then 3 else 2
    else 1
  | [first, second] => if 0xe0 ≤ first && first ≤ 0xf4 && secondByte first second then 2 else 1
  | _ => 1

/-- Each round takes at least one byte. -/
def decodeUtf8From : ℕ → Bytes → List Char
  | 0, _ => []
  | _ + 1, [] => []
  | n + 1, bytes => match bytes.toByteArray.utf8DecodeChar? 0 with
    | some c => c :: decodeUtf8From n (bytes.drop c.utf8Size)
    | none => '\uFFFD' :: decodeUtf8From n (bytes.drop (brokenLength bytes))

/-- `bytes.decode("utf-8", "replace")`. -/
def decodeUtf8 (bytes : Bytes) : String := String.ofList (decodeUtf8From bytes.length bytes)

example : decodeUtf8 [0x61, 0xe2, 0x80, 0x41, 0xff] = "a\uFFFDA\uFFFD" := by decide

theorem decodeUtf8From_encode (text : List Char) (n : ℕ) (h : (encodeUtf8 text).length ≤ n) :
    decodeUtf8From n (encodeUtf8 text) = text := by
  induction text generalizing n with
  | nil => cases n <;> rfl
  | cons c rest ih =>
    have hbytes : encodeUtf8 (c :: rest) = String.utf8EncodeChar c ++ encodeUtf8 rest := rfl
    have hlen := String.length_utf8EncodeChar c
    have hpos : 0 < c.utf8Size := c.utf8Size_pos
    rw [hbytes, List.length_append, hlen] at h
    obtain ⟨n, rfl⟩ : ∃ m, n = m + 1 := ⟨n - 1, by omega⟩
    obtain ⟨b, bs, hb⟩ : ∃ b bs, String.utf8EncodeChar c = b :: bs :=
      List.exists_cons_of_length_pos (by omega)
    have hchar : (String.utf8EncodeChar c ++ encodeUtf8 rest).toByteArray.utf8DecodeChar? 0 =
        some c := by
      rw [List.toByteArray_append]
      exact ByteArray.utf8DecodeChar?_utf8EncodeChar_append
    rw [hbytes, hb, List.cons_append, decodeUtf8From, ← List.cons_append, ← hb, hchar]
    · dsimp only
      rw [List.drop_left' hlen, ih n (by omega)]
    · exact List.cons_ne_nil _ _

/-- The decoder inverts the encoder. -/
theorem decodeUtf8_encodeUtf8 (text : List Char) :
    decodeUtf8 (encodeUtf8 text) = String.ofList text := by
  rw [decodeUtf8, decodeUtf8From_encode text _ (le_refl _)]

end VllmObserver.Core
