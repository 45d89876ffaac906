/-!
# UTF-8

Decoding of byte sequences. A failure tells where the offending character starts and how many of
its bytes could have begun a character, or that the text ends inside it.
-/

namespace GraphqlClient.Text.Utf8

/-- Why a byte sequence is no text: `start` is the index of the first byte that has no character. -/
inductive DecodeError where
  | invalid (length start : Nat)
  | incomplete (start : Nat)
  deriving DecidableEq, Repr

/-- The wording of a decoding failure. -/
def DecodeError.message : DecodeError → String
  | .invalid length start =>
    "invalid utf-8 sequence of " ++ toString length ++ " bytes from index " ++ toString start
  | .incomplete start => "incomplete utf-8 byte sequence from index " ++ toString start

/-- The number of bytes that encode a text. -/
def byteLength : List Char → Nat
  | [] => 0
  | c :: cs => c.utf8Size + byteLength cs

/-- A character of which the first bytes are read: `low` and `high` bound the next byte. -/
structure Pending where
  start : Nat
  taken : Nat
  missing : Nat
  code : Nat
  low : Nat
  high : Nat

/-- What a byte above the ASCII range begins, if it can begin a character. -/
def lead (index byte : Nat) : Option Pending :=
  if byte < 0xC2 then none
  else if byte < 0xE0 then some ⟨index, 1, 1, byte - 0xC0, 0x80, 0xBF⟩
  else if byte = 0xE0 then some ⟨index, 1, 2, 0, 0xA0, 0xBF⟩
  else if byte = 0xED then some ⟨index, 1, 2, 0xD, 0x80, 0x9F⟩
  else if byte < 0xF0 then some ⟨index, 1, 2, byte - 0xE0, 0x80, 0xBF⟩
  else if byte = 0xF0 then some ⟨index, 1, 3, 0, 0x90, 0xBF⟩
  else if byte < 0xF4 then some ⟨index, 1, 3, byte - 0xF0, 0x80, 0xBF⟩
  else if byte = 0xF4 then some ⟨index, 1, 3, 4, 0x80, 0x8F⟩
  else none

/-- Read the bytes from `index` on, after the characters `before` (last first). -/
def decodeFrom (before : List Char) (pending : Option Pending) (index : Nat) :
    List UInt8 → Except DecodeError (List Char)
  | [] =>
    match pending with
    | none => .ok before.reverse
    | some p => .error (.incomplete p.start)
  | byte :: bytes =>
    let b := byte.toNat
    match pending with
    | none =>
      if b < 0x80 then decodeFrom (Char.ofNat b :: before) none (index + 1) bytes
      else match lead index b with
        | none => .error (.invalid 1 index)
        | some p => decodeFrom before (some p) (index + 1) bytes
    | some p =>
      if p.low ≤ b ∧ b ≤ p.high then
        let code := 64 * p.code + (b - 0x80)
        if p.missing ≤ 1 then decodeFrom (Char.ofNat code :: before) none (index + 1) bytes
        else
          decodeFrom before (some ⟨p.start, p.taken + 1, p.missing - 1, code, 0x80, 0xBF⟩)
            (index + 1) bytes
      else .error (.invalid p.taken p.start)

/-- The text that a byte sequence encodes. -/
def decode (bytes : List UInt8) : Except DecodeError String :=
  (decodeFrom [] none 0 bytes).map String.ofList

end GraphqlClient.Text.Utf8
