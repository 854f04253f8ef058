import SetupScript.Text.Quoted

/-!
# UTF-8

Decoding of bytes with the exact place and cause of the first fault. A sequence that breaks off is
at fault up to the byte that cannot continue it; overlong forms, surrogates and code points past the
last are refused at their second byte.
-/

namespace SetupScript.Text

/-- Why bytes are not UTF-8. -/
inductive Utf8Cause where
  | invalidStart
  | invalidContinuation
  | unexpectedEnd

/-- A fault in bytes: its cause, the first byte, its offset, and how many bytes are concerned. -/
structure Utf8Fault where
  cause : Utf8Cause
  byte : UInt8
  position : Nat
  count : Nat

/-- The wording of a cause. -/
def Utf8Cause.message : Utf8Cause → Text
  | invalidStart => "invalid start byte"
  | invalidContinuation => "invalid continuation byte"
  | unexpectedEnd => "unexpected end of data"

/-- The wording of a fault. -/
def Utf8Fault.message (fault : Utf8Fault) : Text :=
  let place : Text :=
    if fault.count = 1 then
      "byte 0x" ++ hexDigits 2 fault.byte.toNat ++ " in position " ++ ofNat fault.position
    else
      "bytes in position " ++ ofNat fault.position ++ "-" ++ ofNat (fault.position + fault.count - 1)
  "'utf-8' codec can't decode " ++ place ++ ": " ++ fault.cause.message

/-- How the sequence that a byte starts must go on: how many bytes follow, the range of the first of
them, and the bits that the lead byte itself gives. -/
def sequenceOf? (lead : Nat) : Option (Nat × Nat × Nat × Nat) :=
  if lead < 0x80 then some (0, 0, 0, lead)
  else if lead < 0xC2 then none
  else if lead < 0xE0 then some (1, 0x80, 0xBF, lead - 0xC0)
  else if lead < 0xF0 then
    some (2, if lead = 0xE0 then 0xA0 else 0x80, if lead = 0xED then 0x9F else 0xBF, lead - 0xE0)
  else if lead < 0xF5 then
    some (3, if lead = 0xF0 then 0x90 else 0x80, if lead = 0xF4 then 0x8F else 0xBF, lead - 0xF0)
  else none

/-- Read `count` continuation bytes after `used` bytes of a sequence, the first in the given range:
the value with the bits read so far, or the cause and the number of bytes at fault. -/
def continuations (count low high value used : Nat) : List UInt8 → Except (Utf8Cause × Nat) Nat
  | [] => if count = 0 then .ok value else .error (.unexpectedEnd, used)
  | byte :: rest =>
    match count with
    | 0 => .ok value
    | count + 1 =>
      if low ≤ byte.toNat && byte.toNat ≤ high then
        continuations count 0x80 0xBF (value * 0x40 + (byte.toNat - 0x80)) (used + 1) rest
      else .error (.invalidContinuation, used)

/-- Decode from byte offset `position` on, passing over `skip` bytes that belong to the character
before. -/
def decodeFrom (position skip : Nat) : List UInt8 → Except Utf8Fault Text
  | [] => .ok []
  | byte :: rest =>
    match skip with
    | skip + 1 => decodeFrom (position + 1) skip rest
    | 0 =>
      match sequenceOf? byte.toNat with
      | none => .error ⟨.invalidStart, byte, position, 1⟩
      | some (count, low, high, bits) =>
        match continuations count low high bits 1 rest with
        | .error (cause, used) => .error ⟨cause, byte, position, used⟩
        | .ok value =>
          (decodeFrom (position + 1) count rest).map (Char.ofNat value :: ·)

/-- Decode bytes as UTF-8. -/
def decode (bytes : List UInt8) : Except Utf8Fault Text := decodeFrom 0 0 bytes

/-- The UTF-8 bytes of a character. -/
def encodeChar (c : Char) : List UInt8 :=
  let n := c.toNat
  let last (m : Nat) : UInt8 := (0x80 + m % 0x40).toUInt8
  if n < 0x80 then [n.toUInt8]
  else if n < 0x800 then [(0xC0 + n / 0x40).toUInt8, last n]
  else if n < 0x10000 then [(0xE0 + n / 0x1000).toUInt8, last (n / 0x40), last n]
  else [(0xF0 + n / 0x40000).toUInt8, last (n / 0x1000), last (n / 0x40), last n]

/-- The UTF-8 bytes of a text. -/
def encode (t : Text) : List UInt8 := t.flatMap encodeChar

end SetupScript.Text
