import Lisplet.Integer
import Lisplet.Text.Quoted

/-!
# Strict UTF-8

Bytes are decoded one at a time.  A lead byte says how many bytes follow it and in which range the
first of them lies, which rules out overlong forms, surrogates and numbers beyond U+10FFFF.  A fault
is reported for the bytes that could not be used: a lead byte alone, or a sequence up to the byte
that does not continue it, or up to the end.
-/

namespace Lisplet.Text

inductive Utf8Reason where
  | startByte
  | continuationByte
  | endOfData
  deriving DecidableEq, Repr

/-- the bytes that cannot be decoded: offsets from `start` up to and without `stop` -/
structure Utf8Fault where
  reason : Utf8Reason
  first : Nat
  start : Nat
  stop : Nat
  deriving DecidableEq, Repr

/-- a sequence that has been started -/
structure Sequence where
  first : Nat
  start : Nat
  missing : Nat
  /-- the range of the next byte -/
  low : Nat
  high : Nat
  /-- the bits read so far -/
  value : Nat

def sequence? (b start : Nat) : Option Sequence :=
  if b < 0xC2 then none
  else if b < 0xE0 then some ⟨b, start, 1, 0x80, 0xBF, b - 0xC0⟩
  else if b < 0xF0 then
    some ⟨b, start, 2, if b = 0xE0 then 0xA0 else 0x80, if b = 0xED then 0x9F else 0xBF, b - 0xE0⟩
  else if b < 0xF5 then
    some ⟨b, start, 3, if b = 0xF0 then 0x90 else 0x80, if b = 0xF4 then 0x8F else 0xBF, b - 0xF0⟩
  else none

/-- decodes bytes from an offset; `done` holds the characters so far, last first -/
def decodeFrom (done : List Char) (offset : Nat) (pending : Option Sequence) :
    List UInt8 → Except Utf8Fault (List Char)
  | [] =>
    match pending with
    | none => .ok done.reverse
    | some s => .error ⟨.endOfData, s.first, s.start, offset⟩
  | byte :: bytes =>
    let b := byte.toNat
    match pending with
    | none =>
      if b < 0x80 then decodeFrom (Char.ofNat b :: done) (offset + 1) none bytes
      else match sequence? b offset with
        | none => .error ⟨.startByte, b, offset, offset + 1⟩
        | some s => decodeFrom done (offset + 1) (some s) bytes
    | some s =>
      if s.low ≤ b ∧ b ≤ s.high then
        let value := s.value * 64 + b % 64
        if s.missing ≤ 1 then decodeFrom (Char.ofNat value :: done) (offset + 1) none bytes
        else
          let s' := { s with missing := s.missing - 1, low := 0x80, high := 0xBF, value := value }
          decodeFrom done (offset + 1) (some s') bytes
      else .error ⟨.continuationByte, s.first, s.start, offset⟩

def decodeUtf8 (bytes : List UInt8) : Except Utf8Fault (List Char) := decodeFrom [] 0 none bytes

def Utf8Reason.message : Utf8Reason → String
  | .startByte => "invalid start byte"
  | .continuationByte => "invalid continuation byte"
  | .endOfData => "unexpected end of data"

def Utf8Fault.message (f : Utf8Fault) : String :=
  let number (n : Nat) : String := String.ofList (Integer.digits n)
  "'utf-8' codec can't decode "
    ++ (if f.stop = f.start + 1 then
        "byte 0x" ++ String.ofList (hex 2 f.first) ++ " in position " ++ number f.start
      else "bytes in position " ++ number f.start ++ "-" ++ number (f.stop - 1))
    ++ ": " ++ f.reason.message

/-! ## line ends -/

/-- every way to end a line becomes a line feed -/
def lineFeeds : List Char → List Char
  | [] => []
  | '\r' :: '\n' :: cs => '\n' :: lineFeeds cs
  | c :: cs => (if c = '\r' then '\n' else c) :: lineFeeds cs

end Lisplet.Text
