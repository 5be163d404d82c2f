/-!
# Decoding UTF-8

`Utf8.decode` turns bytes into text or says where and why they are not UTF-8. The
fault covers the longest prefix of a well-formed sequence that stands at the
faulty place, one byte if there is none, so its length is between one and three.
-/
namespace Sexpr.Text.Utf8

/-- Why bytes are not UTF-8. -/
inductive Reason where
  /-- No sequence begins with this byte. -/
  | invalidStart
  /-- The next byte cannot go on with the sequence. -/
  | invalidContinuation
  /-- The bytes end inside a sequence. -/
  | unexpectedEnd
  deriving Repr, DecidableEq

/-- A fault covers the bytes at `start` up to and including `last`, the first of which is `lead`. -/
structure Fault where
  start : Nat
  last : Nat
  lead : UInt8
  reason : Reason
  deriving Repr, DecidableEq

/-! ## Sequences -/

/-- The byte continues a sequence. -/
def isContinuation (b : UInt8) : Bool := 0x80 ≤ b && b ≤ 0xBF

/-- The byte may stand second after `lead`. Overlong forms, surrogates and code
points past the last one are ruled out here. -/
def isSecond (lead b : UInt8) : Bool :=
  if lead = 0xE0 then 0xA0 ≤ b && b ≤ 0xBF
  else if lead = 0xED then 0x80 ≤ b && b ≤ 0x9F
  else if lead = 0xF0 then 0x90 ≤ b && b ≤ 0xBF
  else if lead = 0xF4 then 0x80 ≤ b && b ≤ 0x8F
  else isContinuation b

/-- How many bytes the sequence with this first byte has; `none` if no sequence begins so. -/
def width? (lead : UInt8) : Option Nat :=
  if lead < 0x80 then some 1
  else if 0xC2 ≤ lead && lead ≤ 0xDF then some 2
  else if 0xE0 ≤ lead && lead ≤ 0xEF then some 3
  else if 0xF0 ≤ lead && lead ≤ 0xF4 then some 4
  else none

/-- The payload of a continuation byte appended to the bits before it. -/
def appendBits (bits : Nat) (b : UInt8) : Nat := bits * 64 + (b.toNat - 0x80)

/-- The payload of the first byte of a sequence of this width. -/
def leadBits (width : Nat) (lead : UInt8) : Nat :=
  match width with
  | 1 => lead.toNat
  | 2 => lead.toNat - 0xC0
  | 3 => lead.toNat - 0xE0
  | _ => lead.toNat - 0xF0

/-! ## Decoding -/

/-- A sequence that has begun: where, with which byte, the bits so far, how many
bytes have been read and how many are to come. -/
structure Partial where
  start : Nat
  lead : UInt8
  bits : Nat
  read : Nat
  missing : Nat
  deriving Repr, DecidableEq

/-- The fault of breaking off the sequence. -/
def Partial.fault (p : Partial) (reason : Reason) : Fault :=
  ⟨p.start, p.start + (p.read - 1), p.lead, reason⟩

/-- The byte goes on with the sequence. -/
def Partial.accepts (p : Partial) (b : UInt8) : Bool :=
  if p.read = 1 then isSecond p.lead b else isContinuation b

/-- Decode the bytes from `position` on, inside the sequence `pending` if there is one. -/
def decodeFrom (position : Nat) (pending : Option Partial) : List UInt8 → Except Fault (List Char)
  | [] =>
    match pending with
    | none => .ok []
    | some p => .error (p.fault .unexpectedEnd)
  | b :: rest =>
    match pending with
    | none =>
      match width? b with
      | none => .error ⟨position, position, b, .invalidStart⟩
      | some 1 => return Char.ofNat b.toNat :: (← decodeFrom (position + 1) none rest)
      | some width =>
        decodeFrom (position + 1) (some ⟨position, b, leadBits width b, 1, width - 1⟩) rest
    | some p =>
      if p.accepts b then
        let bits := appendBits p.bits b
        if p.missing ≤ 1 then
          return Char.ofNat bits :: (← decodeFrom (position + 1) none rest)
        else
          let p := { p with bits, read := p.read + 1, missing := p.missing - 1 }
          decodeFrom (position + 1) (some p) rest
      else
        .error (p.fault .invalidContinuation)

/-- The text that the bytes encode. -/
def decode (bytes : List UInt8) : Except Fault String :=
  String.ofList <$> decodeFrom 0 none bytes

/-! ## Messages -/

/-- The reason in words. -/
def Reason.message : Reason → String
  | .invalidStart => "invalid start byte"
  | .invalidContinuation => "invalid continuation byte"
  | .unexpectedEnd => "unexpected end of data"

/-- Two lower-case hexadecimal digits. -/
def hexByte (b : UInt8) : String :=
  String.ofList [Nat.digitChar (b.toNat / 16), Nat.digitChar (b.toNat % 16)]

/-- The fault in one line: one byte is shown, several are given by their first and last offset. -/
def Fault.message (fault : Fault) : String :=
  if fault.start = fault.last then
    s!"'utf-8' codec can't decode byte 0x{hexByte fault.lead} in position {fault.start}: " ++
      fault.reason.message
  else
    s!"'utf-8' codec can't decode bytes in position {fault.start}-{fault.last}: " ++
      fault.reason.message

end Sexpr.Text.Utf8
