/-!
Strict reading of UTF-8. A sequence is refused at its first byte that cannot continue it, and the
refusal names the bytes of the sequence that were read.
-/

namespace Offside.Text

inductive Utf8Fault where
  | start
  | continuation
  | truncated
deriving DecidableEq, Repr

structure Utf8Error where
  fault : Utf8Fault
  first : Nat
  last : Nat
  byte : UInt8
deriving DecidableEq, Repr

/-- A character of which some bytes are read: its first byte and the position of it, how many bytes
are still to come, the range of the next one, and the value of the bits read. -/
structure OpenChar where
  byte : UInt8
  first : Nat
  owed : Nat
  low : Nat
  high : Nat
  value : Nat

inductive Utf8State where
  | between
  | inside (char : OpenChar)

def openChar? (position : Nat) (byte : UInt8) : Option OpenChar :=
  let n := byte.toNat
  if 0xc2 ≤ n && n ≤ 0xdf then some ⟨byte, position, 1, 0x80, 0xbf, n - 0xc0⟩
  else if n = 0xe0 then some ⟨byte, position, 2, 0xa0, 0xbf, 0⟩
  else if n = 0xed then some ⟨byte, position, 2, 0x80, 0x9f, 0xd⟩
  else if 0xe1 ≤ n && n ≤ 0xef then some ⟨byte, position, 2, 0x80, 0xbf, n - 0xe0⟩
  else if n = 0xf0 then some ⟨byte, position, 3, 0x90, 0xbf, 0⟩
  else if 0xf1 ≤ n && n ≤ 0xf3 then some ⟨byte, position, 3, 0x80, 0xbf, n - 0xf0⟩
  else if n = 0xf4 then some ⟨byte, position, 3, 0x80, 0x8f, 4⟩
  else none

/-- Reads bytes from a position on; `read` holds the characters so far, the last one first. -/
def utf8From (position : Nat) (read : List Char) :
    Utf8State → List UInt8 → Except Utf8Error (List Char)
  | .between, [] => .ok read.reverse
  | .inside char, [] => .error ⟨.truncated, char.first, position - 1, char.byte⟩
  | .between, byte :: rest =>
    if byte.toNat < 0x80 then
      utf8From (position + 1) (Char.ofNat byte.toNat :: read) .between rest
    else
      match openChar? position byte with
      | some char => utf8From (position + 1) read (.inside char) rest
      | none => .error ⟨.start, position, position, byte⟩
  | .inside char, byte :: rest =>
    if char.low ≤ byte.toNat && byte.toNat ≤ char.high then
      let value := char.value * 64 + (byte.toNat - 0x80)
      if char.owed ≤ 1 then utf8From (position + 1) (Char.ofNat value :: read) .between rest
      else
        let char := { char with owed := char.owed - 1, low := 0x80, high := 0xbf, value }
        utf8From (position + 1) read (.inside char) rest
    else .error ⟨.continuation, char.first, position - 1, char.byte⟩

def utf8 (bytes : ByteArray) : Except Utf8Error (List Char) :=
  utf8From 0 [] .between bytes.toList

def unifyLineEnds : List Char → List Char
  | [] => []
  | '\r' :: '\n' :: rest => '\n' :: unifyLineEnds rest
  | c :: rest => (if c = '\r' then '\n' else c) :: unifyLineEnds rest

def ofBytes (bytes : ByteArray) : Except Utf8Error String :=
  (utf8 bytes).map fun chars => String.ofList (unifyLineEnds chars)

def Utf8Fault.reason : Utf8Fault → String
  | .start => "invalid start byte"
  | .continuation => "invalid continuation byte"
  | .truncated => "unexpected end of data"

def hexPair (n : Nat) : String :=
  let digits := Nat.toDigits 16 n
  String.ofList (if digits.length < 2 then '0' :: digits else digits)

def Utf8Error.message (error : Utf8Error) : String :=
  if error.first = error.last then
    "'utf-8' codec can't decode byte 0x" ++ hexPair error.byte.toNat ++ " in position "
      ++ toString error.first ++ ": " ++ error.fault.reason
  else
    "'utf-8' codec can't decode bytes in position " ++ toString error.first ++ "-"
      ++ toString error.last ++ ": " ++ error.fault.reason

end Offside.Text
