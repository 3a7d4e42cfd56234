/-!
Hexadecimal text with lower-case digits: a byte as two digits, a word as the fewest digits.
-/

namespace CoreEngines.Text.Hex

def digit (value : Nat) : Char :=
  if value < 10 then Char.ofNat ('0'.toNat + value) else Char.ofNat ('a'.toNat + (value - 10))

def byte (value : UInt8) : String :=
  String.ofList [digit (value.toNat / 16), digit (value.toNat % 16)]

def bytes (data : ByteArray) : String :=
  data.foldl (fun text value => text ++ byte value) ""

/-- The fewest digits that name `value`; zero has one. -/
def word (value : UInt64) : String :=
  String.ofList (Nat.toDigits 16 value.toNat)

/-- The value of a digit of either case; all else counts as zero. -/
def value (char : Char) : Nat :=
  if '0' ≤ char ∧ char ≤ '9' then char.toNat - '0'.toNat
  else if 'a' ≤ char ∧ char ≤ 'f' then char.toNat - 'a'.toNat + 10
  else if 'A' ≤ char ∧ char ≤ 'F' then char.toNat - 'A'.toNat + 10
  else 0

/-- The bytes that pairs of digits spell. -/
def decode : List Char → List UInt8
  | high :: low :: rest => (value high * 16 + value low).toUInt8 :: decode rest
  | _ => []

example : byte 0x0f = "0f" := by decide
example : word 0xdead0 = "dead0" := by decide
example : decode ['0', 'f', 'a', '0'] = [0x0f, 0xa0] := by decide

end CoreEngines.Text.Hex
