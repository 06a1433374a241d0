import Diagnosis.Text.Blank

/-!
# Written integers

An integer is written with an optional sign and decimal digits of any script, single underscores
allowed between digits and white space at the ends. The information separators, white space
elsewhere, have no place in a number.
-/

namespace Diagnosis.Text

/-- The zeros of the decimal digits of all scripts. The other nine digits follow each of them. -/
def decimalZeros : List Nat :=
  [0x30, 0x660, 0x6F0, 0x7C0, 0x966, 0x9E6, 0xA66, 0xAE6, 0xB66, 0xBE6, 0xC66, 0xCE6, 0xD66,
   0xDE6, 0xE50, 0xED0, 0xF20, 0x1040, 0x1090, 0x17E0, 0x1810, 0x1946, 0x19D0, 0x1A80, 0x1A90,
   0x1B50, 0x1BB0, 0x1C40, 0x1C50, 0xA620, 0xA8D0, 0xA900, 0xA9D0, 0xA9F0, 0xAA50, 0xABF0, 0xFF10,
   0x104A0, 0x10D30, 0x11066, 0x110F0, 0x11136, 0x111D0, 0x112F0, 0x11450, 0x114D0, 0x11650,
   0x116C0, 0x11730, 0x118E0, 0x11950, 0x11C50, 0x11D50, 0x11DA0, 0x16A60, 0x16AC0, 0x16B50,
   0x1D7CE, 0x1D7D8, 0x1D7E2, 0x1D7EC, 0x1D7F6, 0x1E140, 0x1E2F0, 0x1E950, 0x1FBF0]

/-- The value of a decimal digit. -/
def digitValue? (c : Char) : Option Nat :=
  (decimalZeros.find? fun start => start ≤ c.toNat && c.toNat < start + 10).map (c.toNat - ·)

/-- A decimal digit of some script. -/
def isDecimalDigit (c : Char) : Bool :=
  (digitValue? c).isSome

/-- The digits without the single underscores between them. Fails on anything else. -/
def digits? : List Char → Option (List Nat)
  | [] => none
  | [c] => (digitValue? c).map fun d => [d]
  | c :: '_' :: rest => do
    let d ← digitValue? c
    return d :: (← digits? rest)
  | c :: rest => do
    let d ← digitValue? c
    return d :: (← digits? rest)

/-- The most digits that a written integer may have. -/
def maxDigits : Nat := 4300

/-- The number with the given digits, if there are not too many. -/
def natOfDigits? (text : List Char) : Option Nat := do
  let digits ← digits? text
  if maxDigits < digits.length then none
  else return digits.foldl (fun n d => 10 * n + d) 0

/-- White space that may surround a number. -/
def isPadding (c : Char) : Bool :=
  isBlank c && !(0x1C ≤ c.toNat && c.toNat ≤ 0x1F)

/-- Reads an integer. -/
def readInteger? (text : String) : Option Int :=
  match (trimAll isPadding text).toList with
  | '-' :: rest => (natOfDigits? rest).map fun n => -(n : Int)
  | '+' :: rest => (natOfDigits? rest).map Int.ofNat
  | rest => (natOfDigits? rest).map Int.ofNat

example : readInteger? "\u30005" = some 5 ∧ readInteger? "5\x1f" = none := by
  decide +kernel

example : readInteger? " -1_000\n" = some (-1000) ∧ readInteger? "1__0" = none := by
  decide +kernel

end Diagnosis.Text
