import Rehome.Json.Problem

/-!
# JSON numbers

Reading a number, and the value that it stands for. Whole numbers of 64 bits are kept as they are.
All else is a floating-point number, worked out from the digits that fit into 64 bits and one power
of ten; minus zero is such a number too.
-/

namespace Rehome

namespace Json

/-- A number as it is spelt: its sign, and the digits before the point, after it and of the
exponent. -/
structure Numeral where
  negative : Bool
  whole : List Nat
  fraction : List Nat
  exponent : List Nat
  exponentNegative : Bool
  isWhole : Bool

/-- The leading digits of a text and the rest. -/
def digits (text : Text) : List Nat × Text :=
  ((text.takeWhile Char.isDigit).map fun c => c.toNat - '0'.toNat, text.dropWhile Char.isDigit)

/-- One or more digits. -/
def readDigits (text : Text) : Read (List Nat) :=
  match digits text with
  | ([], []) => .error .truncated
  | ([], _) => .error .malformed
  | found => .ok found

/-- The digits before the point; a zero among several cannot come first. -/
def readWhole (text : Text) : Read (List Nat) :=
  match readDigits text with
  | .ok (0 :: _ :: _, _) => .error .malformed
  | found => found

/-- The digits after the point, if there is one. -/
def readFraction (text : Text) : Read (List Nat) :=
  match text with
  | '.' :: rest => readDigits rest
  | rest => .ok ([], rest)

/-- The sign and the digits of the exponent, if there is one. -/
def readExponent (text : Text) : Read (Bool × List Nat) :=
  match text with
  | [] => .ok ((false, []), [])
  | c :: rest =>
    if c = 'e' ∨ c = 'E' then
      match rest with
      | '-' :: rest => (readDigits rest).map fun (exponent, rest) => ((true, exponent), rest)
      | '+' :: rest => (readDigits rest).map fun (exponent, rest) => ((false, exponent), rest)
      | rest => (readDigits rest).map fun (exponent, rest) => ((false, exponent), rest)
    else .ok ((false, []), c :: rest)

/-- The spelling of a number. -/
def readNumeral (text : Text) : Except Problem (Numeral × Text) := do
  let (negative, text) :=
    match text with
    | '-' :: rest => (true, rest)
    | rest => (false, rest)
  let (whole, text) ← readWhole text
  let (fraction, text) ← readFraction text
  let ((exponentNegative, exponent), text) ← readExponent text
  let numeral :=
    ⟨negative, whole, fraction, exponent, exponentNegative, fraction.isEmpty && exponent.isEmpty⟩
  return (numeral, text)

/-- The number that digits spell. -/
def valueOf (digits : List Nat) : Nat :=
  digits.foldl (fun value digit => value * 10 + digit) 0

/-- Appends digits to a number for as long as it fits into 64 bits; answers the digits left. -/
def absorb (value : Nat) : List Nat → Nat × List Nat
  | [] => (value, [])
  | digit :: rest =>
    if value * 10 + digit < Nat.pow 2 64 then absorb (value * 10 + digit) rest
    else (value, digit :: rest)

/-- The floating-point number nearest to a power of ten. -/
def power (n : Nat) : Float :=
  Float.ofScientific 1 false n

/-- Divides by a power of ten, in steps that a floating-point number can hold. -/
def shrink (value : Float) (n : Nat) : Float :=
  if n ≤ 308 then value / power n
  else if value == 0 then value
  else shrink (value / power 308) (n - 308)
termination_by n

/-- A number times a power of ten; none if that is too large. -/
def scale? (value : Nat) (exponent : Int) : Option Float :=
  let start := value.toUInt64.toFloat
  if exponent < 0 then some (shrink start (-exponent).toNat)
  else if exponent ≤ 308 then
    let scaled := start * power exponent.toNat
    if scaled.isInf then none else some scaled
  else if value = 0 then some start
  else none

/-- The floating-point number that a spelling stands for; none if it is too large. -/
def Numeral.decimal? (numeral : Numeral) : Option Float :=
  let (value, excess) := absorb 0 numeral.whole
  let (value, dropped) := absorb value numeral.fraction
  let exponent := valueOf numeral.exponent
  let shift : Int := (excess.length : Int) - (numeral.fraction.length - dropped.length : Nat)
  let size :=
    if exponent < Nat.pow 2 31 then
      scale? value (if numeral.exponentNegative then shift - exponent else shift + exponent)
    else if value = 0 ∨ numeral.exponentNegative then some 0
    else none
  size.map fun size => if numeral.negative then -size else size

/-- What a spelling stands for. -/
def Numeral.kind (numeral : Numeral) : Except Problem Kind :=
  let value := valueOf numeral.whole
  if numeral.isWhole ∧ ¬numeral.negative ∧ value < Nat.pow 2 64 then .ok (.integer value)
  else if numeral.isWhole ∧ numeral.negative ∧ value ≠ 0 ∧ value ≤ Nat.pow 2 63 then
    .ok (.integer (-value))
  else
    match numeral.decimal? with
    | some value => .ok (.decimal value)
    | none => .error .malformed

end Json

end Rehome
