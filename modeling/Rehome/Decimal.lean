import Rehome.Text.Basic

/-!
# Shortest decimals

The text of a floating-point number: the fewest digits that read back as the number, and of those
the nearest to it. The number is taken apart into `m · 2 ^ q`; the decimals that read back as it
fill the interval halfway to its two neighbours, with the ends when `m` is even.
-/

namespace Rehome

namespace Decimal

/-- A positive number over a common denominator, with the ends of the interval that rounds to it. -/
structure Rounded where
  low : Nat
  value : Nat
  high : Nat
  denominator : Nat
  closed : Bool

/-- The number that has these bits; its sign is left out. -/
def Rounded.ofBits (bits : Nat) : Rounded :=
  let field := bits / Nat.pow 2 52 % Nat.pow 2 11
  let fraction := bits % Nat.pow 2 52
  let m := if field = 0 then fraction else Nat.pow 2 52 + fraction
  -- The exponent of a quarter of the last place, counted from that of the least numbers.
  let q := max field 1 - 1
  let below := if fraction = 0 ∧ 1 < field then 1 else 2
  let scale := Nat.pow 2 q
  ⟨(4 * m - below) * scale, 4 * m * scale, (4 * m + 2) * scale, Nat.pow 2 1076, m % 2 = 0⟩

/-- The power of ten of the leading digit. -/
def Rounded.magnitude (number : Rounded) : Int :=
  let whole := number.value / number.denominator
  if whole = 0 then
    -(((List.range 400).find? fun k =>
      number.denominator ≤ number.value * Nat.pow 10 k).getD 0 : Int)
  else ((Nat.repr whole).length : Int) - 1

/-- Whether `digits · 10 ^ place` reads back as the number. -/
def Rounded.covers (number : Rounded) (digits : Nat) (place : Int) : Bool :=
  let scaled := digits * Nat.pow 10 place.toNat * number.denominator
  let low := number.low * Nat.pow 10 (-place).toNat
  let high := number.high * Nat.pow 10 (-place).toNat
  if number.closed then low ≤ scaled && scaled ≤ high else low < scaled && scaled < high

/-- The nearest of the decimals at `place` that read back, if there is one. -/
def Rounded.nearest? (number : Rounded) (place : Int) : Option Nat :=
  let value := number.value * Nat.pow 10 (-place).toNat
  let unit := number.denominator * Nat.pow 10 place.toNat
  let floor := value / unit
  match number.covers floor place, number.covers (floor + 1) place with
  | false, false => none
  | true, false => some floor
  | false, true => some (floor + 1)
  | true, true =>
    let rest := value % unit
    if 2 * rest < unit ∨ 2 * rest = unit ∧ floor % 2 = 0 then some floor else some (floor + 1)

/-- The fewest digits that read back, and the power of ten of the last one. -/
def Rounded.shortest (number : Rounded) : Nat × Int :=
  let magnitude := number.magnitude
  ((List.range 17).findSome? fun (count : Nat) =>
    let place := magnitude - (count : Int)
    (number.nearest? place).map fun digits => (digits, place)).getD (0, 0)

/-- The digits without zeros at their end, and the power of ten of the last one left. -/
def dropZeros (digits : Nat) (place : Int) : Nat → Nat × Int
  | 0 => (digits, place)
  | fuel + 1 =>
    if digits % 10 = 0 ∧ digits ≠ 0 then dropZeros (digits / 10) (place + 1) fuel
    else (digits, place)

/-- The sign and the digits of an exponent. -/
def signed (exponent : Int) : Text :=
  (if exponent < 0 then '-' else '+') :: Text.ofNat exponent.natAbs

/-- Positional notation from 10^-5 up to 10^16, always with a point; otherwise one digit before the
point and a signed exponent. -/
def place (digits : Text) (exponent : Int) : Text :=
  let size : Int := digits.length
  let lead := size + exponent
  if 0 ≤ exponent ∧ lead ≤ 16 then
    digits ++ List.replicate exponent.toNat '0' ++ ['.', '0']
  else if 0 < lead ∧ lead ≤ 16 then
    digits.take lead.toNat ++ ['.'] ++ digits.drop lead.toNat
  else if -5 < lead ∧ lead ≤ 0 then
    ['0', '.'] ++ List.replicate (-lead).toNat '0' ++ digits
  else
    let power := 'e' :: signed (lead - 1)
    match digits with
    | [] => power
    | [digit] => digit :: power
    | digit :: rest => digit :: '.' :: rest ++ power

/-- The text of a finite number. -/
def render (number : Float) : Text :=
  let bits := number.toBits.toNat
  let sign : Text := if bits / Nat.pow 2 63 = 1 then ['-'] else []
  if bits % Nat.pow 2 63 = 0 then sign ++ ['0', '.', '0']
  else
    let (digits, exponent) := (Rounded.ofBits bits).shortest
    let (digits, exponent) := dropZeros digits exponent 17
    sign ++ place (Text.ofNat digits) exponent

end Decimal

end Rehome
