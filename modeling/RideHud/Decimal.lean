/-!
# Decimal text of binary numbers

A binary64 number is a whole number times a power of two (`Binary`), so its decimal digits can be
computed without rounding errors: `fixed` gives a number of places, `scientific` a number of
significant digits, both rounded from the exact value with ties to the even digit; `shortest` gives
the fewest digits that read back as the same number, and the nearest of those.
-/

namespace RideHud.Decimal

/-! ## Exact values -/

/-- What a binary64 number is. -/
inductive Binary where
  | nan
  | infinite (negative : Bool)
  /-- The number `mantissa * 2 ^ exponent`, with its sign. -/
  | finite (negative : Bool) (mantissa : Nat) (exponent : Int)
  deriving Repr, DecidableEq

/-- The sign, the mantissa and the exponent that are stored in a number. -/
def Binary.ofFloat (x : Float) : Binary :=
  let bits := x.toBits.toNat
  let negative : Bool := bits / Nat.pow 2 63 = 1
  let biased : Nat := bits / Nat.pow 2 52 % Nat.pow 2 11
  let fraction : Nat := bits % Nat.pow 2 52
  if biased = 2047 then if fraction = 0 then .infinite negative else .nan
  else if biased = 0 then .finite negative fraction (-1074)
  else .finite negative (Nat.pow 2 52 + fraction) ((biased : Int) - 1075)

/-- A positive or zero quotient of whole numbers. -/
structure Ratio where
  num : Nat
  den : Nat
  deriving Repr, DecidableEq

namespace Ratio

/-- The value `mantissa * 2 ^ exponent`. -/
def ofBinary (mantissa : Nat) (exponent : Int) : Ratio :=
  ⟨mantissa * Nat.pow 2 exponent.toNat, Nat.pow 2 (-exponent).toNat⟩

/-- The value times a power of ten. -/
def shift (r : Ratio) (power : Int) : Ratio :=
  ⟨r.num * Nat.pow 10 power.toNat, r.den * Nat.pow 10 (-power).toNat⟩

/-- The next whole number below. -/
def floor (r : Ratio) : Nat := r.num / r.den

/-- The nearest whole number; the even one of two. -/
def round (r : Ratio) : Nat :=
  let whole := r.num / r.den
  let twice := 2 * (r.num % r.den)
  if twice < r.den then whole
  else if r.den < twice then whole + 1
  else whole + whole % 2

/-- The number of decimal digits of a whole number, at least one. -/
def digitCount (n : Nat) : Nat := (Nat.toDigits 10 n).length

/-- The exponent of the leading decimal digit of a positive quotient. -/
def leading (r : Ratio) : Int :=
  if r.den ≤ r.num then (digitCount (r.num / r.den) : Int) - 1
  else -(digitCount ((r.den - 1) / r.num) : Int)

end Ratio

/-! ## Text -/

/-- The text of a whole number, with zeros in front up to a width. -/
def padded (width n : Nat) : String :=
  let digits := toString n
  "".pushn '0' (width - digits.length) ++ digits

/-- The text of a sign. -/
def signText (negative : Bool) : String := if negative then "-" else ""

/-- A whole number of `10 ^ -places`, written with a point before the last `places` digits. -/
def pointed (places n : Nat) : String :=
  if places = 0 then toString n
  else s!"{n / Nat.pow 10 places}.{padded places (n % Nat.pow 10 places)}"

/-- The text of a number with a fixed number of places. -/
def fixed (places : Nat) (x : Float) : String :=
  match Binary.ofFloat x with
  | .nan => "NaN"
  | .infinite negative => signText negative ++ "inf"
  | .finite negative mantissa exponent =>
    signText negative ++ pointed places ((Ratio.ofBinary mantissa exponent).shift places).round

/-- A number of significant digits and the exponent of the first one. -/
structure Scientific where
  digits : Nat
  leading : Int
  deriving Repr, DecidableEq

/-- The nearest number with `count` significant digits. -/
def Scientific.of (count : Nat) (r : Ratio) : Scientific :=
  let leading := r.leading
  let digits := (r.shift ((count : Int) - 1 - leading)).round
  if digits = Nat.pow 10 count then ⟨Nat.pow 10 (count - 1), leading + 1⟩ else ⟨digits, leading⟩

/-- The text of a number with `count` significant digits and an exponent. -/
def scientific (count : Nat) (x : Float) : String :=
  match Binary.ofFloat x with
  | .nan => "NaN"
  | .infinite negative => signText negative ++ "inf"
  | .finite negative 0 _ => s!"{signText negative}{pointed (count - 1) 0}e0"
  | .finite negative mantissa exponent =>
    let s := Scientific.of count (Ratio.ofBinary mantissa exponent)
    s!"{signText negative}{pointed (count - 1) s.digits}e{s.leading}"

/-! ## Fewest digits -/

/-- The number `digits * 10 ^ power`. -/
structure Shortest where
  digits : Nat
  power : Int
  deriving Repr, DecidableEq

namespace Shortest

/-- The binary number nearest to a decimal one. -/
def toFloat (s : Shortest) : Float :=
  if 0 ≤ s.power then Float.ofScientific s.digits false s.power.toNat
  else Float.ofScientific s.digits true (-s.power).toNat

/-- The decimal numbers next to `r` with `count` digits, the nearer one first. -/
def neighbours (count : Nat) (r : Ratio) : List Shortest :=
  let power := r.leading - (count : Int) + 1
  let scaled := r.shift (-power)
  let below : Shortest := ⟨scaled.floor, power⟩
  let above : Shortest := ⟨scaled.floor + 1, power⟩
  if scaled.round = scaled.floor then [below, above] else [above, below]

/-- Zeros at the end of the digits moved into the power. -/
def trimmed : (fuel : Nat) → Shortest → Shortest
  | 0, s => s
  | fuel + 1, s =>
    if s.digits ≠ 0 ∧ s.digits % 10 = 0 then trimmed fuel ⟨s.digits / 10, s.power + 1⟩ else s

/-- The fewest digits that read back as the positive number `x`, whose exact value is `r`; seventeen
digits are enough for every number. -/
def of (x : Float) (r : Ratio) : Shortest :=
  let candidates := (List.range 17).flatMap fun n => neighbours (n + 1) r
  let found := (candidates.find? fun s => s.toFloat == x).getD
    ⟨(r.shift (17 - 1 - r.leading)).round, r.leading - 16⟩
  trimmed 20 found

/-- The exponent of the first digit. -/
def leading (s : Shortest) : Int := s.power + (Ratio.digitCount s.digits : Int) - 1

/-- The digits before the point and those after it, without an exponent. -/
def parts (s : Shortest) : String × String :=
  if 0 ≤ s.power then (toString (s.digits * Nat.pow 10 s.power.toNat), "")
  else
    let places := (-s.power).toNat
    (toString (s.digits / Nat.pow 10 places), padded places (s.digits % Nat.pow 10 places))

end Shortest

/-- A number with the fewest digits that read back and no exponent; a whole number ends in
`whole`. -/
def plain (whole : String) (x : Float) : String :=
  match Binary.ofFloat x with
  | .nan => "NaN"
  | .infinite negative => signText negative ++ "inf"
  | .finite negative 0 _ => signText negative ++ "0" ++ whole
  | .finite negative mantissa exponent =>
    let (before, after) := (Shortest.of x.abs (Ratio.ofBinary mantissa exponent)).parts
    signText negative ++ before ++ (if after.isEmpty then whole else "." ++ after)

end RideHud.Decimal
