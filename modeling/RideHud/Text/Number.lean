import RideHud.Decimal

/-!
# Numbers in plain text

Natural numbers may have a plus sign in front. Numbers that need not be whole have digits before or
after the point, an exponent if they like, and words for infinity and for what is no number.
-/

namespace RideHud.Text

/-- The value of decimal digits. -/
def digitsValue (ds : List Char) : Nat := ds.foldl (fun n c => n * 10 + (c.toNat - 48)) 0

/-- Digits, of which there must be one, as a number. -/
def digits? (ds : List Char) : Option Nat :=
  if ds.isEmpty || !ds.all Char.isDigit then none else some (digitsValue ds)

/-- A natural number. -/
def natural? (s : String) : Option Nat :=
  match s.toList with
  | '+' :: ds => digits? ds
  | ds => digits? ds

/-- A natural number, where zero may have a minus sign. -/
def naturalOrMinusZero? (s : String) : Option Nat :=
  match s.toList with
  | '-' :: ds => (digits? ds).filter (· == 0)
  | _ => natural? s

/-- The number nearest to `n * 10 ^ power`. -/
def scaled (n : Nat) (power : Int) : Float :=
  let leading := (Decimal.Ratio.digitCount n : Int) + power
  if n = 0 || leading < -400 then 0
  else if 400 < leading then 1.0 / 0.0
  else Decimal.Shortest.toFloat ⟨n, power⟩

/-- An exponent. -/
def exponent? : List Char → Option Int
  | '+' :: ds => (digits? ds).map Int.ofNat
  | '-' :: ds => (digits? ds).map fun n => -(n : Int)
  | ds => (digits? ds).map Int.ofNat

/-- A number without a sign that is written in digits. -/
def unsigned? (cs : List Char) : Option Float := do
  let isMark (c : Char) := c == 'e' || c == 'E'
  let mantissa := cs.takeWhile fun c => !isMark c
  let whole := mantissa.takeWhile (· != '.')
  let fraction := (mantissa.drop whole.length).drop 1
  let n ← digits? (whole ++ fraction)
  let power ← match cs.drop mantissa.length with
    | [] => some 0
    | _ :: ds => exponent? ds
  return scaled n (power - fraction.length)

/-- A number. -/
def number? (s : String) : Option Float :=
  match s.toList with
  | '-' :: cs => (body? cs).map fun x => -x
  | '+' :: cs => body? cs
  | cs => body? cs
where
  /-- A number without its sign. -/
  body? (cs : List Char) : Option Float :=
    let word := String.ofList (cs.map Char.toLower)
    if word == "inf" || word == "infinity" then some (1.0 / 0.0)
    else if word == "nan" then some (0.0 / 0.0)
    else unsigned? cs

end RideHud.Text
