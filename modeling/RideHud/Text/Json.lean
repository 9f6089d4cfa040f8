import RideHud.Decimal

/-!
# JSON documents

A document is read strictly: no comments, no blank but the four of the format, nothing but blanks
after the value. Numbers are kept as they are written (`Json.Numeral`) and texts as far as they
are texts, so a number that is too large, or an escape that is no character, is refused only where
its value is needed. `Json.pretty` writes a document with two blanks a level.
-/

namespace RideHud

/-! ## Values -/

/-- The parts of a written number. -/
structure Json.Numeral where
  negative : Bool
  /-- The digits before the point. -/
  whole : List Char
  /-- The digits after the point; none if there is no point. -/
  fraction : List Char
  exponent : Option Int
  deriving Repr, DecidableEq

/-- A JSON value. -/
inductive Json where
  | null
  | bool (b : Bool)
  | number (n : Json.Numeral)
  /-- A text, if its escapes name characters. -/
  | text (s : Option String)
  | array (items : List Json)
  | object (entries : List (String × Json))
  deriving Repr

namespace Json

/-! ## Numbers -/

namespace Numeral

/-- A number without a point or an exponent. -/
def isWhole (n : Numeral) : Bool := n.fraction.isEmpty && n.exponent.isNone

/-- Take digits as long as the number they make fits 64 bits; the digits that do not are left. -/
def takeDigits : (value : Nat) → List Char → Nat × List Char
  | value, [] => (value, [])
  | value, c :: cs =>
    let next := value * 10 + (c.toNat - 48)
    if next < UInt64.size then takeDigits next cs else (value, c :: cs)

/-- The whole number from `0` to `2 ^ 64 - 1` that is written, if it is one. The zero with a sign
is not. -/
def toWord? (n : Numeral) : Option UInt64 :=
  if n.isWhole && !n.negative then
    match takeDigits 0 n.whole with
    | (value, []) => some value.toUInt64
    | _ => none
  else none

/-- The number `m * 10 ^ e`, scaled by rounded powers of ten; none if it is too large. -/
def scaled? (m : Nat) (e : Int) : Option Float :=
  let power (k : Nat) : Float := Float.ofScientific 1 false k
  let x := Float.ofNat m
  if 0 ≤ e then
    if m = 0 then some 0
    else if 308 < e then none
    else
      let y := x * power e.toNat
      if y.isInf then none else some y
  else if -308 ≤ e then some (x / power (-e).toNat)
  else if -616 ≤ e then some (x / power 308 / power (-e - 308).toNat)
  else some 0

/-- The number that is written, if it is in range: the digits that fit 64 bits, scaled. -/
def toFloat? (n : Numeral) : Option Float :=
  let (value, dropped) := takeDigits 0 n.whole
  let (value, ignored) := takeDigits value n.fraction
  let places := n.fraction.length - ignored.length
  let e := (dropped.length : Int) - (places : Int) + n.exponent.getD 0
  (scaled? value e).map fun x => if n.negative then -x else x

/-- A whole number. -/
def ofNat (n : Nat) : Numeral := ⟨false, Nat.toDigits 10 n, [], none⟩

/-- A finite number with the fewest digits that read back: with an exponent if the first digit lies
before the fifth place after the point or after the sixteenth before it, else with at least one
place. -/
def ofFinite (negative : Bool) (s : Decimal.Shortest) : Numeral :=
  if -5 ≤ s.leading ∧ s.leading < 16 then
    let (before, after) := s.parts
    ⟨negative, before.toList, if after.isEmpty then ['0'] else after.toList, none⟩
  else
    let digits := Nat.toDigits 10 s.digits
    ⟨negative, digits.take 1, digits.drop 1, some s.leading⟩

/-- The text of a written number. -/
def render (n : Numeral) : String :=
  let point := if n.fraction.isEmpty then "" else "." ++ String.ofList n.fraction
  let exponent := match n.exponent with
    | none => ""
    | some e => if e < 0 then s!"e{e}" else s!"e+{e}"
  Decimal.signText n.negative ++ String.ofList n.whole ++ point ++ exponent

end Numeral

/-- A number as a value; what is not finite has no number and becomes `null`. -/
def ofFloat (x : Float) : Json :=
  match Decimal.Binary.ofFloat x with
  | .nan | .infinite _ => .null
  | .finite negative 0 _ => .number ⟨negative, ['0'], ['0'], none⟩
  | .finite negative mantissa exponent =>
    .number (.ofFinite negative
      (Decimal.Shortest.of x.abs (Decimal.Ratio.ofBinary mantissa exponent)))

/-- A whole number as a value. -/
def ofNat (n : Nat) : Json := .number (.ofNat n)

/-- A whole number with a sign as a value. -/
def ofInt (n : Int) : Json := .number { Numeral.ofNat n.natAbs with negative := decide (n < 0) }

/-- A text as a value. -/
def ofString (s : String) : Json := .text (some s)

/-- The first value that an object has for a key. -/
def get? (key : String) : Json → Option Json
  | .object entries => (entries.find? (·.1 == key)).map (·.2)
  | _ => none

/-! ## Reading -/

/-- The blanks of the format. -/
def isBlank (c : Char) : Bool := c == ' ' || c == '\t' || c == '\n' || c == '\r'

/-- The text after its leading blanks. -/
def skipBlank (cs : List Char) : List Char := cs.dropWhile isBlank

/-- The value of a hexadecimal digit. -/
def hexDigit? (c : Char) : Option Nat :=
  if '0' ≤ c ∧ c ≤ '9' then some (c.toNat - 48)
  else if 'a' ≤ c ∧ c ≤ 'f' then some (c.toNat - 87)
  else if 'A' ≤ c ∧ c ≤ 'F' then some (c.toNat - 55)
  else none

/-- The value of four hexadecimal digits. -/
def hexWord? (a b c d : Char) : Option Nat := do
  return (((← hexDigit? a) * 16 + (← hexDigit? b)) * 16 + (← hexDigit? c)) * 16 + (← hexDigit? d)

/-- A piece of a text: a character, or a 16-bit unit that an escape gives by number. -/
inductive Piece where
  | char (c : Char)
  | unit (n : Nat)
  deriving Repr, DecidableEq

/-- The character that an escape of one letter stands for. -/
def escape? : Char → Option Char
  | '"' => some '"'
  | '\\' => some '\\'
  | '/' => some '/'
  | 'b' => some '\x08'
  | 'f' => some '\x0c'
  | 'n' => some '\n'
  | 'r' => some '\r'
  | 't' => some '\t'
  | _ => none

/-- The pieces of a text after its opening quote, and what follows the closing one. -/
def pieces : List Char → Option (List Piece × List Char)
  | [] => none
  | '"' :: cs => some ([], cs)
  | '\\' :: 'u' :: a :: b :: c :: d :: cs => do
    let n ← hexWord? a b c d
    let (ps, rest) ← pieces cs
    return (.unit n :: ps, rest)
  | '\\' :: c :: cs => do
    let c ← escape? c
    let (ps, rest) ← pieces cs
    return (.char c :: ps, rest)
  | c :: cs =>
    if c.toNat < 32 || c == '\\' then none
    else do
      let (ps, rest) ← pieces cs
      return (.char c :: ps, rest)

/-- The characters of a text, if each unit of a pair has its other half. -/
def join : List Piece → Option (List Char)
  | [] => some []
  | .char c :: ps => (join ps).map (c :: ·)
  | .unit n :: ps =>
    if n < 0xd800 ∨ 0xe000 ≤ n then (join ps).map (Char.ofNat n :: ·)
    else match ps with
      | .unit m :: ps =>
        if n < 0xdc00 ∧ 0xdc00 ≤ m ∧ m < 0xe000 then
          (join ps).map (Char.ofNat (0x10000 + (n - 0xd800) * 0x400 + (m - 0xdc00)) :: ·)
        else none
      | _ => none

/-- A text after its opening quote, and what follows it. -/
def text? (cs : List Char) : Option (Option String × List Char) := do
  let (ps, rest) ← pieces cs
  return ((join ps).map String.ofList, rest)

/-- The value of decimal digits. -/
def digitsValue (cs : List Char) : Nat := cs.foldl (fun n c => n * 10 + (c.toNat - 48)) 0

/-- The digits at the front, of which there has to be one. -/
def digits? (cs : List Char) : Option (List Char × List Char) :=
  let ds := cs.takeWhile Char.isDigit
  if ds.isEmpty then none else some (ds, cs.dropWhile Char.isDigit)

/-- The fraction at the front, if a point announces one. -/
def fraction? : List Char → Option (List Char × List Char)
  | '.' :: cs => digits? cs
  | cs => some ([], cs)

/-- The digits of an exponent, after its sign. -/
def exponentDigits? (negative : Bool) (cs : List Char) : Option (Option Int × List Char) := do
  let (ds, rest) ← digits? cs
  let e : Int := digitsValue ds
  return (some (if negative then -e else e), rest)

/-- The exponent at the front, if its letter announces one. -/
def exponent? : List Char → Option (Option Int × List Char)
  | c :: cs =>
    if c == 'e' || c == 'E' then
      match cs with
      | '+' :: cs => exponentDigits? false cs
      | '-' :: cs => exponentDigits? true cs
      | cs => exponentDigits? false cs
    else some (none, c :: cs)
  | [] => some (none, [])

/-- The number at the front. A zero is not followed by digits. -/
def numeral? (cs : List Char) : Option (Numeral × List Char) := do
  let (negative, cs) := match cs with
    | '-' :: cs => (true, cs)
    | cs => (false, cs)
  let (whole, cs) ← match cs with
    | '0' :: cs => if (cs.headD ' ').isDigit then none else some (['0'], cs)
    | cs => digits? cs
  let (fraction, cs) ← fraction? cs
  let (exponent, cs) ← exponent? cs
  return (⟨negative, whole, fraction, exponent⟩, cs)

mutual

/-- The value at the front, and what follows it. -/
def value? : (fuel : Nat) → List Char → Option (Json × List Char)
  | 0, _ => none
  | fuel + 1, cs =>
    match skipBlank cs with
    | 'n' :: 'u' :: 'l' :: 'l' :: cs => some (.null, cs)
    | 't' :: 'r' :: 'u' :: 'e' :: cs => some (.bool true, cs)
    | 'f' :: 'a' :: 'l' :: 's' :: 'e' :: cs => some (.bool false, cs)
    | '"' :: cs => do
      let (s, cs) ← text? cs
      return (.text s, cs)
    | '[' :: cs =>
      match skipBlank cs with
      | ']' :: cs => some (.array [], cs)
      | cs => do
        let (items, cs) ← items? fuel cs
        return (.array items, cs)
    | '{' :: cs =>
      match skipBlank cs with
      | '}' :: cs => some (.object [], cs)
      | cs => do
        let (entries, cs) ← entries? fuel cs
        return (.object entries, cs)
    | cs => do
      let (n, cs) ← numeral? cs
      return (.number n, cs)

/-- The values up to a closing bracket, of which there is at least one. -/
def items? : (fuel : Nat) → List Char → Option (List Json × List Char)
  | 0, _ => none
  | fuel + 1, cs => do
    let (v, cs) ← value? fuel cs
    match skipBlank cs with
    | ',' :: cs =>
      let (vs, cs) ← items? fuel cs
      return (v :: vs, cs)
    | ']' :: cs => return ([v], cs)
    | _ => none

/-- The entries up to a closing brace, of which there is at least one. -/
def entries? : (fuel : Nat) → List Char → Option (List (String × Json) × List Char)
  | 0, _ => none
  | fuel + 1, cs =>
    match skipBlank cs with
    | '"' :: cs => do
      let (key, cs) ← text? cs
      let key ← key
      match skipBlank cs with
      | ':' :: cs =>
        let (v, cs) ← value? fuel cs
        match skipBlank cs with
        | ',' :: cs =>
          let (es, cs) ← entries? fuel cs
          return ((key, v) :: es, cs)
        | '}' :: cs => return ([(key, v)], cs)
        | _ => none
      | _ => none
    | _ => none

end

/-- The value that a text holds, if it holds one and nothing else. Every level and every element
takes at least one character, so twice the length bounds the work. -/
def ofText? (s : String) : Option Json := do
  let cs := s.toList
  let (v, rest) ← value? (2 * cs.length + 2) cs
  if (skipBlank rest).isEmpty then some v else none

/-! ## Writing -/

/-- The hexadecimal digit for a value below sixteen. -/
def hexChar (n : Nat) : Char := (Nat.digitChar n)

/-- A character inside quotes. -/
def quotedChar : Char → String
  | '"' => "\\\""
  | '\\' => "\\\\"
  | '\x08' => "\\b"
  | '\x0c' => "\\f"
  | '\n' => "\\n"
  | '\r' => "\\r"
  | '\t' => "\\t"
  | c =>
    if c.toNat < 32 then
      "\\u00" ++ String.singleton (hexChar (c.toNat / 16)) ++ String.singleton (hexChar (c.toNat % 16))
    else String.singleton c

/-- A text in quotes. -/
def quoted (s : String) : String := "\"" ++ String.join (s.toList.map quotedChar) ++ "\""

/-- A new line at a level. -/
def newline (level : Nat) : String := "\n".pushn ' ' (2 * level)

mutual

/-- The text of a value whose first line stands at a level. -/
def prettyAt (level : Nat) : Json → String
  | .null => "null"
  | .bool b => if b then "true" else "false"
  | .number n => n.render
  | .text s => quoted (s.getD "")
  | .array [] => "[]"
  | .array (v :: vs) =>
    "[" ++ newline (level + 1) ++ prettyAt (level + 1) v ++ prettyItems (level + 1) vs ++
      newline level ++ "]"
  | .object [] => "{}"
  | .object ((k, v) :: es) =>
    "\x7b" ++ newline (level + 1) ++ quoted k ++ ": " ++ prettyAt (level + 1) v ++
      prettyEntries (level + 1) es ++ newline level ++ "\x7d"

/-- The text of the items after the first. -/
def prettyItems (level : Nat) : List Json → String
  | [] => ""
  | v :: vs => "," ++ newline level ++ prettyAt level v ++ prettyItems level vs

/-- The text of the entries after the first. -/
def prettyEntries (level : Nat) : List (String × Json) → String
  | [] => ""
  | (k, v) :: es =>
    "," ++ newline level ++ quoted k ++ ": " ++ prettyAt level v ++ prettyEntries level es

end

/-- The text of a document. -/
def pretty (v : Json) : String := prettyAt 0 v

end Json

end RideHud
