import RideHud.Text.Json

/-!
# Documents

What a structured text holds, whatever its notation: tables, lists and plain values. A value that a
notation can write, but that nothing here is ever read from, is `other`.
-/

namespace RideHud

/-- A value in a structured text. -/
inductive Document where
  | null
  | bool (b : Bool)
  | whole (n : Int)
  | number (x : Float)
  | text (s : String)
  | list (items : List Document)
  | table (entries : List (String × Document))
  | other
  deriving Repr

namespace Document

/-- A written number: a whole number if it is one of 64 bits, else a binary64 number. -/
def ofNumeral (n : Json.Numeral) : Document :=
  let fallback := (n.toFloat?.map Document.number).getD .other
  if n.isWhole then
    match Json.Numeral.takeDigits 0 n.whole with
    | (m, []) =>
      if !n.negative then .whole m
      else if 0 < m ∧ m ≤ UInt64.size / 2 then .whole (-(m : Int))
      else fallback
    | _ => fallback
  else fallback

mutual

/-- The document of a JSON value. -/
def ofJson : Json → Document
  | .null => .null
  | .bool b => .bool b
  | .number n => ofNumeral n
  | .text s => (s.map Document.text).getD .other
  | .array items => .list (ofJsonItems items)
  | .object entries => .table (ofJsonEntries entries)

/-- The documents of some values. -/
def ofJsonItems : List Json → List Document
  | [] => []
  | v :: vs => ofJson v :: ofJsonItems vs

/-- The documents of some entries. -/
def ofJsonEntries : List (String × Json) → List (String × Document)
  | [] => []
  | (k, v) :: es => (k, ofJson v) :: ofJsonEntries es

end

end Document

end RideHud
