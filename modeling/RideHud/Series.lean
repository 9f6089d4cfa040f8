import RideHud.Sample

/-!
# Series

A series is one quantity across a list of records. Its value at a record is the number itself
where the quantity has one component, and the Euclidean norm where it has more.
-/

namespace RideHud

open scoped Scalar

/-- Why records make no series. -/
inductive Series.Error where
  /-- There are no records. -/
  | noRecords
  /-- The first record has no components. -/
  | noComponents
  deriving Repr, DecidableEq

/-- What an error says to the user. -/
def Series.Error.message : Series.Error → String
  | .noRecords => "invalid argument 'records': view over an empty slice"
  | .noComponents => "invalid argument 'field': field has no components"

/-- The components of one quantity, record by record; the first record tells how many there are. -/
structure Series (α : Type) where
  rows : List (List α)
  arity : Nat

namespace Series

/-- A series of given rows. -/
def ofRows? {α : Type} : List (List α) → Except Error (Series α)
  | [] => .error .noRecords
  | [] :: _ => .error .noComponents
  | (c :: row) :: rows => .ok ⟨(c :: row) :: rows, row.length + 1⟩

/-- One field of the samples of a recording. -/
def ofSamples? {α : Type} (field : Field) (samples : List (Sample α)) : Except Error (Series α) :=
  ofRows? (samples.map field.components)

/-- The shape of a series, for messages. -/
def describe {α : Type} (s : Series α) : String :=
  "FieldView \x7b len: " ++ toString s.rows.length ++ ", arity: " ++ toString s.arity ++ " \x7d"

/-- The number of records. -/
def length {α : Type} (s : Series α) : Nat := s.rows.length

section

variable {α : Type} [Elementary α]

/-- The value at a record: the number itself if there is one, the Euclidean norm of several. -/
def value (arity : Nat) (row : List α) : α :=
  if arity > 1 then Elementary.sqrt (Scalar.total (row.map fun c => c * c)) else row.headD 0

/-- The values at all records. -/
def values (s : Series α) : List α := s.rows.map (value s.arity)

/-- A series has a value for each record. -/
theorem length_values (s : Series α) : s.values.length = s.length := by
  simp [values, length]

end

end Series

end RideHud
