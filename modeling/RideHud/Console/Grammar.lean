import RideHud.Text.Number

/-!
# Grammar of command lines

A command line has options, which start with a hyphen, and at most one operand. Options have long
names, and some have a letter; a value follows an option or is attached to it. A value that was given
is read when the next option or operand comes, or at the end: so of two mistakes the first one that
is read is reported.
-/

namespace RideHud.Console

/-! ## Mistakes -/

/-- Why a command line is not run. -/
inductive UsageError where
  /-- Help was asked for. -/
  | help
  /-- The version was asked for. -/
  | version
  /-- Nothing was given. -/
  | nothingGiven
  /-- There is no command. -/
  | noCommand
  /-- There is no such command. -/
  | unknownCommand
  /-- There is no such option, or no place for an operand. -/
  | unknownArgument
  /-- The operand is missing. -/
  | missingOperand
  /-- A number cannot be read or is too large. -/
  | badNumber
  /-- A value is none of those that can be chosen, or is missing. -/
  | badValue
  /-- An option without a value has one. -/
  | needlessValue
  /-- An option was given twice, or with one that it excludes. -/
  | conflict
  deriving Repr, DecidableEq

/-! ## Options -/

/-- What an option does. -/
inductive Taking where
  /-- It is given or not. -/
  | nothing
  /-- It counts how often it is given. -/
  | count
  /-- It has a path, which is not empty. -/
  | path
  /-- It has a natural number below a limit. -/
  | natural (limit : Nat)
  /-- It has a natural number below a limit, and minus zero is zero. -/
  | short (limit : Nat)
  /-- It has a number. -/
  | number
  /-- It has one of some names. -/
  | choice (names : List String)
  /-- It asks for help. -/
  | help
  /-- It asks for the version. -/
  | version
  deriving Repr, DecidableEq

namespace Taking

/-- Whether an option has a value. -/
def hasValue : Taking → Bool
  | .nothing | .count | .help | .version => false
  | _ => true

/-- What is wrong with a value. -/
def mistake? (t : Taking) (value : String) : Option UsageError :=
  match t with
  | .path => if value.isEmpty then some .badValue else none
  | .natural limit => if (Text.natural? value).any (· < limit) then none else some .badNumber
  | .short limit =>
    if (Text.naturalOrMinusZero? value).any (· < limit) then none else some .badNumber
  | .number => if (Text.number? value).isSome then none else some .badNumber
  | .choice names => if names.contains value then none else some .badValue
  | _ => none

end Taking

/-- An option or an operand. -/
structure Parameter where
  name : String
  taking : Taking
  letter : Option Char := none
  /-- What is said about it. -/
  help : String := ""
  deriving Repr, DecidableEq

/-- What can be given. -/
structure Grammar where
  options : List Parameter
  /-- The operand, which must be given if there is one. -/
  operand : Option Parameter := none
  /-- Options that exclude each other. -/
  exclusive : List (String × String) := []
  /-- What is said about the command. -/
  about : String := ""
  deriving Repr

/-! ## Reading -/

/-- What was given so far. -/
structure Given where
  /-- The names that were given and their values, the newest first. -/
  values : List (String × String) := []
  /-- What was given last, with its value once that is there. -/
  pending : Option (Parameter × Option String) := none
  /-- Whether the operand was given. -/
  hasOperand : Bool := false
  /-- Whether only operands follow. -/
  onlyOperands : Bool := false
  deriving Repr

namespace Given

/-- How often a name was given. -/
def count (g : Given) (name : String) : Nat := (g.values.filter fun v => v.1 == name).length

/-- The value of a name. -/
def value? (g : Given) (name : String) : Option String := g.values.lookup name

/-- Whether the next argument may be a value. -/
def awaitsValue (g : Given) : Bool :=
  match g.pending with
  | some (_, none) => true
  | _ => false

/-- Give a parameter a value. -/
def assign (g : Given) (p : Parameter) (value : String) : Except UsageError Given :=
  if 0 < g.count p.name then .error .conflict
  else
    match p.taking.mistake? value with
    | some e => .error e
    | none => .ok { g with values := (p.name, value) :: g.values }

/-- Read the value that was given last. -/
def settle (g : Given) : Except UsageError Given :=
  match g.pending with
  | none => .ok g
  | some (_, none) => .error .badValue
  | some (p, some value) => assign { g with pending := none } p value

/-- Give an option that has no value. -/
def mark (g : Given) (p : Parameter) : Except UsageError Given := do
  let g ← g.settle
  match p.taking with
  | .help => .error .help
  | .version => .error .version
  | .count => .ok { g with values := (p.name, "") :: g.values }
  | _ => g.assign p ""

/-- Give an option whose value is attached or follows. -/
def start (g : Given) (p : Parameter) (attached : Option String) : Except UsageError Given := do
  let g ← g.settle
  match attached with
  | some value => g.assign p value
  | none => .ok { g with pending := some (p, none) }

/-- A name and what is attached to it. -/
def splitName (text : String) : String × Option String :=
  match text.splitOn "=" with
  | name :: value :: rest => (name, some (String.intercalate "=" (value :: rest)))
  | _ => (text, none)

/-- Give an option by its name. -/
def long (grammar : Grammar) (g : Given) (text : String) : Except UsageError Given :=
  let (name, attached) := splitName text
  match grammar.options.find? (·.name == name) with
  | none => .error .unknownArgument
  | some p =>
    if p.taking.hasValue then g.start p attached
    else if attached.isSome then .error .needlessValue
    else g.mark p

/-- Give options by their letters. The first that has a value takes the rest, with or without an
equals sign. -/
def letters (grammar : Grammar) (g : Given) : List Char → Except UsageError Given
  | [] => .ok g
  | c :: cs =>
    match grammar.options.find? (·.letter == some c) with
    | none => .error .unknownArgument
    | some p =>
      if p.taking.hasValue then
        g.start p (match cs with
          | [] => none
          | '=' :: rest => some (String.ofList rest)
          | rest => some (String.ofList rest))
      else do letters grammar (← g.mark p) cs

/-- Give the operand. -/
def operand (grammar : Grammar) (g : Given) (text : String) : Except UsageError Given := do
  match grammar.operand with
  | some p =>
    if g.hasOperand then .error .unknownArgument
    else
      let g ← g.settle
      .ok { g with pending := some (p, some text), hasOperand := true }
  | none => .error .unknownArgument

/-- Read an argument. -/
def read (grammar : Grammar) (g : Given) (argument : String) : Except UsageError Given :=
  if g.onlyOperands then g.operand grammar argument
  else
    match argument.toList with
    | ['-', '-'] => .ok { g with onlyOperands := true }
    | '-' :: '-' :: name => g.long grammar (String.ofList name)
    | '-' :: c :: cs => g.letters grammar (c :: cs)
    | _ =>
      match g.pending with
      | some (p, none) => .ok { g with pending := some (p, some argument) }
      | _ => g.operand grammar argument

/-- Read arguments one after the other. -/
def readAll (grammar : Grammar) (g : Given) (arguments : List String) : Except UsageError Given :=
  arguments.foldlM (read grammar) g

/-- Nothing more comes. -/
def finish (grammar : Grammar) (g : Given) : Except UsageError Given := do
  let g ← g.settle
  if grammar.exclusive.any fun (a, b) => 0 < g.count a && 0 < g.count b then .error .conflict
  else if grammar.operand.isSome && !g.hasOperand then .error .missingOperand
  else .ok g

end Given

end RideHud.Console
