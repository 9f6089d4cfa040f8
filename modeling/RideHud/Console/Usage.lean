import RideHud.Console.Command

/-!
# Usage

How the program is called, told from the same grammars that command lines are read with, and what is
said about a command line that is not run.
-/

namespace RideHud.Console

/-- The name of the program. -/
def programName : String := "sensorhud"

/-- The version of the program. -/
def programVersion : String := "0.1.0"

/-- What stands for a value. -/
def Taking.placeholder? : Taking → Option String
  | .path => some "<path>"
  | .natural _ | .short _ => some "<count>"
  | .number => some "<number>"
  | .choice names => some ("<" ++ String.intercalate "|" names ++ ">")
  | .nothing | .count | .help | .version => none

/-- How an option is written. -/
def Parameter.usage (p : Parameter) : String :=
  let letter := match p.letter with
    | some c => "-" ++ c.toString ++ ", "
    | none => ""
  let value := match p.taking.placeholder? with
    | some text => " " ++ text
    | none => ""
  letter ++ "--" ++ p.name ++ value

/-- The line that tells about an option. -/
def Parameter.line (indent : String) (p : Parameter) : String :=
  indent ++ p.usage ++ "  " ++ p.help

/-- The lines that tell how a command is called. -/
def Grammar.usage (name : String) (g : Grammar) : List String :=
  let operand := match g.operand with
    | some p => " <" ++ p.name ++ ">"
    | none => ""
  let own := g.options.filter fun p => !commonOptions.contains p
  ("  " ++ name ++ operand ++ "  " ++ g.about) :: own.map (Parameter.line "      ")

/-- How the program is called. -/
def usageLines : List String :=
  [topGrammar.about, "", s!"Usage: {programName} [options] <command> [options]", "", "Commands:"] ++
  commandGrammars.flatMap (fun (name, g) => g.usage name) ++
  ["", "Options:"] ++ topGrammar.options.map (Parameter.line "  ")

/-- Whether an answer was asked for, so that not running a command is no mistake. -/
def UsageError.isAnswer : UsageError → Bool
  | .help | .version => true
  | _ => false

/-- What is said about a command line that is not run. -/
def UsageError.lines : UsageError → List String
  | .help | .nothingGiven => usageLines
  | .version => [programName ++ " " ++ programVersion]
  | .noCommand => ["error: a command is missing"]
  | .unknownCommand => ["error: there is no such command"]
  | .unknownArgument => ["error: an argument is not expected"]
  | .missingOperand => ["error: an argument is missing"]
  | .badNumber => ["error: a number cannot be read or is too large"]
  | .badValue => ["error: a value is missing or cannot be chosen"]
  | .needlessValue => ["error: an option that has no value was given one"]
  | .conflict => ["error: options cannot be given together"]

end RideHud.Console
