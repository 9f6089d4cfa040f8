/-!
# Paths

Paths are texts with slashes between their names. Empty names and the name of the directory itself
add nothing.
-/

namespace RideHud.Path

/-- The pieces of a text between separators. -/
def pieces (separator : Char) (text : String) : List String :=
  (text.toList.splitOn separator).map String.ofList

/-- The names in a path. -/
def names (path : String) : List String :=
  (pieces '/' path).filter fun n => n != "" && n != "."

/-- The last name, unless it leads back up. -/
def fileName? (path : String) : Option String :=
  match (names path).getLast? with
  | some ".." => none
  | name => name

/-- What follows the last point of a file name, if anything stands before that point. -/
def extension? (path : String) : Option String := do
  match (pieces '.' (← fileName? path)).reverse with
  | last :: before =>
    if before.all (· == "") && before.length ≤ 1 then none else some last
  | [] => none

/-- Whether a path starts from the root of all paths. -/
def isAbsolute (path : String) : Bool := path.startsWith "/"

/-- The path that leads from `base` along `path`. -/
def join (base path : String) : String :=
  if isAbsolute path || base.isEmpty then path
  else if base.endsWith "/" then base ++ path
  else base ++ "/" ++ path

/-- What is said about a file that is not there. -/
def notFound : String := "No such file or directory (os error 2)"

end RideHud.Path
