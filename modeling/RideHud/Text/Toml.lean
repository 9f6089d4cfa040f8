import RideHud.Text.Document

/-!
# TOML documents

A document is a sequence of statements: headers, which say what table comes next, and keys with
values. Tables may be opened once. A table that exists only because a header or a dotted key runs
through it may still be opened by its own header, or extended by further dotted keys, respectively.
-/

namespace RideHud.Toml

/-! ## Blanks and comments -/

/-- A blank within a line. -/
def isBlank (c : Char) : Bool := c == ' ' || c == '\t'

/-- The text after its leading blanks. -/
def skipBlank (cs : List Char) : List Char := cs.dropWhile isBlank

/-- A control character that no text may hold. -/
def isControl (c : Char) : Bool := (c.toNat < 32 && c != '\t') || c.toNat == 127

/-- The text after the end of the line at its front. -/
def newline? : List Char → Option (List Char)
  | '\n' :: cs => some cs
  | '\r' :: '\n' :: cs => some cs
  | _ => none

/-- The end of the line that a comment fills. -/
def afterComment (cs : List Char) : List Char := cs.dropWhile fun c => !isControl c

/-- The end of a statement: blanks, a comment, and the end of the line or of the document. -/
def endOfLine? (cs : List Char) : Option (List Char) :=
  let cs := skipBlank cs
  let cs := if cs.head? == some '#' then afterComment cs else cs
  if cs.isEmpty then some [] else newline? cs

/-- The text after blanks, comments and ends of lines. -/
def skipLines : (fuel : Nat) → List Char → List Char
  | 0, cs => cs
  | fuel + 1, cs =>
    let cs := skipBlank cs
    let cs := if cs.head? == some '#' then afterComment cs else cs
    match newline? cs with
    | some cs => skipLines fuel cs
    | none => cs

/-! ## Texts -/

/-- The character with a code, if there is one. -/
def char? (code : Nat) : Option Char :=
  if code < 0xd800 ∨ (0xe000 ≤ code ∧ code < 0x110000) then some (Char.ofNat code) else none

/-- The character with a hexadecimal code. -/
def hexChar? (digits : List Char) : Option Char := do
  let code ← digits.foldlM (fun n c => (Json.hexDigit? c).map (n * 16 + ·)) 0
  char? code

/-- The character of an escape, after the backslash. -/
def escape? : List Char → Option (Char × List Char)
  | 'b' :: cs => some ('\x08', cs)
  | 't' :: cs => some ('\t', cs)
  | 'n' :: cs => some ('\n', cs)
  | 'f' :: cs => some ('\x0c', cs)
  | 'r' :: cs => some ('\r', cs)
  | 'e' :: cs => some ('\x1b', cs)
  | '"' :: cs => some ('"', cs)
  | '\\' :: cs => some ('\\', cs)
  | 'x' :: cs => coded 2 cs
  | 'u' :: cs => coded 4 cs
  | 'U' :: cs => coded 8 cs
  | _ => none
where
  /-- The character with a code of `n` digits. -/
  coded (n : Nat) (cs : List Char) : Option (Char × List Char) :=
    if cs.length < n then none else (hexChar? (cs.take n)).map fun c => (c, cs.drop n)

/-- A text in one line with escapes, after the opening quote. -/
def basic? : (fuel : Nat) → List Char → Option (List Char × List Char)
  | 0, _ => none
  | fuel + 1, cs =>
    match cs with
    | [] => none
    | '"' :: cs => some ([], cs)
    | '\\' :: cs => do
      let (c, cs) ← escape? cs
      let (s, cs) ← basic? fuel cs
      return (c :: s, cs)
    | c :: cs =>
      if isControl c then none
      else do
        let (s, cs) ← basic? fuel cs
        return (c :: s, cs)

/-- A text in one line without escapes, after the opening quote. -/
def literal? (cs : List Char) : Option (List Char × List Char) :=
  let s := cs.takeWhile fun c => c != '\'' && !isControl c
  match cs.dropWhile fun c => c != '\'' && !isControl c with
  | '\'' :: cs => some (s, cs)
  | _ => none

/-- Quotes in a text of several lines: three of them end it, up to two before those belong to
it. -/
def quotes (quote : Char) (cs : List Char) : List Char × Bool × List Char :=
  let run := min (cs.takeWhile (· == quote)).length 5
  if run < 3 then (List.replicate run quote, false, cs.drop run)
  else (List.replicate (run - 3) quote, true, cs.drop run)

/-- A text of several lines, after the opening quotes and the first end of line. -/
def multiline? (quote : Char) : (fuel : Nat) → List Char → Option (List Char × List Char)
  | 0, _ => none
  | fuel + 1, cs =>
    match cs with
    | [] => none
    | c :: cs =>
      if c == quote then
        match quotes quote (c :: cs) with
        | (s, true, cs) => some (s, cs)
        | (s, false, cs) => (multiline? quote fuel cs).map fun (t, cs) => (s ++ t, cs)
      else if c == '\\' && quote == '"' then
        match newline? (skipBlank cs) with
        | some cs =>
          multiline? quote fuel (cs.dropWhile fun c => isBlank c || c == '\n' || c == '\r')
        | none => do
          let (c, cs) ← escape? cs
          let (s, cs) ← multiline? quote fuel cs
          return (c :: s, cs)
      else
        match newline? (c :: cs) with
        | some cs => (multiline? quote fuel cs).map fun (s, cs) => ('\n' :: s, cs)
        | none =>
          if isControl c then none
          else (multiline? quote fuel cs).map fun (s, cs) => (c :: s, cs)

/-- The text after the end of line at its front, if there is one. -/
def dropNewline (cs : List Char) : List Char := (newline? cs).getD cs

/-- A text of any kind. -/
def text? (cs : List Char) : Option (List Char × List Char) :=
  match cs with
  | '"' :: '"' :: '"' :: cs => multiline? '"' (cs.length + 1) (dropNewline cs)
  | '\'' :: '\'' :: '\'' :: cs => multiline? '\'' (cs.length + 1) (dropNewline cs)
  | '"' :: cs => basic? (cs.length + 1) cs
  | '\'' :: cs => literal? cs
  | _ => none

/-! ## Keys -/

/-- A character of a key without quotes. -/
def isKeyChar (c : Char) : Bool := c.isAlphanum || c == '_' || c == '-'

/-- One key. -/
def simpleKey? : List Char → Option (String × List Char)
  | '"' :: cs => (basic? (cs.length + 1) cs).map fun (s, cs) => (String.ofList s, cs)
  | '\'' :: cs => (literal? cs).map fun (s, cs) => (String.ofList s, cs)
  | cs =>
    let s := cs.takeWhile isKeyChar
    if s.isEmpty then none else some (String.ofList s, cs.dropWhile isKeyChar)

/-- Keys with points between them, and what follows them and blanks. -/
def keys? : (fuel : Nat) → List Char → Option (List String × List Char)
  | 0, _ => none
  | fuel + 1, cs => do
    let (key, cs) ← simpleKey? (skipBlank cs)
    match skipBlank cs with
    | '.' :: cs =>
      let (keys, cs) ← keys? fuel cs
      return (key :: keys, cs)
    | cs => return ([key], cs)

/-! ## Plain values -/

/-- The digits of a number in which single underscores may stand between digits. -/
def digits? (isDigit : Char → Bool) (cs : List Char) : Option (List Char) :=
  let rec go : (afterDigit : Bool) → List Char → Option (List Char)
    | afterDigit, [] => if afterDigit then some [] else none
    | afterDigit, c :: cs =>
      if isDigit c then (go true cs).map (c :: ·)
      else if c == '_' && afterDigit then
        match cs with
        | [] => none
        | d :: ds => if isDigit d then go false (d :: ds) else none
      else none
  go false cs

/-- Decimal digits that do not begin with a zero, unless that is all. -/
def decimal? (cs : List Char) : Option (List Char) := do
  let ds ← digits? Char.isDigit cs
  if ds.head? == some '0' && 1 < cs.length then none else return ds

/-- The value of digits in a base. -/
def value (base : Nat) (ds : List Char) : Nat :=
  ds.foldl (fun n c => n * base + (Json.hexDigit? c).getD 0) 0

/-- A sign at the front: whether it is a minus, whether there is one, and what follows. -/
def sign : List Char → Bool × Bool × List Char
  | '+' :: cs => (false, true, cs)
  | '-' :: cs => (true, true, cs)
  | cs => (false, false, cs)

/-- A whole number as a value; what no 128 bits hold is an error, what no 64 bits hold is nothing
that is ever read. -/
def whole? (negative : Bool) (n : Nat) : Option Document :=
  if negative then
    if n ≤ UInt64.size / 2 then some (.whole (-(n : Int)))
    else if n ≤ UInt64.size * UInt64.size / 2 then some .other else none
  else if n < UInt64.size then some (.whole n)
  else if n < UInt64.size * UInt64.size then some .other else none

/-- A whole number. -/
def integer? (cs : List Char) : Option (Option Document) :=
  match sign cs with
  | (negative, hasSign, body) =>
    let based (base : Nat) (isDigit : Char → Bool) (ds : List Char) :=
      if hasSign then none else (digits? isDigit ds).map fun ds => whole? false (value base ds)
    match body with
    | '0' :: 'x' :: ds => based 16 (fun c => (Json.hexDigit? c).isSome) ds
    | '0' :: 'o' :: ds => based 8 (fun c => '0' ≤ c && c ≤ '7') ds
    | '0' :: 'b' :: ds => based 2 (fun c => c == '0' || c == '1') ds
    | ds => (decimal? ds).map fun ds => whole? negative (value 10 ds)

/-- The number `ds * 10 ^ e`, if it is in range. -/
def scaled? (ds : List Char) (e : Int) : Option Float :=
  let ds := ds.dropWhile (· == '0')
  let leading := (ds.length : Int) + e
  if ds.isEmpty || leading < -400 then some 0
  else if 400 < leading then none
  else
    let x := Decimal.Shortest.toFloat ⟨value 10 ds, e⟩
    if x.isInf then none else some x

/-- The exponent of a number. -/
def exponent? (cs : List Char) : Option Int :=
  match sign cs with
  | (negative, _, ds) =>
    (digits? Char.isDigit ds).map fun ds => if negative then -(value 10 ds : Int) else value 10 ds

/-- A number with a fraction or an exponent, without its sign. -/
def unsigned? (cs : List Char) : Option (Option Float) := do
  let isMark (c : Char) := c == 'e' || c == 'E'
  let mantissa := cs.takeWhile fun c => !isMark c
  let before := mantissa.takeWhile (· != '.')
  let whole ← decimal? before
  let fraction ← match mantissa.drop before.length with
    | '.' :: ds => digits? Char.isDigit ds
    | _ => some []
  let e ← match cs.drop mantissa.length with
    | _ :: ds => exponent? ds
    | [] => if before.length = cs.length then none else some 0
  return scaled? (whole ++ fraction) (e - fraction.length)

/-- A number that need not be whole. -/
def float? (cs : List Char) : Option (Option Document) :=
  match sign cs with
  | (negative, _, body) =>
    let signed (x : Float) : Document := .number (if negative then -x else x)
    if body == "inf".toList then some (some (signed (1.0 / 0.0)))
    else if body == "nan".toList then some (some (signed (0.0 / 0.0)))
    else (unsigned? body).map (·.map signed)

/-! ## Dates and times -/

/-- A number of `n` digits, and what follows it. -/
def fixedDigits? (n : Nat) (cs : List Char) : Option (Nat × List Char) :=
  let ds := cs.take n
  if ds.length = n && ds.all Char.isDigit then some (value 10 ds, cs.drop n) else none

/-- What follows a given character. -/
def after? (c : Char) : List Char → Option (List Char)
  | d :: cs => if c = d then some cs else none
  | [] => none

/-- The number of days of a month. -/
def daysIn (year month : Nat) : Nat :=
  if month = 2 then
    if year % 4 = 0 ∧ (year % 100 ≠ 0 ∨ year % 400 = 0) then 29 else 28
  else if month = 4 ∨ month = 6 ∨ month = 9 ∨ month = 11 then 30 else 31

/-- What follows a date. -/
def date? (cs : List Char) : Option (List Char) := do
  let (year, cs) ← fixedDigits? 4 cs
  let (month, cs) ← fixedDigits? 2 (← after? '-' cs)
  let (day, cs) ← fixedDigits? 2 (← after? '-' cs)
  if 1 ≤ month ∧ month ≤ 12 ∧ 1 ≤ day ∧ day ≤ daysIn year month then some cs else none

/-- What follows the seconds of a time, which may be left out. -/
def seconds? : List Char → Option (List Char)
  | ':' :: cs => do
    let (second, cs) ← fixedDigits? 2 cs
    if 60 < second then none
    match cs with
    | '.' :: cs =>
      if (cs.headD ' ').isDigit then some (cs.dropWhile Char.isDigit) else none
    | cs => some cs
  | cs => some cs

/-- What follows a time of day. -/
def time? (cs : List Char) : Option (List Char) := do
  let (hour, cs) ← fixedDigits? 2 cs
  let (minute, cs) ← fixedDigits? 2 (← after? ':' cs)
  if 23 < hour ∨ 59 < minute then none
  seconds? cs

/-- What follows an offset from universal time, if there is one. -/
def offset? : List Char → Option (List Char)
  | 'Z' :: cs => some cs
  | 'z' :: cs => some cs
  | c :: cs =>
    if c == '+' || c == '-' then do
      let (hour, cs) ← fixedDigits? 2 cs
      let (minute, cs) ← fixedDigits? 2 (← after? ':' cs)
      if 23 < hour ∨ 59 < minute then none
      some cs
    else some (c :: cs)
  | [] => some []

/-- Whether characters are a date, a time of day, or both. -/
def isMoment (cs : List Char) : Bool :=
  match date? cs with
  | some [] => true
  | some (c :: cs) =>
    (c == 'T' || c == 't' || c == ' ') && ((time? cs).bind offset?) == some []
  | none => time? cs == some []

/-! ## Values -/

/-- A character that ends a plain value. -/
def isDelimiter (c : Char) : Bool :=
  isControl c || isBlank c || c == ',' || c == ']' || c == '\x7d' || c == '#'

/-- The characters of a plain value. A time may follow its date after a blank. -/
def plain (cs : List Char) : List Char × List Char :=
  let word := cs.takeWhile fun c => !isDelimiter c
  let rest := cs.dropWhile fun c => !isDelimiter c
  match date? word, rest with
  | some [], ' ' :: c :: more =>
    if c.isDigit then
      let time := (c :: more).takeWhile fun c => !isDelimiter c
      (word ++ ' ' :: time, (c :: more).dropWhile fun c => !isDelimiter c)
    else (word, rest)
  | _, _ => (word, rest)

/-- The value of the characters of a plain value. -/
def plainValue? (word : List Char) : Option Document :=
  if word == "true".toList then some (.bool true)
  else if word == "false".toList then some (.bool false)
  else match integer? word with
    | some v => v
    | none =>
      match float? word with
      | some v => v
      | none => if isMoment word then some .other else none

/-! ## Tables -/

/-- How a table came to be. -/
inductive Opening where
  /-- A header runs through it. -/
  | passed
  /-- A dotted key runs through it. -/
  | dotted
  /-- It has a header, or is the whole document. -/
  | opened
  deriving Repr, DecidableEq

/-- What a key of a table under construction leads to. -/
inductive Item where
  | value (v : Document)
  | table (opening : Opening) (entries : List (String × Item))
  /-- A list of tables, the last one first. -/
  | tables (last : List (String × Item)) (before : List (List (String × Item)))

/-- The entries of a table under construction. -/
abbrev Entries := List (String × Item)

/-- Set the item of a key. -/
def put (key : String) (item : Item) : Entries → Entries
  | [] => [(key, item)]
  | (k, i) :: es => if k = key then (k, item) :: es else (k, i) :: put key item es

/-- Change the table that is reached through some keys, making tables on the way. Dotted keys do
not run through tables that were opened. -/
def change (isDotted : Bool) (f : Opening → Entries → Option (Opening × Entries)) :
    (keys : List String) → Opening → Entries → Option (Opening × Entries)
  | [], opening, entries => f opening entries
  | key :: keys, opening, entries =>
    match entries.lookup key with
    | none => do
      let (o, es) ← change isDotted f keys (if isDotted then .dotted else .passed) []
      return (opening, put key (.table o es) entries)
    | some (.value _) => none
    | some (.table o es) =>
      if isDotted && o == .opened then none
      else do
        let (o, es) ← change isDotted f keys o es
        return (opening, put key (.table o es) entries)
    | some (.tables last before) => do
      let (_, es) ← change isDotted f keys .opened last
      return (opening, put key (.tables es before) entries)

/-- Add a key with a value to the table that its leading keys lead to: dotted keys add to tables of
dotted keys only. -/
def assign (keys : List String) (v : Document) (opening : Opening) (entries : Entries) :
    Option (Opening × Entries) :=
  let path := keys.dropLast
  let key := keys.getLastD ""
  change true (fun o es =>
    if (o == .dotted) == path.isEmpty then none
    else if (es.lookup key).isSome then none
    else some (o, put key (.value v) es)) path opening entries

/-- Open a table. -/
def openTable (keys : List String) (entries : Entries) : Option Entries :=
  let key := keys.getLastD ""
  (change false (fun o es =>
    match es.lookup key with
    | none => some (o, put key (.table .opened []) es)
    | some (.table .passed inner) => some (o, put key (.table .opened inner) es)
    | _ => none) keys.dropLast .opened entries).map (·.2)

/-- Add a table to a list of tables. -/
def addTable (keys : List String) (entries : Entries) : Option Entries :=
  let key := keys.getLastD ""
  (change false (fun o es =>
    match es.lookup key with
    | none => some (o, put key (.tables [] []) es)
    | some (.tables last before) => some (o, put key (.tables [] (last :: before)) es)
    | _ => none) keys.dropLast .opened entries).map (·.2)

mutual

/-- The value of a finished item. -/
def Item.toDocument : Item → Document
  | .value v => v
  | .table _ entries => .table (entriesToDocuments entries)
  | .tables last before =>
    .list ((Document.table (entriesToDocuments last) :: tablesToDocuments before).reverse)

/-- The values of finished entries. -/
def entriesToDocuments : List (String × Item) → List (String × Document)
  | [] => []
  | (k, i) :: es => (k, i.toDocument) :: entriesToDocuments es

/-- The values of finished tables. -/
def tablesToDocuments : List (List (String × Item)) → List Document
  | [] => []
  | es :: ts => .table (entriesToDocuments es) :: tablesToDocuments ts

end

/-! ## Reading -/

mutual

/-- The value at the front, which may hold `depth` levels of lists and tables. -/
def value? : (fuel depth : Nat) → List Char → Option (Document × List Char)
  | 0, _, _ => none
  | fuel + 1, depth, cs =>
    match cs with
    | '[' :: cs =>
      if depth = 0 then none
      else do
        let (items, cs) ← items? fuel (depth - 1) cs
        return (.list items, cs)
    | '\x7b' :: cs =>
      if depth = 0 then none
      else do
        let (entries, cs) ← pairs? fuel (depth - 1) [] cs
        return (.table (entriesToDocuments entries), cs)
    | cs =>
      if cs.head? == some '"' || cs.head? == some '\'' then
        (text? cs).map fun (s, cs) => (.text (String.ofList s), cs)
      else
        let (word, rest) := plain cs
        (plainValue? word).map (·, rest)

/-- The items up to the end of a list. -/
def items? : (fuel depth : Nat) → List Char → Option (List Document × List Char)
  | 0, _, _ => none
  | fuel + 1, depth, cs =>
    match skipLines cs.length cs with
    | ']' :: cs => some ([], cs)
    | cs => do
      let (v, cs) ← value? fuel depth cs
      match skipLines cs.length cs with
      | ',' :: cs =>
        let (vs, cs) ← items? fuel depth cs
        return (v :: vs, cs)
      | ']' :: cs => return ([v], cs)
      | _ => none

/-- The entries up to the end of a table, after those that were read before. -/
def pairs? : (fuel depth : Nat) → Entries → List Char → Option (Entries × List Char)
  | 0, _, _, _ => none
  | fuel + 1, depth, entries, cs =>
    match skipLines cs.length cs with
    | '\x7d' :: cs => some (entries, cs)
    | cs => do
      let (keys, cs) ← keys? (cs.length + 1) cs
      match cs with
      | '=' :: cs =>
        let (v, cs) ← value? fuel depth (skipBlank cs)
        let (_, entries) ← assign keys v .opened entries
        match skipLines cs.length cs with
        | ',' :: cs => pairs? fuel depth entries cs
        | '\x7d' :: cs => return (entries, cs)
        | _ => none
      | _ => none

end

/-- How many levels of lists and tables a value may have. -/
def maxDepth : Nat := 80

/-- Read statements up to the end of the document; `table` leads to the table that keys belong
to. -/
def statements? : (fuel : Nat) → (table : List String) → Entries → List Char → Option Entries
  | 0, _, _, _ => none
  | fuel + 1, table, entries, cs =>
    match skipLines cs.length cs with
    | [] => some entries
    | '[' :: '[' :: cs => do
      let (keys, cs) ← keys? (cs.length + 1) cs
      match cs with
      | ']' :: ']' :: cs => statements? fuel keys (← addTable keys entries) (← endOfLine? cs)
      | _ => none
    | '[' :: cs => do
      let (keys, cs) ← keys? (cs.length + 1) cs
      match cs with
      | ']' :: cs => statements? fuel keys (← openTable keys entries) (← endOfLine? cs)
      | _ => none
    | cs => do
      let (keys, cs) ← keys? (cs.length + 1) cs
      match cs with
      | '=' :: cs =>
        let (v, cs) ← value? (2 * cs.length + 2) maxDepth (skipBlank cs)
        let (_, entries) ← change false (assign keys v) table .opened entries
        statements? fuel table entries (← endOfLine? cs)
      | _ => none

/-- The document that a text holds. A byte order mark may stand in front. -/
def ofText? (s : String) : Option Document := do
  let cs := match s.toList with
    | '\ufeff' :: cs => cs
    | cs => cs
  let entries ← statements? (cs.length + 1) [] [] cs
  return .table (entriesToDocuments entries)

end RideHud.Toml
