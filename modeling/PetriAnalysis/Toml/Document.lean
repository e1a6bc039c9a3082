import PetriAnalysis.Toml.Number
import PetriAnalysis.Toml.Value

/-!
# Documents of TOML

A document is a sequence of lines: assignments, headers of tables, headers of elements of arrays
of tables, comments, and blank lines. An assignment belongs to the table of the last header. A
byte order mark at the beginning is skipped, and a carriage return before a line feed does not
count.

## Main definitions

* `skipTrivia` — blanks, line feeds and comments.
* `path?`, `value?` — the parts of a line.
* `parse` — reads a document as the members of its outermost table.
-/

namespace PetriAnalysis.Toml

/-- Skips blanks, line feeds and comments; `comment` tells whether the text begins inside of a
comment. -/
def skipTrivia (comment : Bool) : List Char → Option (List Char)
  | [] => some []
  | c :: rest =>
    if c = '\n' then skipTrivia false rest
    else if comment then if isControl c then none else skipTrivia true rest
    else if isBlank c then skipTrivia false rest
    else if c = '#' then skipTrivia true rest
    else some (c :: rest)

/-- Skips blanks. -/
def skipBlanks (s : List Char) : List Char := s.dropWhile isBlank

/-- Goes to the next line that is neither blank nor a comment. Only blanks and a comment may stand
before the end of the line. -/
def endLine? (s : List Char) : Option (List Char) :=
  match skipBlanks s with
  | [] => some []
  | '\n' :: rest => skipTrivia false rest
  | '#' :: rest => skipTrivia true rest
  | _ => none

/-- Tells whether a character may stand in a name without quotation marks. -/
def isBare (c : Char) : Bool := c.isAlphanum || c = '_' || c = '-'

/-- Reads a name. -/
def key? (s : List Char) : Option (List Char × List Char) :=
  match s.takeWhile isBare with
  | [] => lineText? s
  | bare => some (bare, s.dropWhile isBare)

/-- Reads names with points between them, at most so many: a path and the name at its end. -/
def names? : Nat → List Char → Option ((List (List Char) × List Char) × List Char)
  | 0, _ => none
  | limit + 1, s => do
    let (key, rest) ← key? (skipBlanks s)
    match skipBlanks rest with
    | '.' :: rest =>
      let ((path, last), rest) ← names? limit rest
      return ((key :: path, last), rest)
    | rest => return (([], key), rest)

/-- Arrays and tables in braces are at most so many levels deep, and a path has at most so many
names, wherever it stands. -/
def nestingLimit : Nat := 80

/-- Reads a path. -/
def path? (s : List Char) : Option ((List (List Char) × List Char) × List Char) :=
  names? nestingLimit s

/-- Reads a value that does not contain others. -/
def plainValue? (s : List Char) : Option (Value × List Char) :=
  match text? s with
  | some (text, rest) => some (.string text, rest)
  | none =>
    let (a, rest) := atom s
    if a = ['t', 'r', 'u', 'e'] then some (.boolean true, rest)
    else if a = ['f', 'a', 'l', 's', 'e'] then some (.boolean false, rest)
    else
      match integer? a with
      | some n => some (.integer n, rest)
      | none =>
        if isFloat a then some (.float a, rest)
        else if isDateTime a then some (.dateTime a, rest)
        else none

mutual

/-- Reads a value; `depth` is the number of levels that it may have. -/
def value? : Nat → Nat → List Char → Option (Value × List Char)
  | 0, _, _ => none
  | fuel + 1, depth, s =>
    match s with
    | '[' :: rest =>
      match depth with
      | 0 => none
      | depth + 1 => (items? fuel depth rest).map fun (items, rest) => (.array items, rest)
    | '{' :: rest =>
      match depth with
      | 0 => none
      | depth + 1 =>
        (assignments? fuel depth [] rest).map fun (members, rest) => (.table .inline members, rest)
    | s => plainValue? s

/-- Reads the items of an array up to its end. A comma may follow the last one. -/
def items? : Nat → Nat → List Char → Option (List Value × List Char)
  | 0, _, _ => none
  | fuel + 1, depth, s => do
    match ← skipTrivia false s with
    | ']' :: rest => return ([], rest)
    | s =>
      let (item, rest) ← value? fuel depth s
      match ← skipTrivia false rest with
      | ',' :: rest =>
        let (items, rest) ← items? fuel depth rest
        return (item :: items, rest)
      | ']' :: rest => return ([item], rest)
      | _ => none

/-- Reads the assignments in braces up to the end. A comma may follow the last one. Line feeds and
comments may stand around each sign, but not inside of a path. -/
def assignments? : Nat → Nat → Members → List Char → Option (Members × List Char)
  | 0, _, _, _ => none
  | fuel + 1, depth, members, s => do
    match ← skipTrivia false s with
    | '}' :: rest => return (members, rest)
    | s =>
      let ((path, key), rest) ← path? s
      match ← skipTrivia false rest with
      | '=' :: rest =>
        let (value, rest) ← value? fuel depth (← skipTrivia false rest)
        let (_, members) ← assign path key value .inline members
        match ← skipTrivia false rest with
        | ',' :: rest => assignments? fuel depth members rest
        | '}' :: rest => return (members, rest)
        | _ => none
      | _ => none

end

/-- What has been read of a document: the path of the last header and the outermost table. -/
structure Reading where
  current : List (List Char)
  members : Members

/-- Reads the rest of a line whose first character is known, and answers what follows it. -/
def line? (fuel : Nat) (r : Reading) (s : List Char) : Option (Reading × List Char) :=
  match s with
  | '[' :: '[' :: rest => do
    match ← path? rest with
    | ((path, key), ']' :: ']' :: rest) =>
      let (_, members) ← openElement path key .explicit r.members
      return (⟨path ++ [key], members⟩, rest)
    | _ => none
  | '[' :: rest => do
    match ← path? rest with
    | ((path, key), ']' :: rest) =>
      let (_, members) ← openTable path key .explicit r.members
      return (⟨path ++ [key], members⟩, rest)
    | _ => none
  | s => do
    match ← path? s with
    | ((path, key), '=' :: rest) =>
      let (value, rest) ← value? fuel nestingLimit (skipBlanks rest)
      let (_, members) ← withinHeader (assign path key value) r.current .explicit r.members
      return ({ r with members }, rest)
    | _ => none

/-- Reads lines to the end of the document. -/
def lines? : Nat → Reading → List Char → Option Members
  | 0, _, _ => none
  | _ + 1, r, [] => some r.members
  | fuel + 1, r, s => do
    let (r, rest) ← line? fuel r s
    lines? fuel r (← endLine? rest)

/-- A text whose lines end with a line feed alone. -/
def joinLineEnds : List Char → List Char
  | '\r' :: '\n' :: rest => '\n' :: joinLineEnds rest
  | c :: rest => c :: joinLineEnds rest
  | [] => []

/-- A text without its byte order mark. -/
def dropByteOrderMark : List Char → List Char
  | '\ufeff' :: rest => rest
  | s => s

/-- Reads a document. -/
def parse (text : String) : Option Members := do
  let s := joinLineEnds (dropByteOrderMark text.toList)
  lines? (2 * s.length + 2) ⟨[], []⟩ (← skipTrivia false s)

end PetriAnalysis.Toml
