import ConstraintStreams.Toml.Lexical

/-!
# Reading TOML documents

Values, the lines of a document, and the table that a document stands for.
-/

namespace ConstraintStreams

namespace Toml

/-- So many arrays and tables may stand inside each other, and so many parts make a key. -/
def nestingLimit : Nat := 79

/-- Reads a key that is not too long: the parts before the last one, and the last one. -/
def readKey : Reader (List String × String) := fun cs => do
  let (parts, rest) ← dottedKey (cs.length + 1) cs
  if nestingLimit < parts.length then none
  else pure ((parts.dropLast, ← parts.getLast?), rest)

/-- Reads a value that is no array and no table. -/
def readPlain : Reader Toml
  | 't' :: 'r' :: 'u' :: 'e' :: rest => some (boolean true, rest)
  | 'f' :: 'a' :: 'l' :: 's' :: 'e' :: rest => some (boolean false, rest)
  | cs =>
    match cs with
    | '"' :: _ | '\x27' :: _ => (anyText cs).map fun (s, rest) => (string s, rest)
    | _ => readDate cs <|> readFloat cs <|> readInteger cs

mutual

/-- Reads a value. The fuel is at least the length of the text. -/
def readValue (fuel nesting : Nat) (cs : List Char) : Option (Toml × List Char) :=
  match fuel with
  | 0 => none
  | fuel + 1 =>
    match cs, nesting with
    | '[' :: _, 0 | '\x7b' :: _, 0 => none
    | '[' :: rest, nesting + 1 => do
      let (items, rest) ← readItems fuel nesting rest
      pure (array items, rest)
    | '\x7b' :: rest, nesting + 1 =>
      match skipBlanks rest with
      | '\x7d' :: rest => some (table .inline [], rest)
      | _ => do
        let (entries, rest) ← readFields fuel nesting [] rest
        pure (table .inline entries, rest)
    | _, _ => readPlain cs

/-- Reads the items of an array that are left. -/
def readItems (fuel nesting : Nat) (cs : List Char) : Option (List Toml × List Char) :=
  match fuel with
  | 0 => none
  | fuel + 1 =>
    match skipFiller cs.length cs with
    | ']' :: rest => some ([], rest)
    | cs => do
      let (item, rest) ← readValue fuel nesting cs
      match skipFiller rest.length rest with
      | ',' :: rest =>
        let (items, rest) ← readItems fuel nesting rest
        pure (item :: items, rest)
      | ']' :: rest => pure ([item], rest)
      | _ => none

/-- Reads the keys and values between braces that are left, after the entries read before. -/
def readFields (fuel nesting : Nat) (entries : Entries) (cs : List Char) :
    Option (Entries × List Char) :=
  match fuel with
  | 0 => none
  | fuel + 1 => do
    let ((path, key), rest) ← readKey cs
    let ((), rest) ← expect '=' rest
    let (v, rest) ← readValue fuel nesting (skipBlanks rest)
    let (_, entries) ← setPath path key v .inline entries
    match skipBlanks rest with
    | ',' :: rest => readFields fuel nesting entries rest
    | '\x7d' :: rest => pure (entries, rest)
    | _ => none

end

/-- A line of a document. -/
inductive Line
  /-- It is empty, or a comment. -/
  | blank
  /-- It opens a table, or the next of several tables. -/
  | header (several : Bool) (path : List String) (key : String)
  /-- It sets a key. -/
  | entry (path : List String) (key : String) (v : Toml)

/-- Reads a line, blanks before it apart. -/
def readLine (cs : List Char) : Option (Line × List Char) :=
  match cs with
  | '[' :: '[' :: rest => do
    let ((path, key), rest) ← readKey rest
    let ((), rest) ← expect ']' rest
    let ((), rest) ← expect ']' rest
    pure (.header true path key, ← lineEnd rest)
  | '[' :: rest => do
    let ((path, key), rest) ← readKey rest
    let ((), rest) ← expect ']' rest
    pure (.header false path key, ← lineEnd rest)
  | '#' :: _ | '\n' :: _ | '\r' :: _ => (lineEnd cs).map fun rest => (.blank, rest)
  | _ => do
    let ((path, key), rest) ← readKey cs
    let ((), rest) ← expect '=' rest
    let (v, rest) ← readValue (rest.length + 1) nestingLimit (skipBlanks rest)
    pure (.entry path key v, ← lineEnd rest)

/-- A document that is being read: the path of the last header, and the entries so far. -/
structure Unfinished where
  path : List String := []
  entries : Entries := []

/-- Adds a line to a document. -/
def Unfinished.add (d : Unfinished) : Line → Option Unfinished
  | .blank => some d
  | .header several path key => do
    let opener := if several then openElement key else openTable key
    let (_, entries) ← changeAt false opener path .header d.entries
    pure { path := path ++ [key], entries }
  | .entry path key v => do
    let (_, entries) ← changeAt false (setPath path key v) d.path .header d.entries
    pure { d with entries }

/-- Reads the lines of a document that are left. The fuel is more than the length of the text. -/
def readLines : Nat → Unfinished → List Char → Option Unfinished
  | 0, _, _ => none
  | fuel + 1, d, cs =>
    match skipBlanks cs with
    | [] => some d
    | cs => do
      let (line, rest) ← readLine cs
      readLines fuel (← d.add line) rest

/-- The entries of a document, if it is well formed. It may start with a byte order mark. -/
def entries? (text : String) : Option Entries :=
  let cs := text.toList
  let cs := if cs.head? = some '\ufeff' then cs.tail else cs
  (readLines (cs.length + 1) {} cs).map Unfinished.entries

end Toml

end ConstraintStreams
