import ConstraintStreams.Arithmetic
import ConstraintStreams.Decimal.Basic
import ConstraintStreams.Hexadecimal
import ConstraintStreams.Toml.Basic

/-!
# The words of TOML

Readers for the smallest parts of a document. Each takes the characters to come and answers what it
read and the characters left, or nothing if they do not start with such a part.
-/

namespace ConstraintStreams

namespace Toml

/-- A reader: what was read, and what is left. -/
abbrev Reader (α : Type) := List Char → Option (α × List Char)

/-- Skips blanks, but no line break. -/
def skipBlanks (cs : List Char) : List Char := cs.dropWhile fun c => c = ' ' ∨ c = '\t'

/-- Reads a line break. -/
def lineBreak : Reader Unit
  | '\n' :: rest => some ((), rest)
  | '\r' :: '\n' :: rest => some ((), rest)
  | _ => none

/-- A character that may stand in a comment or between quotes. -/
def isPlain (c : Char) : Bool := c = '\t' ∨ (' ' ≤ c ∧ c ≠ '\x7f')

/-- Skips a comment, up to the end of the line. -/
def skipComment : List Char → List Char
  | '#' :: rest => rest.dropWhile isPlain
  | cs => cs

/-- Reads the rest of a line, which has to be empty but for a comment. -/
def lineEnd (cs : List Char) : Option (List Char) :=
  match skipComment (skipBlanks cs) with
  | [] => some []
  | rest => (lineBreak rest).map Prod.snd

/-- Skips blanks, comments and line breaks between the items of an array. -/
def skipFiller : Nat → List Char → List Char
  | 0, cs => cs
  | fuel + 1, cs =>
    match skipComment (skipBlanks cs) with
    | '\n' :: rest => skipFiller fuel rest
    | '\r' :: '\n' :: rest => skipFiller fuel rest
    | rest => rest

/-- The character with a code, given by so many hexadecimal digits. -/
def codePoint (digits : Nat) : Reader Char := fun cs => do
  let written := cs.take digits
  if written.length ≠ digits then none
  else
    let values ← written.mapM hexValue?
    let code := values.foldl (fun n d => 16 * n + d) 0
    if h : code.isValidChar then some (Char.ofNatAux code h, cs.drop digits) else none

/-- Reads what follows the backslash of an escape. -/
def escape : Reader Char
  | 'b' :: rest => some ('\x08', rest)
  | 't' :: rest => some ('\t', rest)
  | 'n' :: rest => some ('\n', rest)
  | 'f' :: rest => some ('\x0c', rest)
  | 'r' :: rest => some ('\r', rest)
  | '"' :: rest => some ('"', rest)
  | '\\' :: rest => some ('\\', rest)
  | 'u' :: rest => codePoint 4 rest
  | 'U' :: rest => codePoint 8 rest
  | _ => none

/-- Reads a text between double quotes, after the first one. -/
def basicText : Nat → List Char → Reader String
  | 0, _, _ => none
  | fuel + 1, read, cs =>
    match cs with
    | '"' :: rest => some (String.ofList read.reverse, rest)
    | '\\' :: rest => do
      let (c, rest) ← escape rest
      basicText fuel (c :: read) rest
    | c :: rest => if isPlain c then basicText fuel (c :: read) rest else none
    | [] => none

/-- Reads a text between single quotes, after the first one. -/
def literalText : List Char → Reader String
  | read, '\x27' :: rest => some (String.ofList read.reverse, rest)
  | read, c :: rest => if isPlain c then literalText (c :: read) rest else none
  | _, [] => none

/-- Skips the line break right after three opening quotes. -/
def skipFirstBreak (cs : List Char) : List Char :=
  match lineBreak cs with
  | some ((), rest) => rest
  | none => cs

/-- The number of quotes that come first. -/
def countQuotes (quote : Char) (cs : List Char) : Nat := (cs.takeWhile (· = quote)).length

/-- Skips blanks and line breaks after a backslash at the end of a line. -/
def skipContinuation : List Char → List Char
  | ' ' :: rest | '\t' :: rest | '\n' :: rest | '\r' :: '\n' :: rest => skipContinuation rest
  | cs => cs

/-- Reads a text of several lines, after its three opening quotes. Up to two quotes in a row belong
to the text; so do up to two right before the closing three. Escapes are read only if asked for. -/
def multilineText (quote : Char) (escapes : Bool) : Nat → List Char → Reader String
  | 0, _, _ => none
  | fuel + 1, read, cs =>
    let quotes := countQuotes quote cs
    if 5 < quotes then none
    else if 3 ≤ quotes then
      some (String.ofList (List.replicate (quotes - 3) quote ++ read).reverse, cs.drop quotes)
    else
      match cs with
      | '\\' :: rest =>
        if !escapes then multilineText quote escapes fuel ('\\' :: read) rest
        else
          match escape rest with
          | some (c, rest) => multilineText quote escapes fuel (c :: read) rest
          | none => do
            let ((), rest) ← lineBreak (skipBlanks rest)
            multilineText quote escapes fuel read (skipContinuation rest)
      | c :: rest =>
        match lineBreak cs with
        | some ((), rest) => multilineText quote escapes fuel ('\n' :: read) rest
        | none => if isPlain c then multilineText quote escapes fuel (c :: read) rest else none
      | [] => none

/-- Reads a quoted text of one line. -/
def quotedText : Reader String
  | '"' :: rest => basicText (rest.length + 1) [] rest
  | '\x27' :: rest => literalText [] rest
  | _ => none

/-- Reads a quoted text of any form. -/
def anyText : Reader String
  | '"' :: '"' :: '"' :: rest => multilineText '"' true (rest.length + 1) [] (skipFirstBreak rest)
  | '\x27' :: '\x27' :: '\x27' :: rest =>
    multilineText '\x27' false (rest.length + 1) [] (skipFirstBreak rest)
  | cs => quotedText cs

/-- A character of a key without quotes. -/
def isKeyChar (c : Char) : Bool := c.isAlphanum ∨ c = '_' ∨ c = '-'

/-- Reads one part of a key. -/
def keyPart (cs : List Char) : Option (String × List Char) :=
  match cs.takeWhile isKeyChar with
  | [] => quotedText cs
  | bare => some (String.ofList bare, cs.dropWhile isKeyChar)

/-- Reads a key: parts between dots, with blanks around them. -/
def dottedKey : Nat → Reader (List String)
  | 0, _ => none
  | fuel + 1, cs => do
    let (part, rest) ← keyPart (skipBlanks cs)
    match skipBlanks rest with
    | '.' :: rest =>
      let (parts, rest) ← dottedKey fuel rest
      pure (part :: parts, rest)
    | rest => pure ([part], rest)

/-! ## Numbers and dates -/

/-- Reads digits with single underscores between them. -/
def digits (isDigit : Char → Bool) : Reader (List Char)
  | [] => none
  | [c] => if isDigit c then some ([c], []) else none
  | c :: d :: rest =>
    if !isDigit c then none
    else if d = '_' then (digits isDigit rest).map fun (more, rest) => (c :: more, rest)
    else if isDigit d then (digits isDigit (d :: rest)).map fun (more, rest) => (c :: more, rest)
    else some ([c], d :: rest)

/-- Reads an optional sign. -/
def sign : List Char → Bool × List Char
  | '-' :: rest => (true, rest)
  | '+' :: rest => (false, rest)
  | cs => (false, cs)

/-- Reads decimal digits of which the first is zero only if it is the only one. -/
def leadingDigits (cs : List Char) : Option (List Char × List Char) :=
  match cs with
  | '0' :: rest => some (['0'], rest)
  | _ => digits Char.isDigit cs

/-- The number that digits in a base stand for. -/
def numberOf (base : Nat) (ds : List Char) : Nat :=
  ds.foldl (fun n d => base * n + (hexValue? d).getD 0) 0

/-- A word, if the number is one. -/
def word? (negative : Bool) (n : Nat) : Option Int64 :=
  if negative then narrow? (-n) else narrow? n

/-- Reads the digits of an integer in a base. -/
def readInBase (base : Nat) (isDigit : Char → Bool) : Reader Toml := fun cs => do
  let (ds, rest) ← digits isDigit cs
  pure (integer (← word? false (numberOf base ds)), rest)

/-- Reads an integer: decimal with an optional sign, or in base sixteen, eight or two. -/
def readInteger : Reader Toml
  | '0' :: 'x' :: rest => readInBase 16 (fun c => (hexValue? c).isSome) rest
  | '0' :: 'o' :: rest => readInBase 8 (fun c => '0' ≤ c ∧ c ≤ '7') rest
  | '0' :: 'b' :: rest => readInBase 2 (fun c => c = '0' ∨ c = '1') rest
  | cs => do
    let (negative, rest) := sign cs
    let (ds, rest) ← leadingDigits rest
    pure (integer (← word? negative (numberOf 10 ds)), rest)

/-- Reads the exponent of a float. -/
def exponent : Reader Int
  | c :: rest => do
    if c ≠ 'e' ∧ c ≠ 'E' then none
    else
      let (negative, rest) := sign rest
      let (ds, rest) ← digits Char.isDigit rest
      let n : Int := numberOf 10 ds
      pure (if negative then -n else n, rest)
  | [] => none

/-- A positive number is too large for a float: it is at least halfway from the greatest float to
the next power of two. Far from that point the exponent of the first digit decides. -/
def overflows (d : Decimal) : Bool :=
  if d.digits = 0 ∨ d.leadingExponent < 300 then false
  else if 310 ≤ d.leadingExponent then true
  else !d.isBelow ⟨0x3fffffffffffff, 970⟩

/-- The float read between two points of the text; a positive one has to be finite. -/
def floatRead (negative : Bool) (size : Decimal) (cs rest : List Char) :
    Option (Toml × List Char) :=
  if !negative ∧ overflows size then none
  else some (float (String.ofList (cs.take (cs.length - rest.length))), rest)

/-- Reads a float: a number with a fraction or an exponent, or one of the special values. -/
def readFloat : Reader Toml := fun cs => do
  let (negative, rest) := sign cs
  match rest with
  | 'i' :: 'n' :: 'f' :: rest => pure (float (if negative then "-inf" else "inf"), rest)
  | 'n' :: 'a' :: 'n' :: rest => pure (float "nan", rest)
  | _ =>
    let (whole, rest) ← leadingDigits rest
    match rest with
    | '.' :: rest =>
      let (fraction, rest) ← digits Char.isDigit rest
      let mantissa := numberOf 10 (whole ++ fraction)
      let scale : Int := fraction.length
      if (rest.head?.map fun c => decide (c = 'e' ∨ c = 'E')).getD false then
        let (e, rest) ← exponent rest
        floatRead negative ⟨mantissa, e - scale⟩ cs rest
      else floatRead negative ⟨mantissa, -scale⟩ cs rest
    | _ =>
      let (e, rest) ← exponent rest
      floatRead negative ⟨numberOf 10 whole, e⟩ cs rest

/-- Reads a number of exactly so many decimal digits, in a range. -/
def field (width low high : Nat) : Reader Nat := fun cs =>
  let written := cs.take width
  let n := numberOf 10 written
  if written.length = width ∧ written.all Char.isDigit ∧ low ≤ n ∧ n ≤ high then
    some (n, cs.drop width)
  else none

/-- Reads a character that has to be the one given. -/
def expect (c : Char) : Reader Unit
  | d :: rest => if c = d then some ((), rest) else none
  | [] => none

/-- The number of days of a month. -/
def daysIn (year month : Nat) : Nat :=
  if month = 2 then
    if year % 4 = 0 ∧ (year % 100 ≠ 0 ∨ year % 400 = 0) then 29 else 28
  else if month = 4 ∨ month = 6 ∨ month = 9 ∨ month = 11 then 30
  else 31

/-- Skips a date. -/
def fullDate (cs : List Char) : Option (List Char) := do
  let (year, cs) ← field 4 0 9999 cs
  let ((), cs) ← expect '-' cs
  let (month, cs) ← field 2 1 12 cs
  let ((), cs) ← expect '-' cs
  let (_, cs) ← field 2 1 (daysIn year month) cs
  pure cs

/-- Skips a time of day. -/
def partialTime (cs : List Char) : Option (List Char) := do
  let (_, cs) ← field 2 0 23 cs
  let ((), cs) ← expect ':' cs
  let (_, cs) ← field 2 0 59 cs
  let ((), cs) ← expect ':' cs
  let (_, cs) ← field 2 0 60 cs
  match cs with
  | '.' :: rest =>
    if (rest.head?.map Char.isDigit).getD false then pure (rest.dropWhile Char.isDigit) else pure cs
  | _ => pure cs

/-- Skips the offset of a time, if there is one. -/
def skipOffset (cs : List Char) : List Char :=
  match cs with
  | c :: rest =>
    if c = 'Z' ∨ c = 'z' then rest
    else if c = '+' ∨ c = '-' then
      (do
        let (_, rest) ← field 2 0 23 rest
        let ((), rest) ← expect ':' rest
        let (_, rest) ← field 2 0 59 rest
        pure rest).getD cs
    else cs
  | [] => []

/-- Reads a date, a time of day, or both. -/
def readDate : Reader Toml := fun cs =>
  let read (rest : List Char) := (date (String.ofList (cs.take (cs.length - rest.length))), rest)
  match fullDate cs with
  | some (c :: rest) =>
    if c = 'T' ∨ c = 't' ∨ c = ' ' then
      match partialTime rest with
      | some rest => some (read (skipOffset rest))
      | none => some (read (c :: rest))
    else some (read (c :: rest))
  | some [] => some (read [])
  | none => (partialTime cs).map read

end Toml

end ConstraintStreams
