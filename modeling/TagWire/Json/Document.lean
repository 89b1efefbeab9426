/-!
# JSON documents

The grammar of JSON as a tree.  Numbers keep their literal and texts what
stands between their quotes, with the escapes checked but not resolved: what
they mean is decided where they are used, so a document may hold numbers of
any size, and lone surrogates, where nobody looks.

`ofText?` reads a whole document.  Every call on the way down reads at least
one character before it is made again, so twice the number of characters
bounds the depth of the calls.
-/

namespace TagWire.Json

/-- A JSON value as it is spelled. -/
inductive Document where
  | null
  | bool (value : Bool)
  | number (literal : List Char)
  | text (escaped : List Char)
  | array (items : List Document)
  | object (members : List (List Char × Document))

/-- Whether a character separates tokens. -/
def isBlank (c : Char) : Bool := c = ' ' || c = '\n' || c = '\t' || c = '\r'

/-- The characters from the next token on. -/
def skipBlanks (cs : List Char) : List Char := cs.dropWhile isBlank

/-- Whether a character is a hexadecimal digit. -/
def isHexDigit (c : Char) : Bool :=
  c.isDigit || ('a' ≤ c && c ≤ 'f') || ('A' ≤ c && c ≤ 'F')

/-- What is left behind an expected word. -/
def expect? (word : String) (cs : List Char) : Option (List Char) :=
  if word.toList.isPrefixOf cs then some (cs.drop word.length) else none

/-- Splits what follows an opening quote at the closing one.  What was read is in
`done`, the last character first. -/
def splitText? (done : List Char) : List Char → Option (List Char × List Char)
  | '"' :: rest => some (done.reverse, rest)
  | '\\' :: 'u' :: a :: b :: c :: d :: rest =>
      if [a, b, c, d].all isHexDigit then
        splitText? (d :: c :: b :: a :: 'u' :: '\\' :: done) rest
      else none
  | '\\' :: c :: rest =>
      if "\"\\/bfnrt".toList.contains c then splitText? (c :: '\\' :: done) rest else none
  | c :: rest => if c < ' ' then none else splitText? (c :: done) rest
  | [] => none

/-- Splits off at least one digit. -/
def splitDigits? (cs : List Char) : Option (List Char × List Char) :=
  match cs.takeWhile Char.isDigit with
  | [] => none
  | digits => some (digits, cs.dropWhile Char.isDigit)

/-- Splits off the whole part of a number, which has no leading zeros. -/
def splitWhole? : List Char → Option (List Char × List Char)
  | '0' :: rest => some (['0'], rest)
  | cs => splitDigits? cs

/-- Splits off a fraction, if there is one. -/
def splitFraction? : List Char → Option (List Char × List Char)
  | '.' :: rest => (splitDigits? rest).map fun (digits, rest) => ('.' :: digits, rest)
  | cs => some ([], cs)

/-- Splits off an exponent, if there is one. -/
def splitExponent? : List Char → Option (List Char × List Char)
  | c :: rest =>
      if c = 'e' || c = 'E' then
        let (sign, digits) :=
          match rest with
          | s :: later => if s = '+' || s = '-' then ([s], later) else ([], rest)
          | [] => ([], [])
        (splitDigits? digits).map fun (digits, rest) => (c :: sign ++ digits, rest)
      else some ([], c :: rest)
  | [] => some ([], [])

/-- Splits off a number. -/
def splitNumber? (cs : List Char) : Option (List Char × List Char) := do
  let (sign, cs) :=
    match cs with
    | '-' :: rest => (['-'], rest)
    | _ => ([], cs)
  let (whole, cs) ← splitWhole? cs
  let (fraction, cs) ← splitFraction? cs
  let (exponent, cs) ← splitExponent? cs
  return (sign ++ whole ++ fraction ++ exponent, cs)

mutual

/-- Reads a value. -/
def value? : (fuel : Nat) → List Char → Option (Document × List Char)
  | 0, _ => none
  | fuel + 1, cs =>
      match skipBlanks cs with
      | 'n' :: rest => (expect? "ull" rest).map (.null, ·)
      | 't' :: rest => (expect? "rue" rest).map (.bool true, ·)
      | 'f' :: rest => (expect? "alse" rest).map (.bool false, ·)
      | '"' :: rest => (splitText? [] rest).map fun (escaped, rest) => (.text escaped, rest)
      | '[' :: rest =>
          match skipBlanks rest with
          | ']' :: rest => some (.array [], rest)
          | _ => (items? fuel rest).map fun (items, rest) => (.array items, rest)
      | '\x7b' :: rest =>
          match skipBlanks rest with
          | '\x7d' :: rest => some (.object [], rest)
          | _ => (members? fuel rest).map fun (members, rest) => (.object members, rest)
      | cs => (splitNumber? cs).map fun (literal, rest) => (.number literal, rest)

/-- Reads the items of an array that has some. -/
def items? : (fuel : Nat) → List Char → Option (List Document × List Char)
  | 0, _ => none
  | fuel + 1, cs => do
      let (first, rest) ← value? fuel cs
      match skipBlanks rest with
      | ',' :: rest => (items? fuel rest).map fun (later, rest) => (first :: later, rest)
      | ']' :: rest => some ([first], rest)
      | _ => none

/-- Reads the members of an object that has some. -/
def members? : (fuel : Nat) → List Char → Option (List (List Char × Document) × List Char)
  | 0, _ => none
  | fuel + 1, cs =>
      match skipBlanks cs with
      | '"' :: rest => do
          let (key, rest) ← splitText? [] rest
          let rest ← expect? ":" (skipBlanks rest)
          let (value, rest) ← value? fuel rest
          match skipBlanks rest with
          | ',' :: rest =>
              (members? fuel rest).map fun (later, rest) => ((key, value) :: later, rest)
          | '\x7d' :: rest => some ([(key, value)], rest)
          | _ => none
      | _ => none

end

/-- The document that a text is, with nothing but blanks around it. -/
def Document.ofText? (text : String) : Option Document :=
  let cs := text.toList
  match value? (2 * cs.length + 2) cs with
  | some (document, rest) => if (skipBlanks rest).isEmpty then some document else none
  | none => none

/-! ## What spellings mean -/

/-- The value of a hexadecimal digit. -/
def hexValue (c : Char) : Nat :=
  if c.isDigit then c.toNat - '0'.toNat
  else if 'a' ≤ c then c.toNat - 'a'.toNat + 10
  else c.toNat - 'A'.toNat + 10

/-- The code unit of four hexadecimal digits. -/
def codeUnit (a b c d : Char) : Nat :=
  [a, b, c, d].foldl (fun n digit => 16 * n + hexValue digit) 0

/-- The character of an escape of one letter. -/
def letterEscape (c : Char) : Char :=
  if c = 'b' then '\x08'
  else if c = 'f' then '\x0c'
  else if c = 'n' then '\n'
  else if c = 'r' then '\r'
  else if c = 't' then '\t'
  else c

/-- The characters of a text with its escapes resolved, unless a surrogate in it has
no partner.  What was resolved is in `done`, the last character first. -/
def resolve? (done : List Char) : List Char → Option (List Char)
  | '\\' :: 'u' :: a :: b :: c :: d :: rest =>
      let unit := codeUnit a b c d
      if 0xDC00 ≤ unit ∧ unit < 0xE000 then none
      else if 0xD800 ≤ unit ∧ unit < 0xDC00 then
        match rest with
        | '\\' :: 'u' :: a :: b :: c :: d :: rest =>
            let low := codeUnit a b c d
            if 0xDC00 ≤ low ∧ low < 0xE000 then
              let point := 0x10000 + 0x400 * (unit - 0xD800) + (low - 0xDC00)
              resolve? (Char.ofNat point :: done) rest
            else none
        | _ => none
      else resolve? (Char.ofNat unit :: done) rest
  | '\\' :: c :: rest => resolve? (letterEscape c :: done) rest
  | c :: rest => resolve? (c :: done) rest
  | [] => some done.reverse

/-- The text that is spelled. -/
def textOf? (escaped : List Char) : Option String := (resolve? [] escaped).map String.ofList

/-- The number of a literal without sign, fraction and exponent. -/
def natOf? (literal : List Char) : Option Nat :=
  if literal.all Char.isDigit && !literal.isEmpty then
    some (literal.foldl (fun n digit => 10 * n + (digit.toNat - '0'.toNat)) 0)
  else none

/-! ## Writing -/

/-- One character of a text as it is written. -/
def escape (c : Char) : List Char :=
  if c = '"' || c = '\\' then ['\\', c]
  else if c = '\x08' then ['\\', 'b']
  else if c = '\x0c' then ['\\', 'f']
  else if c = '\n' then ['\\', 'n']
  else if c = '\r' then ['\\', 'r']
  else if c = '\t' then ['\\', 't']
  else if c < ' ' then
    let digits := Nat.toDigits 16 c.toNat
    ['\\', 'u'] ++ List.replicate (4 - digits.length) '0' ++ digits
  else [c]

/-- A text as JSON. -/
def quote (text : String) : String :=
  String.ofList ('"' :: text.toList.flatMap escape ++ ['"'])

end TagWire.Json
