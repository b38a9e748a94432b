import ScriptMachine.Number.Reading
import ScriptMachine.Toml.Basic

/-!
# Reading TOML

A reader takes the characters it needs from the front of a text and answers the rest with its
result; it fails on anything that is not TOML 1.0. `Toml.read?` reads a whole document.
-/

namespace ScriptMachine.Toml

/-- A reader of values of type `α`. -/
abbrev Reader (α : Type) := List Char → Option (α × List Char)

/-! ## Lines and blanks -/

/-- Spaces and tabs. -/
def isSpace (c : Char) : Bool := c == ' ' || c == '\t'

/-- The text behind spaces and tabs. -/
def skipSpaces (s : List Char) : List Char := s.dropWhile isSpace

/-- Characters of comments and of text between single quotes. -/
def isPlain (c : Char) : Bool :=
  c == '\t' || (0x20 ≤ c.toNat && c.toNat != 0x7f)

/-- The text behind a comment, if there is one. -/
def skipComment : List Char → List Char
  | '#' :: s => s.dropWhile isPlain
  | s => s

/-- The text behind the end of a line. -/
def newline? : List Char → Option (List Char)
  | '\n' :: s => some s
  | '\r' :: '\n' :: s => some s
  | _ => none

/-- The text behind blanks, a comment and the end of a line or of the document. -/
def lineEnd? (s : List Char) : Option (List Char) :=
  match skipComment (skipSpaces s) with
  | [] => some []
  | s => newline? s

/-- The text behind blanks, comments and line ends. Each line takes at least one character. -/
def skipLines : Nat → List Char → List Char
  | 0, s => s
  | fuel + 1, s =>
    let rest := skipComment (skipSpaces s)
    match newline? rest with
    | some s => skipLines fuel s
    | none => rest

/-! ## Strings -/

/-- A hexadecimal digit. -/
def hexDigit? (c : Char) : Option Nat :=
  if c.isDigit then some (c.toNat - '0'.toNat)
  else if 'a' ≤ c && c ≤ 'f' then some (c.toNat - 'a'.toNat + 10)
  else if 'A' ≤ c && c ≤ 'F' then some (c.toNat - 'A'.toNat + 10)
  else none

/-- The character with a code point of a fixed number of hexadecimal digits. -/
def codePoint? (count : Nat) (s : List Char) : Option (Char × List Char) := do
  let digits := s.take count
  guard (digits.length == count)
  let n ← digits.foldlM (fun n c => (hexDigit? c).map (16 * n + ·)) 0
  guard (n.isValidChar)
  return (Char.ofNat n, s.drop count)

/-- The character that is meant by what follows a backslash. -/
def escaped? : Reader Char
  | 'b' :: s => some ('\x08', s)
  | 't' :: s => some ('\t', s)
  | 'n' :: s => some ('\n', s)
  | 'f' :: s => some ('\x0c', s)
  | 'r' :: s => some ('\r', s)
  | '"' :: s => some ('"', s)
  | '\\' :: s => some ('\\', s)
  | 'u' :: s => codePoint? 4 s
  | 'U' :: s => codePoint? 8 s
  | _ => none

/-- The rest of a string between double quotes, behind the first quote. -/
def basicString? : Nat → List Char → List Char → Option (String × List Char)
  | 0, _, _ => none
  | fuel + 1, out, s =>
    match s with
    | '"' :: s => some (String.ofList out.reverse, s)
    | '\\' :: s => do
      let (c, s) ← escaped? s
      basicString? fuel (c :: out) s
    | c :: s => if isPlain c then basicString? fuel (c :: out) s else none
    | [] => none

/-- The rest of a string between single quotes, behind the first quote. -/
def literalString? (s : List Char) : Option (String × List Char) :=
  let isInside (c : Char) : Bool := isPlain c && c != '\''
  match s.dropWhile isInside with
  | '\'' :: rest => some (String.ofList (s.takeWhile isInside), rest)
  | _ => none

/-- The text behind three quotes that end a string over several lines. Up to two more quotes in
front of them belong to the string. -/
def closing? (quote : Char) (s : List Char) : Option (List Char × List Char) :=
  let quotes := min 5 (s.takeWhile (· == quote)).length
  if quotes < 3 then none else some (List.replicate (quotes - 3) quote, s.drop quotes)

/-- The rest of a string between three double quotes. A backslash at the end of a line joins the
next text that is not blank. -/
def longBasicString? : Nat → List Char → List Char → Option (String × List Char)
  | 0, _, _ => none
  | fuel + 1, out, s =>
    match closing? '"' s with
    | some (quotes, rest) => some (String.ofList (out.reverse ++ quotes), rest)
    | none =>
      match s with
      | '\\' :: s =>
        match newline? (skipSpaces s) with
        | some rest => longBasicString? fuel out (skipBlankLines rest.length rest)
        | none => do
          let (c, s) ← escaped? s
          longBasicString? fuel (c :: out) s
      | c :: rest =>
        match newline? s with
        | some rest => longBasicString? fuel ('\n' :: out) rest
        | none => if isPlain c then longBasicString? fuel (c :: out) rest else none
      | [] => none
where
  /-- The text behind blanks and line ends; a lone carriage return is no line end. -/
  skipBlankLines : Nat → List Char → List Char
    | 0, s => s
    | fuel + 1, s =>
      match newline? (skipSpaces s) with
      | some rest => skipBlankLines fuel rest
      | none => skipSpaces s

/-- The rest of a string between three single quotes. -/
def longLiteralString? : Nat → List Char → List Char → Option (String × List Char)
  | 0, _, _ => none
  | fuel + 1, out, s =>
    match closing? '\'' s with
    | some (quotes, rest) => some (String.ofList (out.reverse ++ quotes), rest)
    | none =>
      match newline? s, s with
      | some rest, _ => longLiteralString? fuel ('\n' :: out) rest
      | none, c :: rest => if isPlain c then longLiteralString? fuel (c :: out) rest else none
      | none, [] => none

/-- The text behind a line end, if there is one at the start. -/
def skipNewline (s : List Char) : List Char := (newline? s).getD s

/-- A string in any of the four notations. -/
def string? (s : List Char) : Option (String × List Char) :=
  match s with
  | '"' :: '"' :: '"' :: s => longBasicString? (s.length + 1) [] (skipNewline s)
  | '\'' :: '\'' :: '\'' :: s => longLiteralString? (s.length + 1) [] (skipNewline s)
  | '"' :: s => basicString? (s.length + 1) [] s
  | '\'' :: s => literalString? s
  | _ => none

/-! ## Keys -/

/-- Characters of keys without quotes. -/
def isBare (c : Char) : Bool := c.isAlphanum || c == '_' || c == '-'

/-- One part of a key. -/
def keyPart? (s : List Char) : Option (String × List Char) :=
  match s with
  | '"' :: s => basicString? (s.length + 1) [] s
  | '\'' :: s => literalString? s
  | s =>
    let bare := s.takeWhile isBare
    if bare.isEmpty then none else some (String.ofList bare, s.dropWhile isBare)

/-- How deep values may be nested, and how many parts a key may have. -/
def depthLimit : Nat := 79

/-- A dotted key with a bounded number of parts: the parts in front of the last, and the last.
Blanks may surround each part. -/
def keyWithin? : Nat → List Char → Option ((List String × String) × List Char)
  | 0, _ => none
  | parts + 1, s => do
    let (part, s) ← keyPart? (skipSpaces s)
    match skipSpaces s with
    | '.' :: s => do
      let ((path, last), s) ← keyWithin? parts s
      return ((part :: path, last), s)
    | s => return (([], part), s)

/-- A dotted key. -/
def key? (s : List Char) : Option ((List String × String) × List Char) := keyWithin? depthLimit s

/-! ## Numbers and times -/

/-- Digits with single underscores between them, and the rest. -/
def digits? (isDigit : Char → Bool) : Nat → List Char → Option (List Char × List Char)
  | 0, _ => none
  | fuel + 1, c :: s =>
    if !isDigit c then none
    else
      match s with
      | '_' :: rest => do
        let (more, s) ← digits? isDigit fuel rest
        return (c :: more, s)
      | d :: rest =>
        if isDigit d then do
          let (more, s) ← digits? isDigit fuel (d :: rest)
          return (c :: more, s)
        else some ([c], s)
      | [] => some ([c], [])
  | _ + 1, [] => none

/-- Decimal digits with single underscores between them. -/
def decimalDigits? (s : List Char) : Option (List Char × List Char) :=
  digits? Char.isDigit (s.length + 1) s

/-- The digits of a decimal integer: no zero in front of other digits. -/
def integerDigits? (s : List Char) : Option (List Char × List Char) :=
  match s with
  | '0' :: s => some (['0'], s)
  | s => decimalDigits? s

/-- An integer, if it has 64 bits. -/
def integer64? (n : Int) : Option Value :=
  if Int64.minValue.toInt ≤ n && n ≤ Int64.maxValue.toInt then some (.integer n) else none

/-- An integer without a sign in a base other than ten. -/
def basedInteger? (base : Nat) (s : List Char) : Option (Value × List Char) := do
  let isDigit (c : Char) : Bool := (hexDigit? c).any (· < base)
  let (digits, s) ← digits? isDigit (s.length + 1) s
  let n := digits.foldl (fun n c => base * n + (hexDigit? c).getD 0) 0
  return (← integer64? n, s)

/-- The digits behind the point of a float, if there is one. -/
def fraction? (s : List Char) : Option (List Char × List Char) :=
  match s with
  | '.' :: s => decimalDigits? s
  | s => some ([], s)

/-- The exponent of a float, zero if there is none. -/
def exponent? (s : List Char) : Option (Int × List Char) :=
  match s with
  | 'e' :: rest | 'E' :: rest => do
    let (negative, rest) := Number.spanSign rest
    let (digits, rest) ← decimalDigits? rest
    let n : Int := Number.exponentOfDigits digits
    return (if negative then -n else n, rest)
  | s => some (0, s)

/-- A decimal integer or a float. A positive float must not be too large. -/
def decimal? (s : List Char) : Option (Value × List Char) := do
  let (negative, s) := Number.spanSign s
  let (digits, rest) ← integerDigits? s
  match rest with
  | '.' :: _ | 'e' :: _ | 'E' :: _ => do
    let (places, rest) ← fraction? rest
    let (exponent, rest) ← exponent? rest
    let bits := Number.digitsBits (digits ++ places) (exponent - places.length)
    guard (negative || bits != Number.infinityBits)
    return (.float, rest)
  | rest => do
    let n : Int := Number.natOfDigits digits
    return (← integer64? (if negative then -n else n), rest)

/-- A word at the front of a text. -/
def word? (word : String) (s : List Char) : Option (List Char) :=
  if word.toList.isPrefixOf s then some (s.drop word.length) else none

/-- A float that is written as a word. -/
def floatWord? (s : List Char) : Option (Value × List Char) := do
  let (_, s) := Number.spanSign s
  let rest ← (word? "inf" s).or (word? "nan" s)
  return (.float, rest)

/-- A number of a fixed count of digits within bounds. -/
def field? (count low high : Nat) (s : List Char) : Option (Nat × List Char) := do
  let digits := s.take count
  guard (digits.length == count && digits.all Char.isDigit)
  let n := Number.natOfDigits digits
  guard (low ≤ n && n ≤ high)
  return (n, s.drop count)

/-- The number of days in a month. -/
def daysInMonth (year month : Nat) : Nat :=
  if month == 2 then
    if (year % 4 == 0 && year % 100 != 0) || year % 400 == 0 then 29 else 28
  else if month == 4 || month == 6 || month == 9 || month == 11 then 30
  else 31

/-- The text behind a date. -/
def date? (s : List Char) : Option (List Char) := do
  let (year, s) ← field? 4 0 9999 s
  let s ← word? "-" s
  let (month, s) ← field? 2 1 12 s
  let s ← word? "-" s
  let (_, s) ← field? 2 1 (daysInMonth year month) s
  return s

/-- The text behind a time of the day. -/
def timeOfDay? (s : List Char) : Option (List Char) := do
  let (_, s) ← field? 2 0 23 s
  let s ← word? ":" s
  let (_, s) ← field? 2 0 59 s
  let s ← word? ":" s
  let (_, s) ← field? 2 0 60 s
  match s with
  | '.' :: rest =>
    let places := rest.takeWhile Char.isDigit
    if places.isEmpty then none else return rest.dropWhile Char.isDigit
  | s => return s

/-- The text behind the offset of a time from universal time. -/
def offset? (s : List Char) : Option (List Char) :=
  match s with
  | 'Z' :: s | 'z' :: s => some s
  | '+' :: s | '-' :: s => do
    let (_, s) ← field? 2 0 23 s
    let s ← word? ":" s
    let (_, s) ← field? 2 0 59 s
    return s
  | _ => none

/-- A date, a time, or both with or without an offset. -/
def time? (s : List Char) : Option (Value × List Char) :=
  match date? s with
  | some rest =>
    match rest with
    | 'T' :: t | 't' :: t | ' ' :: t =>
      match timeOfDay? t with
      | some t => some (.time, (offset? t).getD t)
      | none => some (.time, rest)
    | _ => some (.time, rest)
  | none => (timeOfDay? s).map fun rest => (.time, rest)

/-- A value that contains no other values. -/
def scalar? (s : List Char) : Option (Value × List Char) :=
  match s with
  | '"' :: _ | '\'' :: _ => (string? s).map fun (text, rest) => (.string text, rest)
  | '0' :: 'x' :: rest => basedInteger? 16 rest
  | '0' :: 'o' :: rest => basedInteger? 8 rest
  | '0' :: 'b' :: rest => basedInteger? 2 rest
  | s =>
    match word? "true" s, word? "false" s with
    | some rest, _ => some (.boolean true, rest)
    | _, some rest => some (.boolean false, rest)
    | none, none => ((time? s).or (decimal? s)).or (floatWord? s)

/-! ## Values and documents -/

/-- Items up to a closing character, separated by commas. After each item and each comma
whatever may stand between items is skipped. -/
def items? {α : Type} (close : Char) (trailingComma : Bool) (skip : List Char → List Char)
    (item? : α → List Char → Option (α × List Char)) :
    Nat → α → List Char → Option (α × List Char)
  | 0, _, _ => none
  | fuel + 1, out, s => do
    let (out, s) ← item? out s
    match skip s with
    | ',' :: s =>
      match skip s with
      | c :: rest =>
        if c == close then (if trailingComma then some (out, rest) else none)
        else items? close trailingComma skip item? fuel out (c :: rest)
      | [] => none
    | c :: s => if c == close then some (out, s) else none
    | [] => none

/-- A value, with a bound on the nesting of what it contains. -/
def value? : Nat → List Char → Option (Value × List Char)
  | depth + 1, '[' :: s =>
    match skipLines s.length s with
    | ']' :: rest => some (.array [], rest)
    | s =>
      (items? ']' true (fun s => skipLines s.length s)
        (fun out s => (value? depth s).map fun (v, s) => (out ++ [v], s)) (s.length + 1) [] s).map
        fun (items, s) => (.array items, s)
  | depth + 1, '{' :: s =>
    match skipSpaces s with
    | '}' :: rest => some (.table .inline [], rest)
    | s =>
      (items? '}' false skipSpaces
        (fun out s => do
          let ((path, key), s) ← key? s
          let s ← word? "=" s
          let (v, s) ← value? depth (skipSpaces s)
          return (← addDotted path key v out, s)) (s.length + 1) [] s).map
        fun (entries, s) => (.table .inline entries, s)
  | 0, '[' :: _ | 0, '{' :: _ => none
  | _, s => scalar? s

/-- A document so far: its entries, and the path of the table that lines are added to. -/
structure Document where
  entries : Entries := []
  table : List String := []

/-- A line with a key and a value. -/
def keyValue? (d : Document) (s : List Char) : Option (Document × List Char) := do
  let ((path, key), s) ← key? s
  let s ← word? "=" s
  let (v, s) ← value? depthLimit (skipSpaces s)
  return ({ d with entries := ← addUnder d.table path key v d.entries }, s)

/-- A line with a header. -/
def header? (d : Document) (s : List Char) : Option (Document × List Char) :=
  match s with
  | '[' :: '[' :: s => do
    let ((path, key), s) ← key? s
    let s ← word? "]]" s
    return ({ entries := ← openNext path key d.entries, table := path ++ [key] }, s)
  | '[' :: s => do
    let ((path, key), s) ← key? s
    let s ← word? "]" s
    return ({ entries := ← openTable path key d.entries, table := path ++ [key] }, s)
  | _ => none

/-- The lines of a document. Each takes at least one character. -/
def lines? : Nat → Document → List Char → Option Document
  | 0, d, s => if (skipLines s.length s).isEmpty then some d else none
  | fuel + 1, d, s =>
    match skipLines s.length s with
    | [] => some d
    | '[' :: s => do
      let (d, s) ← header? d ('[' :: s)
      lines? fuel d (← lineEnd? s)
    | s => do
      let (d, s) ← keyValue? d s
      lines? fuel d (← lineEnd? s)

/-- The text behind a byte order mark. -/
def skipMark : List Char → List Char
  | '\uFEFF' :: s => s
  | s => s

/-- The entries of a document. -/
def read? (text : String) : Option Entries :=
  let s := skipMark text.toList
  (lines? (s.length + 1) {} s).map (·.entries)

end ScriptMachine.Toml
