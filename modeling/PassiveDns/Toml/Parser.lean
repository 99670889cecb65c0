/-
  PassiveDns.Toml.Parser

  Reading TOML 1.0. A parser takes a piece of text off the front of a list of
  characters, or fails.
-/
import PassiveDns.Text.Digits
import PassiveDns.Text.Split
import PassiveDns.Toml.Value

namespace PassiveDns.Toml

/-- Takes a piece of text off the front. -/
abbrev Parser := StateT (List Char) Option

namespace Parser

/-- Nested arrays and inline tables go this deep. -/
def maxDepth : Nat := 79

/-- A key has at most this many parts. -/
def maxParts : Nat := 79

/-- Fails. -/
def fail {α : Type} : Parser α := fun _ => none

/-- Goes on only if a condition holds. -/
def ensure (condition : Bool) : Parser Unit := if condition then pure () else fail

/-- Looks at the next character. -/
def peek : Parser (Option Char) := fun s => some (s.head?, s)

/-- Takes the longest front part whose characters satisfy a condition. -/
def takeWhile (p : Char → Bool) : Parser (List Char) :=
  fun s => some (s.takeWhile p, s.dropWhile p)

/-- Takes a given text. -/
def literal (text : List Char) : Parser Unit :=
  fun s => if text.isPrefixOf s then some ((), s.drop text.length) else none

/-- Takes one character. -/
def char (c : Char) : Parser Unit := literal [c]

/-- Takes a step as often as it succeeds and takes something. -/
def many {α : Type} (step : Parser α) (s : List Char) : Option (List α × List Char) :=
  match step s with
  | none => some ([], s)
  | some (a, rest) =>
    if rest.length < s.length then
      (many step rest).map fun (more, last) => (a :: more, last)
    else some ([], s)
termination_by s.length

/-! ## Blanks and lines -/

/-- Spaces and tabs. -/
def blanks : Parser Unit := do
  let _ ← takeWhile fun c => c = ' ' || c = '\t'

/-- The end of a line. -/
def lineEnd : Parser Unit := char '\n' <|> literal ['\r', '\n']

/-- Characters that may stand in a comment. -/
def isCommentChar (c : Char) : Bool :=
  c = '\t' || (0x20 ≤ c.toNat && c.toNat ≠ 0x7F)

/-- A comment. -/
def comment : Parser Unit := do
  char '#'
  let _ ← takeWhile isCommentChar

/-- An optional comment and the end of the line, or of the text. -/
def restOfLine : Parser Unit := do
  blanks
  comment <|> pure ()
  match ← peek with
  | none => pure ()
  | some _ => lineEnd

/-- Blanks, line ends and comments, which may stand between the items of an
    array. -/
def gap : Parser Unit := do
  let _ ← many do
    let c ← peek
    if c = some ' ' || c = some '\t' then blanks
    else if c = some '#' then
      comment
      lineEnd
    else lineEnd

/-! ## Strings -/

/-- The character that a letter behind a backslash stands for. -/
def escape? (c : Char) : Option Char :=
  match c with
  | 'b' => some '\x08'
  | 't' => some '\t'
  | 'n' => some '\n'
  | 'f' => some '\x0c'
  | 'r' => some '\r'
  | '"' => some '"'
  | '\\' => some '\\'
  | _ => none

/-- The character with a number in hexadecimal digits, if it is one. -/
def ofHex? (digits : List Char) : Option Char := do
  let n ← Text.number? 16 digits
  if h : n.isValidChar then some (Char.ofNatAux n h) else none

/-- Characters that stand for themselves in a quoted string. -/
def isPlain (c : Char) : Bool :=
  c = '\t' || (0x20 ≤ c.toNat && c.toNat ≠ 0x7F)

/-- The content of a string in double quotes, and what follows it. -/
def quotedContent : List Char → Option (List Char × List Char)
  | [] => none
  | '"' :: rest => some ([], rest)
  | '\\' :: 'u' :: a :: b :: c :: d :: rest => do
    let value ← ofHex? [a, b, c, d]
    let (content, last) ← quotedContent rest
    pure (value :: content, last)
  | '\\' :: 'U' :: a :: b :: c :: d :: e :: f :: g :: h :: rest => do
    let value ← ofHex? [a, b, c, d, e, f, g, h]
    let (content, last) ← quotedContent rest
    pure (value :: content, last)
  | '\\' :: c :: rest => do
    let value ← escape? c
    let (content, last) ← quotedContent rest
    pure (value :: content, last)
  | c :: rest =>
    if isPlain c then do
      let (content, last) ← quotedContent rest
      pure (c :: content, last)
    else none

/-- Whether only blanks stand before the end of the line. -/
def endsLine (s : List Char) : Bool :=
  match s.dropWhile fun c => c = ' ' || c = '\t' with
  | '\n' :: _ => true
  | '\r' :: '\n' :: _ => true
  | _ => false

/-- The quotes that still belong to a string closed by three of them. -/
def closingQuotes (quote : Char) (s : List Char) : List Char × List Char :=
  let extra := (s.takeWhile (· = quote)).take 2
  (extra, s.drop extra.length)

/-- The content of a string in three double quotes. While `skipping`, blanks and
    line ends behind a backslash are passed over. -/
def multilineContent (skipping : Bool) : List Char → Option (List Char × List Char)
  | [] => none
  | '"' :: '"' :: '"' :: rest => some (closingQuotes '"' rest)
  | '\\' :: 'u' :: a :: b :: c :: d :: rest => do
    let value ← ofHex? [a, b, c, d]
    let (content, last) ← multilineContent false rest
    pure (value :: content, last)
  | '\\' :: 'U' :: a :: b :: c :: d :: e :: f :: g :: h :: rest => do
    let value ← ofHex? [a, b, c, d, e, f, g, h]
    let (content, last) ← multilineContent false rest
    pure (value :: content, last)
  | '\\' :: c :: rest =>
    if endsLine (c :: rest) then
      -- The character behind the backslash is a blank or begins a line end.
      if c = '\r' then multilineContent true (rest.drop 1) else multilineContent true rest
    else do
      let value ← escape? c
      let (content, last) ← multilineContent false rest
      pure (value :: content, last)
  | '\r' :: '\n' :: rest =>
    if skipping then multilineContent true rest
    else do
      let (content, last) ← multilineContent false rest
      pure ('\n' :: content, last)
  | c :: rest =>
    if skipping && (c = ' ' || c = '\t' || c = '\n') then multilineContent true rest
    else if c = '\n' || isPlain c then do
      let (content, last) ← multilineContent false rest
      pure (c :: content, last)
    else none
termination_by s => s.length
decreasing_by all_goals (simp only [List.length_cons, List.length_drop]; omega)

/-- The content of a string in single quotes, which knows no escapes. -/
def literalContent : List Char → Option (List Char × List Char)
  | [] => none
  | c :: rest =>
    if c = '\'' then some ([], rest)
    else if isPlain c then do
      let (content, last) ← literalContent rest
      pure (c :: content, last)
    else none

/-- The content of a string in three single quotes. -/
def multilineLiteralContent : List Char → Option (List Char × List Char)
  | [] => none
  | '\'' :: '\'' :: '\'' :: rest => some (closingQuotes '\'' rest)
  | '\r' :: '\n' :: rest => do
    let (content, last) ← multilineLiteralContent rest
    pure ('\n' :: content, last)
  | c :: rest =>
    if c = '\n' || isPlain c then do
      let (content, last) ← multilineLiteralContent rest
      pure (c :: content, last)
    else none

/-- The line end right behind the quotes that open a string of several lines
    does not belong to it. -/
def skipFirstLineEnd : Parser Unit := lineEnd <|> pure ()

/-- A string of one line. -/
def lineString : Parser String := do
  match ← peek with
  | some '"' =>
    char '"'
    let content ← (quotedContent : Parser (List Char))
    pure (String.ofList content)
  | some '\'' =>
    char '\''
    let content ← (literalContent : Parser (List Char))
    pure (String.ofList content)
  | _ => fail

/-- Any string. -/
def string : Parser String :=
  (do
    literal ['"', '"', '"']
    skipFirstLineEnd
    let content ← (multilineContent false : Parser (List Char))
    pure (String.ofList content)) <|>
  (do
    literal ['\'', '\'', '\'']
    skipFirstLineEnd
    let content ← (multilineLiteralContent : Parser (List Char))
    pure (String.ofList content)) <|>
  lineString

/-! ## Keys -/

/-- Characters of a key without quotes. -/
def isBare (c : Char) : Bool := c.isAlphanum || c = '_' || c = '-'

/-- One part of a key. -/
def keyPart : Parser String := do
  match ← peek with
  | some '"' => lineString
  | some '\'' => lineString
  | _ =>
    let bare ← takeWhile isBare
    ensure !bare.isEmpty
    pure (String.ofList bare)

/-- A key: its last part, and the parts before it. -/
def key : Parser (List String × String) := do
  blanks
  let first ← keyPart
  blanks
  let more ← many do
    char '.'
    blanks
    let part ← keyPart
    blanks
    pure part
  let parts := first :: more
  ensure (parts.length ≤ maxParts)
  pure (parts.dropLast, parts.getLast?.getD first)

/-! ## Numbers and times -/

/-- Digits between which single underscores may stand, without them. -/
def spacedDigits (isDigit : Char → Bool) : List Char → Option (List Char)
  | [] => none
  | [c] => if isDigit c then some [c] else none
  | c :: '_' :: rest =>
    if isDigit c then (spacedDigits isDigit rest).map (c :: ·) else none
  | c :: rest => if isDigit c then (spacedDigits isDigit rest).map (c :: ·) else none

/-- A sign, and what follows it. -/
def splitSign : List Char → Option Char × List Char
  | '+' :: rest => (some '+', rest)
  | '-' :: rest => (some '-', rest)
  | rest => (none, rest)

/-- Whether a number fits 64 bits with a sign. -/
def fits64 (n : Int) : Bool :=
  -9223372036854775808 ≤ n && n < 9223372036854775808

/-- Digits of a decimal number, which begins with zero only if it is zero. -/
def decimalDigits (token : List Char) : Option (List Char) := do
  let digits ← spacedDigits Char.isDigit token
  if digits.head? = some '0' ∧ 1 < digits.length then none else some digits

/-- An integer. -/
def integer? (token : List Char) : Option Int :=
  let inBase (base : Nat) (digits : List Char) : Option Int := do
    let digits ← spacedDigits (Text.isDigitIn base) digits
    let n : Int := Text.numberOf base digits
    if fits64 n then some n else none
  match token with
  | '0' :: 'x' :: digits => inBase 16 digits
  | '0' :: 'o' :: digits => inBase 8 digits
  | '0' :: 'b' :: digits => inBase 2 digits
  | _ => do
    let (sign, rest) := splitSign token
    let digits ← decimalDigits rest
    let n : Int := Text.numberOf 10 digits
    let n := if sign = some '-' then -n else n
    if fits64 n then some n else none

/-- Whether a number, of which the digits and the power of ten are given, is too
    large for double precision. -/
def overflows (digits : List Char) (exponent : Int) : Bool :=
  let significant := digits.dropWhile (· = '0')
  let magnitude := exponent + significant.length
  if significant.isEmpty || magnitude < 308 then false
  else if 310 < magnitude then true
  else
    let limit := Nat.pow 2 1024 - Nat.pow 2 970
    let n := Text.numberOf 10 significant
    if 0 ≤ exponent then limit ≤ n * Nat.pow 10 exponent.toNat
    else limit * Nat.pow 10 (-exponent).toNat ≤ n

/-- The digits and underscores at the front, and what follows them. -/
def splitDigits (s : List Char) : List Char × List Char :=
  s.span fun c => c.isDigit || c = '_'

/-- The digits behind a point, none if there is no point, and what follows. -/
def fraction? : List Char → Option (List Char × List Char)
  | '.' :: rest =>
    let (digits, tail) := splitDigits rest
    (spacedDigits Char.isDigit digits).map fun digits => (digits, tail)
  | rest => some ([], rest)

/-- The power of ten at the end of a number, zero if it is not given. -/
def exponent? : List Char → Option Int
  | [] => some 0
  | c :: rest =>
    if c = 'e' ∨ c = 'E' then
      let (sign, digits) := splitSign rest
      (spacedDigits Char.isDigit digits).map fun digits =>
        if sign = some '-' then -(Text.numberOf 10 digits : Int) else Text.numberOf 10 digits
    else none

/-- Whether a token is a floating point number that does not overflow upward. -/
def isFloat (token : List Char) : Bool :=
  let (sign, rest) := splitSign token
  let (whole, tail) := splitDigits rest
  if rest = ['i', 'n', 'f'] ∨ rest = ['n', 'a', 'n'] then true
  else if tail = [] then false
  else
    match decimalDigits whole, fraction? tail with
    | some whole, some (fraction, power) =>
      match exponent? power with
      | some e => sign = some '-' || !overflows (whole ++ fraction) (e - fraction.length)
      | none => false
    | _, _ => false

/-- A number of two digits within bounds. -/
def twoDigits? (low high : Nat) (a b : Char) : Bool :=
  a.isDigit && b.isDigit &&
    (let n := Text.numberOf 10 [a, b]; low ≤ n && n ≤ high)

/-- The number of days in a month. -/
def daysIn (year month : Nat) : Nat :=
  if month = 2 then
    (if year % 4 = 0 ∧ (year % 100 ≠ 0 ∨ year % 400 = 0) then 29 else 28)
  else if month = 4 ∨ month = 6 ∨ month = 9 ∨ month = 11 then 30
  else 31

/-- What follows a date at the front of a token. -/
def afterDate? : List Char → Option (List Char)
  | a :: b :: c :: d :: '-' :: m :: n :: '-' :: x :: y :: rest =>
    let year := [a, b, c, d]
    if year.all Char.isDigit && twoDigits? 1 12 m n &&
        twoDigits? 1 (daysIn (Text.numberOf 10 year) (Text.numberOf 10 [m, n])) x y
    then some rest else none
  | _ => none

/-- What follows a time of day at the front of a token. -/
def afterTime? : List Char → Option (List Char)
  | a :: b :: ':' :: c :: d :: ':' :: e :: f :: rest =>
    if twoDigits? 0 23 a b && twoDigits? 0 59 c d && twoDigits? 0 60 e f then
      match rest with
      | '.' :: digits =>
        if (digits.takeWhile Char.isDigit).isEmpty then none
        else some (digits.dropWhile Char.isDigit)
      | _ => some rest
    else none
  | _ => none

/-- Whether a token is the distance of a clock from universal time. -/
def isOffset : List Char → Bool
  | [c] => c = 'Z' || c = 'z'
  | [sign, a, b, ':', c, d] =>
    (sign = '+' || sign = '-') && twoDigits? 0 23 a b && twoDigits? 0 59 c d
  | _ => false

/-- Whether a token is a time of day, with a distance from universal time only
    if a date stands before it. -/
def isTime (withDate : Bool) (token : List Char) : Bool :=
  match afterTime? token with
  | none => false
  | some [] => true
  | some rest => withDate && isOffset rest

/-- Characters of numbers, times and words. -/
def isTokenChar (c : Char) : Bool :=
  c.isAlphanum || c = '_' || c = '-' || c = '+' || c = '.' || c = ':'

/-- The time behind a date and a space, if there is one. -/
def timeBehind : Parser (Option (List Char)) := fun s =>
  match s with
  | ' ' :: rest =>
    let token := rest.takeWhile isTokenChar
    if isTime true token then some (some token, rest.dropWhile isTokenChar)
    else some (none, s)
  | _ => some (none, s)

/-- A number, a time or a word. -/
def scalar : Parser Value := do
  let token ← takeWhile isTokenChar
  if token = ['t', 'r', 'u', 'e'] then pure (.boolean true)
  else if token = ['f', 'a', 'l', 's', 'e'] then pure (.boolean false)
  else
    match integer? token with
    | some n => pure (.integer n)
    | none =>
      if isFloat token then pure (.float (String.ofList token))
      else if isTime false token then pure (.time (String.ofList token))
      else
        match afterDate? token with
        | none => fail
        | some [] => do
          match ← timeBehind with
          | none => pure (.time (String.ofList token))
          | some time => pure (.time (String.ofList (token ++ ' ' :: time)))
        | some (c :: time) =>
          if (c = 'T' || c = 't') && isTime true time then
            pure (.time (String.ofList token))
          else fail

/-! ## Values -/

/-- The items of an array behind its opening bracket. -/
def arrayItems (item : Parser Value) : Parser (List Value) := do
  gap
  let items ← many do
    let value ← item
    gap
    -- A comma must follow, or the end of the array.
    match ← peek with
    | some ']' => pure value
    | _ => do
      char ','
      gap
      pure value
  char ']'
  pure items

/-- One entry of an inline table. -/
def inlineEntry (item : Parser Value) : Parser ((List String × String) × Value) := do
  let name ← key
  char '='
  blanks
  let value ← item
  blanks
  pure (name, value)

/-- The entries of an inline table behind its opening brace. No comma stands
    behind the last one. -/
def inlineEntries (item : Parser Value) : Parser Entries := do
  blanks
  let listed ← (do
    let first ← inlineEntry item
    let more ← many do
      char ','
      inlineEntry item
    pure (first :: more)) <|> pure []
  blanks
  char '\x7d'
  match listed.foldlM (fun entries entry =>
      Entries.setDotted .inline entries entry.1.1 entry.1.2 entry.2) [] with
  | some entries => pure entries
  | none => fail

/-- A value; `item` reads the values inside it, if it may hold any. -/
def valueWith (item : Option (Parser Value)) : Parser Value := do
  match ← peek, item with
  | some '"', _ => return .text (← string)
  | some '\'', _ => return .text (← string)
  | some '[', some item => do
    char '['
    return .array (← arrayItems item)
  | some '\x7b', some item => do
    char '\x7b'
    return .table .inline (← inlineEntries item)
  | _, _ => scalar

/-- A value inside which arrays and inline tables nest at most `depth` deep. -/
def value : Nat → Parser Value
  | 0 => valueWith none
  | depth + 1 => valueWith (some (value depth))

/-! ## Documents -/

/-- A line of a document that says something. -/
inductive Statement where
  | entry (path : List String) (key : String) (value : Value)
  | table (path : List String) (key : String)
  | element (path : List String) (key : String)
deriving Inhabited

/-- One line, of which strings and arrays may take several. -/
def statement : Parser (Option Statement) := do
  blanks
  match ← peek with
  | none => pure none
  | some '#' => do
    restOfLine
    pure none
  | some '\n' => do
    restOfLine
    pure none
  | some '\r' => do
    restOfLine
    pure none
  | some '[' =>
    (do
      literal ['[', '[']
      let (path, name) ← key
      literal [']', ']']
      restOfLine
      pure (some (.element path name))) <|>
    (do
      char '['
      let (path, name) ← key
      char ']'
      restOfLine
      pure (some (.table path name)))
  | some _ => do
    let (path, name) ← key
    char '='
    blanks
    let content ← value maxDepth
    restOfLine
    pure (some (.entry path name content))

/-- All lines of a text. A mark of the order of octets at its start is passed
    over. -/
def statements (s : List Char) : Option (List Statement) := do
  let text := match s with
    | '\uFEFF' :: rest => rest
    | _ => s
  let (lines, rest) ← many statement text
  if rest.dropWhile (fun c => c = ' ' || c = '\t') = [] then some (lines.filterMap id) else none

end Parser

/-- A document under construction: its entries, and the header that is open. -/
structure Draft where
  entries : Entries
  header : List String
deriving Inhabited

/-- Adds what a line says. -/
def Draft.add (draft : Draft) : Parser.Statement → Option Draft
  | .entry path key value => do
    let entries ← draft.entries.changeAt false .header
      (fun _ inner => inner.setDotted .header path key value) draft.header
    pure { draft with entries }
  | .table path key => do
    let entries ← draft.entries.openTable path key
    pure ⟨entries, path ++ [key]⟩
  | .element path key => do
    let entries ← draft.entries.openElement path key
    pure ⟨entries, path ++ [key]⟩

/-- The entries of a document, if the text is one. -/
def parse? (text : String) : Option Entries := do
  let statements ← Parser.statements text.toList
  let draft ← statements.foldlM Draft.add (⟨[], []⟩ : Draft)
  pure draft.entries

end PassiveDns.Toml
