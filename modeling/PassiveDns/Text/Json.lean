/-
  PassiveDns.Text.Json

  JSON documents whose numbers are natural, and their compact text: no blanks,
  members in the order in which they stand, and no octet below 0x20 anywhere.
-/

namespace PassiveDns.Text

/-- A JSON document. The members of an object keep their order. -/
inductive Json where
  | null
  | bool (b : Bool)
  | num (n : Nat)
  | str (s : String)
  | arr (items : List Json)
  | obj (members : List (String × Json))
deriving Repr, Inhabited

namespace Json

/-- A lower-case hexadecimal digit. -/
def hexDigit (n : Nat) : Char :=
  if n < 10 then Char.ofNat (48 + n) else Char.ofNat (87 + n)

/-- One character inside a JSON string. The short escapes are used where JSON
    has one, and the other controls are written with four digits. -/
def escapeChar (c : Char) : List Char :=
  if c = '"' then ['\\', '"']
  else if c = '\\' then ['\\', '\\']
  else if c = '\n' then ['\\', 'n']
  else if c = '\r' then ['\\', 'r']
  else if c = '\t' then ['\\', 't']
  else if c = '\x08' then ['\\', 'b']
  else if c = '\x0c' then ['\\', 'f']
  else if c.toNat < 0x20 then
    ['\\', 'u', '0', '0', hexDigit (c.toNat / 16), hexDigit (c.toNat % 16)]
  else [c]

/-- A JSON string with its quotes. -/
def quote (s : List Char) : List Char :=
  '"' :: (s.flatMap escapeChar ++ ['"'])

mutual

/-- The compact text of a document. -/
def compact : Json → List Char
  | .null => ['n', 'u', 'l', 'l']
  | .bool true => ['t', 'r', 'u', 'e']
  | .bool false => ['f', 'a', 'l', 's', 'e']
  | .num n => Nat.toDigits 10 n
  | .str s => quote s.toList
  | .arr items => '[' :: (compactItems items ++ [']'])
  | .obj members => '\x7b' :: (compactMembers members ++ ['\x7d'])

/-- The items of an array, separated by commas. -/
def compactItems : List Json → List Char
  | [] => []
  | [item] => compact item
  | item :: more => compact item ++ ',' :: compactItems more

/-- The members of an object, separated by commas. -/
def compactMembers : List (String × Json) → List Char
  | [] => []
  | [(name, value)] => quote name.toList ++ ':' :: compact value
  | (name, value) :: more =>
    quote name.toList ++ ':' :: (compact value ++ ',' :: compactMembers more)

end

/-! ## Pieces -/

/-- A string's characters as they are put out: those that stand for themselves
    in runs, and each escape by itself. -/
def stringPieces : List Char → List (List Char)
  | [] => []
  | c :: rest =>
    let escaped := escapeChar c
    if escaped = [c] then
      match stringPieces rest with
      | [] => [[c]]
      | piece :: more =>
        if rest.head?.any fun d => escapeChar d = [d] then (c :: piece) :: more
        else [c] :: piece :: more
    else escaped :: stringPieces rest

/-- A JSON string in pieces. -/
def quotePieces (s : List Char) : List (List Char) :=
  ['"'] :: (stringPieces s ++ [['"']])

mutual

/-- The compact text of a document in the pieces in which it is put out: a mark,
    a number, a word or part of a string at a time. -/
def pieces : Json → List (List Char)
  | .str s => quotePieces s.toList
  | .arr items => ['['] :: (piecesOfItems items ++ [[']']])
  | .obj members => ['\x7b'] :: (piecesOfMembers members ++ [['\x7d']])
  | .null => [compact .null]
  | .bool b => [compact (.bool b)]
  | .num n => [compact (.num n)]

/-- The items of an array in pieces. -/
def piecesOfItems : List Json → List (List Char)
  | [] => []
  | [item] => pieces item
  | item :: more => pieces item ++ [','] :: piecesOfItems more

/-- The members of an object in pieces. -/
def piecesOfMembers : List (String × Json) → List (List Char)
  | [] => []
  | [(name, value)] => quotePieces name.toList ++ [':'] :: pieces value
  | (name, value) :: more =>
    quotePieces name.toList ++ [':'] :: (pieces value ++ [','] :: piecesOfMembers more)

end

/-! ### Pieces make up the compact text -/

theorem flatten_stringPieces (s : List Char) :
    (stringPieces s).flatten = s.flatMap escapeChar := by
  fun_induction stringPieces s with
  | case1 => rfl
  | case2 c rest escaped h heq ih =>
    have hc : escapeChar c = [c] := h
    simp [hc, ← ih, heq]
  | case3 c rest escaped h piece more heq _ ih =>
    have hc : escapeChar c = [c] := h
    simp [hc, ← ih, heq]
  | case4 c rest escaped h piece more heq _ ih =>
    have hc : escapeChar c = [c] := h
    simp [hc, ← ih, heq]
  | case5 c rest escaped h ih => simp [escaped, ih]

theorem flatten_quotePieces (s : List Char) : (quotePieces s).flatten = quote s := by
  simp [quotePieces, quote, flatten_stringPieces]

mutual

theorem flatten_pieces : (doc : Json) → doc.pieces.flatten = doc.compact
  | .null => by simp [pieces]
  | .bool b => by simp [pieces]
  | .num n => by simp [pieces]
  | .str s => by simp [pieces, compact, flatten_quotePieces]
  | .arr items => by simp [pieces, compact, flatten_piecesOfItems items]
  | .obj members => by simp [pieces, compact, flatten_piecesOfMembers members]

theorem flatten_piecesOfItems :
    (items : List Json) → (piecesOfItems items).flatten = compactItems items
  | [] => rfl
  | [item] => by simp [piecesOfItems, compactItems, flatten_pieces item]
  | item :: next :: more => by
    simp [piecesOfItems, compactItems, flatten_pieces item,
      flatten_piecesOfItems (next :: more)]

theorem flatten_piecesOfMembers :
    (members : List (String × Json)) →
      (piecesOfMembers members).flatten = compactMembers members
  | [] => rfl
  | [(name, value)] => by
    simp [piecesOfMembers, compactMembers, flatten_pieces value, flatten_quotePieces]
  | (name, value) :: next :: more => by
    simp [piecesOfMembers, compactMembers, flatten_pieces value, flatten_quotePieces,
      flatten_piecesOfMembers (next :: more)]

end

/-- The compact text of a document as a string. -/
def render (doc : Json) : String :=
  String.ofList doc.compact

/-- `null` for an absent value. -/
def ofOption {α : Type} (f : α → Json) : Option α → Json
  | none => .null
  | some a => f a

end Json

end PassiveDns.Text
