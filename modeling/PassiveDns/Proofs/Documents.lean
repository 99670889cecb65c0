/-
  PassiveDns.Proofs.Documents

  Compact texts are read back. The reader follows the grammar of JSON: blanks between its
  marks, strings with all escapes and pairs of surrogates, no control character in a string, no
  needless zero in front of a number. Of numbers it knows the natural ones.
-/
import Mathlib.Data.List.Basic
import Mathlib.Tactic.Common
import PassiveDns.Proofs.Digits
import PassiveDns.Proofs.Utf8
import PassiveDns.Text.Json

namespace PassiveDns.Text.Json

/-! ## Reading -/

/-- What may stand between the marks of a document. -/
def isSpace (c : Char) : Bool := c = ' ' ∨ c = '\t' ∨ c = '\n' ∨ c = '\r'

def skip (text : List Char) : List Char := text.dropWhile isSpace

/-- What a mark behind a backslash stands for. -/
def unescape? : Char → Option Char
  | '"' => some '"'
  | '\\' => some '\\'
  | '/' => some '/'
  | 'b' => some '\x08'
  | 'f' => some '\x0c'
  | 'n' => some '\n'
  | 'r' => some '\r'
  | 't' => some '\t'
  | _ => none

/-- The numbers of the characters of a string, up to its closing quote. What is written with
    four digits may be half of a character. -/
def points? : List Char → Option (List Nat × List Char)
  | [] => none
  | c :: rest =>
    if c = '"' then some ([], rest)
    else if c = '\\' then
      match rest with
      | [] => none
      | mark :: rest =>
        if mark = 'u' then
          match rest with
          | d₁ :: d₂ :: d₃ :: d₄ :: rest => do
            let n ← number? 16 [d₁, d₂, d₃, d₄]
            (points? rest).map (.map (n :: ·) id)
          | _ => none
        else do
          let c ← unescape? mark
          (points? rest).map (.map (c.toNat :: ·) id)
    else if c.toNat < 0x20 then none
    else (points? rest).map (.map (c.toNat :: ·) id)

/-- The characters that have these numbers. A high surrogate and a low one make up a character
    together, and none without the other. -/
def joined? : List Nat → Option (List Char)
  | [] => some []
  | [n] => if n.isValidChar then some [Char.ofNat n] else none
  | n :: m :: rest =>
    if 0xD800 ≤ n ∧ n < 0xDC00 ∧ 0xDC00 ≤ m ∧ m < 0xE000 then
      (joined? rest).map (Char.ofNat (0x10000 + (n - 0xD800) * 0x400 + (m - 0xDC00)) :: ·)
    else if n.isValidChar then (joined? (m :: rest)).map (Char.ofNat n :: ·)
    else none

/-- A string behind its opening quote. -/
def string? (text : List Char) : Option (String × List Char) := do
  let (points, rest) ← points? text
  let characters ← joined? points
  pure (String.ofList characters, rest)

/-- The documents that are words. -/
def words : List (List Char × Json) :=
  [(['n', 'u', 'l', 'l'], .null), (['t', 'r', 'u', 'e'], .bool true),
    (['f', 'a', 'l', 's', 'e'], .bool false)]

def word? (text : List Char) : Option (Json × List Char) :=
  words.findSome? fun (word, doc) => (text.dropPrefix? word).map fun rest => (doc, rest)

/-- A natural number. Only zero begins with one. -/
def numeral? (text : List Char) : Option (Json × List Char) :=
  let digits := text.takeWhile Char.isDigit
  if digits.head? = some '0' ∧ digits ≠ ['0'] then none
  else (number? 10 digits).map fun n => (.num n, text.dropWhile Char.isDigit)

section Lists

variable {α : Type}

/-- One or more, with commas between them, up to a closing mark; `count` at most. -/
def listed? (one : List Char → Option (α × List Char)) (close : Char) :
    Nat → List Char → Option (List α × List Char)
  | 0, _ => none
  | count + 1, text => do
    let (first, rest) ← one text
    match skip rest with
    | [] => none
    | c :: rest =>
      if c = close then some ([first], rest)
      else if c = ',' then (listed? one close count rest).map (.map (first :: ·) id)
      else none

/-- Any number of them behind an opening mark. -/
def enclosed? (one : List Char → Option (α × List Char)) (close : Char) (text : List Char) :
    Option (List α × List Char) :=
  if (skip text).head? = some close then some ([], (skip text).tail)
  else listed? one close text.length text

end Lists

/-- A member of an object: its name, a colon and its value. -/
def member? (value : List Char → Option (Json × List Char)) (text : List Char) :
    Option ((String × Json) × List Char) :=
  match skip text with
  | '"' :: rest => do
    let (name, rest) ← string? rest
    match skip rest with
    | ':' :: rest => (value rest).map (.map (name, ·) id)
    | _ => none
  | _ => none

/-- A document at the beginning of a text, and what follows it. Arrays and objects are nested
    to a depth of `depth` at most. -/
def value? : Nat → List Char → Option (Json × List Char)
  | 0, _ => none
  | depth + 1, text =>
    match skip text with
    | '"' :: rest => (string? rest).map (.map .str id)
    | '[' :: rest => (enclosed? (value? depth) ']' rest).map (.map .arr id)
    | '\x7b' :: rest => (enclosed? (member? (value? depth)) '\x7d' rest).map (.map .obj id)
    | text => (word? text).or (numeral? text)

/-- The document that a text is. No document is nested deeper than its text is long. -/
def read? (text : List Char) : Option Json := do
  let (doc, rest) ← value? text.length text
  if skip rest = [] then some doc else none

/-- The document that octets are. -/
def ofOctets? (octets : Octets) : Option Json := do
  let text ← Utf8.decode? octets
  read? text.toList

/-! ## Strings are read back -/

section Strings

variable {rest : List Char}

theorem points?_quote : points? ('"' :: rest) = some ([], rest) := by
  unfold points?
  rw [if_pos rfl]

theorem points?_mark {mark c : Char} (hmark : mark ≠ 'u') (hc : unescape? mark = some c) :
    points? ('\\' :: mark :: rest) = (points? rest).map (.map (c.toNat :: ·) id) := by
  conv_lhs => unfold points?
  rw [if_neg (by decide), if_pos rfl]
  dsimp only
  rw [if_neg hmark, hc]
  rfl

theorem points?_digits {d₁ d₂ d₃ d₄ : Char} {n : Nat} (hn : number? 16 [d₁, d₂, d₃, d₄] = some n) :
    points? ('\\' :: 'u' :: d₁ :: d₂ :: d₃ :: d₄ :: rest) =
      (points? rest).map (.map (n :: ·) id) := by
  conv_lhs => unfold points?
  rw [if_neg (by decide), if_pos rfl]
  dsimp only
  rw [if_pos rfl, hn]
  rfl

theorem points?_plain {c : Char} (hquote : c ≠ '"') (hmark : c ≠ '\\') (hplain : ¬c.toNat < 0x20) :
    points? (c :: rest) = (points? rest).map (.map (c.toNat :: ·) id) := by
  conv_lhs => unfold points?
  rw [if_neg hquote, if_neg hmark, if_neg hplain]

/-- One character of a string, in whichever way it is written. -/
theorem points?_escapeChar (c : Char) :
    points? (escapeChar c ++ rest) = (points? rest).map (.map (c.toNat :: ·) id) := by
  unfold escapeChar
  split_ifs with hquote hmark hn hr ht hb hf hcontrol
  case pos => subst hquote; exact points?_mark (by decide) rfl
  case pos => subst hmark; exact points?_mark (by decide) rfl
  case pos => subst hn; exact points?_mark (by decide) rfl
  case pos => subst hr; exact points?_mark (by decide) rfl
  case pos => subst ht; exact points?_mark (by decide) rfl
  case pos => subst hb; exact points?_mark (by decide) rfl
  case pos => subst hf; exact points?_mark (by decide) rfl
  case pos =>
    -- the controls that have no short escape
    have hhex : ∀ n < 0x20,
        number? 16 ['0', '0', hexDigit (n / 16), hexDigit (n % 16)] = some n := by decide
    exact points?_digits (hhex _ hcontrol)
  case neg => exact points?_plain hquote hmark hcontrol

theorem points?_escaped (s : List Char) :
    points? (s.flatMap escapeChar ++ '"' :: rest) = some (s.map Char.toNat, rest) := by
  induction s with
  | nil => exact points?_quote
  | cons c s ih =>
    rw [List.flatMap_cons, List.append_assoc, points?_escapeChar, ih]
    rfl

/-- No character has the number of a surrogate. -/
theorem joined?_map_toNat (s : List Char) : joined? (s.map Char.toNat) = some s := by
  induction s with
  | nil => rfl
  | cons c s ih =>
    have hc : c.toNat.isValidChar := c.valid
    cases s with
    | nil => rw [List.map_singleton, joined?, if_pos hc, Char.ofNat_toNat]
    | cons d s =>
      rw [List.map_cons, List.map_cons, joined?, if_neg, if_pos hc, ← List.map_cons, ih,
        Char.ofNat_toNat]
      · rfl
      · have hvalid := Utf8.toNat_char c
        change _ ∨ _ at hc
        omega

example : joined? [0xD83D, 0xDE00] = some ['😀'] ∧ joined? [0xD83D] = none := by decide

/-- Every string is, whatever its characters. -/
theorem string?_quote (s : List Char) (rest : List Char) :
    ∃ tail, quote s ++ rest = '"' :: tail ∧ string? tail = some (String.ofList s, rest) := by
  refine ⟨s.flatMap escapeChar ++ '"' :: rest, by simp [quote], ?_⟩
  rw [string?, points?_escaped]
  show (joined? _).bind _ = _
  rw [joined?_map_toNat]
  rfl

end Strings

/-! ## Words and numbers are -/

/-- Where a number ends. -/
def Stops (rest : List Char) : Prop := ∀ c ∈ rest.head?, c.isDigit = false

theorem stops_cons {c : Char} (h : c.isDigit = false) (rest : List Char) : Stops (c :: rest) := by
  rintro d ⟨⟩
  exact h

/-- Only zero begins with one. -/
theorem head?_toDigits {n : Nat} (h : (Nat.toDigits 10 n).head? = some '0') : n = 0 := by
  induction n using Nat.strongRecOn with
  | ind n ih =>
    rw [Nat.toDigits_eq_if (by decide)] at h
    split at h
    · exact Nat.digitChar_eq_zero.mp (Option.some.inj h)
    · -- the first digit of a longer number is that of a tenth of it
      rw [List.head?_append_of_ne_nil _ Nat.toDigits_ne_nil] at h
      have := ih (n / 10) (by omega) h
      omega

theorem numeral?_toDigits {rest : List Char} (h : Stops rest) (n : Nat) :
    numeral? (Nat.toDigits 10 n ++ rest) = some (.num n, rest) := by
  have hdigits : ∀ c ∈ Nat.toDigits 10 n, c.isDigit = true := fun _ => isDigit_of_mem_toDigits
  have htake : rest.takeWhile Char.isDigit = [] := by
    cases rest with
    | nil => rfl
    | cons c rest => exact List.takeWhile_cons_of_neg (by simp [h c rfl])
  have hdrop : rest.dropWhile Char.isDigit = rest := by
    cases rest with
    | nil => rfl
    | cons c rest => exact List.dropWhile_cons_of_neg (by simp [h c rfl])
  rw [numeral?, List.takeWhile_append_of_pos hdigits, List.dropWhile_append_of_pos hdigits, htake,
    hdrop, List.append_nil, if_neg, number?_toDigits]
  · rfl
  · rintro ⟨hzero, hmore⟩
    rw [head?_toDigits hzero] at hmore
    exact hmore rfl

theorem word?_of_mem {word : List Char} {doc : Json} (h : (word, doc) ∈ words)
    (rest : List Char) : word? (word ++ rest) = some (doc, rest) := by
  simp only [words, List.mem_cons, Prod.mk.injEq, List.not_mem_nil, or_false] at h
  rcases h with ⟨rfl, rfl⟩ | ⟨rfl, rfl⟩ | ⟨rfl, rfl⟩ <;>
    simp [word?, words, List.dropPrefix?]

theorem word?_digit {c : Char} (h : c.isDigit = true) (rest : List Char) :
    word? (c :: rest) = none := by
  have hne {d : Char} (hd : d.isDigit = false) : (c == d) = false :=
    beq_eq_false_iff_ne.mpr (ne_of_isDigit h hd)
  simp [word?, words, List.dropPrefix?, hne]

/-! ## Lists are -/

/-- What does not begin with a blank is looked at as it is. -/
theorem skip_cons {c : Char} (h : isSpace c = false) (rest : List Char) :
    skip (c :: rest) = c :: rest :=
  List.dropWhile_cons_of_neg (by simp [h])

section Lists

variable {α : Type} {one : List Char → Option (α × List Char)} {write : α → List Char}
  {close : Char} {rest : List Char}

theorem intercalate_cons_cons (write : α → List Char) (a b : α) (as : List α) :
    [','].intercalate ((a :: b :: as).map write) =
      write a ++ ',' :: [','].intercalate ((b :: as).map write) := by
  rw [List.map_cons, List.map_cons, List.intercalate_cons_cons, List.append_assoc]
  rfl

theorem listed?_close (hspace : isSpace close = false) {text : List Char} {first : α}
    (hone : one text = some (first, close :: rest)) (count : Nat) :
    listed? one close (count + 1) text = some ([first], rest) := by
  rw [listed?, hone]
  simp [skip_cons hspace]

theorem listed?_comma (hcomma : close ≠ ',') {text : List Char} {first : α}
    (hone : one text = some (first, ',' :: rest)) (count : Nat) :
    listed? one close (count + 1) text =
      (listed? one close count rest).map (.map (first :: ·) id) := by
  rw [listed?, hone]
  simp [skip_cons (show isSpace ',' = false by decide), hcomma.symm]

/-- What marks the end of a list is neither a blank nor a comma nor part of a number. -/
structure Closes (close : Char) : Prop where
  space : isSpace close = false
  digit : close.isDigit = false
  comma : close ≠ ','

theorem listed?_intercalate (hclose : Closes close) {as : List α}
    (hread : ∀ a ∈ as, ∀ rest, Stops rest → one (write a ++ rest) = some (a, rest))
    (hne : as ≠ []) {count : Nat} (hcount : as.length ≤ count) :
    listed? one close count ([','].intercalate (as.map write) ++ close :: rest) =
      some (as, rest) := by
  induction as generalizing count with
  | nil => exact absurd rfl hne
  | cons a as ih =>
    obtain ⟨count, rfl⟩ := Nat.exists_eq_add_of_le' (Nat.le_trans (Nat.le_add_left 1 _) hcount)
    have hfirst := hread a List.mem_cons_self
    cases as with
    | nil =>
      rw [List.map_singleton, List.intercalate_singleton]
      exact listed?_close hclose.space (hfirst _ (stops_cons hclose.digit rest)) count
    | cons b as =>
      have hmore := ih (fun a ha => hread a (List.mem_cons_of_mem _ ha)) (List.cons_ne_nil _ _)
        (Nat.le_of_succ_le_succ hcount)
      rw [intercalate_cons_cons, List.append_assoc, List.cons_append,
        listed?_comma hclose.comma (hfirst _ (stops_cons (by decide) _)), hmore]
      rfl

/-- There are no more members than the list has characters. -/
theorem length_le_intercalate (write : α → List Char) (as : List α) :
    as.length ≤ ([','].intercalate (as.map write)).length + 1 := by
  induction as with
  | nil => exact Nat.zero_le _
  | cons a as ih =>
    cases as with
    | nil => exact Nat.le_add_left _ _
    | cons b as =>
      rw [intercalate_cons_cons]
      simp only [List.length_append, List.length_cons] at ih ⊢
      omega

/-- A member is no longer than the list. -/
theorem length_le_of_mem (write : α → List Char) {as : List α} {a : α} (h : a ∈ as) :
    (write a).length ≤ ([','].intercalate (as.map write)).length := by
  induction as with
  | nil => cases h
  | cons b as ih =>
    cases as with
    | nil => rw [List.mem_singleton.mp h, List.map_singleton, List.intercalate_singleton]
    | cons c as =>
      rw [intercalate_cons_cons]
      simp only [List.length_append, List.length_cons]
      rcases List.mem_cons.mp h with rfl | h
      · omega
      · have := ih h
        omega

/-- How a member begins, so that its first character is not taken for another mark. -/
def Begins (close : Char) (text : List Char) : Prop :=
  ∃ c tail, text = c :: tail ∧ isSpace c = false ∧ c ≠ close

/-- Members are read back if each of them is, wherever a number would end. -/
theorem enclosed?_intercalate (hclose : Closes close) {as : List α}
    (hread : ∀ a ∈ as, ∀ rest, Stops rest → one (write a ++ rest) = some (a, rest))
    (hbegins : ∀ a ∈ as, Begins close (write a)) :
    enclosed? one close ([','].intercalate (as.map write) ++ close :: rest) = some (as, rest) := by
  cases as with
  | nil =>
    show enclosed? one close (close :: rest) = _
    rw [enclosed?, skip_cons hclose.space]
    exact if_pos rfl
  | cons a as =>
    obtain ⟨c, tail, hc, hspace, hne⟩ := hbegins a List.mem_cons_self
    obtain ⟨more, hmore⟩ : ∃ more,
        [','].intercalate ((a :: as).map write) ++ close :: rest = c :: more := by
      cases as with
      | nil => exact ⟨_, by rw [List.map_singleton, List.intercalate_singleton, hc]; rfl⟩
      | cons b as => exact ⟨_, by rw [intercalate_cons_cons, hc]; rfl⟩
    rw [enclosed?, if_neg]
    · -- the closing mark makes up for the comma that one of the members has not
      refine listed?_intercalate hclose hread (List.cons_ne_nil _ _) ?_
      have := length_le_intercalate write (a :: as)
      simp only [List.length_append, List.length_cons] at this ⊢
      omega
    · -- the first member is not taken for the closing mark
      rw [hmore, skip_cons hspace]
      exact fun h => hne (Option.some.inj h)

end Lists

/-! ## Documents are -/

/-- The text of a member of an object. -/
def memberText (member : String × Json) : List Char :=
  quote member.1.toList ++ ':' :: compact member.2

theorem compactItems_eq (items : List Json) :
    compactItems items = [','].intercalate (items.map compact) := by
  induction items with
  | nil => rfl
  | cons item items ih =>
    cases items with
    | nil => rw [compactItems, List.map_singleton, List.intercalate_singleton]
    | cons next items =>
      rw [compactItems, ih, intercalate_cons_cons]
      simp

theorem compactMembers_eq (members : List (String × Json)) :
    compactMembers members = [','].intercalate (members.map memberText) := by
  induction members with
  | nil => rfl
  | cons member members ih =>
    cases members with
    | nil => rw [compactMembers, List.map_singleton, List.intercalate_singleton, memberText]
    | cons next members =>
      rw [compactMembers, ih, intercalate_cons_cons, memberText, List.append_assoc]
      · rfl
      · simp

/-- No digit is a mark or a blank. -/
theorem not_isSpace_of_isDigit {c : Char} (h : c.isDigit = true) : isSpace c = false := by
  have hne {d : Char} (hd : d.isDigit = false) : c ≠ d := ne_of_isDigit h hd
  simp [isSpace, hne]

/-- How documents begin. -/
theorem begins_compact (doc : Json) : Begins ']' doc.compact := by
  cases doc with
  | null => exact ⟨_, _, rfl, by decide, by decide⟩
  | bool b => cases b <;> exact ⟨_, _, rfl, by decide, by decide⟩
  | num n =>
    obtain ⟨c, tail, hc, hdigit⟩ := toDigits_eq_cons n
    exact ⟨c, tail, hc, not_isSpace_of_isDigit hdigit, ne_of_isDigit hdigit (by decide)⟩
  | str s => exact ⟨_, _, rfl, by decide, by decide⟩
  | arr items => exact ⟨_, _, rfl, by decide, by decide⟩
  | obj members => exact ⟨_, _, rfl, by decide, by decide⟩

theorem member?_memberText {value : List Char → Option (Json × List Char)}
    {member : String × Json} {rest : List Char}
    (hvalue : value (member.2.compact ++ rest) = some (member.2, rest)) :
    member? value (memberText member ++ rest) = some (member, rest) := by
  obtain ⟨tail, htail, hstring⟩ :=
    string?_quote member.1.toList (':' :: (member.2.compact ++ rest))
  have htext : memberText member ++ rest = '"' :: tail := by
    rw [← htail, memberText, List.append_assoc, List.cons_append]
  rw [htext, member?, skip_cons (by decide)]
  simp [hstring, skip_cons (show isSpace ':' = false by decide), hvalue]

/-- What is no string, array or object is a word or a number. -/
theorem value?_other {c : Char} (hspace : isSpace c = false) (hquote : c ≠ '"') (harr : c ≠ '[')
    (hobj : c ≠ '\x7b') (depth : Nat) (rest : List Char) :
    value? (depth + 1) (c :: rest) = (word? (c :: rest)).or (numeral? (c :: rest)) := by
  rw [value?, skip_cons hspace]
  split
  · rename_i h; exact absurd (List.cons.inj h).1 hquote
  · rename_i h; exact absurd (List.cons.inj h).1 harr
  · rename_i h; exact absurd (List.cons.inj h).1 hobj
  · rfl

theorem value?_word {word : List Char} {doc : Json} (h : (word, doc) ∈ words) (depth : Nat)
    (rest : List Char) : value? (depth + 1) (word ++ rest) = some (doc, rest) := by
  have hother : value? (depth + 1) (word ++ rest) =
      (word? (word ++ rest)).or (numeral? (word ++ rest)) := by
    simp only [words, List.mem_cons, Prod.mk.injEq, List.not_mem_nil, or_false] at h
    rcases h with ⟨rfl, -⟩ | ⟨rfl, -⟩ | ⟨rfl, -⟩
    · exact value?_other (c := 'n') (by decide) (by decide) (by decide) (by decide) _ _
    · exact value?_other (c := 't') (by decide) (by decide) (by decide) (by decide) _ _
    · exact value?_other (c := 'f') (by decide) (by decide) (by decide) (by decide) _ _
  rw [hother, word?_of_mem h]
  rfl

theorem value?_toDigits (n depth : Nat) {rest : List Char} (hrest : Stops rest) :
    value? (depth + 1) (Nat.toDigits 10 n ++ rest) = some (.num n, rest) := by
  obtain ⟨c, tail, hc, hdigit⟩ := toDigits_eq_cons n
  have hne {mark : Char} (hmark : mark.isDigit = false) : c ≠ mark := ne_of_isDigit hdigit hmark
  have hread := numeral?_toDigits hrest n
  rw [hc, List.cons_append] at hread ⊢
  rw [value?_other (not_isSpace_of_isDigit hdigit) (hne (by decide)) (hne (by decide))
    (hne (by decide)), word?_digit hdigit, hread]
  rfl

/-- A document is read back wherever a number in its place would end. The induction is on the
    depth that is left, for whatever is in an array or an object is shorter than it. -/
theorem value?_compact {depth : Nat} {doc : Json} (hdepth : doc.compact.length ≤ depth)
    {rest : List Char} (hrest : Stops rest) :
    value? depth (doc.compact ++ rest) = some (doc, rest) := by
  induction depth generalizing doc rest with
  | zero =>
    obtain ⟨c, tail, hc, -⟩ := begins_compact doc
    rw [hc] at hdepth
    cases hdepth
  | succ depth ih =>
    cases doc with
    | null => exact value?_word (by simp [words, compact]) depth rest
    | bool b => cases b <;> exact value?_word (by simp [words, compact]) depth rest
    | num n => exact value?_toDigits n depth hrest
    | str s =>
      obtain ⟨tail, htail, hstring⟩ := string?_quote s.toList rest
      rw [compact, htail, value?, skip_cons (by decide)]
      simp [hstring]
    | arr items =>
      rw [compact, compactItems_eq, List.length_cons, List.length_append] at hdepth
      have hitems : enclosed? (value? depth) ']'
          ([','].intercalate (items.map compact) ++ ']' :: rest) = some (items, rest) := by
        refine enclosed?_intercalate ⟨by decide, by decide, by decide⟩ ?_ ?_
        · intro item hitem rest hrest
          have hlength := length_le_of_mem compact hitem
          exact ih (by omega) hrest
        · exact fun item _ => begins_compact item
      rw [compact, compactItems_eq, List.cons_append, List.append_assoc, List.singleton_append,
        value?, skip_cons (by decide)]
      simp [hitems]
    | obj members =>
      rw [compact, compactMembers_eq, List.length_cons, List.length_append] at hdepth
      have hmembers : enclosed? (member? (value? depth)) '\x7d'
          ([','].intercalate (members.map memberText) ++ '\x7d' :: rest) =
            some (members, rest) := by
        refine enclosed?_intercalate ⟨by decide, by decide, by decide⟩ ?_ ?_
        · intro member hmember rest hrest
          have hlength := length_le_of_mem memberText hmember
          rw [memberText, List.length_append, List.length_cons] at hlength
          exact member?_memberText (ih (by omega) hrest)
        · exact fun member _ => ⟨_, _, rfl, by decide, by decide⟩
      rw [compact, compactMembers_eq, List.cons_append, List.append_assoc, List.singleton_append,
        value?, skip_cons (by decide)]
      simp [hmembers]

/-- The compact text of a document is that document. -/
theorem read?_compact (doc : Json) : read? doc.compact = some doc := by
  have hvalue : value? doc.compact.length (doc.compact ++ []) = some (doc, []) :=
    value?_compact (Nat.le_refl _) (by rintro c ⟨⟩)
  rw [List.append_nil] at hvalue
  rw [read?, hvalue]
  rfl

-- blanks do no harm, but a comma too many does, and a needless zero
example : (read? [' ', '[', '1', ' ', ',', '0', ']']).map compact = some ['[', '1', ',', '0', ']'] ∧
    (read? ['[', '0', ',', ']']).isNone ∧ (read? ['0', '1']).isNone := by decide

theorem ofOctets?_encode (doc : Json) : ofOctets? (Utf8.encode doc.compact) = some doc := by
  have htext : Utf8.decode? (Utf8.encode doc.compact) = some (String.ofList doc.compact) := by
    rw [Utf8.decode?, Utf8.decodeLossy_encode]
    exact if_pos rfl
  rw [ofOctets?, htext]
  show read? (String.ofList doc.compact).toList = _
  rw [String.toList_ofList, read?_compact]

/-! ## No control characters -/

/-- A text with no character below 0x20. -/
def Printable (text : List Char) : Prop := ∀ c ∈ text, 0x20 ≤ c.toNat

instance (text : List Char) : Decidable (Printable text) :=
  List.decidableBAll (fun c : Char => 0x20 ≤ c.toNat) text

theorem Printable.append {first second : List Char} (hfirst : Printable first)
    (hsecond : Printable second) : Printable (first ++ second) :=
  fun c hc => (List.mem_append.mp hc).elim (hfirst c) (hsecond c)

theorem Printable.cons {c : Char} {text : List Char} (hc : 0x20 ≤ c.toNat)
    (htext : Printable text) : Printable (c :: text) :=
  List.forall_mem_cons.mpr ⟨hc, htext⟩

theorem printable_escapeChar (c : Char) : Printable (escapeChar c) := by
  unfold escapeChar
  split_ifs with hquote hmark hn hr ht hb hf hcontrol
  case pos => decide
  case pos => decide
  case pos => decide
  case pos => decide
  case pos => decide
  case pos => decide
  case pos => decide
  case pos =>
    have hhex : ∀ n < 0x20,
        Printable ['\\', 'u', '0', '0', hexDigit (n / 16), hexDigit (n % 16)] := by decide
    exact hhex _ hcontrol
  case neg => exact .cons (Nat.le_of_not_lt hcontrol) (fun _ h => by cases h)

theorem printable_quote (s : List Char) : Printable (quote s) := by
  refine .cons (by decide) (.append ?_ (by decide))
  intro d hd
  obtain ⟨c, -, hd⟩ := List.mem_flatMap.mp hd
  exact printable_escapeChar c d hd

theorem printable_toDigits (n : Nat) : Printable (Nat.toDigits 10 n) := fun c hc =>
  Nat.le_trans (by decide) (isDigit_iff.mp (isDigit_of_mem_toDigits hc)).1

mutual

theorem printable_compact : (doc : Json) → Printable doc.compact
  | .null => by decide
  | .bool true => by decide
  | .bool false => by decide
  | .num n => printable_toDigits n
  | .str s => printable_quote s.toList
  | .arr items => .cons (by decide) ((printable_compactItems items).append (by decide))
  | .obj members => .cons (by decide) ((printable_compactMembers members).append (by decide))

theorem printable_compactItems : (items : List Json) → Printable (compactItems items)
  | [] => by decide
  | [item] => printable_compact item
  | item :: next :: more =>
    (printable_compact item).append (.cons (by decide) (printable_compactItems (next :: more)))

theorem printable_compactMembers :
    (members : List (String × Json)) → Printable (compactMembers members)
  | [] => by decide
  | [(name, value)] =>
    (printable_quote name.toList).append (.cons (by decide) (printable_compact value))
  | (name, value) :: next :: more =>
    (printable_quote name.toList).append (.cons (by decide) ((printable_compact value).append
      (.cons (by decide) (printable_compactMembers (next :: more)))))

end

/-- Nor do its octets hold a control: those of a character beyond 0x7F are above them all. -/
theorem le_toNat_of_mem_encode {text : List Char} (h : Printable text) {b : UInt8}
    (hb : b ∈ Utf8.encode text) : 0x20 ≤ b.toNat := by
  have hofNat {n : Nat} (hlow : 0x20 ≤ n) (hhigh : n < 256) : 0x20 ≤ (UInt8.ofNat n).toNat := by
    rw [Octets.toNat_ofNat]
    omega
  obtain ⟨c, hmem, hb⟩ := List.mem_flatMap.mp hb
  have hc : 0x20 ≤ c.val.toNat := h c hmem
  rw [String.utf8EncodeChar] at hb
  generalize c.val.toNat = v at hb hc
  change b ∈ (if v ≤ 127 then _ else _) at hb
  split_ifs at hb with h1 h2 h3 <;>
    simp only [List.mem_cons, List.not_mem_nil, or_false] at hb
  · rw [hb]
    exact hofNat hc (by omega)
  · rcases hb with rfl | rfl <;> exact hofNat (by omega) (by omega)
  · rcases hb with rfl | rfl | rfl <;> exact hofNat (by omega) (by omega)
  · rcases hb with rfl | rfl | rfl | rfl <;> exact hofNat (by omega) (by omega)

end PassiveDns.Text.Json
