/-
  PassiveDns.Proofs.Ratios

  Which texts are ratios. `Ratio.Written` is their grammar: two numbers of 32 bits with a colon
  between them, in the right order, and blanks around either. Reading accepts these texts and
  no others, and says the two numbers (`parsed_exactly`).
-/
import Mathlib.Data.List.TakeWhile
import PassiveDns.Config.Settings
import PassiveDns.Proofs.Digits
import PassiveDns.Proofs.Sampling

namespace PassiveDns

namespace Text

/-! ## Blanks at either end -/

/-- Nothing but blanks. -/
def Blank (text : List Char) : Prop := ∀ c ∈ text, isBlank c = true

/-- No blank at either end. -/
structure Stripped (text : List Char) : Prop where
  head : ∀ c, text.head? = some c → isBlank c = false
  last : ∀ c, text.getLast? = some c → isBlank c = false

section Trim

variable {front core back text : List Char}

theorem Blank.append {first second : List Char} (hfirst : Blank first) (hsecond : Blank second) :
    Blank (first ++ second) := fun c hc =>
  (List.mem_append.mp hc).elim (hfirst c) (hsecond c)

theorem blank_nil : Blank [] := fun _ hc => absurd hc List.not_mem_nil

theorem Blank.reverse (h : Blank text) : Blank text.reverse := fun c hc =>
  h c (List.mem_reverse.mp hc)

theorem blank_takeWhile (text : List Char) : Blank (text.takeWhile isBlank) := fun _ hc =>
  List.mem_takeWhile_imp hc

/-- What stands between two texts does not matter. -/
theorem Stripped.between {first last : List Char} (hfirst : Stripped first) (hne : first ≠ [])
    (hlast : Stripped last) (hne' : last ≠ []) (middle : List Char) :
    Stripped (first ++ middle ++ last) where
  head := by
    rw [List.append_assoc, List.head?_append_of_ne_nil first hne]
    exact hfirst.head
  last := by
    rw [List.getLast?_append_of_ne_nil (first ++ middle) hne']
    exact hlast.last

/-- What begins with no blank keeps its front. -/
theorem dropWhile_of_head (h : ∀ c, text.head? = some c → isBlank c = false) :
    text.dropWhile isBlank = text := by
  cases text with
  | nil => rfl
  | cons c text => exact List.dropWhile_cons_of_neg (by rw [h c rfl]; exact Bool.false_ne_true)

theorem dropWhile_blank (h : Blank front) (text : List Char) :
    (front ++ text).dropWhile isBlank = text.dropWhile isBlank :=
  List.dropWhile_append_of_pos h

/-- Blanks at the ends are taken off. -/
theorem trim_surrounded (hfront : Blank front) (hcore : Stripped core) (hback : Blank back) :
    trim (front ++ core ++ back) = core := by
  rw [trim, List.append_assoc, dropWhile_blank hfront]
  by_cases hnil : core = []
  · have hall : back.dropWhile isBlank = [] := List.dropWhile_eq_nil_iff.mpr hback
    rw [hnil, List.nil_append, hall]
    rfl
  · -- the front ends with the first character, and then the back with the last one
    have hhead : ∀ c, (core ++ back).head? = some c → isBlank c = false := by
      rw [List.head?_append_of_ne_nil core hnil]
      exact hcore.head
    have hlast : ∀ c, core.reverse.head? = some c → isBlank c = false := by
      rw [List.head?_reverse]
      exact hcore.last
    rw [dropWhile_of_head hhead, List.reverse_append, dropWhile_blank hback.reverse,
      dropWhile_of_head hlast, List.reverse_reverse]

/-- Nothing else is. -/
theorem exists_surrounded (text : List Char) :
    ∃ front back, Blank front ∧ Blank back ∧ text = front ++ trim text ++ back := by
  let rest := text.dropWhile isBlank
  refine ⟨text.takeWhile isBlank, (rest.reverse.takeWhile isBlank).reverse, blank_takeWhile text,
    (blank_takeWhile rest.reverse).reverse, ?_⟩
  have hrest : trim text ++ (rest.reverse.takeWhile isBlank).reverse = rest := by
    rw [trim, ← List.reverse_append, List.takeWhile_append_dropWhile, List.reverse_reverse]
  rw [List.append_assoc, hrest, List.takeWhile_append_dropWhile]

end Trim

/-! ## Two pieces -/

/-- A text without its separator is one piece. -/
theorem splitOn_of_not_mem {sep : Char} {text : List Char} (h : sep ∉ text) :
    splitOn sep text = [text] := by
  induction text with
  | nil => rfl
  | cons c text ih =>
    obtain ⟨hc, htext⟩ := not_or.mp fun hmem => h (List.mem_cons.mpr hmem)
    rw [splitOn, if_neg (Ne.symm hc), ih htext]

/-- A text has two pieces if its separator stands in one place. -/
theorem splitOn_eq_pair_iff {sep : Char} {text first second : List Char} :
    splitOn sep text = [first, second] ↔
      text = first ++ sep :: second ∧ sep ∉ first ∧ sep ∉ second := by
  constructor
  · intro h
    have hjoined := intercalate_splitOn sep text
    rw [h] at hjoined
    refine ⟨?_, not_mem_of_mem_splitOn (h ▸ List.mem_cons_self),
      not_mem_of_mem_splitOn (h ▸ List.mem_cons_of_mem _ List.mem_cons_self)⟩
    rw [← hjoined]
    simp [List.intercalate]
  · rintro ⟨rfl, hfirst, hsecond⟩
    rw [splitOn_append_cons hfirst, splitOn_of_not_mem hsecond]

end Text

namespace Config

open Text (Blank Stripped isBlank trim)

/-! ## Numbers of 32 bits -/

/-- A number of 32 bits as it may be written: decimal digits, at least one, with any zeros and
    at most one plus sign in front. -/
inductive Numeral : List Char → Nat → Prop
  | plain {digits : List Char} (some : digits ≠ []) (decimal : ∀ c ∈ digits, c.isDigit = true)
    (fits : Nat.ofDigitChars 10 digits 0 < 4294967296) :
    Numeral digits (Nat.ofDigitChars 10 digits 0)
  | signed {digits : List Char} (some : digits ≠ []) (decimal : ∀ c ∈ digits, c.isDigit = true)
    (fits : Nat.ofDigitChars 10 digits 0 < 4294967296) :
    Numeral ('+' :: digits) (Nat.ofDigitChars 10 digits 0)

section Numeral

variable {text : List Char} {n : Nat}

theorem word?_signed (digits : List Char) :
    word? ('+' :: digits) = (Text.number? 10 digits).filter (· < 4294967296) := rfl

theorem word?_plain (h : ∀ rest, text ≠ '+' :: rest) :
    word? text = (Text.number? 10 text).filter (· < 4294967296) := by
  rw [word?, unsigned?]
  exact h

/-- What is behind the sign, or there is none. -/
theorem number?_filter_iff {digits : List Char} :
    (Text.number? 10 digits).filter (· < 4294967296) = some n ↔
      digits ≠ [] ∧ (∀ c ∈ digits, c.isDigit = true) ∧
        n = Nat.ofDigitChars 10 digits 0 ∧ n < 4294967296 := by
  rw [Option.filter_eq_some_iff, Text.number?_ten_iff, decide_eq_true_eq, and_assoc, and_assoc]

/-- Numbers are read as they may be written. -/
theorem word?_eq_some_iff : word? text = some n ↔ Numeral text n := by
  constructor
  · intro h
    by_cases hsign : ∃ rest, text = '+' :: rest
    · obtain ⟨digits, rfl⟩ := hsign
      rw [word?_signed] at h
      obtain ⟨hne, hdigits, rfl, hfits⟩ := number?_filter_iff.mp h
      exact .signed hne hdigits hfits
    · rw [word?_plain fun rest hrest => hsign ⟨rest, hrest⟩] at h
      obtain ⟨hne, hdigits, rfl, hfits⟩ := number?_filter_iff.mp h
      exact .plain hne hdigits hfits
  · intro h
    cases h with
    | plain hne hdigits hfits =>
      -- a sign is no digit
      have hsign : ∀ rest, text ≠ '+' :: rest := by
        rintro rest rfl
        exact absurd (hdigits '+' List.mem_cons_self) (by decide)
      rw [word?_plain hsign]
      exact number?_filter_iff.mpr ⟨hne, hdigits, rfl, hfits⟩
    | signed hne hdigits hfits =>
      rw [word?_signed]
      exact number?_filter_iff.mpr ⟨hne, hdigits, rfl, hfits⟩

/-- A number is digits and a sign, if any. -/
theorem Numeral.cases (h : Numeral text n) :
    text ≠ [] ∧ ∀ c ∈ text, c.isDigit = true ∨ c = '+' := by
  cases h with
  | plain hne hdigits => exact ⟨hne, fun c hc => .inl (hdigits c hc)⟩
  | signed _ hdigits =>
    refine ⟨List.cons_ne_nil _ _, fun c hc => ?_⟩
    rcases List.mem_cons.mp hc with rfl | hc
    · exact .inr rfl
    · exact .inl (hdigits c hc)

theorem isBlank_of_isDigit {c : Char} (h : c.isDigit = true) : isBlank c = false := by
  have hc := Text.isDigit_iff.mp h
  simp [isBlank]
  omega

theorem Numeral.not_blank (h : Numeral text n) {c : Char} (hc : c ∈ text) : isBlank c = false := by
  rcases h.cases.2 c hc with hdigit | rfl
  · exact isBlank_of_isDigit hdigit
  · rfl

theorem no_colon_of_blank (h : Blank text) : ':' ∉ text := fun hc =>
  absurd (h ':' hc) (by decide)

theorem Numeral.no_colon (h : Numeral text n) : ':' ∉ text := by
  intro hc
  rcases h.cases.2 ':' hc with hdigit | hsign
  · exact absurd hdigit (by decide)
  · exact absurd hsign (by decide)

theorem Numeral.stripped (h : Numeral text n) : Stripped text :=
  ⟨fun _ hc => h.not_blank (List.mem_of_mem_head? hc),
    fun _ hc => h.not_blank (List.mem_of_mem_getLast? hc)⟩

/-- The digits of a number that fits. -/
theorem numeral_toDigits (h : n < 4294967296) : Numeral (Nat.toDigits 10 n) n := by
  have hvalue : Nat.ofDigitChars 10 (Nat.toDigits 10 n) 0 = n :=
    Nat.ofDigitChars_toDigits (by decide) (by decide)
  have hnumeral : Numeral (Nat.toDigits 10 n) (Nat.ofDigitChars 10 (Nat.toDigits 10 n) 0) :=
    .plain Nat.toDigits_ne_nil (fun _ => Text.isDigit_of_mem_toDigits) (by rwa [hvalue])
  rwa [hvalue] at hnumeral

end Numeral

namespace Ratio

variable {text : String} {ratio : Ratio}

/-! ## The grammar -/

/-- A text that says a ratio: its numbers with a colon between them, and blanks in front of and
    behind either. The first number is not above the second, which is not zero. -/
inductive Written (ratio : Ratio) : List Char → Prop
  | intro {a accept b c outOf d : List Char} (ha : Blank a) (hb : Blank b) (hc : Blank c)
    (hd : Blank d) (first : Numeral accept ratio.accept) (second : Numeral outOf ratio.outOf)
    (proper : ratio.Proper) : Written ratio (a ++ accept ++ b ++ ':' :: (c ++ outOf ++ d))

/-- What is read, by the pieces around the colon. -/
theorem parse_eq_ok_iff :
    parse text = .ok ratio ↔ ∃ first second, Text.splitOn ':' (trim text.toList) = [first, second] ∧
      word? (trim first) = some ratio.accept ∧ word? (trim second) = some ratio.outOf ∧
      ratio.Proper := by
  rw [parse]
  constructor
  · intro h
    split at h
    · rename_i first second hpieces
      split at h
      · cases h
      · cases h
      · rename_i accept outOf haccept houtOf
        split_ifs at h with hzero hlarge
        obtain rfl := Except.ok.inj h
        exact ⟨first, second, hpieces, haccept, houtOf, Nat.pos_of_ne_zero hzero,
          Nat.le_of_not_lt hlarge⟩
    · cases h
  · rintro ⟨first, second, hpieces, haccept, houtOf, hpositive, hle⟩
    rw [hpieces]
    dsimp only
    rw [haccept, houtOf]
    dsimp only
    rw [if_neg (Nat.ne_of_gt hpositive), if_neg (Nat.not_lt_of_le hle)]

theorem parse_of_written (h : ratio.Written text.toList) : parse text = .ok ratio := by
  generalize htext : text.toList = written at h
  cases h with
  | @intro a accept b c outOf d ha hb hc hd hfirst hsecond proper =>
    -- the outer blanks are taken off, for a number stands at either end
    have hcore := hfirst.stripped.between hfirst.cases.1 hsecond.stripped hsecond.cases.1
      (b ++ ':' :: c)
    have houter : trim text.toList = (accept ++ b) ++ ':' :: (c ++ outOf) := by
      have htrim := Text.trim_surrounded ha hcore hd
      simp only [List.append_assoc, List.cons_append] at htrim htext ⊢
      rw [htext, htrim]
    have hbefore : ':' ∉ accept ++ b := fun hmem =>
      (List.mem_append.mp hmem).elim hfirst.no_colon (no_colon_of_blank hb)
    have hbehind : ':' ∉ c ++ outOf := fun hmem =>
      (List.mem_append.mp hmem).elim (no_colon_of_blank hc) hsecond.no_colon
    refine parse_eq_ok_iff.mpr ⟨accept ++ b, c ++ outOf,
      Text.splitOn_eq_pair_iff.mpr ⟨houter, hbefore, hbehind⟩, ?_, ?_, proper⟩
    · have htrim := Text.trim_surrounded Text.blank_nil hfirst.stripped hb
      rw [List.nil_append] at htrim
      rw [htrim]
      exact word?_eq_some_iff.mpr hfirst
    · have htrim := Text.trim_surrounded hc hsecond.stripped Text.blank_nil
      rw [List.append_nil] at htrim
      rw [htrim]
      exact word?_eq_some_iff.mpr hsecond

theorem written_of_parse (h : parse text = .ok ratio) : ratio.Written text.toList := by
  obtain ⟨first, second, hpieces, haccept, houtOf, proper⟩ := parse_eq_ok_iff.mp h
  have hwhole := (Text.splitOn_eq_pair_iff.mp hpieces).1
  obtain ⟨front, back, hfront, hback, htext⟩ := Text.exists_surrounded text.toList
  obtain ⟨a, b, ha, hb, hfirst⟩ := Text.exists_surrounded first
  obtain ⟨c, d, hc, hd, hsecond⟩ := Text.exists_surrounded second
  have hwritten : Written ratio (front ++ a ++ trim first ++ b ++
      ':' :: (c ++ trim second ++ (d ++ back))) :=
    .intro (hfront.append ha) hb hc (hd.append hback) (word?_eq_some_iff.mp haccept)
      (word?_eq_some_iff.mp houtOf) proper
  have hsame : text.toList = front ++ a ++ trim first ++ b ++
      ':' :: (c ++ trim second ++ (d ++ back)) := by
    calc text.toList = front ++ trim text.toList ++ back := htext
      _ = front ++ ((a ++ trim first ++ b) ++ ':' :: (c ++ trim second ++ d)) ++ back := by
        rw [hwhole, ← hfirst, ← hsecond]
      _ = _ := by simp only [List.append_assoc, List.cons_append]
  rwa [hsame]

/-! ## Reading -/

/-- The text of a ratio with more around its numbers. -/
def spaced (ratio : Ratio) (a b c d : List Char) : String :=
  String.ofList (a ++ (toString ratio.accept).toList ++ b ++
    ':' :: (c ++ (toString ratio.outOf).toList ++ d))

theorem text_eq_spaced (ratio : Ratio) : ratio.text = ratio.spaced [] [] [] [] := by
  apply String.toList_injective
  simp [Ratio.text, spaced]

/-- The digits of a ratio say it. -/
theorem written_spaced (proper : ratio.Proper) (hfits : ratio.outOf < 4294967296)
    {a b c d : List Char} (ha : Blank a) (hb : Blank b) (hc : Blank c) (hd : Blank d) :
    ratio.Written (ratio.spaced a b c d).toList := by
  have haccept := numeral_toDigits (Nat.lt_of_le_of_lt proper.accept_le hfits)
  have houtOf := numeral_toDigits hfits
  rw [spaced, String.toList_ofList, Nat.toString_eq_repr, Nat.toString_eq_repr, Nat.toList_repr,
    Nat.toList_repr]
  exact .intro ha hb hc hd haccept houtOf proper

/-- No settings are refused for this ratio, whatever else they say. -/
def Passes (ratio : Ratio) : Prop :=
  ∀ (settings : Settings) (error : RatioError),
    { settings with ratio }.validate ≠ .error (.ratio error)

theorem passes_iff : ratio.Passes ↔ ratio.Proper := by
  constructor
  · intro h
    -- the defaults have no other fault
    have hdefaults := h {} ⟨ratio.text, .acceptTooLarge⟩
    by_contra hnot
    refine hdefaults (if_pos ?_)
    show ratio.outOf = 0 ∨ ratio.outOf < ratio.accept
    by_contra hproper
    exact hnot ⟨by omega, by omega⟩
  · intro proper settings error h
    have hproper : ¬(ratio.outOf = 0 ∨ ratio.outOf < ratio.accept) := by
      have := proper.positive
      have := proper.accept_le
      omega
    rw [Settings.validate] at h
    split at h
    · cases h
    · dsimp only at h
      rw [if_neg hproper] at h
      split_ifs at h <;> cases h

/-- **Ratios are read exactly.** A text is read as a ratio exactly if it is two decimal numbers of
    32 bits with a colon between them, with or without blanks around either, of which the second
    is at least one and the first at most the second. What is read passes the test of the
    settings, and each ratio of 32 bits that passes is read from its text, and from its numbers
    with whatever blanks around them. -/
theorem parsed_exactly (text : String) (ratio : Ratio) :
    (parse text = .ok ratio ↔ ratio.Written text.toList) ∧
      (parse text = .ok ratio → ratio.Passes) ∧
      (ratio.Passes → ratio.outOf < 4294967296 →
        parse ratio.text = .ok ratio ∧
          ∀ a b c d : List Char, Blank a → Blank b → Blank c → Blank d →
            parse (ratio.spaced a b c d) = .ok ratio) := by
  refine ⟨⟨written_of_parse, parse_of_written⟩, fun h => ?_, fun hpasses hfits => ?_⟩
  · obtain ⟨_, _, -, -, -, proper⟩ := parse_eq_ok_iff.mp h
    exact passes_iff.mpr proper
  · have proper := passes_iff.mp hpasses
    have hspaced (a b c d : List Char) (ha : Blank a) (hb : Blank b) (hc : Blank c)
        (hd : Blank d) : parse (ratio.spaced a b c d) = .ok ratio :=
      parse_of_written (written_spaced proper hfits ha hb hc hd)
    refine ⟨?_, hspaced⟩
    rw [text_eq_spaced]
    exact hspaced [] [] [] [] Text.blank_nil Text.blank_nil Text.blank_nil Text.blank_nil

/-- Zeros and a sign in front, and blanks. -/
example : parse " +007 :\t10 " = .ok ⟨7, 10⟩ := by decide

/-- One more than 32 bits hold. -/
example : parse "1:4294967296" = .error ⟨"1:4294967296", .outOfNotANumber⟩ := by decide

end Ratio

end Config

end PassiveDns
