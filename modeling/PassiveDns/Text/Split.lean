/-
  PassiveDns.Text.Split

  Cutting a text at a separator character, and trimming blanks.
-/

namespace PassiveDns.Text

/-- The pieces between the separators, in order; there is always at least one. -/
def splitOn (sep : Char) : List Char → List (List Char)
  | [] => [[]]
  | c :: rest =>
    if c = sep then [] :: splitOn sep rest
    else
      match splitOn sep rest with
      | [] => [[c]]
      | piece :: pieces => (c :: piece) :: pieces

theorem splitOn_ne_nil (sep : Char) (text : List Char) : splitOn sep text ≠ [] := by
  cases text with
  | nil => simp [splitOn]
  | cons c rest =>
    unfold splitOn
    split
    · simp
    · split <;> simp

/-- Nothing is lost: the pieces, joined by the separator, are the text. -/
theorem intercalate_splitOn (sep : Char) (text : List Char) :
    [sep].intercalate (splitOn sep text) = text := by
  induction text with
  | nil => rfl
  | cons c rest ih =>
    unfold splitOn
    have hne := splitOn_ne_nil sep rest
    split
    · rename_i heq
      subst heq
      cases hp : splitOn c rest with
      | nil => exact absurd hp hne
      | cons piece pieces =>
        rw [hp] at ih
        simpa [List.intercalate] using ih
    · cases hp : splitOn sep rest with
      | nil => exact absurd hp hne
      | cons piece pieces =>
        rw [hp] at ih
        -- A character in front of the first piece stands in front of the whole.
        cases pieces with
        | nil => simpa [List.intercalate] using ih
        | cons next others => simpa [List.intercalate] using ih

/-- The pieces are what stands between the separators. -/
theorem not_mem_of_mem_splitOn {sep : Char} {text piece : List Char}
    (h : piece ∈ splitOn sep text) : sep ∉ piece := by
  induction text generalizing piece with
  | nil =>
    rw [splitOn, List.mem_singleton] at h
    rw [h]
    exact List.not_mem_nil
  | cons c rest ih =>
    rw [splitOn] at h
    by_cases hc : c = sep
    · rw [if_pos hc, List.mem_cons] at h
      obtain rfl | h := h
      · exact List.not_mem_nil
      · exact ih h
    · rw [if_neg hc] at h
      cases hp : splitOn sep rest with
      | nil => exact absurd hp (splitOn_ne_nil sep rest)
      | cons first pieces =>
        rw [hp] at h ih
        obtain rfl | h := List.mem_cons.mp h
        · exact List.not_mem_cons_of_ne_of_not_mem (Ne.symm hc) (ih List.mem_cons_self)
        · exact ih (List.mem_cons_of_mem _ h)

/-- What stands in front of a separator is the first piece. -/
theorem splitOn_append_cons {sep : Char} {piece : List Char} (h : sep ∉ piece)
    (rest : List Char) : splitOn sep (piece ++ sep :: rest) = piece :: splitOn sep rest := by
  induction piece with
  | nil => rw [List.nil_append, splitOn, if_pos rfl]
  | cons c piece ih =>
    obtain ⟨hc, hpiece⟩ := not_or.mp fun hmem => h (List.mem_cons.mpr hmem)
    rw [List.cons_append, splitOn, if_neg (Ne.symm hc), ih hpiece]

/-- The Unicode property `White_Space`. -/
def isBlank (c : Char) : Bool :=
  let n := c.toNat
  (9 ≤ n && n ≤ 13) || n = 0x20 || n = 0x85 || n = 0xA0 || n = 0x1680 ||
    (0x2000 ≤ n && n ≤ 0x200A) || n = 0x2028 || n = 0x2029 || n = 0x202F ||
    n = 0x205F || n = 0x3000

/-- The text without the blanks at either end. -/
def trim (text : List Char) : List Char :=
  ((text.dropWhile isBlank).reverse.dropWhile isBlank).reverse

end PassiveDns.Text
