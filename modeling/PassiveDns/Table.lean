/-
  PassiveDns.Table

  Finite tables with one entry per key. The main statements say what a look-up
  finds after each operation.
-/

namespace PassiveDns

/-- A point on a clock that never goes back, in milliseconds. -/
abbrev Instant := Nat

/-- A finite table. No two entries have the same key; the entry set last stands
    last. -/
structure Table (κ ν : Type) where
  entries : List (κ × ν)
  distinct : (entries.map Prod.fst).Nodup

namespace Table

variable {κ ν : Type} [DecidableEq κ]

/-- The table without entries. -/
def empty : Table κ ν := ⟨[], List.nodup_nil⟩

instance : Inhabited (Table κ ν) := ⟨empty⟩

/-- The value of a key. -/
def get? (table : Table κ ν) (key : κ) : Option ν :=
  (table.entries.find? fun entry => entry.1 = key).map Prod.snd

/-- Whether a key has a value. -/
def contains (table : Table κ ν) (key : κ) : Bool :=
  (table.get? key).isSome

/-- The number of keys. -/
def size (table : Table κ ν) : Nat := table.entries.length

/-- The entries whose key and value satisfy a condition. -/
def filter (table : Table κ ν) (keep : κ → ν → Bool) : Table κ ν where
  entries := table.entries.filter fun entry => keep entry.1 entry.2
  distinct := table.distinct.sublist (List.Sublist.map _ List.filter_sublist)

/-- The table without a key. -/
def erase (table : Table κ ν) (key : κ) : Table κ ν :=
  table.filter fun k _ => k ≠ key

/-- The table in which a key has a new value. -/
def set (table : Table κ ν) (key : κ) (value : ν) : Table κ ν where
  entries := (table.erase key).entries ++ [(key, value)]
  distinct := by
    rw [List.map_append, List.nodup_append]
    refine ⟨(table.erase key).distinct, by simp, ?_⟩
    intro a ha b hb
    obtain ⟨entry, hentry, rfl⟩ := List.mem_map.mp ha
    have hkept := (List.mem_filter.mp hentry).2
    simp only [List.map_cons, List.map_nil, List.mem_singleton] at hb
    subst hb
    simpa using hkept

/-! ## What a look-up finds -/

@[simp] theorem get?_empty (key : κ) : (empty : Table κ ν).get? key = none := rfl

theorem find?_filter_ne (entries : List (κ × ν)) {key other : κ} (h : other ≠ key) :
    (entries.filter fun entry => decide (entry.1 ≠ key)).find? (fun entry => entry.1 = other) =
      entries.find? fun entry => entry.1 = other := by
  rw [List.find?_filter]
  congr 1
  funext entry
  by_cases hother : entry.1 = other
  · simp [hother, h]
  · simp [hother]

@[simp] theorem get?_erase (table : Table κ ν) (key other : κ) :
    (table.erase key).get? other = if other = key then none else table.get? other := by
  unfold get? erase filter
  by_cases h : other = key
  · subst h
    simp only [if_true, Option.map_eq_none_iff, List.find?_eq_none]
    intro entry hentry
    simpa using (List.mem_filter.mp hentry).2
  · simp only [h, if_false]
    rw [find?_filter_ne _ h]

@[simp] theorem get?_set (table : Table κ ν) (key other : κ) (value : ν) :
    (table.set key value).get? other =
      if other = key then some value else table.get? other := by
  have herase := get?_erase table key other
  unfold get? at herase ⊢
  unfold set
  rw [List.find?_append, Option.map_or, herase]
  by_cases h : other = key
  · subst h
    simp
  · simp [h, Ne.symm h]

end Table

end PassiveDns
