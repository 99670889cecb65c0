/-
  PassiveDns.Proofs.Table

  What a look-up says about the entries of a table, and sums over its values.
-/
import Mathlib.Order.Basic
import Mathlib.Tactic.Common
import PassiveDns.Proofs.Lists
import PassiveDns.Table

namespace PassiveDns.Table

variable {κ ν : Type} [DecidableEq κ]

theorem mem_of_get? {table : Table κ ν} {key : κ} {value : ν} (h : table.get? key = some value) :
    (key, value) ∈ table.entries := by
  obtain ⟨⟨k, v⟩, hfind, rfl⟩ := Option.map_eq_some_iff.mp h
  have hkey : k = key := by simpa using List.find?_some hfind
  rw [← hkey]
  exact List.mem_of_find?_eq_some hfind

/-- A key has the value of its entry: there is no other. -/
theorem get?_of_mem {table : Table κ ν} {key : κ} {value : ν} (h : (key, value) ∈ table.entries) :
    table.get? key = some value := by
  obtain ⟨entries, distinct⟩ := table
  show (entries.find? fun entry => entry.1 = key).map Prod.snd = some value
  induction entries with
  | nil => cases h
  | cons entry rest ih =>
    rw [List.map_cons, List.nodup_cons] at distinct
    rcases List.mem_cons.mp h with rfl | hrest
    · rw [List.find?_cons_of_pos (by simp)]
      rfl
    · have hne : entry.1 ≠ key := by
        intro heq
        exact distinct.1 (heq ▸ List.mem_map_of_mem hrest)
      rw [List.find?_cons_of_neg (by simpa using hne)]
      exact ih distinct.2 hrest

theorem get?_eq_none_iff {table : Table κ ν} {key : κ} :
    table.get? key = none ↔ ∀ entry ∈ table.entries, entry.1 ≠ key := by
  show (table.entries.find? _).map Prod.snd = none ↔ _
  rw [Option.map_eq_none_iff, List.find?_eq_none]
  simp

omit [DecidableEq κ] in
theorem mem_filter {table : Table κ ν} {keep : κ → ν → Bool} {entry : κ × ν} :
    entry ∈ (table.filter keep).entries ↔ entry ∈ table.entries ∧ keep entry.1 entry.2 = true :=
  List.mem_filter

theorem get?_filter (table : Table κ ν) (keep : κ → ν → Bool) (key : κ) :
    (table.filter keep).get? key = (table.get? key).filter (keep key) := by
  cases hget : table.get? key with
  | none =>
    rw [Option.filter_none]
    rw [get?_eq_none_iff] at hget ⊢
    intro entry hentry
    exact hget entry (mem_filter.mp hentry).1
  | some value =>
    have hmem := mem_of_get? hget
    by_cases hkeep : keep key value = true
    · rw [Option.filter_some_pos hkeep]
      exact get?_of_mem (mem_filter.mpr ⟨hmem, hkeep⟩)
    · rw [Option.filter_some_neg (Bool.not_eq_true _ ▸ hkeep), get?_eq_none_iff]
      rintro ⟨k, v⟩ hentry rfl
      -- the key has no other value
      obtain ⟨hother, hkept⟩ := mem_filter.mp hentry
      rw [get?_of_mem hother] at hget
      obtain rfl := Option.some.inj hget
      exact hkeep hkept

theorem contains_filter {table : Table κ ν} {keep : κ → ν → Bool} {key : κ}
    (h : (table.filter keep).contains key = true) : table.contains key = true := by
  unfold contains at h ⊢
  rw [get?_filter] at h
  cases hget : table.get? key with
  | none => simp [hget] at h
  | some value => rfl

theorem mem_set {table : Table κ ν} {key : κ} {value : ν} {entry : κ × ν} :
    entry ∈ (table.set key value).entries ↔
      (entry ∈ table.entries ∧ entry.1 ≠ key) ∨ entry = (key, value) := by
  show entry ∈ (table.erase key).entries ++ [(key, value)] ↔ _
  rw [List.mem_append, List.mem_singleton]
  refine or_congr ?_ Iff.rfl
  show entry ∈ table.entries.filter _ ↔ _
  rw [List.mem_filter, decide_eq_true_iff]

/-! ## Setting and erasing -/

omit [DecidableEq κ] in
theorem eq_of_entries {table other : Table κ ν} (h : table.entries = other.entries) :
    table = other := by
  obtain ⟨entries, distinct⟩ := table
  obtain ⟨others, _⟩ := other
  obtain rfl : entries = others := h
  rfl

theorem erase_of_none {table : Table κ ν} {key : κ} (h : table.get? key = none) :
    table.erase key = table := by
  apply eq_of_entries
  refine List.filter_eq_self.mpr fun entry hentry => ?_
  exact decide_eq_true (get?_eq_none_iff.mp h entry hentry)

theorem set_erase (table : Table κ ν) (key : κ) (value : ν) :
    (table.erase key).set key value = table.set key value := by
  apply eq_of_entries
  show (table.entries.filter _).filter _ ++ _ = table.entries.filter _ ++ _
  rw [List.filter_filter]
  simp only [Bool.and_self]

/-- The entry of a key, and all others. -/
theorem perm_erase {table : Table κ ν} {key : κ} {value : ν} (h : table.get? key = some value) :
    table.entries.Perm ((key, value) :: (table.erase key).entries) := by
  obtain ⟨entries, distinct⟩ := table
  have hmem : (key, value) ∈ entries := mem_of_get? h
  clear h
  show entries.Perm ((key, value) :: entries.filter fun entry => entry.1 ≠ key)
  induction entries with
  | nil => cases hmem
  | cons entry rest ih =>
    rw [List.map_cons, List.nodup_cons] at distinct
    rcases List.mem_cons.mp hmem with rfl | hrest
    · -- no other entry has the key
      have hothers : rest.filter (fun entry => decide (entry.1 ≠ key)) = rest := by
        refine List.filter_eq_self.mpr fun other hother => decide_eq_true fun heq => ?_
        exact distinct.1 (List.mem_map.mpr ⟨other, hother, heq⟩)
      rw [List.filter_cons_of_neg (by simp), hothers]
    · have hne : entry.1 ≠ key := fun heq => distinct.1 (heq ▸ List.mem_map_of_mem hrest)
      rw [List.filter_cons_of_pos (by simpa using hne)]
      exact ((ih distinct.2 hrest).cons entry).trans (List.Perm.swap ..)

/-! ## Sums over the values -/

/-- The sum of a measure over the values of a table. -/
def total (measure : ν → Nat) (table : Table κ ν) : Nat :=
  (table.entries.map fun entry => measure entry.2).sum

theorem total_erase (measure : ν → Nat) (table : Table κ ν) (key : κ) :
    (table.erase key).total measure + ((table.get? key).toList.map measure).sum =
      table.total measure := by
  cases h : table.get? key with
  | none => rw [erase_of_none h, Option.toList_none, List.map_nil, List.sum_nil, Nat.add_zero]
  | some value =>
    have hperm := ((perm_erase h).map fun entry => measure entry.2).sum_nat
    have htotal : table.total measure = _ := hperm
    rw [htotal, List.map_cons, List.sum_cons, Nat.add_comm, Option.toList_some, List.map_cons,
      List.map_nil, List.sum_cons, List.sum_nil, Nat.add_zero]
    rfl

theorem total_set (measure : ν → Nat) (table : Table κ ν) (key : κ) (value : ν) :
    (table.set key value).total measure = (table.erase key).total measure + measure value := by
  show (((table.erase key).entries ++ [(key, value)]).map _).sum = _
  rw [List.map_append, List.sum_append]
  rfl

omit [DecidableEq κ] in
/-- A table falls in two parts. -/
theorem total_filter_add (measure : ν → Nat) (table : Table κ ν) {keep drop : κ → ν → Bool}
    (h : ∀ k v, drop k v = !keep k v) :
    (table.filter keep).total measure + (table.filter drop).total measure =
      table.total measure := by
  have hdrop : table.filter drop = table.filter fun k v => !keep k v := by
    rw [show drop = fun k v => !keep k v from funext fun k => funext (h k)]
  have hperm := ((List.filter_append_perm (fun entry : κ × ν => keep entry.1 entry.2)
    table.entries).map fun entry => measure entry.2).sum_nat
  rw [List.map_append, List.sum_append] at hperm
  rw [hdrop]
  exact hperm

omit [DecidableEq κ] in
theorem total_one (table : Table κ ν) : (table.total fun _ => 1) = table.size := by
  show (table.entries.map fun _ => 1).sum = table.entries.length
  simp

/-- The keys that a filter keeps and those that have no value behind it are all. -/
theorem size_filter_add (table : Table κ ν) (keep : κ → ν → Bool) :
    (table.filter keep).size + (table.filter fun key _ => !(table.filter keep).contains key).size =
      table.size := by
  have hgone : (table.filter fun key _ => !(table.filter keep).contains key) =
      table.filter fun key value => !keep key value := by
    refine eq_of_entries (List.filter_congr fun entry hentry => ?_)
    -- a key has one value, so it is kept with it
    have hget : table.get? entry.1 = some entry.2 := get?_of_mem hentry
    show (!((table.filter keep).get? entry.1).isSome) = _
    rw [get?_filter, hget, Option.isSome_filter]
    rfl
  have htotal := total_filter_add (fun _ => 1) table fun k v => (rfl : (!keep k v) = !keep k v)
  rw [total_one, total_one, total_one] at htotal
  rw [hgone]
  exact htotal

theorem size_erase (table : Table κ ν) (key : κ) :
    (table.erase key).size + (table.get? key).toList.length = table.size := by
  have htotal := total_erase (fun _ => 1) table key
  rw [total_one, total_one] at htotal
  simpa using htotal

theorem size_set (table : Table κ ν) (key : κ) (value : ν) :
    (table.set key value).size = (table.erase key).size + 1 :=
  List.length_append

end PassiveDns.Table
