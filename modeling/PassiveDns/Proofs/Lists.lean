/-
  PassiveDns.Proofs.Lists

  Lists whose members have keys, and sums over lists of which one member changes.
-/
import Mathlib.Algebra.GroupWithZero.Nat
import Mathlib.Data.List.Perm.Basic
import Mathlib.Order.Basic
import Mathlib.Tactic.Common

namespace PassiveDns

variable {α β κ : Type}

/-! ## Keys -/

section Keys

variable [DecidableEq κ]

/-- Each member is in the part of its own key, and there only. -/
theorem perm_flatMap_filter (key : α → κ) {keys : List κ} (distinct : keys.Nodup) {members : List α}
    (h : ∀ a ∈ members, key a ∈ keys) :
    members.Perm (keys.flatMap fun k => members.filter fun a => key a = k) := by
  induction keys generalizing members with
  | nil =>
    rw [List.eq_nil_iff_forall_not_mem.mpr fun a ha => absurd (h a ha) List.not_mem_nil]
    exact List.Perm.refl _
  | cons k rest ih =>
    obtain ⟨hk, distinct⟩ := List.nodup_cons.mp distinct
    have hothers : ∀ a ∈ members.filter fun a => !decide (key a = k), key a ∈ rest := by
      intro a ha
      obtain ⟨ha, hne⟩ := List.mem_filter.mp ha
      rcases List.mem_cons.mp (h a ha) with heq | hrest
      · simp [heq] at hne
      · exact hrest
    -- the parts of the other keys have no member of this one
    have hparts : (rest.flatMap fun k' => (members.filter fun a => !decide (key a = k)).filter
          fun a => key a = k') = rest.flatMap fun k' => members.filter fun a => key a = k' := by
      refine List.flatMap_congr fun k' hk' => ?_
      rw [List.filter_filter]
      refine List.filter_congr fun a _ => ?_
      by_cases heq : key a = k'
      · have hne : k' ≠ k := fun hkk => hk (hkk ▸ hk')
        simp [heq, hne]
      · simp [heq]
    rw [List.flatMap_cons, ← hparts]
    have hrest := ih distinct hothers
    exact (List.filter_append_perm _ members).symm.trans (hrest.append_left _)

/-- Members of pairwise different keys, grouped: the part of a key is its group. -/
theorem filter_flatMap_of_distinct (key : β → κ) {groups : List α} (keyOf : α → κ)
    (members : α → List β) (distinct : (groups.map keyOf).Nodup)
    (h : ∀ group ∈ groups, ∀ b ∈ members group, key b = keyOf group) {group : α}
    (hgroup : group ∈ groups) :
    (groups.flatMap members).filter (fun b => key b = keyOf group) = members group := by
  induction groups with
  | nil => cases hgroup
  | cons g rest ih =>
    rw [List.map_cons, List.nodup_cons] at distinct
    rw [List.flatMap_cons, List.filter_append]
    have hrest : ∀ group ∈ rest, ∀ b ∈ members group, key b = keyOf group :=
      fun group hgroup => h group (List.mem_cons_of_mem _ hgroup)
    rcases List.mem_cons.mp hgroup with rfl | hgroup
    · rw [List.filter_eq_self.mpr, List.filter_eq_nil_iff.mpr, List.append_nil]
      · -- a member of a later group has another key
        intro b hb heq
        obtain ⟨other, hother, hb⟩ := List.mem_flatMap.mp hb
        rw [hrest other hother b hb] at heq
        exact distinct.1 (List.mem_map.mpr ⟨other, hother, of_decide_eq_true heq⟩)
      · intro b hb
        exact decide_eq_true (h group (List.mem_cons_self ..) b hb)
    · rw [List.filter_eq_nil_iff.mpr, List.nil_append]
      · exact ih distinct.2 hrest hgroup
      · intro b hb heq
        rw [h g (List.mem_cons_self ..) b hb] at heq
        exact distinct.1 (List.mem_map.mpr ⟨group, hgroup, (of_decide_eq_true heq).symm⟩)

/-- Groups whose members meet a condition all or none. -/
theorem filter_flatMap_of_uniform {groups : List α} {members : α → List β} {p : β → Bool}
    {q : α → Bool} (h : ∀ group ∈ groups, ∀ b ∈ members group, p b = q group) :
    (groups.flatMap members).filter p = (groups.filter q).flatMap members := by
  induction groups with
  | nil => rfl
  | cons g rest ih =>
    have hg := h g (List.mem_cons_self ..)
    rw [List.flatMap_cons, List.filter_append, List.filter_cons,
      ih fun group hgroup => h group (List.mem_cons_of_mem _ hgroup)]
    split
    · rename_i hq
      rw [List.flatMap_cons, List.filter_eq_self.mpr fun b hb => (hg b hb).trans hq]
    · rename_i hq
      rw [List.filter_eq_nil_iff.mpr fun b hb => by rw [hg b hb]; exact hq, List.nil_append]

/-- Where only one key gives something, all is what it gives. -/
theorem flatMap_ite_of_nodup {keys : List κ} (distinct : keys.Nodup) {k : κ} (h : k ∈ keys)
    (f : κ → List α) : (keys.flatMap fun key => if key = k then f key else []) = f k := by
  induction keys with
  | nil => cases h
  | cons key rest ih =>
    obtain ⟨hkey, distinct⟩ := List.nodup_cons.mp distinct
    rw [List.flatMap_cons]
    by_cases heq : key = k
    · -- the key does not come again
      have hrest : (rest.flatMap fun key => if key = k then f key else []) = [] := by
        refine List.flatMap_eq_nil_iff.mpr fun other hother => if_neg fun hk => hkey ?_
        rw [heq, ← hk]
        exact hother
      rw [hrest, if_pos heq, heq, List.append_nil]
    · rw [if_neg heq, List.nil_append]
      exact ih distinct ((List.mem_cons.mp h).resolve_left fun hk => heq hk.symm)

end Keys

/-- Nothing for each member is nothing. -/
@[simp] theorem flatMap_nothing (l : List α) : (l.flatMap fun _ => ([] : List β)) = [] :=
  List.flatMap_eq_nil_iff.mpr fun _ _ => rfl

/-! ## Sums -/

/-- What a condition adds to a count. -/
theorem toNat_decide (condition : Prop) [Decidable condition] :
    (decide condition).toNat = if condition then 1 else 0 := by
  by_cases h : condition
  · rw [if_pos h, decide_eq_true h]
    rfl
  · rw [if_neg h, decide_eq_false h]
    rfl

/-- What a sum becomes when one member is replaced. -/
theorem sum_map_set (f : α → Nat) {l : List α} {index : Nat} {a b : α}
    (h : l[index]? = some a) : ((l.set index b).map f).sum + f a = (l.map f).sum + f b := by
  induction l generalizing index with
  | nil => simp at h
  | cons head rest ih =>
    cases index with
    | zero =>
      rw [List.getElem?_cons_zero] at h
      rw [Option.some.inj h]
      simp only [List.set_cons_zero, List.map_cons, List.sum_cons]
      omega
    | succ index =>
      rw [List.getElem?_cons_succ] at h
      have := ih h
      simp only [List.set_cons_succ, List.map_cons, List.sum_cons]
      omega

/-- What is the same for a member and for what replaces it is the same for all of the list. -/
theorem map_set_of_eq (f : α → β) {l : List α} {index : Nat} {a b : α} (h : l[index]? = some a)
    (hb : f b = f a) : (l.set index b).map f = l.map f := by
  obtain ⟨hindex, rfl⟩ := List.getElem?_eq_some_iff.mp h
  have hlength : index < (l.map f).length := by simpa using hindex
  have hsame : f l[index] = (l.map f)[index] := (List.getElem_map f).symm
  rw [List.map_set, hb, hsame, List.set_getElem_self]

end PassiveDns
