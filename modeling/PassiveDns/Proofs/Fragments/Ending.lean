/-
  PassiveDns.Proofs.Fragments.Ending

  Where a datagram ends. It is complete once a fragment came that is marked as the last
  and the lengths add up to the end of the furthest; whether these two are the same
  fragment is not asked. So a datagram ends with its furthest fragment, and this is the one
  marked as the last exactly if no other starts behind an end that was announced
  (`ends_at_last_iff`). Otherwise what lies behind that end becomes part of the datagram
  (`octets_behind_last`).
-/
import PassiveDns.Proofs.Fragments.Bookkeeping

namespace PassiveDns

/-- No fragment starts behind the end that another one announces. -/
def AgreeOnEnd (fragments : List Fragment) : Prop :=
  ∀ last ∈ fragments, last.more = false → ∀ f ∈ fragments, f ≠ last → f.start < last.stop

instance : DecidablePred AgreeOnEnd := fun fragments =>
  inferInstanceAs (Decidable (∀ last ∈ fragments, last.more = false →
    ∀ f ∈ fragments, f ≠ last → f.start < last.stop))

theorem AgreeOnEnd.mono {fragments others : List Fragment} (h : AgreeOnEnd others)
    (hmem : ∀ f ∈ fragments, f ∈ others) : AgreeOnEnd fragments :=
  fun last hlast hmore f hf hne => h last (hmem last hlast) hmore f (hmem f hf) hne

namespace Datagram

/-- The datagram ends with the furthest of the fragments. -/
def EndsAtFurthest (datagram : Datagram) (fragments : List Fragment) : Prop :=
  ∃ furthest ∈ fragments, (∀ f ∈ fragments, f.offset ≤ furthest.offset) ∧
    furthest.stop = datagram.payload.length

/-- One of the fragments is marked as the last, it is the furthest, and the datagram ends
    with it. -/
def EndsAtLast (datagram : Datagram) (fragments : List Fragment) : Prop :=
  ∃ last ∈ fragments, last.more = false ∧ (∀ f ∈ fragments, f.more = false → f = last) ∧
    (∀ f ∈ fragments, f.offset ≤ last.offset) ∧ last.stop = datagram.payload.length

end Datagram

/-! ## Adjoining fragments -/

section Ending

variable {position : Nat} {front whole : List Fragment} {furthest : Fragment}

/-- Each ends before those behind it start. -/
theorem Adjoining.apart (h : Adjoining position whole) :
    whole.Pairwise fun f g => f.stop ≤ g.start := by
  induction whole generalizing position with
  | nil => exact .nil
  | cons f rest ih =>
    obtain ⟨-, hrest⟩ := h
    exact List.pairwise_cons.mpr ⟨fun g hg => (hrest.bounds g hg).1, ih hrest⟩

/-- All but the one at the end stop before it starts. -/
theorem Adjoining.stop_le (h : Adjoining position (front ++ [furthest])) :
    ∀ f ∈ front, f.stop ≤ furthest.start := fun f hf =>
  (List.pairwise_append.mp h.apart).2.2 f hf furthest (List.mem_singleton_self furthest)

/-- They end where the one at the end does. -/
theorem Adjoining.stop_eq (h : Adjoining position (front ++ [furthest])) :
    furthest.stop = position + sizeOf (front ++ [furthest]) := by
  apply Nat.le_antisymm
  · exact (h.bounds furthest (List.mem_append_right _ (List.mem_singleton_self _))).2
  · apply h.stop_le_iff (List.append_ne_nil_of_right_ne_nil _ (List.cons_ne_nil _ _))
    intro f hf
    rcases List.mem_append.mp hf with hf | hf
    · have hstop := h.stop_le f hf
      have hfurthest : furthest.stop = furthest.start + furthest.payload.length := rfl
      omega
    · obtain rfl := List.mem_singleton.mp hf
      exact Nat.le_refl _

/-! ## Datagrams made of fragments -/

namespace Datagram.MadeOf

variable {datagram : Datagram} {limits : FragmentLimits} {key : FragmentKey}
  {fragments : List Fragment}

/-- One of the fragments is behind all others, and the datagram ends with it. -/
theorem exists_furthest (h : datagram.MadeOf limits key fragments) :
    ∃ furthest ∈ fragments, (∀ f ∈ fragments, f ≠ furthest → f.stop ≤ furthest.start) ∧
      (∀ f ∈ fragments, f ≠ furthest → f.offset < furthest.offset) ∧
      furthest.stop = datagram.payload.length := by
  obtain ⟨whole, hperm, hadjoining, hpayload⟩ := h.tiles
  obtain ⟨first, hfirst, -⟩ := h.head
  have hdistinct : (whole.map Fragment.offset).Nodup :=
    (hperm.map Fragment.offset).nodup_iff.mpr h.distinct
  rcases List.eq_nil_or_concat whole with rfl | ⟨front, furthest, rfl⟩
  · exact absurd (hperm.mem_iff.mpr hfirst) List.not_mem_nil
  rw [List.concat_eq_append] at hperm hadjoining hpayload hdistinct
  have hfront : ∀ f ∈ fragments, f ≠ furthest → f ∈ front := fun f hf hne =>
    (List.mem_append.mp (hperm.mem_iff.mpr hf)).resolve_right fun hlast =>
      hne (List.mem_singleton.mp hlast)
  refine ⟨furthest, hperm.mem_iff.mp (by simp), fun f hf hne => ?_, fun f hf hne => ?_, ?_⟩
  · exact hadjoining.stop_le f (hfront f hf hne)
  · -- it starts behind the other, and the two are at different offsets
    have hstop : f.start + f.payload.length ≤ furthest.start :=
      hadjoining.stop_le f (hfront f hf hne)
    have hoffset : f.offset ≠ furthest.offset := by
      rw [List.map_append] at hdistinct
      exact (List.nodup_append.mp hdistinct).2.2 _ (List.mem_map_of_mem (hfront f hf hne)) _
        (by simp)
    rw [Fragment.start, Fragment.start] at hstop
    omega
  · rw [hadjoining.stop_eq, ← hpayload, List.length_flatMap, sizeOf, Nat.zero_add]

theorem endsAtFurthest (h : datagram.MadeOf limits key fragments) :
    datagram.EndsAtFurthest fragments := by
  obtain ⟨furthest, hmem, -, hbefore, hstop⟩ := h.exists_furthest
  refine ⟨furthest, hmem, fun f hf => ?_, hstop⟩
  rcases eq_or_ne f furthest with rfl | hne
  · exact Nat.le_refl _
  · exact Nat.le_of_lt (hbefore f hf hne)

/-- The one with which the datagram ends is the one marked as the last if the fragments agree
    on the end, and only then. -/
theorem endsAtLast_iff (h : datagram.MadeOf limits key fragments) :
    datagram.EndsAtLast fragments ↔ AgreeOnEnd fragments := by
  obtain ⟨furthest, hmem, hapart, hbefore, hstop⟩ := h.exists_furthest
  constructor
  · rintro ⟨last, hlast, -, hone, hfar, -⟩ other hother hmore f hf hne
    obtain rfl := hone other hother hmore
    have heq : furthest = other := by
      by_contra hne
      exact Nat.lt_irrefl _ (Nat.lt_of_lt_of_le (hbefore other hother (Ne.symm hne))
        (hfar furthest hmem))
    rw [← heq] at hne ⊢
    have hoffset := hbefore f hf hne
    rw [Fragment.stop, Fragment.start, Fragment.start]
    omega
  · intro hagree
    -- one that is marked as the last has nothing behind it, so it is the furthest
    have hlast : ∀ last ∈ fragments, last.more = false → last = furthest := by
      intro last hlast hmore
      by_contra hne
      have hlt := hagree last hlast hmore furthest hmem (Ne.symm hne)
      exact Nat.lt_irrefl _ (Nat.lt_of_lt_of_le hlt (hapart last hlast hne))
    obtain ⟨last, hmemLast, hmore⟩ := h.ended
    obtain rfl := hlast last hmemLast hmore
    refine ⟨last, hmem, hmore, hlast, fun f hf => ?_, hstop⟩
    rcases eq_or_ne f last with rfl | hne
    · exact Nat.le_refl _
    · exact Nat.le_of_lt (hbefore f hf hne)

end Datagram.MadeOf

namespace Reassembly

/-- **Where a datagram ends.** Whatever fragments were submitted under whatever limits, and
    whenever those in progress were discarded: a datagram that comes out ends with the
    furthest of the fragments that it is made of. This one, and no other, is marked as the
    last if these fragments agree on the end, and only then; so it is if all that were
    submitted agree. -/
theorem ends_at_last_iff (limits : FragmentLimits) (events : List Event) (fragment : Fragment)
    (now : Instant) (datagram : Datagram)
    (h : (((empty limits).run events).submit fragment now).1 = .ok (some datagram)) :
    ∃ before since made, events = before ++ since ∧
      Since (empty limits) fragment.key before since ∧
      made = limits.taken (submittedFor fragment.key (since ++ [.submit fragment now])) ∧
      datagram.MadeOf limits fragment.key made ∧ datagram.EndsAtFurthest made ∧
      (datagram.EndsAtLast made ↔ AgreeOnEnd made) ∧
      (AgreeOnEnd (submittedFor fragment.key (events ++ [.submit fragment now])) →
        datagram.EndsAtLast made) := by
  obtain ⟨before, since, hsplit, hsince, -, hmade⟩ := exists_madeOf h
  refine ⟨before, since, _, hsplit, hsince, rfl, hmade, hmade.endsAtFurthest,
    hmade.endsAtLast_iff, fun hagree => hmade.endsAtLast_iff.mpr (hagree.mono fun f hf => ?_)⟩
  -- what was taken since was submitted at some time
  have hsubmitted := (mem_of_mem_taken hf).1
  rw [hsplit, List.append_assoc, submittedFor, List.filterMap_append, List.filter_append]
  exact List.mem_append_right _ hsubmitted

open Shuffled (fragment)

/-- The end of a datagram, and a repeat of its offset that tells something else. -/
def repeatedEnd : List Event :=
  [.submit (fragment 7 1 false [8, 9]) 0, .submit (fragment 7 1 true [1, 1, 1, 1, 1, 1, 1, 1]) 1]

theorem ends_at_last_repeatedEnd :
    AgreeOnEnd (submittedFor completing.key (repeatedEnd ++ [.submit completing 2])) ∧
      (((empty (.ofVersion .v4)).run repeatedEnd).submit completing 2).1 =
        .ok (some ⟨completing.header, [0, 1, 2, 3, 4, 5, 6, 7, 8, 9], none⟩) ∧
      ∃ made, Datagram.MadeOf ⟨completing.header, [0, 1, 2, 3, 4, 5, 6, 7, 8, 9], none⟩
          (.ofVersion .v4) completing.key made ∧
        Datagram.EndsAtLast ⟨completing.header, [0, 1, 2, 3, 4, 5, 6, 7, 8, 9], none⟩ made := by
  have hagree :
      AgreeOnEnd (submittedFor completing.key (repeatedEnd ++ [.submit completing 2])) := by
    decide
  have hsubmit : (((empty (.ofVersion .v4)).run repeatedEnd).submit completing 2).1 =
      .ok (some ⟨completing.header, [0, 1, 2, 3, 4, 5, 6, 7, 8, 9], none⟩) := by
    decide
  obtain ⟨_, _, made, -, -, -, hmade, -, -, hends⟩ :=
    ends_at_last_iff (.ofVersion .v4) repeatedEnd completing 2 _ hsubmit
  exact ⟨hagree, hsubmit, made, hmade, hends hagree⟩

/-- A fragment behind the end that the next one announces. -/
def behind : Fragment := fragment 7 1 true [8, 9, 10, 11, 12, 13, 14, 15]

/-- A fragment that is marked as the last and ends the datagram at its octet 8. -/
def ending : Fragment := fragment 7 0 false [0, 1, 2, 3, 4, 5, 6, 7]

/-- The octets behind the end become part of the datagram, whose last fragment is the
    first. -/
theorem octets_behind_last :
    (((empty (.ofVersion .v4)).run [.submit behind 0]).submit ending 1).1 =
        .ok (some ⟨ending.header, ending.payload ++ behind.payload, none⟩) ∧
      Datagram.MadeOf ⟨ending.header, ending.payload ++ behind.payload, none⟩ (.ofVersion .v4)
        ending.key [behind, ending] ∧
      ¬Datagram.EndsAtLast ⟨ending.header, ending.payload ++ behind.payload, none⟩
        [behind, ending] := by
  have hmade : Datagram.MadeOf ⟨ending.header, ending.payload ++ behind.payload, none⟩
      (.ofVersion .v4) ending.key [behind, ending] := {
    keyed := by decide
    checked := by decide
    distinct := by decide
    tiles := ⟨[ending, behind], List.Perm.swap .., ⟨rfl, rfl, trivial⟩, rfl⟩
    ended := ⟨ending, by simp, rfl⟩
    size := by decide
    head := ⟨ending, by simp, rfl, rfl, rfl⟩ }
  refine ⟨by decide, hmade, fun hends => ?_⟩
  exact absurd (hmade.endsAtLast_iff.mp hends) (by decide)

end Reassembly

end Ending

end PassiveDns
