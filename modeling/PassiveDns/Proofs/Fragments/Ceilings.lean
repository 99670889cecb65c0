/-
  PassiveDns.Proofs.Fragments.Ceilings

  How many fragments of one datagram there can be. They stand at distinct multiples of eight
  octets up to the largest offset, so there are no more of them than there are such offsets
  (`Partial.Spread.few`). Version 4 has fewer than the most fragments that it allows, and so
  never counts too many; version 6 counts too many at the last offset that is free
  (`ceiling_of_version`).
-/
import PassiveDns.Proofs.Fragments.Effects

namespace PassiveDns

/-! ## The offsets of one datagram -/

namespace Partial

/-- The offsets at which there are fragments, in units of eight octets. -/
def offsets (parts : Partial) : List Nat := parts.pieces.map fun piece => piece.start / 8

/-- Fragments stand at distinct offsets, none of them above the largest. -/
structure Spread (limits : FragmentLimits) (parts : Partial) : Prop where
  aligned : ∀ p ∈ parts.pieces, 8 ∣ p.start
  distinct : parts.offsets.Nodup
  near : ∀ offset ∈ parts.offsets, offset ≤ limits.maxOffset

section Spread

variable {limits : FragmentLimits} {parts : Partial}

@[simp] theorem length_offsets (parts : Partial) : parts.offsets.length = parts.pieces.length :=
  List.length_map _

theorem Spread.subset (h : parts.Spread limits) :
    parts.offsets ⊆ List.range (limits.maxOffset + 1) := fun offset hoffset =>
  List.mem_range.mpr (Nat.lt_succ_of_le (h.near offset hoffset))

/-- Each offset has one fragment at most. -/
theorem Spread.few (h : parts.Spread limits) : parts.pieces.length ≤ limits.maxOffset + 1 := by
  have hlength := (List.subperm_of_subset h.distinct h.subset).length_le
  rwa [List.length_range, length_offsets] at hlength

/-- One that is free leaves one fragment less. -/
theorem Spread.room (h : parts.Spread limits) {offset : Nat} (hoffset : offset ≤ limits.maxOffset)
    (hfree : offset ∉ parts.offsets) : parts.pieces.length ≤ limits.maxOffset := by
  have hsub : offset :: parts.offsets ⊆ List.range (limits.maxOffset + 1) :=
    List.cons_subset.mpr ⟨List.mem_range.mpr (Nat.lt_succ_of_le hoffset), h.subset⟩
  have hlength := (List.subperm_of_subset (List.nodup_cons.mpr ⟨hfree, h.distinct⟩) hsub).length_le
  rw [List.length_range, List.length_cons, length_offsets] at hlength
  exact Nat.le_of_succ_le_succ hlength

/-- Where all offsets but one are taken, they are the others. -/
theorem Spread.perm_erase (h : parts.Spread limits) {offset : Nat}
    (hoffset : offset ≤ limits.maxOffset) (hfree : offset ∉ parts.offsets)
    (hfull : parts.pieces.length = limits.maxOffset) :
    parts.offsets.Perm ((List.range (limits.maxOffset + 1)).erase offset) := by
  have hmem : offset ∈ List.range (limits.maxOffset + 1) :=
    List.mem_range.mpr (Nat.lt_succ_of_le hoffset)
  have hsub : parts.offsets ⊆ (List.range (limits.maxOffset + 1)).erase offset := by
    intro other hother
    have hne : other ≠ offset := fun heq => hfree (heq ▸ hother)
    exact (List.mem_erase_of_ne hne).mpr (h.subset hother)
  -- there are as many on either side
  refine (List.subperm_of_subset h.distinct hsub).perm_of_length_le ?_
  rw [List.length_erase_of_mem hmem, List.length_range, length_offsets, hfull]
  exact Nat.le_refl _

theorem Spread.holds_iff (h : parts.Spread limits) (fragment : Fragment) :
    parts.Holds fragment.start ↔ fragment.offset ∈ parts.offsets := by
  constructor
  · rintro ⟨piece, hpiece, hstart⟩
    refine List.mem_map.mpr ⟨piece, hpiece, ?_⟩
    rw [hstart]
    exact Nat.mul_div_cancel _ (by decide)
  · intro hoffset
    obtain ⟨piece, hpiece, hstart⟩ := List.mem_map.mp hoffset
    refine ⟨piece, hpiece, ?_⟩
    rw [Fragment.start, ← hstart]
    exact (Nat.div_mul_cancel (h.aligned piece hpiece)).symm

end Spread

end Partial

/-- What was taken of a datagram stands at offsets that the limits allow. -/
theorem Gathered.spread {limits : FragmentLimits} {fragments : List Fragment} {parts : Partial}
    (h : Gathered (limits.taken fragments) parts) : parts.Spread limits := by
  have hoffsets : parts.offsets.Perm ((limits.taken fragments).map Fragment.offset) := by
    have hmap := h.pieces.map fun piece => piece.start / 8
    rw [List.map_map] at hmap
    refine hmap.trans (List.Perm.of_eq (List.map_congr_left fun f _ => ?_))
    exact Nat.mul_div_cancel f.offset (by decide)
  refine ⟨fun piece hpiece => ?_, ?_, fun offset hoffset => ?_⟩
  · obtain ⟨f, -, rfl⟩ := List.mem_map.mp (h.pieces.mem_iff.mp hpiece)
    exact Nat.dvd_mul_left 8 f.offset
  · -- two at one offset would start at one octet
    rw [hoffsets.nodup_iff]
    refine List.pairwise_map.mpr ((List.pairwise_map.mp h.distinct).imp fun hne heq => hne ?_)
    rw [Fragment.start, heq, Fragment.start]
  · obtain ⟨f, hf, rfl⟩ := List.mem_map.mp (hoffsets.mem_iff.mp hoffset)
    exact (FragmentLimits.check_eq_ok_iff.mp (mem_of_mem_taken hf).2).near

namespace Reassembly

/-! ## Every state that is reached -/

section Runs

variable (limits : FragmentLimits) (events : List Event)

theorem spread_run (key : FragmentKey) (now : Instant) :
    (((empty limits).run events).fragmentsOf key now).Spread limits := by
  obtain ⟨_, _, -, -, hkeeps⟩ := exists_since limits key events
  exact (hkeeps.gathered now).spread

/-- When there are too many, told by the offsets that are taken. -/
theorem crowded_run_iff (fragment : Fragment) (now : Instant) (count : Nat) :
    (((empty limits).run events).submit fragment now).1 = .error (.tooManyFragments count) ↔
      limits.Admits fragment ∧
        fragment.offset ∉ (((empty limits).run events).fragmentsOf fragment.key now).offsets ∧
        (((empty limits).run events).fragmentsOf fragment.key now).pieces.length =
          limits.maxFragments ∧
        count = limits.maxFragments := by
  rw [(touches_of_answer limits events fragment now).crowded,
    (spread_run limits events fragment.key now).holds_iff]

/-- Where the last offset is below the number of fragments allowed, there are never too many:
    the offset of one more was free, and all the others have room. -/
theorem not_crowded (hlarge : limits.maxOffset < limits.maxFragments) (fragment : Fragment)
    (now : Instant) (count : Nat) :
    (((empty limits).run events).submit fragment now).1 ≠ .error (.tooManyFragments count) := by
  intro hcrowded
  obtain ⟨hadmits, hfree, hfull, -⟩ :=
    (crowded_run_iff limits events fragment now count).mp hcrowded
  have hroom := (spread_run limits events fragment.key now).room hadmits.near hfree
  rw [hfull] at hroom
  exact Nat.not_lt_of_le hroom hlarge

/-- A fragment too far behind is refused before any other is looked at. -/
theorem offset_refused_iff (fragment : Fragment) (now : Instant) :
    ((empty limits).run events).submit fragment now =
        (.error (.offsetTooLarge fragment.offset), (empty limits).run events) ↔
      limits.maxOffset < fragment.offset := by
  have htouches := touches_of_answer limits events fragment now
  constructor
  · intro heq
    have hbreaks := (htouches.refused (.offsetTooLarge fragment.offset)).mp ⟨by rw [heq], rfl⟩
    cases hbreaks
    assumption
  · intro hfar
    have hbreaks : limits.Breaks fragment (.offsetTooLarge fragment.offset) := .offset hfar
    exact Prod.ext ((htouches.refused _).mpr hbreaks).1 (htouches.untouched _ hbreaks)

/-- **The ceiling of version 4 is out of reach, that of version 6 is at the last free offset.**
    Whatever fragments were submitted, and whenever those in progress were discarded: under the
    limits of version 4 at most 8184 fragments of a datagram are there, at distinct offsets, as
    larger offsets are refused first, and one more is never too many. Under those of version 6
    it is too many exactly if it keeps the limits and 8191 are there, at all of the 8192
    offsets but its own. -/
theorem ceiling_of_version (fragment : Fragment) (now : Instant) (count : Nat) :
    (∀ key, (((empty (.ofVersion .v4)).run events).fragmentsOf key now).Spread (.ofVersion .v4) ∧
        (((empty (.ofVersion .v4)).run events).fragmentsOf key now).pieces.length ≤ 8184) ∧
      (((empty (.ofVersion .v4)).run events).submit fragment now =
          (.error (.offsetTooLarge fragment.offset), (empty (.ofVersion .v4)).run events) ↔
        8184 ≤ fragment.offset) ∧
      (((empty (.ofVersion .v4)).run events).submit fragment now).1 ≠
        .error (.tooManyFragments count) ∧
      ((((empty (.ofVersion .v6)).run events).submit fragment now).1 =
          .error (.tooManyFragments count) ↔
        count = 8191 ∧ (FragmentLimits.ofVersion .v6).Admits fragment ∧
          (((empty (.ofVersion .v6)).run events).fragmentsOf fragment.key now).offsets.Perm
            ((List.range 8192).erase fragment.offset)) := by
  refine ⟨fun key => ?_, offset_refused_iff _ events fragment now,
    not_crowded _ events (by decide) fragment now count, ?_⟩
  · have hspread := spread_run (.ofVersion .v4) events key now
    exact ⟨hspread, hspread.few⟩
  · rw [crowded_run_iff]
    constructor
    · rintro ⟨hadmits, hfree, hfull, hcount⟩
      have hspread := spread_run (.ofVersion .v6) events fragment.key now
      exact ⟨hcount, hadmits, hspread.perm_erase hadmits.near hfree hfull⟩
    · rintro ⟨hcount, hadmits, hperm⟩
      have hmem : fragment.offset ∈ List.range 8192 :=
        List.mem_range.mpr (Nat.lt_succ_of_le hadmits.near)
      refine ⟨hadmits, fun hoffset => ?_, ?_, hcount⟩
      · -- the offset that is erased from distinct ones is gone
        have hgone := hperm.mem_iff.mp hoffset
        exact List.nodup_range.not_mem_erase hgone
      · have hlength := hperm.length_eq
        rwa [List.length_erase_of_mem hmem, List.length_range, Partial.length_offsets] at hlength

end Runs

/-! ## The ceiling of version 6 is met -/

open Shuffled (fragment)

/-- Empty fragments at the first offsets, none of them the last. -/
def hollow (count : Nat) : List Fragment :=
  (List.range count).map fun offset => fragment 7 offset true []

theorem hollow_succ (count : Nat) :
    hollow (count + 1) = hollow count ++ [fragment 7 count true []] := by
  rw [hollow, List.range_succ, List.map_append]
  rfl

theorem start_of_mem_hollow {count : Nat} {f : Fragment} (h : f ∈ hollow count) :
    f.start < count * 8 := by
  obtain ⟨offset, hoffset, rfl⟩ := List.mem_map.mp h
  exact Nat.mul_lt_mul_of_pos_right (List.mem_range.mp hoffset) (by decide)

theorem admits_hollow {offset : Nat} (h : offset ≤ 8191) :
    (FragmentLimits.ofVersion .v6).Admits (fragment 7 offset true []) := by
  refine ⟨h, ?_, fun _ => Nat.zero_le _⟩
  show offset * 8 + 0 ≤ 65535
  omega

/-- All of them are kept, as long as there are not too many. -/
theorem keeps_hollow {count : Nat} (h : count ≤ 8191) :
    ((empty (.ofVersion .v6)).run ((hollow count).map fun f => .submit f 0)).Keeps Shuffled.key
      (hollow count) := by
  induction count with
  | zero => exact .inl ⟨rfl, rfl⟩
  | succ count ih =>
    have hkeeps := ih (by omega)
    rw [hollow_succ, List.map_append, List.map_singleton, run_append_singleton]
    generalize hstate : (empty (.ofVersion .v6)).run ((hollow count).map fun f => .submit f 0) =
      state at hkeeps ⊢
    have hlimits : state.limits = .ofVersion .v6 := hstate ▸ run_limits _ _
    have hnew : ∀ g ∈ hollow count, g.start ≠ (fragment 7 count true []).start := fun g hg =>
      Nat.ne_of_lt (start_of_mem_hollow hg)
    -- the last fragment is not among them
    have hgathered : Gathered (hollow count ++ [fragment 7 count true []])
        (state.withFragment (fragment 7 count true []) 0) := hkeeps.withFragment 0 hnew
    have hopen : (state.withFragment (fragment 7 count true []) 0).isComplete = false := by
      rw [Partial.isComplete, hgathered.lastSeen, ← hollow_succ]
      simp [hollow, fragment]
    have htaking : Taking state (hollow count) (fragment 7 count true []) 0
        (state.submit (fragment 7 count true []) 0) := hkeeps.taking 0
    show (state.submit _ 0).2.Keeps _ _
    generalize state.submit (fragment 7 count true []) 0 = result at htaking ⊢
    cases htaking with
    | refused hcheck =>
      rw [hlimits, FragmentLimits.check_eq_ok_iff.mpr (admits_hollow (by omega))] at hcheck
      cases hcheck
    | repeated _ hstart =>
      obtain ⟨g, hg, heq⟩ := hstart
      exact absurd heq (hnew g hg)
    | crowded _ _ hfull =>
      rw [hlimits, hollow, List.length_map, List.length_range] at hfull
      exact absurd (show 8191 ≤ count from hfull) (by omega)
    | waiting => exact .inr ⟨_, by rw [put, Table.get?_set]; exact if_pos rfl, hgathered⟩
    | broken _ _ _ hcomplete => exact absurd hcomplete (by simp [hopen])
    | whole _ _ _ hcomplete => exact absurd hcomplete (by simp [hopen])

/-- One more at the last offset is one too many. -/
theorem crowded_hollow :
    (((empty (.ofVersion .v6)).run ((hollow 8191).map fun f => .submit f 0)).submit
      (fragment 7 8191 true []) 0).1 = .error (.tooManyFragments 8191) := by
  have hgathered := (keeps_hollow (Nat.le_refl _)).gathered 0
  refine (crowded_run_iff _ _ _ _ _).mpr ⟨admits_hollow (Nat.le_refl _), ?_, ?_, rfl⟩
  · rw [← (spread_run _ _ _ _).holds_iff]
    intro hholds
    obtain ⟨piece, hpiece, hstart⟩ := hholds
    obtain ⟨g, hg, rfl⟩ := List.mem_map.mp (hgathered.pieces.mem_iff.mp hpiece)
    exact absurd hstart (Nat.ne_of_lt (start_of_mem_hollow hg))
  · refine hgathered.length.trans ?_
    rw [hollow, List.length_map, List.length_range]
    rfl

end Reassembly

end PassiveDns
