/-
  PassiveDns.Proofs.Dns.Suffixes

  What a fresh draft remembers after any calls, and what its memory is good for. Names
  that can be written are always written and spelled. A suffix that was remembered on the
  way to a label that is too long is never spelled, but is pointed at when the name is
  tried again: a name is refused only as long as none of its labels in front of that one
  begins a suffix remembered (`suffixes_spelled_iff_short`).
-/
import PassiveDns.Proofs.Dns.Calls

namespace PassiveDns.Dns

open Name

/-- The labels that are spelled are short enough to be written. -/
theorem Name.Spells.short {message : Array UInt8} {i jumps stop : Nat} {labels : List String}
    (h : Spells message i (octetsOf labels) jumps stop) : Short labels := by
  have hoctets : ∀ {i jumps stop : Nat} {labels : List Octets},
      Spells message i labels jumps stop → ∀ label ∈ labels, label.length ≤ maxLabel := by
    intro i jumps stop labels h
    induction h with
    | root => exact fun label hlabel => absurd hlabel List.not_mem_nil
    | label _ hmax _ _ ih => exact List.forall_mem_cons.mpr ⟨hmax, ih⟩
    | pointer _ _ _ _ ih => exact ih
  exact fun label hlabel => hoctets h _ (List.mem_map_of_mem hlabel)

namespace Wire

variable {calls : List Writer.Call} {octets : Octets} {suffixes : Suffixes}

/-- Each entry is of a name tried, and is spelled if and only if it can be written. -/
theorem Recorded.spelled_iff (h : Recorded calls (Wire.draft octets suffixes)) :
    ∀ entry ∈ suffixes, ∃ text labels, .name text ∈ calls ∧ labels ≠ [] ∧
      labels <:+ Name.labels text ∧ entry.1 = joined labels ∧
      ((∃ jumps stop, Spells octets.toArray entry.2 (octetsOf labels) jumps stop) ↔
        Short labels) := by
  rintro ⟨key, i⟩ hentry
  obtain ⟨text, labels, hcall, hne, hsuffix, hkey⟩ := h.origin _ hentry
  obtain rfl : key = joined labels := hkey
  refine ⟨text, labels, hcall, hne, hsuffix, rfl, ?_, fun hshort => ?_⟩
  · rintro ⟨jumps, stop, hspells⟩
    exact hspells.short
  · have hplain := (plain_labels text).of_suffix hsuffix
    obtain ⟨_, jumps, stop, _, hspells⟩ :=
      h.sound labels.length labels i hne (Nat.le_refl _) hplain hshort hentry
    exact ⟨jumps, stop, hspells⟩

/-- Labels that are remembered up to one of them are of names tried that have it. -/
theorem Recorded.of_remembers (h : Recorded calls (Wire.draft octets suffixes)) {text : String}
    {front rest : List String} {long : String} (hlabels : labels text = front ++ long :: rest)
    (hremembers : Writer.Remembers suffixes front (long :: rest)) :
    ∃ earlier, .name earlier ∈ calls ∧ long ∈ labels earlier := by
  obtain ⟨suffix, hne, hsuffix, hsome⟩ := hremembers
  obtain ⟨i, hlookup⟩ := Option.isSome_iff_exists.mp hsome
  obtain ⟨earlier, others, hcall, hothers, hearlier, hkey⟩ :=
    h.origin _ (mem_of_lookup hlookup)
  have hwhole : suffix ++ long :: rest <:+ labels text := by
    rw [hlabels]
    exact List.suffix_append_self_iff.mpr hsuffix
  have hsame := joined_inj ((plain_labels text).of_suffix hwhole)
    ((plain_labels earlier).of_suffix hearlier)
    (List.append_ne_nil_of_left_ne_nil hne _) hothers hkey
  refine ⟨earlier, hcall, hearlier.subset ?_⟩
  rw [← hsame]
  exact List.mem_append_right _ List.mem_cons_self

/-- **Which suffixes are spelled where they are said to stand.** After any calls on a fresh
    draft a suffix that is remembered is of a name that was tried, and is spelled at its place
    exactly if it has no label that is too long. So a name without such a label is written
    and spelled, whatever was tried before. A name with one is refused exactly if it is not
    remembered from a label in front of that one on; it never is if no name tried before
    has that label. -/
theorem suffixes_spelled_iff_short (calls : List Writer.Call) :
    ∃ octets suffixes, empty.afterAll calls = .draft octets suffixes ∧
      (∀ entry ∈ suffixes, ∃ text labels, .name text ∈ calls ∧ labels ≠ [] ∧
        labels <:+ Name.labels text ∧ entry.1 = joined labels ∧
        ((∃ jumps stop, Spells octets.toArray entry.2 (octetsOf labels) jumps stop) ↔
          Short labels)) ∧
      (∀ text, Short (labels text) → ∃ more after jumps,
        Writer.name text (.draft octets suffixes) = .ok () (.draft (octets ++ more) after) ∧
        Spells (octets ++ more).toArray octets.length (octetsOf (labels text)) jumps
          (octets ++ more).length) ∧
      ∀ text front long rest, labels text = front ++ long :: rest → Short front →
        maxLabel < (Text.Utf8.ofString long).length →
        ((∃ wire, Writer.name text (.draft octets suffixes) = .error .labelTooLong wire) ↔
          ¬Writer.Remembers suffixes front (long :: rest)) ∧
        ((∀ earlier, .name earlier ∈ calls → long ∉ labels earlier) →
          ¬Writer.Remembers suffixes front (long :: rest)) := by
  have hrecorded := recorded_afterAll calls
  obtain ⟨octets, suffixes, hdraft⟩ := hrecorded.draft
  rw [hdraft] at hrecorded
  refine ⟨octets, suffixes, hdraft, hrecorded.spelled_iff, fun text hshort => ?_, ?_⟩
  · have hsound : Sound suffixes octets.toArray := hrecorded.sound
    obtain ⟨more, after, jumps, hdone, _, hspells, _⟩ := hsound.name hshort
    exact ⟨more, after, jumps, hdone, hspells⟩
  · intro text front long rest hlabels hfront hlong
    have hattempt := Writer.attempt (labels text) octets suffixes
    have hplain := plain_labels text
    rw [Writer.name]
    rw [hlabels] at hattempt hplain ⊢
    refine ⟨hattempt.refused_iff hplain hfront hlong, fun hfresh hremembers => ?_⟩
    obtain ⟨earlier, hcall, hmem⟩ := hrecorded.of_remembers hlabels hremembers
    exact hfresh earlier hcall hmem

/-- A name whose first label can be written is remembered once it was tried where a pointer
    reaches: tried again it is written as a pointer, even if it was refused. -/
theorem name_tried_again {text label : String} {rest : List String}
    (hlabels : labels text = label :: rest)
    (hlabel : (Text.Utf8.ofString label).length ≤ maxLabel)
    (hplace : octets.length < pointerLimit) :
    ∃ i more after, (draft octets suffixes).after (.name text) = .draft (octets ++ more) after ∧
      Writer.name text (.draft (octets ++ more) after) =
        .ok () (.draft (octets ++ more ++ Octets.ofWord16 (pointerTo i)) after) := by
  have hattempt := Writer.attempt (labels text) octets suffixes
  obtain ⟨more, after, hleft⟩ := hattempt.grows
  have hremembered : (after.lookup (joined (label :: rest))).isSome := by
    rw [hlabels] at hattempt hleft
    have hafter : after =
        (left (Writer.labels (label :: rest) (draft octets suffixes))).suffixes := by
      rw [hleft, draft]
    rw [hafter]
    cases hknown : suffixes.lookup (joined (label :: rest)) with
    | some i =>
      refine hattempt.lookup_isSome ?_
      rw [hknown, Option.isSome_some]
    | none =>
      rw [Writer.labels_new hlabel hknown]
      refine (Writer.attempt rest _ _).lookup_isSome ?_
      rw [remembering, if_pos hplace, List.lookup_cons_self, Option.isSome_some]
  obtain ⟨i, hlookup⟩ := Option.isSome_iff_exists.mp hremembered
  refine ⟨i, more, after, hleft, ?_⟩
  rw [Writer.name, hlabels]
  exact Writer.labels_known hlabel hlookup (octets ++ more)

/-- A name of a label of one octet and one of 64 octets. -/
def unfinished : String :=
  String.ofList ('a' :: '.' :: List.replicate 64 'b')

/-- A label in front of a pointer back to it begins no name, and neither does the pointer. -/
theorem not_spells_back {i jumps stop : Nat} {labels : List Octets}
    (h : Spells #[1, 97, 0xC0, 0] i labels jumps stop) : i ≠ 0 ∧ i ≠ 2 := by
  -- A name from 0 on needs one from 2 on, and that one needs one from 0 on.
  induction h with
  | root hzero => constructor <;> rintro rfl <;> cases hzero
  | @label i jumps stop label labels hne hmax hholds hrest ih =>
    have hhead := hholds.head
    rw [maxLabel] at hmax
    constructor
    · rintro rfl
      have hnat := congrArg UInt8.toNat (Option.some.inj hhead)
      rw [Octets.toNat_ofNat, show UInt8.toNat _ = 1 from rfl] at hnat
      exact ih.2 (by omega)
    · rintro rfl
      have hnat := congrArg UInt8.toNat (Option.some.inj hhead)
      rw [Octets.toNat_ofNat, show UInt8.toNat _ = 192 from rfl] at hnat
      omega
  | @pointer i jumps stop hi lo labels hhi hlo hpointer hrest ih =>
    constructor
    · rintro rfl
      obtain rfl : 1 = hi := Option.some.inj hhi
      cases hpointer
    · rintro rfl
      obtain rfl : 0xC0 = hi := Option.some.inj hhi
      obtain rfl : 0 = lo := Option.some.inj hlo
      exact ih.1 rfl

/-- The name is refused and remembered at its first label, and is then pointed at there,
    where nothing is spelled: the pointer leads back to itself. -/
theorem unfinished_pointed_at :
    Writer.name unfinished empty = .error .labelTooLong (.draft [1, 97] [(unfinished, 0)]) ∧
      empty.afterAll [.name unfinished] = .draft [1, 97] [(unfinished, 0)] ∧
      Writer.name unfinished (.draft [1, 97] [(unfinished, 0)]) =
        .ok () (.draft [1, 97, 0xC0, 0] [(unfinished, 0)]) ∧
      ∀ labels jumps stop, ¬Spells #[1, 97] 0 labels jumps stop ∧
        ¬Spells #[1, 97, 0xC0, 0] 0 labels jumps stop := by
  have hnone : ∀ labels jumps stop, ¬Spells #[1, 97, 0xC0, 0] 0 labels jumps stop :=
    fun _ _ _ hspells => (not_spells_back hspells).1 rfl
  refine ⟨?_, ?_, ?_, fun labels jumps stop => ⟨fun hspells => ?_, hnone labels jumps stop⟩⟩
  · decide +kernel
  · decide +kernel
  · decide +kernel
  · exact hnone labels jumps stop (hspells.append #[0xC0, 0])

end Wire

end PassiveDns.Dns
