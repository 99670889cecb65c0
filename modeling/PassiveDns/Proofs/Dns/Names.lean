/-
  PassiveDns.Proofs.Dns.Names

  Names are read as they were written. The suffixes that a draft remembers are
  sound: each stands where it is said to stand, in every message that has the
  draft's octets, and is reached from there through fewer pointers than it has
  labels. So a pointer to a suffix is always spelled out, and the pointers of a
  name are at most as many as its labels.
-/
import Mathlib.Tactic.Common
import PassiveDns.Proofs.Dns.Drafts
import PassiveDns.Proofs.Dns.Spelling
import PassiveDns.Proofs.Utf8

namespace PassiveDns.Dns

namespace Name

/-! ## Texts of names -/

/-- Labels as a name's text has them: not empty, and without dots. -/
def Plain (labels : List String) : Prop :=
  ∀ label ∈ labels, label ≠ "" ∧ '.' ∉ label.toList

theorem Plain.of_suffix {labels suffix : List String} (h : Plain labels)
    (hsuffix : suffix <:+ labels) : Plain suffix :=
  fun label hlabel => h label (hsuffix.subset hlabel)

theorem plain_labels (name : String) : Plain (labels name) := by
  intro label hlabel
  obtain ⟨piece, hpiece, rfl⟩ := List.mem_map.mp hlabel
  obtain ⟨hmem, hne⟩ := List.mem_filter.mp hpiece
  constructor
  · intro hempty
    rw [String.ofList_eq_empty_iff] at hempty
    rw [hempty] at hne
    exact absurd hne (by decide)
  · rw [String.toList_ofList]
    exact Text.not_mem_of_mem_splitOn hmem

/-- The labels of a name whose labels are given. -/
theorem labels_dotted {given : List String} (h : Plain given) : labels (dotted given) = given := by
  rw [labels, dotted, String.toList_ofList]
  induction given with
  | nil => rfl
  | cons label rest ih =>
    obtain ⟨⟨hne, hdot⟩, hrest⟩ := List.forall_mem_cons.mp h
    have hpiece : label.toList.isEmpty = false := by
      rwa [List.isEmpty_eq_false_iff, ne_eq, String.toList_eq_nil_iff]
    rw [List.flatMap_cons, List.append_assoc, List.singleton_append,
      Text.splitOn_append_cons hdot, List.filter_cons_of_pos (by rw [hpiece]; rfl), List.map_cons,
      String.ofList_toList, ih hrest]

theorem toList_joined (labels : List String) :
    (joined labels).toList = ['.'].intercalate (labels.map String.toList) :=
  String.toList_intercalate

/-- The labels can be told from the text under which they are remembered. -/
theorem joined_inj {first second : List String} (hfirst : Plain first) (hsecond : Plain second)
    (hne : first ≠ []) (hne' : second ≠ []) (h : joined first = joined second) :
    first = second := by
  have hsplit : ∀ {labels : List String}, Plain labels → labels ≠ [] →
      (joined labels).toList.splitOn '.' = labels.map String.toList := by
    intro labels hplain hne
    rw [toList_joined]
    apply List.splitOn_intercalate
    · intro piece hpiece
      obtain ⟨label, hlabel, rfl⟩ := List.mem_map.mp hpiece
      exact (hplain label hlabel).2
    · rwa [ne_eq, List.map_eq_nil_iff]
  have hpieces : first.map String.toList = second.map String.toList := by
    rw [← hsplit hfirst hne, h, hsplit hsecond hne']
  exact (List.map_inj_right fun _ _ => String.toList_inj.mp).mp hpieces

/-- A name and what it ends in are remembered under different texts. -/
theorem joined_ne {labels suffix : List String} (h : Plain labels) (hsuffix : suffix <:+ labels)
    (hne : suffix ≠ []) (hless : suffix.length < labels.length) :
    joined suffix ≠ joined labels := by
  intro hsame
  have hne' := List.ne_nil_of_length_pos (Nat.zero_lt_of_lt hless)
  rw [joined_inj (h.of_suffix hsuffix) h hne hne' hsame] at hless
  exact Nat.lt_irrefl _ hless

/-- A label as it stands in a message, behind its length. -/
def measured (label : String) : Octets :=
  UInt8.ofNat (Text.Utf8.ofString label).length :: Text.Utf8.ofString label

@[simp] theorem length_measured (label : String) :
    (measured label).length = 1 + (Text.Utf8.ofString label).length := by
  rw [measured, List.length_cons, Nat.add_comm]

/-! ## Suffixes in a message -/

/-- The octets of labels. -/
def octetsOf (labels : List String) : List Octets := labels.map Text.Utf8.ofString

theorem octetsOf_cons (label : String) (rest : List String) :
    octetsOf (label :: rest) = Text.Utf8.ofString label :: octetsOf rest := rfl

/-- The labels stand at an offset that fits a pointer, and are reached from there
    through fewer pointers than there are labels. -/
def Stands (message : Array UInt8) (labels : List String) (i : Nat) : Prop :=
  i < pointerLimit ∧
    ∃ jumps stop, jumps < labels.length ∧ Spells message i (octetsOf labels) jumps stop

/-- Every label is short enough to be written. -/
def Short (labels : List String) : Prop :=
  ∀ label ∈ labels, (Text.Utf8.ofString label).length ≤ maxLabel

theorem Short.of_suffix {labels suffix : List String} (h : Short labels)
    (hsuffix : suffix <:+ labels) : Short suffix :=
  fun label hlabel => h label (hsuffix.subset hlabel)

instance : DecidablePred Short := fun labels =>
  inferInstanceAs (Decidable (∀ label ∈ labels, (Text.Utf8.ofString label).length ≤ maxLabel))

/-- Of the suffixes remembered that can be written, each with at most `count` labels
    stands where it is said to stand. -/
def SoundUpTo (count : Nat) (suffixes : Suffixes) (message : Array UInt8) : Prop :=
  ∀ labels i, labels ≠ [] → labels.length ≤ count → Plain labels → Short labels →
    (joined labels, i) ∈ suffixes → Stands message labels i

/-- Every suffix remembered that can be written stands where it is said to stand. -/
def Sound (suffixes : Suffixes) (message : Array UInt8) : Prop :=
  ∀ count, SoundUpTo count suffixes message

theorem sound_nil (message : Array UInt8) : Sound [] message := by
  intro count labels i _ _ _ _ hmem
  exact absurd hmem List.not_mem_nil

/-- The suffixes with one more, if its offset fits a pointer. -/
def remembering (suffix : String) (i : Nat) (suffixes : Suffixes) : Suffixes :=
  if i < pointerLimit then (suffix, i) :: suffixes else suffixes

theorem mem_remembering {suffix : String} {i : Nat} {suffixes : Suffixes} {entry : String × Nat} :
    entry ∈ remembering suffix i suffixes ↔
      (i < pointerLimit ∧ entry = (suffix, i)) ∨ entry ∈ suffixes := by
  rw [remembering]
  by_cases h : i < pointerLimit
  · rw [if_pos h, List.mem_cons, and_iff_right h]
  · rw [if_neg h]
    exact ⟨Or.inr, fun hmem => hmem.resolve_left fun hnew => h hnew.1⟩

theorem lookup_remembering_of_ne {suffix key : String} (h : key ≠ suffix) (i : Nat)
    (suffixes : Suffixes) :
    (remembering suffix i suffixes).lookup key = suffixes.lookup key := by
  rw [remembering]
  by_cases hlimit : i < pointerLimit
  · rw [if_pos hlimit, List.lookup_cons, beq_false_of_ne h]
  · rw [if_neg hlimit]

theorem mem_of_lookup {suffix : String} {i : Nat} {suffixes : Suffixes}
    (h : suffixes.lookup suffix = some i) : (suffix, i) ∈ suffixes := by
  obtain ⟨newer, older, rfl, _⟩ := List.lookup_eq_some_iff.mp h
  exact List.mem_append_right _ List.mem_cons_self

/-- The word that points at an offset. -/
def pointerTo (i : Nat) : UInt16 := UInt16.ofNat i ||| 0xC000

theorem toNat_pointerTo {i : Nat} (h : i < pointerLimit) : (pointerTo i).toNat = 0xC000 + i := by
  rw [pointerLimit] at h
  have hor := Nat.two_pow_add_eq_or_of_lt (i := 14) (b := i) (by omega) 3
  rw [pointerTo, UInt16.toNat_or, UInt16.toNat_ofNat', Nat.mod_eq_of_lt (by omega), Nat.or_comm]
  exact hor.symm

/-- A pointer to an offset is followed there. -/
theorem spells_pointerTo {message : Array UInt8} {n i jumps stop : Nat} {labels : List Octets}
    (hi : i < pointerLimit) (hholds : Holds message n (Octets.ofWord16 (pointerTo i)))
    (h : Spells message i labels jumps stop) : Spells message n labels (jumps + 1) (n + 2) := by
  have hword := toNat_pointerTo hi
  rw [pointerLimit] at hi
  have hhi : (UInt8.ofNat ((pointerTo i).toNat / 256)).toNat = 192 + i / 256 := by
    rw [Octets.toNat_ofNat, hword]
    omega
  have hlo : (UInt8.ofNat (pointerTo i).toNat).toNat = i % 256 := by
    rw [Octets.toNat_ofNat, hword]
    omega
  have hpointer : isPointer (UInt8.ofNat ((pointerTo i).toNat / 256)) := by
    rw [isPointer, hhi, decide_eq_true_iff]
    omega
  have htarget : target (UInt8.ofNat ((pointerTo i).toNat / 256))
      (UInt8.ofNat (pointerTo i).toNat) = i := by
    rw [target, hhi, hlo]
    omega
  rw [← htarget] at h
  exact .pointer hholds.head hholds.tail.head hpointer h

end Name

/-! ## Writing labels -/

open Name

namespace Writer

variable {label : String} {rest : List String} {suffixes : Suffixes}

theorem suffix?_draft (suffix : String) (written : Octets) (suffixes : Suffixes) :
    suffix? suffix (.draft written suffixes) =
      .ok (suffixes.lookup suffix) (.draft written suffixes) := rfl

/-- A label that is too long is refused. -/
theorem labels_long (hmax : maxLabel < (Text.Utf8.ofString label).length) (written : Octets) :
    labels (label :: rest) (.draft written suffixes) =
      .error .labelTooLong (.draft written suffixes) := by
  rw [labels]
  dsimp only
  rw [if_pos hmax]
  rfl

/-- Labels that are remembered are written as a pointer. -/
theorem labels_known {i : Nat} (hmax : (Text.Utf8.ofString label).length ≤ maxLabel)
    (h : suffixes.lookup (joined (label :: rest)) = some i) (written : Octets) :
    labels (label :: rest) (.draft written suffixes) =
      .ok () (.draft (written ++ Octets.ofWord16 (pointerTo i)) suffixes) := by
  rw [labels]
  dsimp only
  rw [if_neg (Nat.not_lt.mpr hmax), bind_ok (suffix?_draft _ written suffixes), h]
  exact appends_word16 (pointerTo i) written.length suffixes written rfl

/-- Other labels are written one by one, and are remembered first. -/
theorem labels_new (hmax : (Text.Utf8.ofString label).length ≤ maxLabel)
    (h : suffixes.lookup (joined (label :: rest)) = none) (written : Octets) :
    labels (label :: rest) (.draft written suffixes) =
      labels rest (.draft (written ++ Name.measured label)
        (remembering (joined (label :: rest)) written.length suffixes)) := by
  have hlabel := (appends_octet (UInt8.ofNat (Text.Utf8.ofString label).length) written.length
    (remembering (joined (label :: rest)) written.length suffixes)).bind
      (appends_octets (Text.Utf8.ofString label) _ _) written rfl
  rw [labels]
  dsimp only
  rw [if_neg (Nat.not_lt.mpr hmax), bind_ok (suffix?_draft _ written suffixes), h]
  dsimp only
  rw [bind_ok (position_draft written suffixes), ← bind_assoc]
  rw [remembering] at hlabel ⊢
  by_cases hlimit : written.length < pointerLimit
  · rw [if_pos hlimit] at hlabel ⊢
    rw [if_pos hlimit]
    exact bind_ok hlabel
  · rw [if_neg hlimit] at hlabel ⊢
    rw [if_neg hlimit]
    exact bind_ok hlabel

theorem appends_labels_new {n : Nat} {octets : Octets} {after : Suffixes}
    (hmax : (Text.Utf8.ofString label).length ≤ maxLabel)
    (h : suffixes.lookup (joined (label :: rest)) = none)
    (hrest : Appends (labels rest) (n + 1 + (Text.Utf8.ofString label).length)
      (remembering (joined (label :: rest)) n suffixes) octets after) :
    Appends (labels (label :: rest)) n suffixes
      (Name.measured label ++ octets) after := by
  intro written hn
  have hplace : (written ++ Name.measured label).length =
      n + 1 + (Text.Utf8.ofString label).length := by
    rw [List.length_append, Name.length_measured, hn]
    omega
  rw [labels_new hmax h, hn, hrest _ hplace, List.append_assoc]

end Writer

namespace Name

/-- What writing labels leaves in a message: they are spelled where they were
    written, and what is remembered on the way stands where it is said to. -/
structure Spelled (message : Array UInt8) (n stop : Nat) (labels : List String)
    (before after : Suffixes) : Prop where
  spells : ∃ jumps, jumps ≤ labels.length ∧ Spells message n (octetsOf labels) jumps stop
  stands : ∀ other i, other ≠ [] → Plain other → (joined other, i) ∈ after →
    (joined other, i) ∈ before ∨ Stands message other i

/-- What is remembered now was remembered before, or was written with the labels. -/
theorem Spelled.sound {message : Array UInt8} {n stop : Nat} {labels : List String}
    {before after : Suffixes} (h : Spelled message n stop labels before after)
    (hbefore : Sound before message) : Sound after message := by
  intro count others i hne hcount hplain hshort hmem
  obtain hold | hnew := h.stands others i hne hplain hmem
  · exact hbefore count others i hne hcount hplain hshort hold
  · exact hnew

/-- Labels are written and spelled. Only suffixes that are no longer than the
    labels have to be sound beforehand: while the labels of a name are still being
    written, those remembered for the name itself are not sound yet. -/
theorem appends_labels (labels : List String) (hplain : Plain labels) (hmax : Short labels)
    (n : Nat) (before : Suffixes) :
    ∃ octets after, octets.length ≤ span (octetsOf labels) + 1 ∧
      Writer.Appends (Writer.labels labels) n before octets after ∧
      ∀ message, Holds message n octets → SoundUpTo labels.length before message →
        Spelled message n (n + octets.length) labels before after := by
  induction labels generalizing n before with
  | nil =>
    refine ⟨[0], before, Nat.le_refl _, Writer.appends_octet 0 n before, ?_⟩
    intro message hholds _
    exact ⟨⟨0, Nat.le_refl _, .root hholds.head⟩, fun other i _ _ hmem => Or.inl hmem⟩
  | cons label rest ih =>
    have hlabel := hmax label List.mem_cons_self
    have hne := Text.Utf8.ofString_ne_nil (hplain label List.mem_cons_self).1
    cases hknown : before.lookup (joined (label :: rest)) with
    | some i =>
      refine ⟨_, before, ?_, fun written _ => Writer.labels_known hlabel hknown written, ?_⟩
      · have hpos := List.length_pos_iff.mpr hne
        rw [Octets.length_ofWord16, octetsOf_cons, span_cons]
        omega
      · intro message hholds hsound
        obtain ⟨hi, jumps, stop, hjumps, hspells⟩ := hsound _ i (List.cons_ne_nil _ _)
          (Nat.le_refl _) hplain hmax (mem_of_lookup hknown)
        exact ⟨⟨jumps + 1, hjumps, spells_pointerTo hi hholds hspells⟩,
          fun other i _ _ hmem => Or.inl hmem⟩
    | none =>
      have hrest := List.suffix_cons label rest
      obtain ⟨octets, after, hlength, happends, hread⟩ := ih (hplain.of_suffix hrest)
        (hmax.of_suffix hrest)
        (n + 1 + (Text.Utf8.ofString label).length) (remembering (joined (label :: rest)) n before)
      refine ⟨_, after, ?_, Writer.appends_labels_new hlabel hknown happends, ?_⟩
      · rw [List.length_append, length_measured, octetsOf_cons, span_cons]
        omega
      intro message hholds hsound
      -- The entry that is new is longer than any suffix that the rest can ask for.
      have hshorter : SoundUpTo rest.length (remembering (joined (label :: rest)) n before)
          message := by
        intro other i hother hcount hplain' hshort hmem
        obtain ⟨_, hnew⟩ | hold := mem_remembering.mp hmem
        · have hsame := joined_inj hplain' hplain hother (List.cons_ne_nil _ _)
            (congrArg Prod.fst hnew)
          rw [hsame, List.length_cons] at hcount
          exact absurd hcount (by omega)
        · exact hsound other i hother (by rw [List.length_cons]; omega) hplain' hshort hold
      obtain ⟨⟨jumps, hjumps, hspells⟩, hstands⟩ := hread message hholds.tail.right hshorter
      have hwhole : Spells message n (octetsOf (label :: rest)) jumps
          (n + (measured label ++ octets).length) := by
        rw [List.length_append, length_measured, ← Nat.add_assoc, ← Nat.add_assoc]
        exact .label hne hlabel hholds.left hspells
      refine ⟨⟨jumps, Nat.le_succ_of_le hjumps, hwhole⟩, ?_⟩
      intro other i hother hplain' hmem
      obtain hmem | hstand := hstands other i hother hplain' hmem
      · obtain ⟨hi, hnew⟩ | hold := mem_remembering.mp hmem
        · have hsame := joined_inj hplain' hplain hother (List.cons_ne_nil _ _)
            (congrArg Prod.fst hnew)
          obtain rfl : i = n := congrArg Prod.snd hnew
          rw [hsame]
          exact Or.inr ⟨hi, jumps, _, Nat.lt_succ_of_le hjumps, hwhole⟩
        · exact Or.inl hold
      · exact Or.inr hstand

end Name

end PassiveDns.Dns
