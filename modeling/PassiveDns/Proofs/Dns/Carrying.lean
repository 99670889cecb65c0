/-
  PassiveDns.Proofs.Dns.Carrying

  Writing and reading side by side: a writing step carries a value to a reading
  step if the reading step finds the value in the octets that the writing step
  appends, in whichever message these end up. Steps that carry values are put
  together one after the other.
-/
import PassiveDns.Proofs.Dns.Names

namespace PassiveDns.Dns

open Name (Sound)

/-- Wherever `write` stands, it appends at most `size` octets, as a length in front
    of them has to know. In every message that has them there and in which the
    suffixes remembered before are sound, `read` finds `value` in them and stops
    behind them, and the suffixes remembered after are sound. -/
def Carries {α : Type} (write : Writer Unit) (read : Reader α) (value : α) (size : Nat) : Prop :=
  ∀ n before, ∃ octets after, octets.length ≤ size ∧ write.Appends n before octets after ∧
    ∀ source : Source, Holds source.octets n octets → Sound before source.octets →
      Sound after source.octets ∧ read source n = .ok value (n + octets.length)

namespace Carries

variable {α β : Type} {write next : Writer Unit} {read : Reader α} {value : α} {size more : Nat}

theorem mono (size : Nat) (h : Carries write read value size) (hsize : size ≤ more) :
    Carries write read value more := by
  intro n before
  obtain ⟨octets, after, hlength, happends, hread⟩ := h n before
  exact ⟨octets, after, Nat.le_trans hlength hsize, happends, hread⟩

/-- What is made of the value after reading it. -/
theorem map (f : α → β) (h : Carries write read value size) :
    Carries write (read >>= fun a => pure (f a)) (f value) size := by
  intro n before
  obtain ⟨octets, after, hlength, happends, hread⟩ := h n before
  refine ⟨octets, after, hlength, happends, fun source hholds hsound => ?_⟩
  obtain ⟨hafter, hvalue⟩ := hread source hholds hsound
  exact ⟨hafter, by rw [Reader.bind_ok hvalue]; rfl⟩

theorem bind {result : β} {readNext : α → Reader β} (h : Carries write read value size)
    (hnext : Carries next (readNext value) result more) :
    Carries (write >>= fun _ => next) (read >>= readNext) result (size + more) := by
  intro n before
  obtain ⟨first, between, hfirst, happends, hread⟩ := h n before
  obtain ⟨second, after, hsecond, happends', hread'⟩ := hnext (n + first.length) between
  refine ⟨first ++ second, after, ?_, happends.bind happends', fun source hholds hsound => ?_⟩
  · rw [List.length_append]
    omega
  obtain ⟨hbetween, hvalue⟩ := hread source hholds.left hsound
  obtain ⟨hafter, hresult⟩ := hread' source hholds.right hbetween
  refine ⟨hafter, ?_⟩
  rw [Reader.bind_ok hvalue, hresult, List.length_append, Nat.add_assoc]

theorem skip (value : α) : Carries (pure ()) (pure value) value 0 := by
  intro n before
  exact ⟨[], before, Nat.le_refl 0, Writer.appends_pure n before,
    fun source _ hsound => ⟨hsound, rfl⟩⟩

/-- Items one after the other. -/
theorem each {write : α → Writer Unit} {read : Reader β} {f : α → β} {items : List α}
    (h : ∀ item ∈ items, Carries (write item) read (f item) size) :
    Carries (Writer.each write items) (Reader.times items.length read) (items.map f)
      (items.length * size) := by
  induction items with
  | nil =>
    rw [List.length_nil, Nat.zero_mul]
    exact skip []
  | cons item rest ih =>
    have hrest := ih fun other hother => h other (List.mem_cons_of_mem _ hother)
    refine mono _ (bind (h item List.mem_cons_self) (hrest.map (f item :: ·))) ?_
    rw [List.length_cons, Nat.succ_mul, Nat.add_comm]

/-! ## Numbers -/

theorem octet (b : UInt8) : Carries (Writer.octet b) Reader.octet b 1 := by
  intro n before
  exact ⟨[b], before, Nat.le_refl 1, Writer.appends_octet b n before,
    fun source hholds hsound => ⟨hsound, Reader.octet_ok hholds.head⟩⟩

theorem pair (hi lo : UInt8) :
    Carries (Writer.octets [hi, lo]) Reader.word16 (Octets.word16 hi lo) 2 := by
  intro n before
  exact ⟨[hi, lo], before, Nat.le_refl 2, Writer.appends_octets _ n before,
    fun source hholds hsound => ⟨hsound, Reader.word16_ok hholds⟩⟩

theorem quad (a b c d : UInt8) :
    Carries (Writer.octets [a, b, c, d]) Reader.word32 (Octets.word32 a b c d) 4 := by
  intro n before
  exact ⟨[a, b, c, d], before, Nat.le_refl 4, Writer.appends_octets _ n before,
    fun source hholds hsound => ⟨hsound, Reader.word32_ok hholds⟩⟩

theorem word16 (w : UInt16) : Carries (Writer.word16 w) Reader.word16 w 2 := by
  have h := pair (UInt8.ofNat (w.toNat / 256)) (UInt8.ofNat w.toNat)
  rwa [Octets.word16_ofNat] at h

theorem word32 (w : UInt32) : Carries (Writer.word32 w) Reader.word32 w 4 := by
  have h := quad (UInt8.ofNat (w.toNat / 16777216)) (UInt8.ofNat (w.toNat / 65536))
    (UInt8.ofNat (w.toNat / 256)) (UInt8.ofNat w.toNat)
  rwa [Octets.word32_ofNat] at h

end Carries

/-! ## Names -/

namespace Name

/-- The text that reading a name gives: its labels, each followed by a dot, and a
    single dot for the name that has no labels. -/
def normalised (name : String) : String :=
  if labels name = [] then "." else dotted (labels name)

/-- Names that can be written and read: labels are of at most 63 octets, and there
    are no more of them than pointers may be followed; with a dot after each label
    they take at most 255 octets. -/
structure Fits (name : String) : Prop where
  short : ∀ label ∈ labels name, (Text.Utf8.ofString label).length ≤ maxLabel
  few : (labels name).length ≤ maxJumps
  total : (Text.Utf8.ofString (normalised name)).length ≤ maxLength

instance : DecidablePred Fits := fun name =>
  decidable_of_iff ((∀ label ∈ labels name, (Text.Utf8.ofString label).length ≤ maxLabel) ∧
      (labels name).length ≤ maxJumps ∧ (Text.Utf8.ofString (normalised name)).length ≤ maxLength)
    ⟨fun h => ⟨h.1, h.2.1, h.2.2⟩, fun h => ⟨h.short, h.few, h.total⟩⟩

theorem length_dotted (labels : List String) :
    (Text.Utf8.ofString (dotted labels)).length = span (octetsOf labels) := by
  rw [Text.Utf8.ofString, dotted, String.toList_ofList]
  induction labels with
  | nil => rfl
  | cons label rest ih =>
    rw [List.flatMap_cons, Text.Utf8.encode_append, Text.Utf8.encode_append, List.length_append,
      List.length_append, ih, octetsOf_cons, span_cons]
    rfl

theorem span_le_of_total {name : String}
    (h : (Text.Utf8.ofString (normalised name)).length ≤ maxLength) :
    span (octetsOf (labels name)) ≤ maxLength := by
  rw [← length_dotted]
  by_cases hroot : labels name = []
  · rw [hroot]
    exact Nat.zero_le _
  · rwa [normalised, if_neg hroot] at h

theorem dotted_eq_empty_iff {labels : List String} : dotted labels = "" ↔ labels = [] := by
  rw [dotted, String.ofList_eq_empty_iff, List.flatMap_eq_nil_iff]
  constructor
  · intro h
    rw [List.eq_nil_iff_forall_not_mem]
    intro label hlabel
    exact absurd (h label hlabel) (List.append_ne_nil_of_right_ne_nil _ (List.cons_ne_nil _ _))
  · intro h
    simp [h]

end Name

theorem Reader.name_ok {source : Source} {n jumps stop : Nat} {labels : List String}
    (h : Name.Spells source.octets n (Name.octetsOf labels) jumps stop)
    (hjumps : jumps ≤ Name.maxJumps) (hspan : Name.span (Name.octetsOf labels) ≤ Name.maxLength) :
    Reader.name source n =
      .ok (if labels = [] then "." else Name.dotted labels) stop := by
  have hlabels : (Name.octetsOf labels).map Text.Utf8.toStringLossy = labels := by
    rw [Name.octetsOf, List.map_map]
    exact List.map_id'' Text.Utf8.toStringLossy_ofString labels
  rw [Reader.name_of_spells h hjumps hspan, Name.textOf, hlabels]
  by_cases hroot : labels = []
  · rw [if_pos hroot, if_pos (by rw [String.isEmpty_iff, Name.dotted_eq_empty_iff, hroot])]
  · rw [if_neg hroot, if_neg (by rwa [String.isEmpty_iff, Name.dotted_eq_empty_iff])]

/-- A name is read as it was written, in its normalised form. -/
theorem carries_name {name : String} (h : Name.Fits name) :
    Carries (Writer.name name) Reader.name (Name.normalised name) 256 := by
  intro n before
  obtain ⟨octets, after, hlength, happends, hread⟩ :=
    Name.appends_labels (Name.labels name) (Name.plain_labels name) h.short n before
  have hspan := Name.span_le_of_total h.total
  rw [Name.maxLength] at hspan
  refine ⟨octets, after, by omega, happends, fun source hholds hsound => ?_⟩
  have hspelled := hread source.octets hholds (hsound _)
  obtain ⟨jumps, hjumps, hspells⟩ := hspelled.spells
  exact ⟨hspelled.sound hsound, Reader.name_ok hspells (Nat.le_trans hjumps h.few) hspan⟩

end PassiveDns.Dns
