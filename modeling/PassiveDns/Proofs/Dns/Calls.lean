/-
  PassiveDns.Proofs.Dns.Calls

  Calls that append to a draft, one after the other, whether they succeed or not. A name
  that cannot be written stops at the first of its labels that is too long, and by then
  the suffixes from the labels in front of it on are remembered. So of the suffixes
  remembered those that can be written stand where they are said to stand
  (`Recorded.after`), and the others stand nowhere.
-/
import PassiveDns.Proofs.Dns.Carrying

namespace PassiveDns.Dns

/-- What is appended to a draft in one call. -/
inductive Writer.Call where
  | octet (b : UInt8)
  | word16 (w : UInt16)
  | word32 (w : UInt32)
  | name (text : String)
deriving Repr, DecidableEq

/-- The step that a call takes. -/
def Writer.Call.step : Writer.Call → Writer Unit
  | octet b => Writer.octet b
  | word16 w => Writer.word16 w
  | word32 w => Writer.word32 w
  | name text => Writer.name text

namespace Wire

/-- The message that a step leaves, whether it succeeds or not. -/
def left : EStateM.Result WireError Wire Unit → Wire
  | .ok _ wire => wire
  | .error _ wire => wire

/-- The message after a call. -/
def after (wire : Wire) (call : Writer.Call) : Wire := left (call.step wire)

/-- The message after calls. -/
def afterAll (wire : Wire) (calls : List Writer.Call) : Wire := calls.foldl after wire

theorem afterAll_append (wire : Wire) (first second : List Writer.Call) :
    wire.afterAll (first ++ second) = (wire.afterAll first).afterAll second :=
  List.foldl_append

theorem afterAll_append_singleton (wire : Wire) (calls : List Writer.Call) (call : Writer.Call) :
    wire.afterAll (calls ++ [call]) = (wire.afterAll calls).after call :=
  afterAll_append wire calls [call]

end Wire

open Name

/-! ## Labels that may be too long -/

namespace Writer

/-- What becomes of labels that are written into a draft. -/
inductive Attempt :
    List String → Octets → Suffixes → EStateM.Result WireError Wire Unit → Prop
  /-- Behind the last label comes a zero. -/
  | root {written : Octets} {suffixes : Suffixes} :
    Attempt [] written suffixes (.ok () (.draft (written ++ [0]) suffixes))
  /-- A label is too long. -/
  | long {label : String} {rest : List String} {written : Octets} {suffixes : Suffixes}
    (hlong : maxLabel < (Text.Utf8.ofString label).length) :
    Attempt (label :: rest) written suffixes (.error .labelTooLong (.draft written suffixes))
  /-- The labels are remembered. -/
  | known {label : String} {rest : List String} {written : Octets} {suffixes : Suffixes} {i : Nat}
    (hmax : (Text.Utf8.ofString label).length ≤ maxLabel)
    (hlookup : suffixes.lookup (joined (label :: rest)) = some i) :
    Attempt (label :: rest) written suffixes
      (.ok () (.draft (written ++ Octets.ofWord16 (pointerTo i)) suffixes))
  /-- The first label is written, and the others behind it. -/
  | new {label : String} {rest : List String} {written : Octets} {suffixes : Suffixes}
    {result : EStateM.Result WireError Wire Unit}
    (hmax : (Text.Utf8.ofString label).length ≤ maxLabel)
    (hlookup : suffixes.lookup (joined (label :: rest)) = none)
    (hrest : Attempt rest (written ++ Name.measured label)
      (remembering (joined (label :: rest)) written.length suffixes) result) :
    Attempt (label :: rest) written suffixes result

theorem attempt (labels : List String) (written : Octets) (suffixes : Suffixes) :
    Attempt labels written suffixes (Writer.labels labels (.draft written suffixes)) := by
  induction labels generalizing written suffixes with
  | nil =>
    rw [Writer.labels, appends_octet 0 written.length suffixes written rfl]
    exact .root
  | cons label rest ih =>
    by_cases hmax : (Text.Utf8.ofString label).length ≤ maxLabel
    · cases hlookup : suffixes.lookup (joined (label :: rest)) with
      | some i =>
        rw [labels_known hmax hlookup]
        exact .known hmax hlookup
      | none =>
        rw [labels_new hmax hlookup]
        exact .new hmax hlookup (ih _ _)
    · have hlong := Nat.lt_of_not_le hmax
      rw [labels_long hlong]
      exact .long hlong

section

variable {labels : List String} {written : Octets} {before : Suffixes}
  {result : EStateM.Result WireError Wire Unit}

/-- The draft has only grown. -/
theorem Attempt.grows (h : Attempt labels written before result) :
    ∃ more after, Wire.left result = .draft (written ++ more) after := by
  induction h with
  | root => exact ⟨[0], _, rfl⟩
  | long => exact ⟨[], _, by rw [List.append_nil]; rfl⟩
  | known => exact ⟨_, _, rfl⟩
  | new _ _ _ ih =>
    obtain ⟨more, after, hleft⟩ := ih
    exact ⟨_, after, by rw [hleft, List.append_assoc]⟩

/-- What is remembered now was remembered before, or is the labels from one of them on. -/
theorem Attempt.origin (h : Attempt labels written before result) :
    ∀ entry ∈ (Wire.left result).suffixes, entry ∈ before ∨
      ∃ suffix, suffix ≠ [] ∧ suffix <:+ labels ∧ entry.1 = joined suffix := by
  induction h with
  | root => exact fun entry hentry => .inl hentry
  | long => exact fun entry hentry => .inl hentry
  | known => exact fun entry hentry => .inl hentry
  | @new label rest written suffixes result hmax hlookup hrest ih =>
    intro entry hentry
    obtain hmem | ⟨suffix, hne, hsuffix, hkey⟩ := ih entry hentry
    · obtain ⟨_, rfl⟩ | hold := mem_remembering.mp hmem
      · exact .inr ⟨_, List.cons_ne_nil _ _, List.suffix_refl _, rfl⟩
      · exact .inl hold
    · exact .inr ⟨suffix, hne, hsuffix.trans (List.suffix_cons label rest), hkey⟩

/-- What was remembered before still is. -/
theorem Attempt.lookup_isSome (h : Attempt labels written before result) {suffix : String}
    (hbefore : (before.lookup suffix).isSome) :
    ((Wire.left result).suffixes.lookup suffix).isSome := by
  induction h with
  | root => exact hbefore
  | long => exact hbefore
  | known => exact hbefore
  | @new label rest written before result hmax hlookup hrest ih =>
    refine ih ?_
    -- what is remembered on top was not remembered before
    by_cases hkey : suffix = joined (label :: rest)
    · rw [hkey, hlookup] at hbefore
      cases hbefore
    · rwa [lookup_remembering_of_ne hkey]

end

/-! ## What stands in front of a label that is too long -/

/-- Of labels that go on with `tail`, those from one of them on are remembered. -/
def Remembers (suffixes : Suffixes) (front tail : List String) : Prop :=
  ∃ suffix, suffix ≠ [] ∧ suffix <:+ front ∧ (suffixes.lookup (joined (suffix ++ tail))).isSome

theorem not_remembers_nil (suffixes : Suffixes) (tail : List String) :
    ¬Remembers suffixes [] tail := by
  rintro ⟨suffix, hne, hsuffix, -⟩
  exact hne (List.suffix_nil.mp hsuffix)

theorem remembers_cons {label : String} {front tail : List String} {suffixes : Suffixes} :
    Remembers suffixes (label :: front) tail ↔
      (suffixes.lookup (joined (label :: front ++ tail))).isSome ∨
        Remembers suffixes front tail := by
  constructor
  · rintro ⟨suffix, hne, hsuffix, hsome⟩
    rcases List.suffix_cons_iff.mp hsuffix with rfl | hsuffix
    · exact .inl hsome
    · exact .inr ⟨suffix, hne, hsuffix, hsome⟩
  · rintro (hsome | ⟨suffix, hne, hsuffix, hsome⟩)
    · exact ⟨_, List.cons_ne_nil _ _, List.suffix_refl _, hsome⟩
    · exact ⟨suffix, hne, hsuffix.trans (List.suffix_cons label front), hsome⟩

/-- Remembering labels does not help those behind the first of them. -/
theorem remembers_remembering {label : String} {front tail : List String}
    (hplain : Plain (label :: front ++ tail)) (i : Nat) (suffixes : Suffixes) :
    Remembers (remembering (joined (label :: front ++ tail)) i suffixes) front tail ↔
      Remembers suffixes front tail := by
  refine exists_congr fun suffix => and_congr_right fun hne => and_congr_right fun hsuffix => ?_
  have hwhole : suffix ++ tail <:+ label :: front ++ tail :=
    List.suffix_append_self_iff.mpr (hsuffix.trans (List.suffix_cons label front))
  have hless : (suffix ++ tail).length < (label :: front ++ tail).length := by
    have hle := hsuffix.length_le
    rw [List.length_append, List.length_append, List.length_cons]
    omega
  have hkey := joined_ne hplain hwhole (List.append_ne_nil_of_left_ne_nil hne _) hless
  rw [lookup_remembering_of_ne hkey]

section

variable {front rest : List String} {long : String} {written : Octets} {before : Suffixes}
  {result : EStateM.Result WireError Wire Unit}

/-- Labels of which one is too long are refused, unless those from one in front of it on are
    remembered. -/
theorem Attempt.refused_iff (h : Attempt (front ++ long :: rest) written before result)
    (hplain : Plain (front ++ long :: rest)) (hfront : Short front)
    (hlong : maxLabel < (Text.Utf8.ofString long).length) :
    (∃ wire, result = .error .labelTooLong wire) ↔ ¬Remembers before front (long :: rest) := by
  induction front generalizing written before with
  | nil =>
    cases h with
    | long => exact iff_of_true ⟨_, rfl⟩ (not_remembers_nil before _)
    | known hmax => exact absurd hlong (Nat.not_lt.mpr hmax)
    | new hmax => exact absurd hlong (Nat.not_lt.mpr hmax)
  | cons label front ih =>
    rw [remembers_cons]
    rw [List.cons_append] at h ⊢
    cases h with
    | long hmax => exact absurd (hfront label List.mem_cons_self) (Nat.not_le.mpr hmax)
    | known hmax hlookup =>
      refine iff_of_false ?_ (not_not_intro (.inl ?_))
      · rintro ⟨wire, hfailed⟩
        cases hfailed
      · rw [hlookup, Option.isSome_some]
    | new hmax hlookup hrest =>
      -- What is remembered now starts in front of all that the rest can ask for.
      rw [hlookup, Option.isSome_none, or_iff_right Bool.false_ne_true,
        ih hrest (hplain.of_suffix (List.suffix_cons _ _))
          (hfront.of_suffix (List.suffix_cons _ _))]
      exact not_congr (remembers_remembering hplain _ before)

/-- What was not remembered before has the label that is too long: those behind it are never
    reached. -/
theorem Attempt.origin_of_long (h : Attempt (front ++ long :: rest) written before result)
    (hfront : Short front) (hlong : maxLabel < (Text.Utf8.ofString long).length) :
    ∀ entry ∈ (Wire.left result).suffixes, entry ∈ before ∨
      ∃ suffix, entry.1 = joined (suffix ++ long :: rest) ∧ suffix <:+ front := by
  induction front generalizing written before with
  | nil =>
    cases h with
    | long => exact fun entry hentry => .inl hentry
    | known hmax => exact absurd hlong (Nat.not_lt.mpr hmax)
    | new hmax => exact absurd hlong (Nat.not_lt.mpr hmax)
  | cons label front ih =>
    rw [List.cons_append] at h
    cases h with
    | long hmax => exact absurd (hfront label List.mem_cons_self) (Nat.not_le.mpr hmax)
    | known => exact fun entry hentry => .inl hentry
    | new hmax hlookup hrest =>
      intro entry hentry
      have hbehind := ih hrest (hfront.of_suffix (List.suffix_cons _ _)) entry hentry
      obtain hmem | ⟨suffix, hkey, hsuffix⟩ := hbehind
      · obtain ⟨_, rfl⟩ | hold := mem_remembering.mp hmem
        · exact .inr ⟨label :: front, rfl, List.suffix_refl _⟩
        · exact .inl hold
      · exact .inr ⟨suffix, hkey, hsuffix.trans (List.suffix_cons label front)⟩

end

end Writer

namespace Name

/-- Labels that are not all short enough have a first one that is too long. -/
theorem exists_long {labels : List String} (h : ¬Short labels) :
    ∃ front long rest, labels = front ++ long :: rest ∧ Short front ∧
      maxLabel < (Text.Utf8.ofString long).length := by
  induction labels with
  | nil => exact absurd (fun label hlabel => absurd hlabel List.not_mem_nil) h
  | cons label rest ih =>
    by_cases hlabel : (Text.Utf8.ofString label).length ≤ maxLabel
    · obtain ⟨front, long, others, rfl, hfront, hlong⟩ :=
        ih fun hrest => h (List.forall_mem_cons.mpr ⟨hlabel, hrest⟩)
      exact ⟨label :: front, long, others, rfl, List.forall_mem_cons.mpr ⟨hlabel, hfront⟩, hlong⟩
    · exact ⟨[], label, rest, rfl, fun other hother => absurd hother List.not_mem_nil,
        Nat.lt_of_not_le hlabel⟩

theorem Stands.append {message : Array UInt8} {labels : List String} {i : Nat}
    (h : Stands message labels i) (more : Array UInt8) : Stands (message ++ more) labels i := by
  obtain ⟨hi, jumps, stop, hjumps, hspells⟩ := h
  exact ⟨hi, jumps, stop, hjumps, hspells.append more⟩

/-- What was sound stays so while the message grows, if no more is remembered that can be
    written. -/
theorem Sound.mono {before after : Suffixes} {message : Array UInt8} (h : Sound before message)
    (more : Array UInt8) (hafter : ∀ labels i, labels ≠ [] → Plain labels → Short labels →
      (joined labels, i) ∈ after → (joined labels, i) ∈ before) :
    Sound after (message ++ more) := by
  intro count labels i hne hcount hplain hshort hmem
  exact (h count labels i hne hcount hplain hshort (hafter labels i hne hplain hshort hmem)).append
    more

/-- A name that can be written is written and spelled, whatever else is remembered. -/
theorem Sound.name {octets : Octets} {before : Suffixes} {text : String}
    (h : Sound before octets.toArray) (hshort : Short (labels text)) :
    ∃ more after jumps, Writer.name text (.draft octets before) =
        .ok () (.draft (octets ++ more) after) ∧
      jumps ≤ (labels text).length ∧
      Spells (octets ++ more).toArray octets.length (octetsOf (labels text)) jumps
        (octets ++ more).length ∧
      Sound after (octets ++ more).toArray := by
  have hplain := plain_labels text
  obtain ⟨more, after, -, happends, hread⟩ :=
    appends_labels (labels text) hplain hshort octets.length before
  have hgrown : Sound before (octets ++ more).toArray := by
    rw [← List.append_toArray]
    exact h.mono more.toArray fun _ _ _ _ _ hmem => hmem
  have hholds : Holds (octets ++ more).toArray octets.length more :=
    ⟨octets, [], by rw [List.append_nil], rfl⟩
  have hspelled := hread _ hholds (hgrown _)
  obtain ⟨jumps, hjumps, hspells⟩ := hspelled.spells
  rw [← List.length_append] at hspells
  exact ⟨more, after, jumps, happends octets rfl, hjumps, hspells, hspelled.sound hgrown⟩

end Name

/-! ## Calls one after the other -/

/-- What calls leave: a draft that remembers only names that they tried to write, from one of
    their labels on, and is right about those that can be written. -/
structure Wire.Recorded (calls : List Writer.Call) (wire : Wire) : Prop where
  draft : ∃ octets suffixes, wire = .draft octets suffixes
  origin : ∀ entry ∈ wire.suffixes, ∃ text labels, .name text ∈ calls ∧ labels ≠ [] ∧
    labels <:+ Name.labels text ∧ entry.1 = joined labels
  sound : Sound wire.suffixes wire.octets

namespace Wire

variable {calls : List Writer.Call} {wire : Wire}

theorem recorded_empty : Recorded [] empty where
  draft := ⟨[], [], rfl⟩
  origin := fun _ hentry => absurd hentry List.not_mem_nil
  sound := sound_nil _

/-- A call appends octets and remembers nothing, or it tries to write a name. -/
theorem after_draft (octets : Octets) (suffixes : Suffixes) (call : Writer.Call) :
    (∃ more, (draft octets suffixes).after call = .draft (octets ++ more) suffixes) ∨
      ∃ text, call = .name text := by
  have hoctets : ∀ more, Writer.octets more (draft octets suffixes) =
      .ok () (.draft (octets ++ more) suffixes) :=
    fun more => Writer.appends_octets more octets.length suffixes octets rfl
  cases call with
  | octet b =>
    have hoctet := Writer.appends_octet b octets.length suffixes octets rfl
    exact .inl ⟨[b], congrArg left hoctet⟩
  | word16 w => exact .inl ⟨_, congrArg left (hoctets (Octets.ofWord16 w))⟩
  | word32 w => exact .inl ⟨_, congrArg left (hoctets (Octets.ofWord32 w))⟩
  | name text => exact .inr ⟨text, rfl⟩

/-- Every call makes a draft grow. -/
theorem draft_after (octets : Octets) (suffixes : Suffixes) (call : Writer.Call) :
    ∃ more after, (draft octets suffixes).after call = .draft (octets ++ more) after := by
  obtain ⟨more, hmore⟩ | ⟨text, rfl⟩ := after_draft octets suffixes call
  · exact ⟨more, suffixes, hmore⟩
  · exact (Writer.attempt (labels text) octets suffixes).grows

theorem draft_afterAll (octets : Octets) (suffixes : Suffixes) (calls : List Writer.Call) :
    ∃ more after, (draft octets suffixes).afterAll calls = .draft (octets ++ more) after := by
  induction calls generalizing octets suffixes with
  | nil => exact ⟨[], suffixes, by rw [List.append_nil]; rfl⟩
  | cons call rest ih =>
    obtain ⟨more, between, hstep⟩ := draft_after octets suffixes call
    obtain ⟨others, after, hrest⟩ := ih (octets ++ more) between
    refine ⟨more ++ others, after, ?_⟩
    rw [← List.append_assoc, ← hrest, ← hstep]
    rfl

section

variable {octets : Octets} {before after : Suffixes} {call : Writer.Call}

/-- The draft has grown by a call, and what it remembers now it remembered before or is of
    the name that the call tries to write. -/
theorem Recorded.grown (h : Recorded calls (Wire.draft octets before)) (more : Octets)
    (hafter : ∀ entry ∈ after, entry ∈ before ∨ ∃ text labels, call = .name text ∧ labels ≠ [] ∧
      labels <:+ Name.labels text ∧ entry.1 = joined labels)
    (hsound : Sound after (octets ++ more).toArray) :
    Recorded (calls ++ [call]) (Wire.draft (octets ++ more) after) where
  draft := ⟨_, _, rfl⟩
  origin := by
    intro entry hentry
    obtain hold | ⟨text, labels, rfl, hnew⟩ := hafter entry hentry
    · obtain ⟨text, labels, hcall, hrest⟩ := h.origin entry hold
      exact ⟨text, labels, List.mem_append_left _ hcall, hrest⟩
    · exact ⟨text, labels, List.mem_append_right _ List.mem_cons_self, hnew⟩
  sound := hsound

/-- After a call that remembers nothing. -/
theorem Recorded.plain (h : Recorded calls (Wire.draft octets before)) (more : Octets) :
    Recorded (calls ++ [call]) (Wire.draft (octets ++ more) before) := by
  refine h.grown more (fun _ hentry => .inl hentry) ?_
  rw [← List.append_toArray]
  exact h.sound.mono more.toArray fun _ _ _ _ _ hmem => hmem

/-- After a call that tries to write a name. If the name has a label that is too long, then
    so has whatever is remembered for it. -/
theorem Recorded.name (h : Recorded calls (Wire.draft octets before)) (text : String) :
    Recorded (calls ++ [.name text]) ((Wire.draft octets before).after (.name text)) := by
  have hattempt := Writer.attempt (labels text) octets before
  obtain ⟨more, after, hleft⟩ := hattempt.grows
  have horigin := hattempt.origin
  rw [show (Wire.draft octets before).after (.name text) = .draft (octets ++ more) after from hleft]
  rw [hleft] at horigin
  refine h.grown more (fun entry hentry => (horigin entry hentry).imp_right ?_) ?_
  · rintro ⟨suffix, hnew⟩
    exact ⟨text, suffix, rfl, hnew⟩
  have hsound : Sound before octets.toArray := h.sound
  -- Either the name is written, or nothing new is remembered that could be.
  by_cases hshort : Short (labels text)
  · obtain ⟨octets', after', jumps, hdone, -, -, hsound'⟩ := hsound.name hshort
    have hsame := hleft.symm.trans (congrArg Wire.left hdone)
    rw [Wire.draft, Wire.left, Wire.draft, Wire.mk.injEq] at hsame
    rw [hsame.1, hsame.2.2.2]
    exact hsound'
  · obtain ⟨front, long, rest, hlabels, hfront, hlong⟩ := exists_long hshort
    have hplain := plain_labels text
    rw [hlabels] at hattempt hplain
    have hafter := hattempt.origin_of_long hfront hlong
    rw [← hlabels, hleft] at hafter
    rw [← List.append_toArray]
    refine hsound.mono more.toArray fun others i hne hothers hshort' hmem => ?_
    obtain hold | ⟨suffix, hkey, hsuffix⟩ := hafter _ hmem
    · exact hold
    · have hwhole : suffix ++ long :: rest <:+ front ++ long :: rest :=
        List.suffix_append_self_iff.mpr hsuffix
      obtain rfl := joined_inj hothers (hplain.of_suffix hwhole) hne
        (List.append_ne_nil_of_right_ne_nil _ (List.cons_ne_nil _ _)) hkey
      exact absurd (hshort' long (List.mem_append_right _ List.mem_cons_self))
        (Nat.not_le.mpr hlong)

end

theorem Recorded.after (h : Recorded calls wire) (call : Writer.Call) :
    Recorded (calls ++ [call]) (wire.after call) := by
  obtain ⟨octets, suffixes, rfl⟩ := h.draft
  obtain ⟨more, hmore⟩ | ⟨text, rfl⟩ := after_draft octets suffixes call
  · rw [hmore]
    exact h.plain more
  · exact h.name text

/-- One call after the other. -/
theorem Recorded.afterAll (h : Recorded calls wire) (later : List Writer.Call) :
    Recorded (calls ++ later) (wire.afterAll later) := by
  induction later generalizing calls wire with
  | nil =>
    rw [List.append_nil]
    exact h
  | cons call rest ih =>
    rw [← List.singleton_append, ← List.append_assoc]
    exact ih (h.after call)

/-- Calls on a fresh draft. -/
theorem recorded_afterAll (calls : List Writer.Call) : Recorded calls (empty.afterAll calls) :=
  recorded_empty.afterAll calls

end Wire

end PassiveDns.Dns
