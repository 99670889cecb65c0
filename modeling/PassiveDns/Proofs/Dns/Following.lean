/-
  PassiveDns.Proofs.Dns.Following

  Which octets are a name, and why others are none. Following labels and pointers leads
  from place to place (`Leads`) until the name ends or a rule is broken (`Breaks`). Nothing
  makes the places smaller: a pointer leads anywhere, also back. But each step takes a
  pointer or octets of the name, and there are only so many of both, so following always
  ends, and reading says how (`name_read_iff`).
-/
import PassiveDns.Proofs.Dns.Carrying

namespace PassiveDns.Dns

namespace Name

/-! ## From place to place -/

/-- Following labels and pointers from a place on leads past `labels` and `jumps` pointers to
    another one. How many there may be is not asked. -/
inductive Leads (message : Array UInt8) : Nat → List Octets → Nat → Nat → Prop where
  | here {i : Nat} : Leads message i [] 0 i
  | label {i jumps stop : Nat} {label : Octets} {labels : List Octets} (hne : label ≠ [])
      (hmax : label.length ≤ maxLabel)
      (hholds : Holds message i (UInt8.ofNat label.length :: label))
      (hrest : Leads message (i + 1 + label.length) labels jumps stop) :
      Leads message i (label :: labels) jumps stop
  | pointer {i jumps stop : Nat} {hi lo : UInt8} {labels : List Octets}
      (hhi : message[i]? = some hi) (hlo : message[i + 1]? = some lo) (hpointer : isPointer hi)
      (hrest : Leads message (target hi lo) labels jumps stop) :
      Leads message i labels (jumps + 1) stop

/-- The rules that may be broken at a place when `jumps` pointers were followed and the labels
    in front of it take `used` octets. A pointer too many is refused before its second octet is
    asked for, and a label that makes the name too long before its own octets are. -/
inductive Breaks (message : Array UInt8) (i jumps used : Nat) : WireError → Prop where
  | pastEnd (hnone : message[i]? = none) : Breaks message i jumps used .endOfBuffer
  | jumpLimit {hi : UInt8} (hhi : message[i]? = some hi) (hpointer : isPointer hi)
      (hjumps : maxJumps ≤ jumps) : Breaks message i jumps used .tooManyJumps
  | cutPointer {hi : UInt8} (hhi : message[i]? = some hi) (hpointer : isPointer hi)
      (hjumps : jumps < maxJumps) (hlo : message[i + 1]? = none) :
      Breaks message i jumps used .endOfBuffer
  | reserved {b : UInt8} (hb : message[i]? = some b) (hlabel : maxLabel < b.toNat)
      (hpointer : ¬isPointer b) : Breaks message i jumps used .badLabel
  | lengthLimit {b : UInt8} (hb : message[i]? = some b) (hpos : b ≠ 0) (hlabel : b.toNat ≤ maxLabel)
      (hused : maxLength < used + (b.toNat + 1)) : Breaks message i jumps used .nameTooLong
  | cutLabel {b : UInt8} (hb : message[i]? = some b) (hpos : b ≠ 0) (hlabel : b.toNat ≤ maxLabel)
      (hused : used + (b.toNat + 1) ≤ maxLength) (hend : message.size < i + 1 + b.toNat) :
      Breaks message i jumps used .endOfBuffer

/-- A pointer begins at a place. -/
def PointerAt (message : Array UInt8) (i : Nat) : Prop :=
  ∃ hi, message[i]? = some hi ∧ isPointer hi

/-- Where the cursor is put when so many pointers were followed from `start` on: behind the
    first of them, and elsewhere if there was none. -/
inductive Resumes (message : Array UInt8) (start otherwise : Nat) : Nat → Nat → Prop where
  | plain : Resumes message start otherwise 0 otherwise
  | jumped {jumps i : Nat} {labels : List Octets} (hway : Leads message start labels 0 i)
      (hpointer : PointerAt message i) : Resumes message start otherwise (jumps + 1) (i + 2)

section

variable {message : Array UInt8} {i start stop jumps used done otherwise : Nat}
  {label : Octets} {labels : List Octets}

/-! ## One step -/

theorem isPointer_iff {b : UInt8} : isPointer b ↔ 192 ≤ b.toNat :=
  decide_eq_true_iff

/-- The octet in front of a label is its length. -/
theorem toNat_length (hmax : label.length ≤ maxLabel) :
    (UInt8.ofNat label.length).toNat = label.length := by
  rw [maxLabel] at hmax
  rw [Octets.toNat_ofNat]
  omega

/-- No pointer begins where a label does. -/
theorem not_pointerAt_of_label (hmax : label.length ≤ maxLabel)
    (hholds : Holds message i (UInt8.ofNat label.length :: label)) : ¬PointerAt message i := by
  rintro ⟨hi, hhi, hpointer⟩
  obtain rfl := Option.some.inj (hholds.head.symm.trans hhi)
  rw [isPointer_iff, toNat_length hmax] at hpointer
  rw [maxLabel] at hmax
  omega

/-- At a place there is only one label. -/
theorem label_unique {other : Octets} (hmax : label.length ≤ maxLabel)
    (hother : other.length ≤ maxLabel)
    (hholds : Holds message i (UInt8.ofNat label.length :: label))
    (hholds' : Holds message i (UInt8.ofNat other.length :: other)) : label = other := by
  have hlength : label.length = other.length := by
    rw [← toNat_length hmax, ← toNat_length hother]
    exact congrArg UInt8.toNat (Option.some.inj (hholds.head.symm.trans hholds'.head))
  rw [← hholds.tail.extract, ← hholds'.tail.extract, hlength]

/-- Nothing leads on from the end of a name. -/
theorem Leads.eq_of_zero (h : Leads message i labels jumps stop) (hzero : message[i]? = some 0) :
    labels = [] ∧ jumps = 0 ∧ stop = i := by
  cases h with
  | here => exact ⟨rfl, rfl, rfl⟩
  | @label _ _ _ label labels hne hmax hholds hrest =>
    have hlength := congrArg UInt8.toNat (Option.some.inj (hholds.head.symm.trans hzero))
    rw [toNat_length hmax] at hlength
    exact absurd (List.length_eq_zero_iff.mp hlength) hne
  | pointer hhi _ hpointer _ =>
    obtain rfl := Option.some.inj (hhi.symm.trans hzero)
    exact absurd hpointer (by decide)

/-! ## Where reading goes on -/

/-- A label in front does not matter. -/
theorem Resumes.behind_label (hne : label ≠ []) (hmax : label.length ≤ maxLabel)
    (hholds : Holds message i (UInt8.ofNat label.length :: label))
    (h : Resumes message (i + 1 + label.length) otherwise jumps stop) :
    Resumes message i otherwise jumps stop := by
  cases h with
  | plain => exact .plain
  | jumped hway hpointer => exact .jumped (.label hne hmax hholds hway) hpointer

/-- There is only one first pointer. -/
theorem Leads.first_unique {other : Nat} {others : List Octets} (h : Leads message i labels 0 stop)
    (h' : Leads message i others 0 other) (hstop : PointerAt message stop)
    (hother : PointerAt message other) : stop = other := by
  -- without a pointer there are as many steps as labels
  induction labels generalizing i others with
  | nil =>
    cases h
    cases h' with
    | here => rfl
    | label _ hmax hholds _ => exact absurd hstop (not_pointerAt_of_label hmax hholds)
  | cons label labels ih =>
    cases h with
    | label _ hmax hholds hrest =>
      cases h' with
      | here => exact absurd hother (not_pointerAt_of_label hmax hholds)
      | label _ hmax' hholds' hrest' =>
        obtain rfl := label_unique hmax hmax' hholds hholds'
        exact ih hrest hrest'

theorem Resumes.unique {other : Nat} (h : Resumes message start otherwise jumps stop)
    (h' : Resumes message start otherwise jumps other) : stop = other := by
  cases h with
  | plain =>
    cases h'
    rfl
  | jumped hway hpointer =>
    cases h' with
    | jumped hway' hpointer' => rw [hway.first_unique hway' hpointer hpointer']

/-! ## To the end of a name -/

/-- A name is spelled where following leads to a zero. -/
theorem spells_iff : Spells message i labels jumps stop ↔
    ∃ j, Leads message i labels jumps j ∧ message[j]? = some 0 ∧
      Resumes message i (j + 1) jumps stop := by
  constructor
  · intro h
    induction h with
    | root hzero => exact ⟨_, .here, hzero, .plain⟩
    | label hne hmax hholds _ ih =>
      obtain ⟨j, hway, hzero, hresumes⟩ := ih
      exact ⟨j, .label hne hmax hholds hway, hzero, hresumes.behind_label hne hmax hholds⟩
    | pointer hhi hlo hpointer _ ih =>
      obtain ⟨j, hway, hzero, -⟩ := ih
      exact ⟨j, .pointer hhi hlo hpointer hway, hzero, .jumped .here ⟨_, hhi, hpointer⟩⟩
  · rintro ⟨j, hway, hzero, hresumes⟩
    -- where the first pointer is told apart from the labels in front of it
    have hspells : ∃ stop, Spells message i labels jumps stop ∧
        Resumes message i (j + 1) jumps stop := by
      clear hresumes
      induction hway with
      | here => exact ⟨_, .root hzero, .plain⟩
      | label hne hmax hholds _ ih =>
        obtain ⟨stop, hspells, hresumes⟩ := ih hzero
        exact ⟨stop, .label hne hmax hholds hspells, hresumes.behind_label hne hmax hholds⟩
      | pointer hhi hlo hpointer _ ih =>
        obtain ⟨stop, hspells, -⟩ := ih hzero
        exact ⟨_, .pointer hhi hlo hpointer hspells, .jumped .here ⟨_, hhi, hpointer⟩⟩
    obtain ⟨stop', hspells, hresumes'⟩ := hspells
    rwa [hresumes.unique hresumes']

/-! ## To a rule that is broken -/

/-- Behind the length of a label it is asked for the length of the name, and then for the
    label. -/
theorem walk_length {b : UInt8} (hb : message[i]? = some b) (hpos : b ≠ 0)
    (hlabel : b.toNat ≤ maxLabel) :
    walk message i done used =
      if maxLength < used + (b.toNat + 1) then ⟨.error .nameTooLong, none⟩
      else if i + 1 + b.toNat ≤ message.size then
        let label := (message.extract (i + 1) (i + 1 + b.toNat)).toList
        let rest := walk message (i + 1 + b.toNat) done (used + (b.toNat + 1))
        ⟨rest.labels.map (label :: ·), rest.resume⟩
      else ⟨.error .endOfBuffer, none⟩ := by
  rw [maxLabel] at hlabel
  have hpointer : ¬isPointer b := by
    rw [isPointer_iff]
    omega
  have hnat : b.toNat ≠ 0 := fun hzero => hpos (UInt8.toNat_inj.mp hzero)
  rw [walk, hb]
  dsimp only
  rw [if_neg hpointer, if_neg (by omega), if_neg hnat]

/-- Nothing is followed past a rule that is broken. -/
theorem Breaks.walk_eq {cause : WireError} (h : Breaks message i jumps used cause) :
    walk message i jumps used = ⟨.error cause, none⟩ := by
  cases h with
  | pastEnd hnone => rw [walk, hnone]
  | jumpLimit hhi hpointer hjumps =>
    rw [walk, hhi]
    dsimp only
    rw [if_pos hpointer, if_pos hjumps]
  | cutPointer hhi hpointer hjumps hlo =>
    rw [walk, hhi]
    dsimp only
    rw [if_pos hpointer, if_neg (Nat.not_le.mpr hjumps), hlo]
  | reserved hb hlabel hpointer =>
    have hreserved : 64 ≤ UInt8.toNat _ := hlabel
    rw [walk, hb]
    dsimp only
    rw [if_neg hpointer, if_pos hreserved]
  | lengthLimit hb hpos hlabel hused => rw [walk_length hb hpos hlabel, if_pos hused]
  | cutLabel hb hpos hlabel hused hend =>
    rw [walk_length hb hpos hlabel, if_neg (Nat.not_lt.mpr hused), if_neg (Nat.not_le.mpr hend)]

/-- Where following leads to a rule that is broken, the name is given up for it. -/
theorem walk_of_breaks {cause : WireError} (h : Leads message i labels jumps stop)
    (hbreaks : Breaks message stop (done + jumps) (used + span labels) cause)
    (hjumps : done + jumps ≤ maxJumps) (hused : used + span labels ≤ maxLength) :
    (walk message i done used).labels = .error cause ∧
      Resumes message i otherwise jumps ((walk message i done used).resume.getD otherwise) := by
  -- the limits hold at every place on the way, since they still do at its end
  induction h generalizing done used with
  | here =>
    have hwalk := hbreaks.walk_eq
    rw [span_nil, Nat.add_zero, Nat.add_zero] at hwalk
    rw [hwalk]
    exact ⟨rfl, .plain⟩
  | @label i jumps stop label labels hne hmax hholds hrest ih =>
    rw [span_cons, ← Nat.add_assoc] at hbreaks hused
    obtain ⟨hlabels, hresumes⟩ := ih hbreaks hjumps hused
    rw [walk_label hne hmax hholds (by omega)]
    refine ⟨?_, hresumes.behind_label hne hmax hholds⟩
    show (Walk.labels _).map _ = _
    rw [hlabels]
    rfl
  | @pointer i jumps stop hi lo labels hhi hlo hpointer hrest ih =>
    rw [Nat.add_comm jumps 1, ← Nat.add_assoc] at hbreaks hjumps
    rw [walk_pointer hhi hlo hpointer (by omega)]
    exact ⟨(ih hbreaks hjumps hused).1, .jumped .here ⟨_, hhi, hpointer⟩⟩

/-- A name that is given up is followed to a rule that is broken. -/
theorem breaks_of_walk {cause : WireError} (h : (walk message i done used).labels = .error cause)
    (hdone : done ≤ maxJumps) (hused : used ≤ maxLength) :
    ∃ labels jumps stop, Leads message i labels jumps stop ∧ done + jumps ≤ maxJumps ∧
      used + span labels ≤ maxLength ∧
      Breaks message stop (done + jumps) (used + span labels) cause := by
  -- each case that fails here is one of the rules; `case4` and `case8` fail further on
  fun_induction walk message i done used with
  | case1 i done used hnone =>
    cases h
    exact ⟨[], 0, i, .here, hdone, hused, .pastEnd hnone⟩
  | case2 i done used b hb hpointer hjumps =>
    cases h
    exact ⟨[], 0, i, .here, hdone, hused, .jumpLimit hb hpointer hjumps⟩
  | case3 i done used b hb hpointer hjumps hlo =>
    cases h
    exact ⟨[], 0, i, .here, hdone, hused, .cutPointer hb hpointer (Nat.lt_of_not_le hjumps) hlo⟩
  | case4 i done used b hb hpointer hjumps lo hlo ih =>
    obtain ⟨labels, jumps, stop, hway, hjumps', hused', hbreaks⟩ := ih h (by omega) hused
    rw [Nat.add_assoc, Nat.add_comm 1] at hjumps' hbreaks
    exact ⟨labels, jumps + 1, stop, .pointer hb hlo hpointer hway, hjumps', hused', hbreaks⟩
  | case5 i done used b hb hpointer hreserved =>
    cases h
    exact ⟨[], 0, i, .here, hdone, hused, .reserved hb hreserved hpointer⟩
  | case6 => cases h
  | case7 i done used b hb hpointer hreserved hzero hmax =>
    cases h
    exact ⟨[], 0, i, .here, hdone, hused, .lengthLimit hb (fun hnil => hzero (by rw [hnil]; rfl))
      (Nat.le_of_lt_succ (Nat.lt_of_not_le hreserved)) hmax⟩
  | case8 i done used b hb hpointer hreserved hzero hmax hend label rest =>
    rename_i ih
    cases hlabels : rest.labels with
    | ok labels =>
      rw [hlabels] at h
      cases h
    | error other =>
      rw [hlabels] at h
      obtain rfl : other = cause := Except.error.inj h
      obtain ⟨labels, jumps, stop, hway, hjumps, hused, hbreaks⟩ := ih hlabels hdone (by omega)
      obtain ⟨hne, hlength, hholds⟩ := (holds_taken hb hzero hend rfl : label ≠ [] ∧ _)
      rw [← hlength] at hway hused hbreaks hreserved
      rw [Nat.add_assoc, ← span_cons] at hused hbreaks
      have hlabel : label.length ≤ maxLabel := Nat.le_of_lt_succ (Nat.lt_of_not_le hreserved)
      exact ⟨label :: labels, jumps, stop, .label hne hlabel hholds hway, hjumps, hused, hbreaks⟩
  | case9 i done used b hb hpointer hreserved hzero hmax hend =>
    cases h
    exact ⟨[], 0, i, .here, hdone, hused, .cutLabel hb (fun hnil => hzero (by rw [hnil]; rfl))
      (Nat.le_of_lt_succ (Nat.lt_of_not_le hreserved)) (Nat.le_of_not_lt hmax)
      (Nat.lt_of_not_le hend)⟩

/-! ## In a circle -/

theorem Leads.trans {more other : Nat} {others : List Octets}
    (h : Leads message i labels jumps stop) (h' : Leads message stop others more other) :
    Leads message i (labels ++ others) (jumps + more) other := by
  induction h with
  | here =>
    rw [List.nil_append, Nat.zero_add]
    exact h'
  | label hne hmax hholds _ ih => exact .label hne hmax hholds (ih h')
  | pointer hhi hlo hpointer _ ih =>
    rw [Nat.succ_add]
    exact .pointer hhi hlo hpointer (ih h')

/-- What leads back to where it began does so again and again. -/
theorem Leads.around (h : Leads message i labels jumps i) (count : Nat) :
    ∃ others, Leads message i others (count * jumps) i := by
  induction count with
  | zero =>
    rw [Nat.zero_mul]
    exact ⟨[], .here⟩
  | succ count ih =>
    obtain ⟨others, hothers⟩ := ih
    rw [Nat.succ_mul]
    exact ⟨others ++ labels, hothers.trans h⟩

/-- There is one way only: whatever is reached through more pointers is reached from here. -/
theorem Leads.further {more other : Nat} {others : List Octets}
    (h : Leads message i labels jumps stop) (h' : Leads message i others more other)
    (hmore : jumps < more) : ∃ between k, 0 < k ∧ Leads message stop between k other := by
  -- the longer way takes the steps of the shorter one, as the octets allow no others
  induction h generalizing others more with
  | here => exact ⟨others, more, hmore, h'⟩
  | label _ hmax hholds _ ih =>
    cases h' with
    | here => exact absurd hmore (Nat.not_lt_zero _)
    | label _ hmax' hholds' hrest =>
      obtain rfl := label_unique hmax hmax' hholds hholds'
      exact ih hrest hmore
    | pointer hhi _ hpointer _ =>
      exact absurd ⟨_, hhi, hpointer⟩ (not_pointerAt_of_label hmax hholds)
  | pointer hhi hlo hpointer _ ih =>
    cases h' with
    | here => exact absurd hmore (Nat.not_lt_zero _)
    | label _ hmax hholds _ =>
      exact absurd ⟨_, hhi, hpointer⟩ (not_pointerAt_of_label hmax hholds)
    | pointer hhi' hlo' _ hrest =>
      obtain rfl := Option.some.inj (hhi.symm.trans hhi')
      obtain rfl := Option.some.inj (hlo.symm.trans hlo')
      exact ih hrest (Nat.lt_of_succ_lt_succ hmore)

/-- Where something leads on, only a limit can be broken. -/
theorem Breaks.limit_of_leads {cause : WireError} {other : Nat}
    (h : Breaks message i done used cause) (h' : Leads message i labels jumps other)
    (hjumps : 0 < jumps) : cause = .tooManyJumps ∨ cause = .nameTooLong := by
  -- every other rule asks for octets that are not there, or that begin neither a label nor
  -- a pointer
  cases h with
  | jumpLimit => exact .inl rfl
  | lengthLimit => exact .inr rfl
  | pastEnd hnone =>
    cases h' with
    | here => exact absurd hjumps (Nat.lt_irrefl 0)
    | label _ _ hholds _ => cases hnone.symm.trans hholds.head
    | pointer hhi _ _ _ => cases hnone.symm.trans hhi
  | cutPointer hhi hpointer _ hnone =>
    cases h' with
    | here => exact absurd hjumps (Nat.lt_irrefl 0)
    | label _ hmax hholds _ =>
      exact absurd ⟨_, hhi, hpointer⟩ (not_pointerAt_of_label hmax hholds)
    | pointer _ hlo _ _ => cases hnone.symm.trans hlo
  | reserved hb hreserved hpointer =>
    cases h' with
    | here => exact absurd hjumps (Nat.lt_irrefl 0)
    | label _ hmax hholds _ =>
      obtain rfl := Option.some.inj (hholds.head.symm.trans hb)
      rw [toNat_length hmax] at hreserved
      exact absurd hmax (Nat.not_le.mpr hreserved)
    | pointer hhi _ hpointer' _ =>
      obtain rfl := Option.some.inj (hhi.symm.trans hb)
      exact absurd hpointer' hpointer
  | cutLabel hb hpos hlabel _ hend =>
    cases h' with
    | here => exact absurd hjumps (Nat.lt_irrefl 0)
    | label _ hmax hholds _ =>
      have hsize := hholds.le_size
      obtain rfl := Option.some.inj (hholds.head.symm.trans hb)
      rw [toNat_length hmax] at hend
      rw [List.length_cons] at hsize
      omega
    | pointer hhi _ hpointer _ =>
      obtain rfl := Option.some.inj (hhi.symm.trans hb)
      rw [isPointer_iff] at hpointer
      rw [maxLabel] at hlabel
      omega

end

/-- Only the name without labels has no text of its own. -/
theorem textOf_eq (labels : List Octets) : textOf labels =
    if labels = [] then "." else dotted (labels.map Text.Utf8.toStringLossy) := by
  have hempty : (dotted (labels.map Text.Utf8.toStringLossy)).isEmpty ↔ labels = [] := by
    rw [String.isEmpty_iff, dotted_eq_empty_iff, List.map_eq_nil_iff]
  show (if (dotted _).isEmpty then _ else _) = _
  by_cases hroot : labels = []
  · rw [if_pos (hempty.mpr hroot), if_pos hroot]
  · rw [if_neg fun htext => hroot (hempty.mp htext), if_neg hroot]

end Name

open Name

/-! ## Reading -/

namespace Reader

variable {source : Source} {n m : Nat}

theorem name_ok_iff {text : String} : Reader.name source n = .ok text m ↔
    ∃ labels jumps stop, Leads source.octets n labels jumps stop ∧
      source.octets[stop]? = some 0 ∧ jumps ≤ maxJumps ∧ span labels ≤ maxLength ∧
      text = textOf labels ∧ Resumes source.octets n (stop + 1) jumps m := by
  constructor
  · intro h
    obtain ⟨labels, jumps, hspells, hjumps, hspan, htext⟩ := name_inv h
    obtain ⟨stop, hway, hzero, hresumes⟩ := spells_iff.mp hspells
    exact ⟨labels, jumps, stop, hway, hzero, hjumps, hspan, htext, hresumes⟩
  · rintro ⟨labels, jumps, stop, hway, hzero, hjumps, hspan, rfl, hresumes⟩
    exact name_of_spells (spells_iff.mpr ⟨stop, hway, hzero, hresumes⟩) hjumps hspan

theorem name_error_iff {cause : WireError} : Reader.name source n = .error cause m ↔
    ∃ labels jumps stop, Leads source.octets n labels jumps stop ∧ jumps ≤ maxJumps ∧
      span labels ≤ maxLength ∧ Breaks source.octets stop jumps (span labels) cause ∧
      Resumes source.octets n n jumps m := by
  -- what is broken on the way decides the error, and the way where the cursor is
  have hfailed : ∀ {labels jumps stop}, Leads source.octets n labels jumps stop →
      jumps ≤ maxJumps → span labels ≤ maxLength →
      Breaks source.octets stop jumps (span labels) cause →
      ∃ k, Reader.name source n = .error cause k ∧ Resumes source.octets n n jumps k := by
    intro labels jumps stop hway hjumps hspan hbreaks
    rw [← Nat.zero_add jumps, ← Nat.zero_add (span labels)] at hbreaks
    obtain ⟨hlabels, hresumes⟩ := walk_of_breaks hway hbreaks (by omega) (by omega)
    rw [name_walk, hlabels]
    exact ⟨_, rfl, hresumes⟩
  constructor
  · intro h
    have hwalk := name_walk source n
    rw [h] at hwalk
    cases hlabels : (walk source.octets n 0 0).labels with
    | ok labels =>
      rw [hlabels] at hwalk
      cases hwalk
    | error other =>
      rw [hlabels] at hwalk
      cases hwalk
      obtain ⟨labels, jumps, stop, hway, hjumps, hspan, hbreaks⟩ :=
        breaks_of_walk hlabels (Nat.zero_le _) (Nat.zero_le _)
      rw [Nat.zero_add] at hjumps hspan hbreaks
      rw [Nat.zero_add] at hbreaks
      obtain ⟨k, hname, hresumes⟩ := hfailed hway hjumps hspan hbreaks
      rw [h] at hname
      cases hname
      exact ⟨labels, jumps, stop, hway, hjumps, hspan, hbreaks, hresumes⟩
  · rintro ⟨labels, jumps, stop, hway, hjumps, hspan, hbreaks, hresumes⟩
    obtain ⟨k, hname, hresumes'⟩ := hfailed hway hjumps hspan hbreaks
    rw [hname, hresumes.unique hresumes']

/-- From any place on following ends within the limits. -/
theorem exists_end (source : Source) (n : Nat) :
    ∃ labels jumps stop, Leads source.octets n labels jumps stop ∧ jumps ≤ maxJumps ∧
      span labels ≤ maxLength ∧ (source.octets[stop]? = some 0 ∨
        ∃ cause, Breaks source.octets stop jumps (span labels) cause) := by
  cases h : Reader.name source n with
  | ok text m =>
    obtain ⟨labels, jumps, stop, hway, hzero, hjumps, hspan, -⟩ := name_ok_iff.mp h
    exact ⟨labels, jumps, stop, hway, hjumps, hspan, .inl hzero⟩
  | error cause m =>
    obtain ⟨labels, jumps, stop, hway, hjumps, hspan, hbreaks, -⟩ := name_error_iff.mp h
    exact ⟨labels, jumps, stop, hway, hjumps, hspan, .inr ⟨cause, hbreaks⟩⟩

/-- A way that leads through pointers back to where it was is given up for one of the limits. -/
theorem name_of_circle {front labels : List Octets} {done jumps i : Nat}
    (hfront : Leads source.octets n front done i) (hcircle : Leads source.octets i labels jumps i)
    (hjumps : 0 < jumps) :
    ∃ cause m, Reader.name source n = .error cause m ∧
      (cause = .tooManyJumps ∨ cause = .nameTooLong) := by
  -- so often around that more pointers were followed than may be
  obtain ⟨others, hothers⟩ := hcircle.around (maxJumps + 1)
  have hlong := hfront.trans hothers
  have hmany : maxJumps < done + (maxJumps + 1) * jumps :=
    Nat.lt_of_lt_of_le (Nat.le_mul_of_pos_right (maxJumps + 1) hjumps) (Nat.le_add_left _ _)
  cases h : Reader.name source n with
  | ok text m =>
    obtain ⟨_, _, _, hway, hzero, hfew, -⟩ := name_ok_iff.mp h
    obtain ⟨_, _, hpos, hon⟩ := hway.further hlong (Nat.lt_of_le_of_lt hfew hmany)
    obtain ⟨-, rfl, -⟩ := hon.eq_of_zero hzero
    exact absurd hpos (Nat.lt_irrefl 0)
  | error cause m =>
    obtain ⟨_, _, _, hway, hfew, -, hbreaks, -⟩ := name_error_iff.mp h
    obtain ⟨_, _, hpos, hon⟩ := hway.further hlong (Nat.lt_of_le_of_lt hfew hmany)
    exact ⟨cause, m, rfl, hbreaks.limit_of_leads hon hpos⟩

/-- **Which octets are a name.** A name is read in a message, be it a view or a draft, exactly
    where labels and pointers lead to a zero, past at most 32 pointers and labels that take at
    most 255 octets with the dots behind them. Its text has these labels, and the cursor goes
    behind the first pointer, or behind the zero if there is none. Otherwise the first rule that
    is broken on the way says why there is no name, and the cursor stays if no pointer was
    followed by then. One of the two comes about wherever the way begins; if it leads in a
    circle, it is a limit that is broken. -/
theorem name_read_iff (source : Source) (n : Nat) :
    (∀ text m, Reader.name source n = .ok text m ↔
      ∃ labels jumps stop, Leads source.octets n labels jumps stop ∧
        source.octets[stop]? = some 0 ∧ jumps ≤ 32 ∧ span labels ≤ 255 ∧
        text = (if labels = [] then "." else dotted (labels.map Text.Utf8.toStringLossy)) ∧
        Resumes source.octets n (stop + 1) jumps m) ∧
    (∀ cause m, Reader.name source n = .error cause m ↔
      ∃ labels jumps stop, Leads source.octets n labels jumps stop ∧ jumps ≤ 32 ∧
        span labels ≤ 255 ∧ Breaks source.octets stop jumps (span labels) cause ∧
        Resumes source.octets n n jumps m) ∧
    (∃ labels jumps stop, Leads source.octets n labels jumps stop ∧ jumps ≤ 32 ∧
      span labels ≤ 255 ∧ (source.octets[stop]? = some 0 ∨
        ∃ cause, Breaks source.octets stop jumps (span labels) cause)) ∧
    ∀ front done i labels jumps, Leads source.octets n front done i →
      Leads source.octets i labels jumps i → 0 < jumps →
      ∃ cause m, Reader.name source n = .error cause m ∧
        (cause = .tooManyJumps ∨ cause = .nameTooLong) := by
  refine ⟨fun text m => ?_, fun cause m => name_error_iff, exists_end source n,
    fun front done i labels jumps hfront hcircle hjumps => name_of_circle hfront hcircle hjumps⟩
  simp only [← textOf_eq]
  exact name_ok_iff

end Reader

end PassiveDns.Dns
