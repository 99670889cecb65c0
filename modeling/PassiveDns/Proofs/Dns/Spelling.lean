/-
  PassiveDns.Proofs.Dns.Spelling

  What stands in a message: octets from a position on, and names, whose labels
  may be reached through pointers. Reading a name follows what spells it, and a
  name is read only where one is spelled.
-/
import Mathlib.Tactic.Common
import PassiveDns.Dns.Name
import PassiveDns.Proofs.Octets

namespace PassiveDns.Dns

/-! ## Octets in a message -/

/-- The octets stand in the message from position `n` on. -/
def Holds (message : Array UInt8) (n : Nat) (octets : Octets) : Prop :=
  ∃ front back : Octets, message.toList = front ++ (octets ++ back) ∧ front.length = n

theorem getElem?_append_of_eq_some {message : Array UInt8} {i : Nat} {b : UInt8}
    (h : message[i]? = some b) (more : Array UInt8) : (message ++ more)[i]? = some b := by
  rw [Array.getElem?_append_left (Array.getElem?_eq_some_iff.mp h).1, h]

namespace Holds

variable {message : Array UInt8} {n : Nat} {octets first second : Octets} {b : UInt8}

theorem whole (octets : Octets) : Holds octets.toArray 0 octets :=
  ⟨[], [], by rw [List.nil_append, List.append_nil], rfl⟩

theorem left (h : Holds message n (first ++ second)) : Holds message n first := by
  obtain ⟨front, back, hmessage, hn⟩ := h
  exact ⟨front, second ++ back, by rw [hmessage, List.append_assoc], hn⟩

theorem right (h : Holds message n (first ++ second)) :
    Holds message (n + first.length) second := by
  obtain ⟨front, back, hmessage, hn⟩ := h
  exact ⟨front ++ first, back, by rw [hmessage, List.append_assoc, List.append_assoc],
    by rw [List.length_append, hn]⟩

theorem tail (h : Holds message n (b :: octets)) : Holds message (n + 1) octets := by
  rw [← List.singleton_append] at h
  exact h.right

theorem head (h : Holds message n (b :: octets)) : message[n]? = some b := by
  obtain ⟨front, back, hmessage, rfl⟩ := h
  rw [← Array.getElem?_toList, hmessage, List.getElem?_append_right (Nat.le_refl _), Nat.sub_self]
  rfl

theorem le_size (h : Holds message n octets) : n + octets.length ≤ message.size := by
  obtain ⟨front, back, hmessage, rfl⟩ := h
  rw [← Array.length_toList, hmessage, List.length_append, List.length_append]
  omega

theorem extract (h : Holds message n octets) :
    (message.extract n (n + octets.length)).toList = octets := by
  obtain ⟨front, back, hmessage, rfl⟩ := h
  rw [Array.toList_extract, hmessage, List.extract_eq_take_drop, List.drop_left,
    Nat.add_sub_cancel_left, List.take_left]

/-- An octet and those that are taken behind it stand in the message. -/
theorem cons_extract (hb : message[n]? = some b) (count : Nat) :
    Holds message n (b :: (message.extract (n + 1) (n + 1 + count)).toList) := by
  obtain ⟨hn, rfl⟩ := Array.getElem?_eq_some_iff.mp hb
  refine ⟨message.toList.take n, (message.toList.drop (n + 1)).drop count, ?_, ?_⟩
  · rw [Array.toList_extract, List.extract_eq_take_drop, Nat.add_sub_cancel_left,
      List.cons_append, List.take_append_drop, ← Array.getElem_toList,
      ← List.drop_eq_getElem_cons, List.take_append_drop]
  · rw [List.length_take, Array.length_toList]
    omega

/-- What stands at a place stands there however the message goes on. -/
theorem append (h : Holds message n octets) (more : Array UInt8) :
    Holds (message ++ more) n octets := by
  obtain ⟨front, back, hmessage, hn⟩ := h
  refine ⟨front, back ++ more.toList, ?_, hn⟩
  rw [Array.toList_append, hmessage, List.append_assoc, List.append_assoc]

end Holds

/-! ## Steps one after the other -/

section Steps

variable {ρ ε σ α β : Type} {step : ReaderT ρ (EStateM ε σ) α}
  {next : α → ReaderT ρ (EStateM ε σ) β} {seen : ρ} {before after : σ}

/-- A step that succeeds hands on its value and its state. -/
theorem bind_done {a : α} (h : step seen before = .ok a after) :
    (step >>= next) seen before = next a seen after := by
  show EStateM.bind (step seen) (fun a => next a seen) before = _
  rw [EStateM.bind, h]

/-- A step that fails leaves the rest out. -/
theorem bind_failed {cause : ε} (h : step seen before = .error cause after) :
    (step >>= next) seen before = .error cause after := by
  show EStateM.bind (step seen) (fun a => next a seen) before = _
  rw [EStateM.bind, h]

end Steps

/-! ## Reading what stands in a message -/

namespace Reader

/-- A step that succeeds hands on its value and its position. -/
theorem bind_ok {α β : Type} {read : Reader α} {next : α → Reader β} {source : Source}
    {n m : Nat} {a : α} (h : read source n = .ok a m) :
    (read >>= next) source n = next a source m :=
  bind_done h

theorem read_ok (source : Source) (n : Nat) :
    (read : Reader Source) source n = .ok source n := rfl

theorem position_ok (source : Source) (n : Nat) :
    Reader.position source n = .ok n n := rfl

theorem octetAt_ok {source : Source} {i : Nat} {b : UInt8} (h : source.octets[i]? = some b)
    (n : Nat) : Reader.octetAt i source n = .ok b n := by
  rw [Reader.octetAt, bind_ok (read_ok source n), h]
  rfl

theorem octetAt_error {source : Source} {i : Nat} (h : source.octets[i]? = none) (n : Nat) :
    Reader.octetAt i source n = .error .endOfBuffer n := by
  rw [Reader.octetAt, bind_ok (read_ok source n), h]
  rfl

/-- An octet that is read stands in the message, and the cursor stays. -/
theorem octetAt_inv {source : Source} {i n m : Nat} {b : UInt8}
    (h : Reader.octetAt i source n = .ok b m) : source.octets[i]? = some b ∧ m = n := by
  cases hb : source.octets[i]? with
  | none =>
    rw [octetAt_error hb n] at h
    cases h
  | some c =>
    rw [octetAt_ok hb n] at h
    cases h
    exact ⟨rfl, rfl⟩

theorem octet_ok {source : Source} {n : Nat} {b : UInt8} (h : source.octets[n]? = some b) :
    Reader.octet source n = .ok b (n + 1) := by
  rw [Reader.octet, bind_ok (position_ok source n), bind_ok (octetAt_ok h n)]
  rfl

theorem word16_ok {source : Source} {n : Nat} {hi lo : UInt8}
    (h : Holds source.octets n [hi, lo]) :
    Reader.word16 source n = .ok (Octets.word16 hi lo) (n + 2) := by
  rw [Reader.word16, bind_ok (octet_ok h.head), bind_ok (octet_ok h.tail.head)]
  rfl

theorem word32_ok {source : Source} {n : Nat} {a b c d : UInt8}
    (h : Holds source.octets n [a, b, c, d]) :
    Reader.word32 source n = .ok (Octets.word32 a b c d) (n + 4) := by
  rw [Reader.word32, bind_ok (octet_ok h.head), bind_ok (octet_ok h.tail.head),
    bind_ok (octet_ok h.tail.tail.head), bind_ok (octet_ok h.tail.tail.tail.head)]
  rfl

theorem range_of_le {source : Source} {start count : Nat} (h : start + count ≤ source.octets.size)
    (n : Nat) :
    Reader.range start count source n =
      .ok (source.octets.extract start (start + count)).toList n := by
  rw [Reader.range, bind_ok (read_ok source n), if_pos h]
  rfl

theorem range_error {source : Source} {start count : Nat}
    (h : ¬start + count ≤ source.octets.size) (n : Nat) :
    Reader.range start count source n = .error .endOfBuffer n := by
  rw [Reader.range, bind_ok (read_ok source n), if_neg h]
  rfl

theorem range_ok {source : Source} {start : Nat} {octets : Octets}
    (h : Holds source.octets start octets) (n : Nat) :
    Reader.range start octets.length source n = .ok octets n := by
  rw [range_of_le h.le_size, h.extract]

/-- A range that is read lies in the message, and the cursor stays. -/
theorem range_inv {source : Source} {start count n m : Nat} {octets : Octets}
    (h : Reader.range start count source n = .ok octets m) :
    start + count ≤ source.octets.size ∧
      octets = (source.octets.extract start (start + count)).toList ∧ m = n := by
  by_cases hcount : start + count ≤ source.octets.size
  · rw [range_of_le hcount n] at h
    cases h
    exact ⟨hcount, rfl, rfl⟩
  · rw [range_error hcount n] at h
    cases h

theorem seek_ok {source : Source} {i : Nat} (h : i ≤ source.octets.size) (n : Nat) :
    Reader.seek i source n = .ok () i := by
  rw [Reader.seek, bind_ok (read_ok source n)]
  cases source.access with
  | view =>
    dsimp only
    rw [if_pos h]
    rfl
  | draft => rfl

theorem seek_draft {source : Source} (h : source.access = .draft) (i n : Nat) :
    Reader.seek i source n = .ok () i := by
  rw [Reader.seek, bind_ok (read_ok source n), h]
  rfl

theorem seek_error {source : Source} {i : Nat} (h : source.access = .view)
    (hi : ¬i ≤ source.octets.size) (n : Nat) :
    Reader.seek i source n = .error .endOfBuffer n := by
  rw [Reader.seek, bind_ok (read_ok source n), h]
  dsimp only
  rw [if_neg hi]
  rfl

/-- The cursor is put where it is said to be put, in a view not past the end. -/
theorem seek_inv {source : Source} {i n m : Nat} (h : Reader.seek i source n = .ok () m) :
    m = i ∧ (source.access = .view → i ≤ source.octets.size) := by
  cases haccess : source.access with
  | draft =>
    rw [seek_draft haccess] at h
    cases h
    exact ⟨rfl, fun hview => by cases hview⟩
  | view =>
    by_cases hi : i ≤ source.octets.size
    · rw [seek_ok hi] at h
      cases h
      exact ⟨rfl, fun _ => hi⟩
    · rw [seek_error haccess hi] at h
      cases h

/-- A step and what comes next succeed one after the other. -/
theorem bind_inv {α β : Type} {read : Reader α} {next : α → Reader β} {source : Source}
    {n k : Nat} {b : β} (h : (read >>= next) source n = .ok b k) :
    ∃ a m, read source n = .ok a m ∧ next a source m = .ok b k := by
  cases hread : read source n with
  | ok a m =>
    rw [bind_ok hread] at h
    exact ⟨a, m, rfl, h⟩
  | error cause m =>
    rw [bind_failed hread] at h
    cases h

/-- An octet that is read stands at the cursor, which then stands behind it. -/
theorem octet_inv {source : Source} {n m : Nat} {b : UInt8}
    (h : Reader.octet source n = .ok b m) : source.octets[n]? = some b ∧ m = n + 1 := by
  cases hb : source.octets[n]? with
  | none =>
    rw [Reader.octet, bind_ok (position_ok source n), bind_failed (octetAt_error hb n)] at h
    cases h
  | some c =>
    rw [octet_ok hb] at h
    cases h
    exact ⟨rfl, rfl⟩

end Reader

/-! ## Names in a message -/

namespace Name

/-- The octets that labels take, each with the octet for its length. -/
def span (labels : List Octets) : Nat := (labels.map fun label => label.length + 1).sum

@[simp] theorem span_nil : span [] = 0 := rfl

@[simp] theorem span_cons (label : Octets) (labels : List Octets) :
    span (label :: labels) = label.length + 1 + span labels := by
  rw [span, List.map_cons, List.sum_cons, ← span]

theorem span_append (first second : List Octets) :
    span (first ++ second) = span first + span second := by
  rw [span, List.map_append, List.sum_append, span, span]

/-- From position `i` on a message spells `labels` and ends the name. On the way
    `jumps` pointers are followed, and what comes behind the name stands at
    `stop`. -/
inductive Spells (message : Array UInt8) : Nat → List Octets → Nat → Nat → Prop where
  | root {i : Nat} (hzero : message[i]? = some 0) : Spells message i [] 0 (i + 1)
  | label {i jumps stop : Nat} {label : Octets} {labels : List Octets} (hne : label ≠ [])
      (hmax : label.length ≤ maxLabel)
      (hholds : Holds message i (UInt8.ofNat label.length :: label))
      (hrest : Spells message (i + 1 + label.length) labels jumps stop) :
      Spells message i (label :: labels) jumps stop
  | pointer {i jumps stop : Nat} {hi lo : UInt8} {labels : List Octets}
      (hhi : message[i]? = some hi) (hlo : message[i + 1]? = some lo) (hpointer : isPointer hi)
      (hrest : Spells message (target hi lo) labels jumps stop) :
      Spells message i labels (jumps + 1) (i + 2)

section

variable {message : Array UInt8} {i done used : Nat}

/-- Following a label. -/
theorem walk_label {label : Octets} (hne : label ≠ []) (hmax : label.length ≤ maxLabel)
    (hholds : Holds message i (UInt8.ofNat label.length :: label))
    (hused : used + (label.length + 1) ≤ maxLength) :
    walk message i done used =
      let rest := walk message (i + 1 + label.length) done (used + (label.length + 1))
      ⟨rest.labels.map (label :: ·), rest.resume⟩ := by
  have hpos : 0 < label.length := List.length_pos_iff.mpr hne
  rw [maxLabel] at hmax
  have hnat : (UInt8.ofNat label.length).toNat = label.length := by
    rw [Octets.toNat_ofNat]
    omega
  have hend : i + 1 + label.length ≤ message.size := by
    have hsize := hholds.le_size
    rw [List.length_cons] at hsize
    omega
  rw [walk, hholds.head]
  dsimp only
  rw [isPointer, hnat, if_neg (by simp; omega), if_neg (by omega), if_neg (by omega),
    if_neg (by omega), if_pos hend, hholds.tail.extract]

/-- Following a pointer. -/
theorem walk_pointer {hi lo : UInt8} (hhi : message[i]? = some hi)
    (hlo : message[i + 1]? = some lo) (hpointer : isPointer hi) (hdone : done < maxJumps) :
    walk message i done used =
      ⟨(walk message (target hi lo) (done + 1) used).labels, some (i + 2)⟩ := by
  rw [walk, hhi]
  dsimp only
  rw [if_pos hpointer, if_neg (Nat.not_le.mpr hdone), hlo]

end

/-- A name that is spelled through few enough pointers, and is short enough, is
    followed to its end. -/
theorem walk_of_spells {message : Array UInt8} {i jumps stop : Nat} {labels : List Octets}
    (h : Spells message i labels jumps stop) (done used : Nat) (hjumps : done + jumps ≤ maxJumps)
    (hused : used + span labels ≤ maxLength) :
    walk message i done used = ⟨.ok labels, some stop⟩ := by
  induction h generalizing done used with
  | root hzero =>
    rw [walk, hzero]
    rfl
  | @label i jumps stop label labels hne hmax hholds hrest ih =>
    rw [span_cons] at hused
    rw [walk_label hne hmax hholds (by omega), ih done _ hjumps (by omega)]
    rfl
  | @pointer i jumps stop hi lo labels hhi hlo hpointer hrest ih =>
    rw [walk_pointer hhi hlo hpointer (by omega), ih (done + 1) used (by omega) hused]

theorem Spells.lt_stop {message : Array UInt8} {i jumps stop : Nat} {labels : List Octets}
    (h : Spells message i labels jumps stop) : i < stop := by
  induction h with
  | root _ => omega
  | label _ _ _ _ ih => omega
  | pointer _ _ _ _ _ => omega

/-- What spells a name spells it in a longer message too. -/
theorem Spells.append {message : Array UInt8} {i jumps stop : Nat} {labels : List Octets}
    (h : Spells message i labels jumps stop) (more : Array UInt8) :
    Spells (message ++ more) i labels jumps stop := by
  induction h with
  | root hzero => exact .root (getElem?_append_of_eq_some hzero more)
  | label hne hmax hholds _ ih => exact .label hne hmax (hholds.append more) ih
  | pointer hhi hlo hpointer _ ih =>
    exact .pointer (getElem?_append_of_eq_some hhi more) (getElem?_append_of_eq_some hlo more)
      hpointer ih

/-- Wherever reading goes on is in the message. -/
theorem resume_le_size {message : Array UInt8} {start jumps used i : Nat}
    (h : (walk message start jumps used).resume = some i) : i ≤ message.size := by
  fun_induction walk message start jumps used with
  | case4 start jumps used b hb hpointer hjumps lo hlo ih =>
    obtain rfl := Option.some.inj h
    exact (Array.getElem?_eq_some_iff.mp hlo).1
  | case6 start jumps used b hb hpointer hreserved hzero =>
    obtain rfl := Option.some.inj h
    exact (Array.getElem?_eq_some_iff.mp hb).1
  | case8 start jumps used b hb hpointer hreserved hzero hmax hend label rest ih => exact ih h
  | _ => cases h

/-- The octets that are taken for a label, behind the one for their number, are one. -/
theorem holds_taken {message : Array UInt8} {i : Nat} {b : UInt8} {label : Octets}
    (hb : message[i]? = some b) (hzero : b.toNat ≠ 0) (hend : i + 1 + b.toNat ≤ message.size)
    (hlabel : (message.extract (i + 1) (i + 1 + b.toNat)).toList = label) :
    label ≠ [] ∧ label.length = b.toNat ∧ Holds message i (UInt8.ofNat label.length :: label) := by
  subst hlabel
  have hlength : (message.extract (i + 1) (i + 1 + b.toNat)).toList.length = b.toNat := by
    rw [Array.length_toList, Array.size_extract]
    omega
  refine ⟨List.ne_nil_of_length_pos (by omega), hlength, ?_⟩
  rw [hlength, UInt8.ofNat_toNat]
  exact .cons_extract hb b.toNat

/-- A name that is followed to its end is spelled there, through few enough
    pointers and short enough. -/
theorem spells_of_walk {message : Array UInt8} {start done used : Nat} {labels : List Octets}
    (h : (walk message start done used).labels = .ok labels) (hdone : done ≤ maxJumps)
    (hused : used ≤ maxLength) :
    ∃ jumps stop, Spells message start labels jumps stop ∧ done + jumps ≤ maxJumps ∧
      used + span labels ≤ maxLength := by
  fun_induction walk message start done used generalizing labels with
  | case4 start done used b hb hpointer hjumps lo hlo ih =>
    obtain ⟨jumps, stop, hspells, hdone, hused⟩ := ih h (by omega) hused
    exact ⟨jumps + 1, start + 2, .pointer hb hlo hpointer hspells, by omega, hused⟩
  | case6 start done used b hb hpointer hreserved hzero =>
    obtain rfl : [] = labels := Except.ok.inj h
    obtain rfl : b = 0 := UInt8.toNat_inj.mp hzero
    exact ⟨0, start + 1, .root hb, hdone, hused⟩
  | case8 start done used b hb hpointer hreserved hzero hmax hend label rest =>
    rename_i ih
    cases hlabels : rest.labels with
    | error cause =>
      rw [hlabels] at h
      cases h
    | ok others =>
      rw [hlabels] at h
      obtain rfl : label :: others = labels := Except.ok.inj h
      obtain ⟨jumps, stop, hspells, hdone, hused⟩ := ih hlabels hdone (by omega)
      obtain ⟨hne, hlength, hholds⟩ := (holds_taken hb hzero hend rfl : label ≠ [] ∧ _)
      rw [← hlength] at hspells hused hreserved
      have hlabel : label.length ≤ maxLabel := Nat.le_of_lt_succ (Nat.lt_of_not_le hreserved)
      refine ⟨jumps, stop, .label hne hlabel hholds hspells, hdone, ?_⟩
      rw [span_cons]
      omega
  | _ => cases h

/-- The text of a name whose labels are given. -/
def textOf (labels : List Octets) : String :=
  let text := dotted (labels.map Text.Utf8.toStringLossy)
  if text.isEmpty then "." else text

end Name

namespace Reader

variable {source : Source} {n : Nat}

/-- Whether a name can be followed to its end or not, the cursor is put where
    reading goes on, if that is known. -/
theorem name_walk (source : Source) (n : Nat) : Reader.name source n =
    match (Name.walk source.octets n 0 0).labels with
    | .ok labels =>
      .ok (Name.textOf labels) ((Name.walk source.octets n 0 0).resume.getD n)
    | .error cause => .error cause ((Name.walk source.octets n 0 0).resume.getD n) := by
  have htext : ∀ labels : List Octets,
      (let text := "" ++ Name.dotted (labels.map Text.Utf8.toStringLossy)
        if text.isEmpty then "." else text) = Name.textOf labels := by
    intro labels
    rw [String.empty_append]
    rfl
  rw [Reader.name, Reader.nameAfter, bind_ok (read_ok source n), bind_ok (position_ok source n)]
  simp only [htext]
  cases hresume : (Name.walk source.octets n 0 0).resume with
  | none => cases (Name.walk source.octets n 0 0).labels <;> rfl
  | some i =>
    dsimp only
    rw [bind_ok (seek_ok (Name.resume_le_size hresume) n)]
    cases (Name.walk source.octets n 0 0).labels <;> rfl

/-- A name that is spelled is read. -/
theorem name_of_spells {labels : List Octets} {jumps stop : Nat}
    (h : Name.Spells source.octets n labels jumps stop) (hjumps : jumps ≤ Name.maxJumps)
    (hspan : Name.span labels ≤ Name.maxLength) :
    Reader.name source n = .ok (Name.textOf labels) stop := by
  rw [name_walk, Name.walk_of_spells h 0 0 (by omega) (by omega)]
  rfl

/-- A name that is read is spelled. -/
theorem name_inv {text : String} {m : Nat} (h : Reader.name source n = .ok text m) :
    ∃ labels jumps, Name.Spells source.octets n labels jumps m ∧ jumps ≤ Name.maxJumps ∧
      Name.span labels ≤ Name.maxLength ∧ text = Name.textOf labels := by
  have hwalk := name_walk source n
  cases hlabels : (Name.walk source.octets n 0 0).labels with
  | error cause =>
    rw [hlabels, h] at hwalk
    cases hwalk
  | ok labels =>
    obtain ⟨jumps, stop, hspells, hjumps, hspan⟩ :=
      Name.spells_of_walk hlabels (Nat.zero_le _) (Nat.zero_le _)
    rw [Nat.zero_add] at hjumps hspan
    rw [name_of_spells hspells hjumps hspan] at h
    cases h
    exact ⟨labels, jumps, hspells, hjumps, hspan, rfl⟩

end Reader

end PassiveDns.Dns
