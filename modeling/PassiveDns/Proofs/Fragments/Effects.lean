/-
  PassiveDns.Proofs.Fragments.Effects

  What submitting a fragment does to the datagrams in progress, told by its answer
  (`touches_of_answer`). There are three ways to fail and each does something else: a broken
  limit leaves all as it was, one fragment too many ends its datagram, and payloads that do
  not join stay with the new one among them.
-/
import PassiveDns.Proofs.Fragments.Bookkeeping

namespace PassiveDns

/-! ## The fragments of one datagram -/

/-- There is a fragment at an offset. -/
def Partial.Holds (parts : Partial) (start : Nat) : Prop :=
  ∃ piece ∈ parts.pieces, piece.start = start

/-- The fragments of a datagram with one more among them, and what is written down of them
    changed by that one alone. -/
structure Partial.Gains (before : Partial) (fragment : Fragment) (now : Instant)
    (after : Partial) : Prop where
  pieces : after.pieces.Perm (fragment.piece :: before.pieces)
  sorted : after.pieces.Pairwise fun p q => p.start < q.start
  reach : after.reach = max before.reach fragment.stop
  received : after.received = before.received + fragment.payload.length
  lastSeen : after.lastSeen = (before.lastSeen || !fragment.more)
  touched : after.touched = now
  /-- What the first fragment said is not lost. -/
  head : before.head ≠ none → after.head = before.head
  /-- It is said by a fragment at octet zero only. -/
  header : after.head = if fragment.offset = 0 then some (fragment.header, fragment.time)
    else before.head

/-- Pieces fail to join at a position only. -/
theorem Partial.join_error {position : Nat} {pieces : List Piece} {cause : FragmentError}
    (h : Partial.join position pieces = .error cause) : ∃ at_, cause = .hole at_ := by
  induction pieces generalizing position with
  | nil => cases h
  | cons p rest ih =>
    rw [Partial.join] at h
    split at h
    · cases hjoin : Partial.join (position + p.octets.length) rest with
      | error inner =>
        rw [hjoin] at h
        obtain rfl := Except.error.inj h
        exact ih hjoin
      | ok payload =>
        rw [hjoin] at h
        cases h
    · exact ⟨position, (Except.error.inj h).symm⟩

/-- A datagram gains a fragment at an offset of its own. -/
theorem Gathered.gains {came : List Fragment} {parts : Partial} (h : Gathered came parts)
    (hheaded : parts.Headed) {fragment : Fragment}
    (hnew : ∀ g ∈ came, g.start ≠ fragment.start) (now : Instant) :
    parts.Gains fragment now (parts.add fragment now) where
  pieces := perm_insertPiece fragment.piece parts.pieces
  sorted := (h.add hnew now).sorted
  reach := rfl
  received := rfl
  lastSeen := rfl
  touched := rfl
  head := by
    intro hhead
    -- what said so is at octet zero, so the new one is not
    obtain ⟨p, hp, hzero⟩ := hheaded hhead
    obtain ⟨g, hg, rfl⟩ := List.mem_map.mp (h.pieces.mem_iff.mp hp)
    exact if_neg fun hstart => hnew g hg (hzero.trans hstart.symm)
  header := by
    have hzero : fragment.offset * 8 = 0 ↔ fragment.offset = 0 := by omega
    exact if_congr hzero rfl rfl

namespace Reassembly

/-! ## What an answer says -/

/-- What submitting a fragment leaves, told by its answer. -/
structure Touches (limits : FragmentLimits) (state : Reassembly) (fragment : Fragment)
    (now : Instant) (answer : Except FragmentError (Option Datagram)) (after : Reassembly) :
    Prop where
  /-- The datagrams of other keys are as they were. -/
  others : ∀ key ≠ fragment.key, after.partials.get? key = state.partials.get? key
  /-- It says which limit is broken, if one is. -/
  refused : ∀ cause, answer = .error cause ∧ cause.ofLimit = true ↔ limits.Breaks fragment cause
  untouched : ∀ cause, limits.Breaks fragment cause → after = state
  /-- A fragment at an offset that is there is ignored. -/
  repeated : limits.Admits fragment →
    (state.fragmentsOf fragment.key now).Holds fragment.start → answer = .ok none ∧ after = state
  /-- There are too many where as many are there as there may be, and no other time. -/
  crowded : ∀ count, answer = .error (.tooManyFragments count) ↔
    limits.Admits fragment ∧ ¬(state.fragmentsOf fragment.key now).Holds fragment.start ∧
      (state.fragmentsOf fragment.key now).pieces.length = limits.maxFragments ∧
      count = limits.maxFragments
  evicted : ∀ count, answer = .error (.tooManyFragments count) →
    after.partials.get? fragment.key = none
  /-- Fragments with a hole stay, the new one among them. -/
  hole : ∀ position, answer = .error (.hole position) →
    ∃ parts, after.partials.get? fragment.key = some parts ∧
      (state.fragmentsOf fragment.key now).Gains fragment now parts
  /-- A datagram that is handed out is forgotten. -/
  whole : ∀ datagram, answer = .ok (some datagram) → after.partials.get? fragment.key = none
  /-- Else the fragment is one more of those that wait. -/
  waits : answer = .ok none → ¬(state.fragmentsOf fragment.key now).Holds fragment.start →
    ∃ parts, after.partials.get? fragment.key = some parts ∧
      (state.fragmentsOf fragment.key now).Gains fragment now parts

/-- What becomes of a fragment when `before` is there of its datagram. -/
inductive Turn (limits : FragmentLimits) (state : Reassembly) (before : Partial)
    (fragment : Fragment) (now : Instant) :
    Except FragmentError (Option Datagram) × Reassembly → Prop
  | refused {cause : FragmentError} (breaks : limits.Breaks fragment cause) :
    Turn limits state before fragment now (.error cause, state)
  | repeated (admits : limits.Admits fragment) (holds : before.Holds fragment.start) :
    Turn limits state before fragment now (.ok none, state)
  | crowded (admits : limits.Admits fragment) (new : ¬before.Holds fragment.start)
    (full : before.pieces.length = limits.maxFragments) :
    Turn limits state before fragment now
      (.error (.tooManyFragments limits.maxFragments), state.forget fragment.key)
  /-- It stays with the others, whether or not they have a hole. -/
  | kept {answer : Except FragmentError (Option Datagram)} {parts : Partial}
    (open_ : answer = .ok none ∨ ∃ position, answer = .error (.hole position))
    (admits : limits.Admits fragment) (new : ¬before.Holds fragment.start)
    (room : before.pieces.length < limits.maxFragments)
    (gains : before.Gains fragment now parts) :
    Turn limits state before fragment now (answer, state.put fragment.key parts)
  | whole {datagram : Datagram} (admits : limits.Admits fragment)
    (new : ¬before.Holds fragment.start) (room : before.pieces.length < limits.maxFragments) :
    Turn limits state before fragment now (.ok (some datagram), state.forget fragment.key)

section Effects

variable {state : Reassembly} {fragment : Fragment} {now : Instant}

theorem AllWait.few (h : state.AllWait) (key : FragmentKey) (now : Instant) :
    (state.fragmentsOf key now).pieces.length ≤ state.limits.maxFragments := by
  unfold fragmentsOf
  cases hget : state.partials.get? key with
  | none => exact Nat.zero_le _
  | some parts => exact (h key parts hget).few

/-- Submitting a fragment ends in one of these ways, where the datagrams in progress wait. -/
theorem Keeps.turn {came : List Fragment} (h : state.Keeps fragment.key came)
    (hwait : state.AllWait) (now : Instant) :
    Turn state.limits state (state.fragmentsOf fragment.key now) fragment now
      (state.submit fragment now) := by
  have hbefore := h.gathered now
  have hheaded : (state.fragmentsOf fragment.key now).Headed := hwait.headed now
  have hfew := hwait.few fragment.key now
  -- what is there at an offset is what came with it
  have hholds : (state.fragmentsOf fragment.key now).Holds fragment.start ↔
      ∃ g ∈ came, g.start = fragment.start := by
    rw [← hbefore.hasStart, Partial.hasStart, List.any_eq_true]
    simp only [decide_eq_true_eq]
    rfl
  have hfresh : (∀ g ∈ came, g.start ≠ fragment.start) →
      ¬(state.fragmentsOf fragment.key now).Holds fragment.start := by
    intro hnew hhas
    obtain ⟨g, hg, hstart⟩ := hholds.mp hhas
    exact hnew g hg hstart
  rw [hbefore.length] at hfew
  have htaking := h.taking now
  generalize state.submit fragment now = result at htaking ⊢
  cases htaking with
  | refused hcheck => exact .refused (FragmentLimits.check_eq_error_iff.mp hcheck)
  | repeated hcheck hstart =>
    exact .repeated (FragmentLimits.check_eq_ok_iff.mp hcheck) (hholds.mpr hstart)
  | crowded hcheck hnew hfull =>
    have hlength := Nat.le_antisymm hfew hfull
    rw [hlength]
    exact .crowded (FragmentLimits.check_eq_ok_iff.mp hcheck) (hfresh hnew)
      (hbefore.length.trans hlength)
  | waiting hcheck hnew hroom =>
    exact .kept (.inl rfl) (FragmentLimits.check_eq_ok_iff.mp hcheck) (hfresh hnew)
      (hbefore.length ▸ hroom) (hbefore.gains hheaded hnew now)
  | broken hcheck hnew hroom _ hjoin =>
    obtain ⟨position, rfl⟩ := Partial.join_error hjoin
    exact .kept (.inr ⟨position, rfl⟩) (FragmentLimits.check_eq_ok_iff.mp hcheck) (hfresh hnew)
      (hbefore.length ▸ hroom) (hbefore.gains hheaded hnew now)
  | whole hcheck hnew hroom =>
    exact .whole (FragmentLimits.check_eq_ok_iff.mp hcheck) (hfresh hnew)
      (hbefore.length ▸ hroom)

variable {limits : FragmentLimits} {before : Partial} {after : Reassembly}
  {answer : Except FragmentError (Option Datagram)}

theorem Turn.refused_iff (h : Turn limits state before fragment now (answer, after))
    (cause : FragmentError) :
    answer = .error cause ∧ cause.ofLimit = true ↔ limits.Breaks fragment cause := by
  cases h with
  | @refused first hbreaks =>
    -- the check finds one limit, so the one that it names is the one that is broken first
    have hcheck := FragmentLimits.check_eq_error_iff.mpr hbreaks
    rw [← FragmentLimits.check_eq_error_iff, hcheck]
    constructor
    · rintro ⟨heq, -⟩
      exact congrArg _ (Except.error.inj heq)
    · intro heq
      obtain rfl := Except.error.inj heq
      exact ⟨rfl, hbreaks.ofLimit⟩
  | _ =>
    have hnot : ¬limits.Breaks fragment cause :=
      FragmentLimits.Admits.not_breaks ‹limits.Admits fragment›
    simp only [hnot, iff_false]
    grind [FragmentError.ofLimit]

theorem Turn.ignored (h : Turn limits state before fragment now (answer, after))
    (hadmits : limits.Admits fragment) (hholds : before.Holds fragment.start) :
    answer = .ok none ∧ after = state := by
  cases h with
  | refused hbreaks => exact absurd hbreaks hadmits.not_breaks
  | repeated => exact ⟨rfl, rfl⟩
  | crowded _ hnew => exact absurd hholds hnew
  | kept _ _ hnew => exact absurd hholds hnew
  | whole _ hnew => exact absurd hholds hnew

theorem Turn.crowded_iff (h : Turn limits state before fragment now (answer, after))
    (count : Nat) :
    answer = .error (.tooManyFragments count) ↔ limits.Admits fragment ∧
      ¬before.Holds fragment.start ∧ before.pieces.length = limits.maxFragments ∧
      count = limits.maxFragments := by
  cases h with
  | refused hbreaks =>
    constructor
    · intro heq
      exact absurd heq (hbreaks.answer_ne rfl)
    · rintro ⟨hadmits, -⟩
      exact absurd hbreaks hadmits.not_breaks
  | crowded hadmits hnew hfull =>
    constructor
    · intro heq
      have hcount := FragmentError.tooManyFragments.inj (Except.error.inj heq)
      exact ⟨hadmits, hnew, hfull, hcount.symm⟩
    · rintro ⟨-, -, -, rfl⟩
      rfl
  | repeated _ hholds => simp [hholds]
  | kept hopen _ _ hroom =>
    obtain rfl | ⟨position, rfl⟩ := hopen <;> simp [Nat.ne_of_lt hroom]
  | whole _ _ hroom => simp [Nat.ne_of_lt hroom]

/-- A fragment is added where there is a hole, and where it is new and others are to come. -/
theorem Turn.gains (h : Turn limits state before fragment now (answer, after))
    (hopen : (answer = .ok none ∧ ¬before.Holds fragment.start) ∨
      ∃ position, answer = .error (.hole position)) :
    ∃ parts, after.partials.get? fragment.key = some parts ∧
      before.Gains fragment now parts := by
  cases h with
  | @kept _ parts _ _ _ _ hgains => exact ⟨parts, by simp [put], hgains⟩
  | refused hbreaks =>
    rcases hopen with ⟨heq, -⟩ | ⟨position, heq⟩
    · cases heq
    · exact absurd heq (hbreaks.answer_ne rfl)
  | repeated _ hholds =>
    rcases hopen with ⟨-, hnew⟩ | ⟨position, heq⟩
    · exact absurd hholds hnew
    · cases heq
  | crowded => simp at hopen
  | whole => simp at hopen

/-- None are left where there were too many, and where they made a datagram. -/
theorem Turn.forgets (h : Turn limits state before fragment now (answer, after))
    (hends : (∃ datagram, answer = .ok (some datagram)) ∨
      ∃ count, answer = .error (.tooManyFragments count)) :
    after.partials.get? fragment.key = none := by
  cases h with
  | crowded => simp [forget]
  | whole => simp [forget]
  | refused hbreaks =>
    obtain ⟨datagram, heq⟩ | ⟨count, heq⟩ := hends
    · cases heq
    · exact absurd heq (hbreaks.answer_ne rfl)
  | repeated => simp at hends
  | kept hopen =>
    obtain rfl | ⟨position, rfl⟩ := hopen <;> simp at hends

theorem Turn.touches (h : Turn limits state (state.fragmentsOf fragment.key now) fragment now
      (answer, after))
    (hothers : ∀ key ≠ fragment.key, after.partials.get? key = state.partials.get? key) :
    Touches limits state fragment now answer after where
  others := hothers
  refused := h.refused_iff
  untouched := fun cause hbreaks => by
    cases h with
    | refused => rfl
    | _ => exact absurd hbreaks (FragmentLimits.Admits.not_breaks ‹_›)
  repeated := h.ignored
  crowded := h.crowded_iff
  evicted := fun count heq => h.forgets (.inr ⟨count, heq⟩)
  hole := fun position heq => h.gains (.inr ⟨position, heq⟩)
  whole := fun datagram heq => h.forgets (.inl ⟨datagram, heq⟩)
  waits := fun heq hnew => h.gains (.inl ⟨heq, hnew⟩)

/-- So it is in every state that is reached. -/
theorem turn_run (limits : FragmentLimits) (events : List Event) (fragment : Fragment)
    (now : Instant) :
    Turn limits ((empty limits).run events)
      (((empty limits).run events).fragmentsOf fragment.key now) fragment now
      (((empty limits).run events).submit fragment now) := by
  obtain ⟨_, _, -, -, hkeeps⟩ := exists_since limits fragment.key events
  have hturn := hkeeps.turn (allWait_run limits events) now
  rw [run_limits] at hturn
  exact hturn

/-- **A fragment does what its answer says.** Whatever fragments were submitted under whatever
    limits, and whenever those in progress were discarded: the answer to one more says which of
    the fragments of its datagram are left, and those of the others are as they were. -/
theorem touches_of_answer (limits : FragmentLimits) (events : List Event) (fragment : Fragment)
    (now : Instant) :
    Touches limits ((empty limits).run events) fragment now
      (((empty limits).run events).submit fragment now).1
      (((empty limits).run events).submit fragment now).2 := by
  exact (turn_run limits events fragment now).touches fun key hne => submit_other hne.symm

end Effects

end Reassembly

end PassiveDns
