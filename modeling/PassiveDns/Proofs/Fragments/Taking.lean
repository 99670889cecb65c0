/-
  PassiveDns.Proofs.Fragments.Taking

  What becomes of one fragment. `taken` says which fragments of a datagram count: those
  that keep the limits, each the first at its offset. `Taking` lists the six ways in which
  submitting a fragment ends and what each of them leaves behind; there is no seventh
  (`taking`): fragments that join begin with one at octet zero, so there is a header for
  the datagram that they make.
-/
import Mathlib.Data.List.Induction
import PassiveDns.Proofs.Fragments.Gathering

namespace PassiveDns

/-! ## The limits -/

/-- The limit that a fragment breaks: the first one, where it breaks more than one. -/
inductive FragmentLimits.Breaks (limits : FragmentLimits) (fragment : Fragment) :
    FragmentError → Prop
  | offset (far : limits.maxOffset < fragment.offset) :
    Breaks limits fragment (.offsetTooLarge fragment.offset)
  | datagram (near : fragment.offset ≤ limits.maxOffset)
    (long : limits.maxDatagram < fragment.stop) :
    Breaks limits fragment (.datagramTooLarge fragment.stop)
  | size (near : fragment.offset ≤ limits.maxOffset) (short : fragment.stop ≤ limits.maxDatagram)
    (more : fragment.more = true) (small : fragment.payload.length < limits.minFragment) :
    Breaks limits fragment (.fragmentTooSmall fragment.payload.length)

/-- A fragment that breaks none of them. -/
structure FragmentLimits.Admits (limits : FragmentLimits) (fragment : Fragment) : Prop where
  near : fragment.offset ≤ limits.maxOffset
  short : fragment.stop ≤ limits.maxDatagram
  large : fragment.more = true → limits.minFragment ≤ fragment.payload.length

/-- The failures that are said of a fragment alone. -/
def FragmentError.ofLimit : FragmentError → Bool
  | .offsetTooLarge _ | .datagramTooLarge _ | .fragmentTooSmall _ => true
  | .hole _ | .tooManyFragments _ => false

section Limits

variable {limits : FragmentLimits} {fragment : Fragment} {cause : FragmentError}

theorem FragmentLimits.Breaks.ofLimit (h : limits.Breaks fragment cause) :
    cause.ofLimit = true := by
  cases h <;> rfl

/-- What is answered where a limit is broken is no other failure. -/
theorem FragmentLimits.Breaks.answer_ne {other : FragmentError} (h : limits.Breaks fragment cause)
    (hother : other.ofLimit = false) :
    (.error cause : Except FragmentError (Option Datagram)) ≠ .error other := by
  intro heq
  obtain rfl := Except.error.inj heq
  exact absurd h.ofLimit (Bool.eq_false_iff.mp hother)

theorem FragmentLimits.check_eq_error_iff :
    limits.check fragment = .error cause ↔ limits.Breaks fragment cause := by
  constructor
  · intro h
    rw [check] at h
    split at h
    · rename_i hfar
      obtain rfl := Except.error.inj h
      exact .offset hfar
    · rename_i hnear
      split at h
      · rename_i hlong
        obtain rfl := Except.error.inj h
        exact .datagram (Nat.le_of_not_lt hnear) hlong
      · rename_i hshort
        split at h
        · rename_i hsmall
          obtain rfl := Except.error.inj h
          exact .size (Nat.le_of_not_lt hnear) (Nat.le_of_not_lt hshort) hsmall.1 hsmall.2
        · cases h
  · intro h
    cases h with
    | offset hfar => exact if_pos hfar
    | datagram hnear hlong =>
      exact (if_neg (Nat.not_lt_of_le hnear)).trans (if_pos hlong)
    | size hnear hshort hmore hsmall =>
      refine (if_neg (Nat.not_lt_of_le hnear)).trans ?_
      exact (if_neg (Nat.not_lt_of_le hshort)).trans (if_pos ⟨hmore, hsmall⟩)

theorem FragmentLimits.check_eq_ok_iff :
    limits.check fragment = .ok () ↔ limits.Admits fragment := by
  constructor
  · intro h
    -- each limit that it broke would be an error
    have hkept : ∀ cause, ¬limits.Breaks fragment cause := fun cause hbreaks => by
      rw [check_eq_error_iff.mpr hbreaks] at h
      cases h
    have hnear : fragment.offset ≤ limits.maxOffset :=
      Nat.le_of_not_lt fun hfar => hkept _ (.offset hfar)
    have hshort : fragment.stop ≤ limits.maxDatagram :=
      Nat.le_of_not_lt fun hlong => hkept _ (.datagram hnear hlong)
    exact ⟨hnear, hshort, fun hmore =>
      Nat.le_of_not_lt fun hsmall => hkept _ (.size hnear hshort hmore hsmall)⟩
  · intro h
    refine (if_neg (Nat.not_lt_of_le h.near)).trans ?_
    refine (if_neg (Nat.not_lt_of_le h.short)).trans (if_neg ?_)
    rintro ⟨hmore, hsmall⟩
    exact Nat.not_lt_of_le (h.large hmore) hsmall

theorem FragmentLimits.Admits.not_breaks (h : limits.Admits fragment) :
    ¬limits.Breaks fragment cause := by
  intro hbreaks
  have hcheck := check_eq_error_iff.mpr hbreaks
  rw [check_eq_ok_iff.mpr h] at hcheck
  cases hcheck

end Limits

/-! ## The fragments that count -/

/-- The fragments that are taken, in the order in which they come: those that keep the
    limits, each the first at its offset. -/
def FragmentLimits.taken (limits : FragmentLimits) (fragments : List Fragment) : List Fragment :=
  fragments.foldl (fun taken f =>
    if limits.check f = .ok () ∧ ∀ g ∈ taken, g.start ≠ f.start then taken ++ [f] else taken) []

section Taken

variable {limits : FragmentLimits} {fragments : List Fragment} {f : Fragment}

@[simp] theorem taken_nil : limits.taken [] = [] := rfl

theorem taken_append_singleton :
    limits.taken (fragments ++ [f]) =
      if limits.check f = .ok () ∧ ∀ g ∈ limits.taken fragments, g.start ≠ f.start then
        limits.taken fragments ++ [f]
      else limits.taken fragments := by
  rw [FragmentLimits.taken, List.foldl_append]
  rfl

theorem taken_of_new (hcheck : limits.check f = .ok ())
    (hnew : ∀ g ∈ limits.taken fragments, g.start ≠ f.start) :
    limits.taken (fragments ++ [f]) = limits.taken fragments ++ [f] := by
  rw [taken_append_singleton, if_pos ⟨hcheck, hnew⟩]

theorem taken_of_refused {cause : FragmentError} (hcheck : limits.check f = .error cause) :
    limits.taken (fragments ++ [f]) = limits.taken fragments := by
  rw [taken_append_singleton, if_neg]
  rintro ⟨hok, -⟩
  rw [hcheck] at hok
  cases hok

theorem taken_of_repeated (h : ∃ g ∈ limits.taken fragments, g.start = f.start) :
    limits.taken (fragments ++ [f]) = limits.taken fragments := by
  rw [taken_append_singleton, if_neg]
  rintro ⟨-, hnew⟩
  obtain ⟨g, hg, hstart⟩ := h
  exact hnew g hg hstart

/-- What was taken stays so. -/
theorem taken_append (limits : FragmentLimits) (fragments later : List Fragment) :
    ∃ more, limits.taken (fragments ++ later) = limits.taken fragments ++ more := by
  induction later using List.reverseRecOn with
  | nil => exact ⟨[], by simp⟩
  | append_singleton later f ih =>
    obtain ⟨more, hmore⟩ := ih
    rw [← List.append_assoc, taken_append_singleton, hmore]
    split
    · exact ⟨more ++ [f], List.append_assoc ..⟩
    · exact ⟨more, rfl⟩

/-- What is taken was submitted, and keeps the limits. -/
theorem mem_of_mem_taken (h : f ∈ limits.taken fragments) :
    f ∈ fragments ∧ limits.check f = .ok () := by
  induction fragments using List.reverseRecOn with
  | nil => cases h
  | append_singleton fragments g ih =>
    rw [taken_append_singleton] at h
    split at h
    · rename_i hnew
      rcases List.mem_append.mp h with h | h
      · exact ⟨List.mem_append_left _ (ih h).1, (ih h).2⟩
      · obtain rfl := List.mem_singleton.mp h
        exact ⟨List.mem_append_right _ h, hnew.1⟩
    · exact ⟨List.mem_append_left _ (ih h).1, (ih h).2⟩

end Taken

/-! ## Fragments side by side -/

/-- Fragments follow one another from an octet on without a gap or an overlap. -/
def Adjoining : Nat → List Fragment → Prop
  | _, [] => True
  | position, f :: rest => f.start = position ∧ Adjoining f.stop rest

namespace Adjoining

variable {position : Nat} {whole : List Fragment}

/-- They end where the last of them does. -/
theorem stop_le_iff (h : Adjoining position whole) {bound : Nat} (hne : whole ≠ [])
    (hstop : ∀ f ∈ whole, f.stop ≤ bound) : position + sizeOf whole ≤ bound := by
  induction whole generalizing position with
  | nil => exact absurd rfl hne
  | cons f rest ih =>
    obtain ⟨hstart, hrest⟩ := h
    have hf := hstop f (List.mem_cons_self ..)
    simp only [sizeOf, List.map_cons, List.sum_cons] at ih ⊢
    simp only [Fragment.stop] at hf hrest
    by_cases hlast : rest = []
    · rw [hlast]
      simp only [List.map_nil, List.sum_nil]
      omega
    · have := ih hrest hlast fun g hg => hstop g (List.mem_cons_of_mem _ hg)
      omega

/-- Pieces that join are those of adjoining fragments. -/
theorem of_join {payload : Octets}
    (h : Partial.join position (whole.map Fragment.piece) = .ok payload) :
    Adjoining position whole ∧ whole.flatMap Fragment.payload = payload := by
  induction whole generalizing position payload with
  | nil => exact ⟨trivial, Except.ok.inj h⟩
  | cons f rest ih =>
    rw [List.map_cons, Partial.join] at h
    split at h
    · rename_i hstart
      cases hjoin : Partial.join (position + f.piece.octets.length) (rest.map Fragment.piece) with
      | error cause =>
        rw [hjoin] at h
        cases h
      | ok octets =>
        rw [hjoin] at h
        obtain ⟨hrest, hoctets⟩ := ih hjoin
        have hstop : position + f.piece.octets.length = f.stop := by
          rw [← hstart]
          rfl
        rw [hstop] at hrest
        refine ⟨⟨hstart, hrest⟩, ?_⟩
        rw [List.flatMap_cons, hoctets]
        exact Except.ok.inj h
    · cases h

end Adjoining

/-! ## The fragments of one datagram that came so far -/

namespace Gathered

variable {came : List Fragment} {parts : Partial}

/-- They are at different offsets. -/
theorem distinct (h : Gathered came parts) : (came.map Fragment.start).Nodup := by
  have hstarts : (parts.pieces.map Piece.start).Nodup :=
    List.pairwise_map.mpr (h.sorted.imp fun hlt => Nat.ne_of_lt hlt)
  have hperm := (h.pieces.map Piece.start).nodup_iff.mp hstarts
  rw [List.map_map] at hperm
  exact hperm

theorem head_of_mem (h : Gathered came parts) {f : Fragment} (hf : f ∈ came) (hzero : f.start = 0) :
    parts.head = some (f.header, f.time) := by
  apply h.head f hf hzero
  intro g hg hg0
  exact List.inj_on_of_nodup_map h.distinct hg hf (hg0.trans hzero.symm)

/-- In the order of their offsets. -/
theorem exists_whole (h : Gathered came parts) :
    ∃ whole : List Fragment, whole.Perm came ∧ whole.map Fragment.piece = parts.pieces := by
  have hcomp : Relation.Comp (· = List.map Fragment.piece ·) (·.Perm ·) parts.pieces came := by
    rw [List.eq_map_comp_perm]
    exact h.pieces
  obtain ⟨whole, heq, hperm⟩ := hcomp
  exact ⟨whole, hperm, heq.symm⟩

/-- Fragments that join begin with one that says what the datagram is. -/
theorem head_of_join (h : Gathered came parts) {payload : Octets} (hne : came ≠ [])
    (hjoin : Partial.join 0 parts.pieces = .ok payload) :
    ∃ f ∈ came, f.start = 0 ∧ parts.head = some (f.header, f.time) := by
  obtain ⟨whole, hperm, hpieces⟩ := h.exists_whole
  rw [← hpieces] at hjoin
  obtain ⟨hadjoining, -⟩ := Adjoining.of_join hjoin
  cases whole with
  | nil => exact absurd hperm.nil_eq.symm hne
  | cons f rest =>
    have hf := hperm.mem_iff.mp (List.mem_cons_self ..)
    exact ⟨f, hf, hadjoining.1, h.head_of_mem hf hadjoining.1⟩

/-- So it is when one more is put among them. -/
theorem head_of_add (h : Gathered came parts) {fragment : Fragment} {now : Instant}
    {payload : Octets} (hjoin : Partial.join 0 (parts.add fragment now).pieces = .ok payload) :
    (parts.add fragment now).head ≠ none := by
  show (if fragment.start = 0 then some (fragment.header, fragment.time) else parts.head) ≠ none
  by_cases hzero : fragment.start = 0
  · rw [if_pos hzero]
    exact Option.some_ne_none _
  · rw [if_neg hzero]
    cases hpieces : (parts.add fragment now).pieces with
    | nil =>
      have hperm : (parts.add fragment now).pieces.Perm (fragment.piece :: parts.pieces) :=
        perm_insertPiece fragment.piece parts.pieces
      rw [hpieces] at hperm
      exact absurd hperm.length_eq (by simp)
    | cons p rest =>
      rw [hpieces, Partial.join] at hjoin
      split at hjoin
      · rename_i hstart
        have hp : p ∈ (parts.add fragment now).pieces := hpieces ▸ List.mem_cons_self ..
        rcases mem_insertPiece.mp hp with rfl | hp
        · exact absurd hstart hzero
        · obtain ⟨f, hf, rfl⟩ := List.mem_map.mp (h.pieces.mem_iff.mp hp)
          rw [h.head_of_mem hf hstart]
          exact Option.some_ne_none _
      · cases hjoin

end Gathered

/-! ## One fragment -/

namespace Reassembly

variable {state : Reassembly} {came : List Fragment} {fragment : Fragment}

/-- The fragments of a datagram with one more. -/
def withFragment (state : Reassembly) (fragment : Fragment) (now : Instant) : Partial :=
  (state.fragmentsOf fragment.key now).add fragment now

theorem accept_eq (state : Reassembly) (fragment : Fragment) (now : Instant) :
    state.accept fragment now =
      if (state.fragmentsOf fragment.key now).hasStart fragment.start then (.ok none, state)
      else if state.limits.maxFragments ≤ (state.fragmentsOf fragment.key now).pieces.length then
        (.error (.tooManyFragments (state.fragmentsOf fragment.key now).pieces.length),
          state.forget fragment.key)
      else if !(state.withFragment fragment now).isComplete then
        (.ok none, state.put fragment.key (state.withFragment fragment now))
      else
        match Partial.join 0 (state.withFragment fragment now).pieces,
          (state.withFragment fragment now).head with
        | .error cause, _ =>
          (.error cause, state.put fragment.key (state.withFragment fragment now))
        | .ok _, none =>
          (.error (.hole 0), state.put fragment.key (state.withFragment fragment now))
        | .ok payload, some (header, time) =>
          (.ok (some ⟨header, payload, time⟩), state.forget fragment.key) :=
  rfl

/-- What becomes of a fragment when `came` are kept of its datagram. -/
inductive Taking (state : Reassembly) (came : List Fragment) (fragment : Fragment) (now : Instant) :
    Except FragmentError (Option Datagram) × Reassembly → Prop
  /-- It breaks a limit. -/
  | refused {cause : FragmentError} (hcheck : state.limits.check fragment = .error cause) :
    Taking state came fragment now (.error cause, state)
  /-- There is one at its offset. -/
  | repeated (hcheck : state.limits.check fragment = .ok ())
    (hstart : ∃ g ∈ came, g.start = fragment.start) :
    Taking state came fragment now (.ok none, state)
  /-- There are too many. -/
  | crowded (hcheck : state.limits.check fragment = .ok ())
    (hnew : ∀ g ∈ came, g.start ≠ fragment.start)
    (hfull : state.limits.maxFragments ≤ came.length) :
    Taking state came fragment now
      (.error (.tooManyFragments came.length), state.forget fragment.key)
  /-- Others are still to come. -/
  | waiting (hcheck : state.limits.check fragment = .ok ())
    (hnew : ∀ g ∈ came, g.start ≠ fragment.start)
    (hroom : came.length < state.limits.maxFragments)
    (hopen : (state.withFragment fragment now).isComplete = false) :
    Taking state came fragment now
      (.ok none, state.put fragment.key (state.withFragment fragment now))
  /-- The lengths add up, but the payloads do not join. -/
  | broken {cause : FragmentError} (hcheck : state.limits.check fragment = .ok ())
    (hnew : ∀ g ∈ came, g.start ≠ fragment.start)
    (hroom : came.length < state.limits.maxFragments)
    (hcomplete : (state.withFragment fragment now).isComplete = true)
    (hjoin : Partial.join 0 (state.withFragment fragment now).pieces = .error cause) :
    Taking state came fragment now
      (.error cause, state.put fragment.key (state.withFragment fragment now))
  /-- They make a datagram. -/
  | whole {first : Fragment} {payload : Octets} (hcheck : state.limits.check fragment = .ok ())
    (hnew : ∀ g ∈ came, g.start ≠ fragment.start)
    (hroom : came.length < state.limits.maxFragments)
    (hcomplete : (state.withFragment fragment now).isComplete = true)
    (hjoin : Partial.join 0 (state.withFragment fragment now).pieces = .ok payload)
    (hfirst : first ∈ came ++ [fragment]) (hzero : first.start = 0) :
    Taking state came fragment now
      (.ok (some ⟨first.header, payload, first.time⟩), state.forget fragment.key)

theorem Keeps.withFragment (h : state.Keeps fragment.key came) (now : Instant)
    (hnew : ∀ g ∈ came, g.start ≠ fragment.start) :
    Gathered (came ++ [fragment]) (state.withFragment fragment now) :=
  (h.gathered now).add hnew now

/-- Submitting a fragment ends in one of these ways. -/
theorem Keeps.taking (h : state.Keeps fragment.key came) (now : Instant) :
    Taking state came fragment now (state.submit fragment now) := by
  have hbefore := h.gathered now
  rw [Reassembly.submit]
  cases hcheck : state.limits.check fragment with
  | error cause => exact .refused hcheck
  | ok _ =>
    simp only [accept_eq]
    by_cases hstart : ∃ g ∈ came, g.start = fragment.start
    · rw [if_pos ((hbefore.hasStart _).mpr hstart)]
      exact .repeated hcheck hstart
    have hnew : ∀ g ∈ came, g.start ≠ fragment.start := fun g hg heq => hstart ⟨g, hg, heq⟩
    rw [if_neg fun hhas => hstart ((hbefore.hasStart _).mp hhas), hbefore.length]
    by_cases hfull : state.limits.maxFragments ≤ came.length
    · rw [if_pos hfull]
      exact .crowded hcheck hnew hfull
    have hroom : came.length < state.limits.maxFragments := Nat.lt_of_not_le hfull
    rw [if_neg hfull]
    cases hcomplete : (state.withFragment fragment now).isComplete with
    | false => exact .waiting hcheck hnew hroom hcomplete
    | true =>
      cases hjoin : Partial.join 0 (state.withFragment fragment now).pieces with
      | error cause => exact .broken hcheck hnew hroom hcomplete hjoin
      | ok payload =>
        -- where the payloads join there is a fragment at octet zero
        obtain ⟨first, hfirst, hzero, hhead⟩ :=
          (h.withFragment now hnew).head_of_join (by simp) hjoin
        rw [hhead]
        exact .whole hcheck hnew hroom hcomplete hjoin hfirst hzero

end Reassembly

/-! ## Fragments that are missing -/

namespace Whole

variable {limits : FragmentLimits} {key : FragmentKey} {whole came rest : List Fragment}
  {fragment : Fragment}

/-- A fragment that is missing is at an offset of its own. -/
theorem new_of_missing (h : Whole limits key whole)
    (hsplit : (came ++ fragment :: rest).Perm whole) : ∀ g ∈ came, g.start ≠ fragment.start := by
  intro g hg
  have hdistinct : (came ++ fragment :: rest).Pairwise fun f g => f.start ≠ g.start :=
    hsplit.symm.pairwise (h.tiles.sorted.imp fun hlt => Nat.ne_of_lt hlt) fun hne => hne.symm
  exact (List.pairwise_append.mp hdistinct).2.2 g hg fragment (List.mem_cons_self ..)

/-- There is room for it. -/
theorem room_of_missing (h : Whole limits key whole)
    (hsplit : (came ++ fragment :: rest).Perm whole) : came.length < limits.maxFragments := by
  have hlength := hsplit.length_eq
  have hfew := h.few
  rw [List.length_append, List.length_cons] at hlength
  omega

end Whole

namespace Reassembly

variable {state : Reassembly} {key : FragmentKey} {whole came rest : List Fragment}
  {fragment : Fragment}

/-- A fragment behind which others are still missing is kept. -/
theorem Keeps.submit_of_missing (h : state.Keeps key came) (hwhole : Whole state.limits key whole)
    (hsplit : (came ++ fragment :: rest).Perm whole) (hmissing : rest ≠ []) (now : Instant) :
    (state.submit fragment now).1 = .ok none ∧
      (state.submit fragment now).2.Keeps key (came ++ [fragment]) := by
  have hmem : fragment ∈ whole := hsplit.mem_iff.mp (by simp)
  have hnew := hwhole.new_of_missing hsplit
  have hroom := hwhole.room_of_missing hsplit
  have hsplit' : ((came ++ [fragment]) ++ rest).Perm whole := by
    rw [List.append_assoc]
    exact hsplit
  rw [← hwhole.keyed fragment hmem] at h ⊢
  have hgathered := h.withFragment now hnew
  have hopen := hgathered.not_complete hwhole.tiles hsplit' hmissing
  have htaking := h.taking now
  generalize state.submit fragment now = result at htaking ⊢
  cases htaking with
  | refused hcheck =>
    rw [hwhole.checked fragment hmem] at hcheck
    cases hcheck
  | repeated _ hstart =>
    obtain ⟨g, hg, heq⟩ := hstart
    exact absurd heq (hnew g hg)
  | crowded _ _ hfull => exact absurd hroom (Nat.not_lt_of_le hfull)
  | waiting => exact ⟨rfl, .inr ⟨_, by simp [put], hgathered⟩⟩
  | broken _ _ _ hcomplete => exact absurd hcomplete (by simp [hopen])
  | whole _ _ _ hcomplete => exact absurd hcomplete (by simp [hopen])

/-- The last fragment to come gives the datagram, and its fragments are forgotten. -/
theorem Keeps.submit_of_last (h : state.Keeps key came) (hwhole : Whole state.limits key whole)
    (hsplit : (came ++ [fragment]).Perm whole) (now : Instant) :
    ∃ first ∈ whole, first.start = 0 ∧ state.submit fragment now =
      (.ok (some ⟨first.header, whole.flatMap Fragment.payload, first.time⟩),
        state.forget key) := by
  have hmem : fragment ∈ whole := hsplit.mem_iff.mp (by simp)
  have hnew := hwhole.new_of_missing hsplit
  have hroom := hwhole.room_of_missing hsplit
  rw [← hwhole.keyed fragment hmem] at h ⊢
  obtain ⟨hdone, hpieces, -⟩ := (h.withFragment now hnew).complete hwhole.tiles hsplit
  have hpayload := hwhole.tiles.join_eq
  rw [← hpieces] at hpayload
  have htaking := h.taking now
  generalize state.submit fragment now = result at htaking ⊢
  cases htaking with
  | refused hcheck =>
    rw [hwhole.checked fragment hmem] at hcheck
    cases hcheck
  | repeated _ hstart =>
    obtain ⟨g, hg, heq⟩ := hstart
    exact absurd heq (hnew g hg)
  | crowded _ _ hfull => exact absurd hroom (Nat.not_lt_of_le hfull)
  | waiting _ _ _ hopen => exact absurd hdone (by simp [hopen])
  | broken _ _ _ _ hjoin =>
    rw [hpayload] at hjoin
    cases hjoin
  | whole _ _ _ _ hjoin hfirst hzero =>
    rw [hpayload] at hjoin
    rw [Except.ok.inj hjoin]
    exact ⟨_, hsplit.mem_iff.mp hfirst, hzero, rfl⟩

end Reassembly

end PassiveDns
