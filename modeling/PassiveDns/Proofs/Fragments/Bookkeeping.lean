/-
  PassiveDns.Proofs.Fragments.Bookkeeping

  What is written down of a datagram in progress, next to its fragments: how far they
  reach, how many octets came, whether the last one came, and what the first one says. All
  of it is right at every moment (`books_after_run`), and no datagram waits whose fragments
  are all there: lengths that add up are noticed with the fragment that makes them so.
-/
import PassiveDns.Proofs.Fragments.Origin

namespace PassiveDns

namespace Piece

/-- The octet behind a piece. -/
def stop (piece : Piece) : Nat := piece.start + piece.octets.length

/-- Whether a piece has an octet of the datagram. -/
def Has (piece : Piece) (position : Nat) : Prop :=
  piece.start ≤ position ∧ position < piece.stop

end Piece

/-! ## Pieces that join -/

section Joining

variable {position : Nat} {whole : List Fragment} {pieces : List Piece}

/-- Adjoining fragments join. -/
theorem Adjoining.join_ok (h : Adjoining position whole) :
    ∃ payload, Partial.join position (whole.map Fragment.piece) = .ok payload := by
  induction whole generalizing position with
  | nil => exact ⟨[], rfl⟩
  | cons f rest ih =>
    obtain ⟨hstart, hrest⟩ := h
    obtain ⟨payload, hpayload⟩ := ih hrest
    have hpiece : f.piece.start = position := hstart
    have hstop : position + f.piece.octets.length = f.stop := by
      rw [← hstart]
      rfl
    refine ⟨f.payload ++ payload, ?_⟩
    rw [List.map_cons, Partial.join, if_pos hpiece, hstop, hpayload]
    rfl

theorem Adjoining.bounds (h : Adjoining position whole) :
    ∀ f ∈ whole, position ≤ f.start ∧ f.stop ≤ position + sizeOf whole := by
  induction whole generalizing position with
  | nil => exact fun f hf => absurd hf List.not_mem_nil
  | cons f rest ih =>
    obtain ⟨hstart, hrest⟩ := h
    have hstop : f.stop = position + f.payload.length := by rw [← hstart]; rfl
    intro g hg
    simp only [sizeOf, List.map_cons, List.sum_cons] at ih ⊢
    rcases List.mem_cons.mp hg with rfl | hg
    · omega
    · have := ih hrest g hg
      omega

/-- At distinct offsets they are in the order of their offsets. -/
theorem Adjoining.sorted (h : Adjoining position whole)
    (distinct : (whole.map Fragment.start).Nodup) :
    whole.Pairwise fun f g => f.start < g.start := by
  induction whole generalizing position with
  | nil => exact List.Pairwise.nil
  | cons f rest ih =>
    obtain ⟨hstart, hrest⟩ := h
    rw [List.map_cons, List.nodup_cons] at distinct
    refine List.pairwise_cons.mpr ⟨fun g hg => ?_, ih hrest distinct.2⟩
    have hle := (hrest.bounds g hg).1
    have hne : g.start ≠ f.start := fun heq => distinct.1 (heq ▸ List.mem_map_of_mem hg)
    simp only [Fragment.stop] at hle
    omega

/-- Pieces join that have each octet up to an end once, if only the end has an empty
    one. -/
theorem join_ok_of_once {stop : Nat} (sorted : pieces.Pairwise fun p q => p.start < q.start)
    (hlow : ∀ p ∈ pieces, position ≤ p.start) (hhigh : ∀ p ∈ pieces, p.stop ≤ stop)
    (hempty : ∀ p ∈ pieces, p.octets = [] → stop ≤ p.start)
    (hsome : ∀ i, position ≤ i → i < stop → ∃ p ∈ pieces, p.Has i)
    (honce : ∀ p ∈ pieces, ∀ q ∈ pieces, ∀ i < stop, p.Has i → q.Has i → p = q) :
    ∃ payload, Partial.join position pieces = .ok payload := by
  induction pieces generalizing position with
  | nil => exact ⟨[], rfl⟩
  | cons p rest ih =>
    obtain ⟨hfirst, hrest⟩ := List.pairwise_cons.mp sorted
    have hp := List.mem_cons_self (a := p) (l := rest)
    have hmem : ∀ q ∈ rest, q ∈ p :: rest := fun q hq => List.mem_cons_of_mem p hq
    have hstop : p.stop = p.start + p.octets.length := rfl
    have hlowp := hlow p hp
    have hhighp := hhigh p hp
    -- the first octet is in the first piece, for it is in some piece
    have hstart : p.start = position := by
      by_contra hne
      obtain ⟨q, hq, hqle, -⟩ := hsome position (Nat.le_refl _) (by omega)
      rcases List.mem_cons.mp hq with rfl | hq
      · omega
      · have := hfirst q hq
        omega
    -- the others start behind it, or else they have octets in common with it
    have hbehind : ∀ q ∈ rest, p.stop ≤ q.start := by
      intro q hq
      by_contra hlt
      have hqp := hfirst q hq
      have hqstop : q.stop = q.start + q.octets.length := rfl
      have hqne : q.octets ≠ [] := by
        intro hnil
        have := hempty q (hmem q hq) hnil
        omega
      have hpos := List.length_pos_iff.mpr hqne
      have heq := honce p hp q (hmem q hq) q.start (by omega) ⟨by omega, by omega⟩
        ⟨by omega, by omega⟩
      rw [heq] at hqp
      exact Nat.lt_irrefl _ hqp
    obtain ⟨payload, hpayload⟩ := ih hrest hbehind
      (fun q hq => hhigh q (hmem q hq)) (fun q hq => hempty q (hmem q hq))
      (fun i hi hlt => by
        obtain ⟨q, hq, hle, hlt'⟩ := hsome i (by omega) hlt
        rcases List.mem_cons.mp hq with rfl | hq
        · omega
        · exact ⟨q, hq, hle, hlt'⟩)
      (fun q hq r hr => honce q (hmem q hq) r (hmem r hr))
    rw [hstop, hstart] at hpayload
    exact ⟨p.octets ++ payload, by rw [Partial.join, if_pos hstart, hpayload]; rfl⟩

end Joining

/-! ## A datagram in progress -/

/-- What is written down of a datagram of which fragments were taken is right, and it is
    not one that could be put together. -/
structure Partial.Books (limits : FragmentLimits) (taken : List Fragment) (parts : Partial) :
    Prop where
  /-- The pieces are those of the fragments taken. -/
  pieces : parts.pieces.Perm (taken.map Fragment.piece)
  some : 1 ≤ parts.pieces.length
  few : parts.pieces.length ≤ limits.maxFragments
  distinct : (parts.pieces.map Piece.start).Nodup
  aligned : ∀ p ∈ parts.pieces, 8 ∣ p.start
  within : ∀ p ∈ parts.pieces, p.stop ≤ limits.maxDatagram
  reach : (∀ p ∈ parts.pieces, p.stop ≤ parts.reach) ∧ ∃ p ∈ parts.pieces, p.stop = parts.reach
  received : parts.received = (parts.pieces.map fun p => p.octets.length).sum
  lastSeen : parts.lastSeen = true ↔ ∃ f ∈ taken, f.more = false
  head : parts.head ≠ none ↔ ∃ p ∈ parts.pieces, p.start = 0
  header : ∀ f ∈ taken, f.offset = 0 → parts.head = .some (f.header, f.time)
  /-- Once the last fragment came, they do not follow one another without a gap or an
      overlap, in whatever order. -/
  waits : parts.lastSeen = true → ∀ whole : List Fragment, whole.Perm taken → ¬Adjoining 0 whole
  /-- Said of octets: one is missing or there twice, unless an empty piece lies among
      them. -/
  lacks : parts.lastSeen = true → (∀ p ∈ parts.pieces, p.octets = [] → parts.reach ≤ p.start) →
    ∃ i < parts.reach, (∀ p ∈ parts.pieces, ¬p.Has i) ∨
      ∃ p ∈ parts.pieces, ∃ q ∈ parts.pieces, p ≠ q ∧ p.Has i ∧ q.Has i

/-- What is said of a datagram was said by a piece at octet zero. -/
def Partial.Headed (parts : Partial) : Prop :=
  parts.head ≠ none → ∃ p ∈ parts.pieces, p.start = 0

/-- What a datagram has to be that waits: it has fragments, not too many, and where their
    lengths add up they do not join. -/
structure Partial.Waits (limits : FragmentLimits) (parts : Partial) : Prop where
  some : 1 ≤ parts.pieces.length
  few : parts.pieces.length ≤ limits.maxFragments
  headed : parts.Headed
  broken : parts.isComplete = true → ∃ cause, Partial.join 0 parts.pieces = .error cause

section Books

variable {limits : FragmentLimits} {came : List Fragment} {parts : Partial}

theorem Partial.Headed.add (h : parts.Headed) (fragment : Fragment) (now : Instant) :
    (parts.add fragment now).Headed := by
  intro hhead
  change (if fragment.start = 0 then _ else parts.head) ≠ none at hhead
  by_cases hzero : fragment.start = 0
  · exact ⟨fragment.piece, mem_insertPiece.mpr (.inl rfl), hzero⟩
  · rw [if_neg hzero] at hhead
    obtain ⟨p, hp, hstart⟩ := h hhead
    exact ⟨p, mem_insertPiece.mpr (.inr hp), hstart⟩

theorem Partial.Waits.not_join (h : parts.Waits limits) (hcomplete : parts.isComplete = true)
    (hjoin : ∃ payload, Partial.join 0 parts.pieces = .ok payload) : False := by
  obtain ⟨cause, hbroken⟩ := h.broken hcomplete
  obtain ⟨payload, hpayload⟩ := hjoin
  rw [hbroken] at hpayload
  cases hpayload

namespace Gathered

theorem reach_max (h : Gathered came parts) (hne : came ≠ []) :
    (∀ p ∈ parts.pieces, p.stop ≤ parts.reach) ∧ ∃ p ∈ parts.pieces, p.stop = parts.reach := by
  have hbound := (h.reach parts.reach).mp (Nat.le_refl _)
  refine ⟨fun p hp => ?_, ?_⟩
  · obtain ⟨f, hf, rfl⟩ := List.mem_map.mp (h.pieces.mem_iff.mp hp)
    exact hbound f hf
  · -- else all of them would end before the furthest one does
    by_contra hnone
    have hlt : ∀ f ∈ came, f.stop < parts.reach := by
      intro f hf
      refine Nat.lt_of_le_of_ne (hbound f hf) fun heq => hnone ⟨f.piece, ?_, heq⟩
      exact h.pieces.mem_iff.mpr (List.mem_map_of_mem hf)
    obtain ⟨f, hf⟩ := List.exists_mem_of_ne_nil came hne
    have hpos := hlt f hf
    have hless := (h.reach (parts.reach - 1)).mpr fun g hg => by
      have := hlt g hg
      omega
    omega

theorem received_sum (h : Gathered came parts) :
    parts.received = (parts.pieces.map fun p => p.octets.length).sum := by
  rw [h.received, (h.pieces.map fun p => p.octets.length).sum_nat, List.map_map]
  rfl

/-- What the lengths add up to is the reach of fragments that adjoin, so they are
    complete. -/
theorem complete_of_adjoining (h : Gathered came parts) (hlast : parts.lastSeen = true)
    (hne : came ≠ []) {whole : List Fragment} (hperm : whole.Perm came)
    (hadjoining : Adjoining 0 whole) : parts.isComplete = true := by
  have hreach : parts.reach = sizeOf whole := by
    apply Nat.le_antisymm
    · refine (h.reach _).mpr fun f hf => ?_
      have := (hadjoining.bounds f (hperm.mem_iff.mpr hf)).2
      omega
    · have hstops := (h.reach parts.reach).mp (Nat.le_refl _)
      have := hadjoining.stop_le_iff (fun hnil => hne (hnil ▸ hperm).nil_eq.symm)
        fun f hf => hstops f (hperm.mem_iff.mp hf)
      omega
  have hreceived : parts.received = sizeOf whole := by rw [h.received, sizeOf_perm hperm]
  simp [Partial.isComplete, hlast, hreach, hreceived]

/-- The pieces are the fragments in the order in which they adjoin. -/
theorem pieces_of_adjoining (h : Gathered came parts) {whole : List Fragment}
    (hperm : whole.Perm came) (hadjoining : Adjoining 0 whole) :
    parts.pieces = whole.map Fragment.piece := by
  have hdistinct : (whole.map Fragment.start).Nodup :=
    (hperm.map Fragment.start).nodup_iff.mpr h.distinct
  -- two lists in ascending order with the same members are equal
  refine (h.pieces.trans (hperm.symm.map _)).eq_of_pairwise ?_ h.sorted ?_
  · intro a b _ _ hab hba
    exact absurd (Nat.lt_trans hab hba) (Nat.lt_irrefl _)
  · exact List.pairwise_map.mpr (hadjoining.sorted hdistinct)

/-- Pieces with each octet once have as many octets as they reach far. -/
theorem lacks_of_waits (h : Gathered came parts) (hwaits : parts.Waits limits)
    (hlast : parts.lastSeen = true) (hne : came ≠ [])
    (hempty : ∀ p ∈ parts.pieces, p.octets = [] → parts.reach ≤ p.start) :
    ∃ i < parts.reach, (∀ p ∈ parts.pieces, ¬p.Has i) ∨
      ∃ p ∈ parts.pieces, ∃ q ∈ parts.pieces, p ≠ q ∧ p.Has i ∧ q.Has i := by
  by_contra hnone
  have hsome : ∀ i, 0 ≤ i → i < parts.reach → ∃ p ∈ parts.pieces, p.Has i := by
    intro i _ hi
    by_contra hmissing
    exact hnone ⟨i, hi, .inl fun p hp hhas => hmissing ⟨p, hp, hhas⟩⟩
  have honce : ∀ p ∈ parts.pieces, ∀ q ∈ parts.pieces, ∀ i < parts.reach,
      p.Has i → q.Has i → p = q := by
    intro p hp q hq i hi hpi hqi
    by_contra hpq
    exact hnone ⟨i, hi, .inr ⟨p, hp, q, hq, hpq, hpi, hqi⟩⟩
  have hjoin := join_ok_of_once h.sorted (fun p _ => Nat.zero_le _) (h.reach_max hne).1 hempty
    hsome honce
  obtain ⟨whole, hperm, hpieces⟩ := h.exists_whole
  obtain ⟨payload, hpayload⟩ := hjoin
  have hadjoining := (Adjoining.of_join (hpieces.symm ▸ hpayload)).1
  exact hwaits.not_join (h.complete_of_adjoining hlast hne hperm hadjoining) ⟨payload, hpayload⟩

/-- The books of a datagram that waits. -/
theorem books (h : Gathered came parts) (hwaits : parts.Waits limits)
    (hchecked : ∀ f ∈ came, limits.check f = .ok ()) : parts.Books limits came := by
  have hne : came ≠ [] := by
    have hsome := hwaits.some
    rw [h.length] at hsome
    exact List.ne_nil_of_length_pos hsome
  have hpiece : ∀ p ∈ parts.pieces, ∃ f ∈ came, f.piece = p := fun p hp =>
    List.mem_map.mp (h.pieces.mem_iff.mp hp)
  have hlast : parts.lastSeen = true ↔ ∃ f ∈ came, f.more = false := by
    rw [h.lastSeen, List.any_eq_true]
    simp
  refine {
    pieces := h.pieces
    some := hwaits.some
    few := hwaits.few
    distinct := List.pairwise_map.mpr (h.sorted.imp fun hlt => Nat.ne_of_lt hlt)
    aligned := fun p hp => ?_
    within := fun p hp => ?_
    reach := h.reach_max hne
    received := h.received_sum
    lastSeen := hlast
    head := ?_
    header := fun f hf hzero => h.head_of_mem hf (by rw [Fragment.start, hzero])
    waits := fun hseen whole hperm hadjoining => ?_
    lacks := fun hseen hempty => h.lacks_of_waits hwaits hseen hne hempty }
  · obtain ⟨f, -, rfl⟩ := hpiece p hp
    exact Nat.dvd_mul_left 8 f.offset
  · obtain ⟨f, hf, rfl⟩ := hpiece p hp
    exact (FragmentLimits.check_eq_ok_iff.mp (hchecked f hf)).short
  · refine ⟨hwaits.headed, ?_⟩
    rintro ⟨p, hp, hzero⟩ hnone
    obtain ⟨f, hf, rfl⟩ := hpiece p hp
    rw [h.head_of_mem hf hzero] at hnone
    cases hnone
  · refine hwaits.not_join (h.complete_of_adjoining hseen hne hperm hadjoining) ?_
    rw [h.pieces_of_adjoining hperm hadjoining]
    exact hadjoining.join_ok

end Gathered

namespace Reassembly

variable {state : Reassembly} {key : FragmentKey} {fragment : Fragment}

/-- Every datagram in progress waits for something. -/
def AllWait (state : Reassembly) : Prop :=
  ∀ key parts, state.partials.get? key = some parts → parts.Waits state.limits

theorem AllWait.put (h : state.AllWait) {parts : Partial} (hparts : parts.Waits state.limits) :
    (state.put key parts).AllWait := by
  intro other others hget
  change (state.partials.set key parts).get? other = _ at hget
  rw [Table.get?_set] at hget
  split at hget
  · obtain rfl := Option.some.inj hget
    exact hparts
  · exact h other others hget

theorem AllWait.forget (h : state.AllWait) : (state.forget key).AllWait := by
  intro other others hget
  change (state.partials.erase key).get? other = _ at hget
  rw [Table.get?_erase] at hget
  split at hget
  · cases hget
  · exact h other others hget

theorem AllWait.discard (h : state.AllWait) (cutoff : Instant) :
    (state.discardOlderThan cutoff).2.AllWait := by
  intro other others hget
  change (state.partials.filter _).get? other = _ at hget
  rw [Table.get?_filter] at hget
  exact h other others (Option.filter_eq_some_iff.mp hget).1

theorem AllWait.headed (h : state.AllWait) (now : Instant) :
    (state.fragmentsOf key now).Headed := by
  unfold fragmentsOf
  cases hget : state.partials.get? key with
  | none => exact fun hhead => absurd rfl hhead
  | some parts => exact (h key parts hget).headed

/-- A datagram that a fragment leaves in progress waits. -/
theorem AllWait.submit (h : state.AllWait) {came : List Fragment}
    (hkeeps : state.Keeps fragment.key came) (now : Instant) :
    (state.submit fragment now).2.AllWait := by
  have htaking := hkeeps.taking now
  have hheaded : (state.withFragment fragment now).Headed := (h.headed now).add fragment now
  -- the fragment is one more than before, and there was room for it
  have hlength : (∀ g ∈ came, g.start ≠ fragment.start) →
      (state.withFragment fragment now).pieces.length = came.length + 1 := fun hnew => by
    rw [(hkeeps.withFragment now hnew).length, List.length_append, List.length_singleton]
  generalize state.submit fragment now = result at htaking ⊢
  cases htaking with
  | refused => exact h
  | repeated => exact h
  | crowded => exact h.forget
  | waiting _ hnew hroom hopen =>
    refine h.put ⟨?_, ?_, hheaded, fun hcomplete => ?_⟩
    · rw [hlength hnew]
      exact Nat.le_add_left 1 _
    · rw [hlength hnew]
      exact hroom
    · rw [hopen] at hcomplete
      cases hcomplete
  | broken _ hnew hroom _ hjoin =>
    refine h.put ⟨?_, ?_, hheaded, fun _ => ⟨_, hjoin⟩⟩
    · rw [hlength hnew]
      exact Nat.le_add_left 1 _
    · rw [hlength hnew]
      exact hroom
  | whole => exact h.forget

theorem allWait_run (limits : FragmentLimits) (events : List Event) :
    ((empty limits).run events).AllWait := by
  induction events using List.reverseRecOn with
  | nil => exact fun key parts hget => by cases hget
  | append_singleton events event ih =>
    rw [run_append_singleton]
    cases event with
    | submit fragment now =>
      obtain ⟨_, _, -, -, hkeeps⟩ := exists_since limits fragment.key events
      exact ih.submit hkeeps now
    | discard cutoff => exact ih.discard cutoff

/-- **The books are right.** Whatever fragments were submitted under whatever limits, and
    whenever those in progress were discarded: what is kept of a datagram are the fragments
    taken since some are kept, all that is written down of them is right, and so is what is
    told of its progress. They never make a datagram that could have been handed out. -/
theorem books_after_run (limits : FragmentLimits) (events : List Event) (key : FragmentKey)
    (parts : Partial) (h : ((empty limits).run events).partials.get? key = some parts) :
    ∃ before since, events = before ++ since ∧ Since (empty limits) key before since ∧
      parts.Books limits (limits.taken (submittedFor key since)) ∧
      ((empty limits).run events).progress? key =
        some ⟨(limits.taken (submittedFor key since)).length,
          sizeOf (limits.taken (submittedFor key since)),
          (limits.taken (submittedFor key since)).any fun f => !f.more⟩ := by
  obtain ⟨before, since, hsplit, hsince, hkeeps⟩ := exists_since limits key events
  have hwaits := allWait_run limits events key parts h
  rw [run_limits] at hwaits
  refine ⟨before, since, hsplit, hsince, ?_⟩
  have hgathered : Gathered (limits.taken (submittedFor key since)) parts := by
    rcases hkeeps with ⟨-, hnone⟩ | ⟨others, hsome, hgathered⟩
    · rw [hnone] at h
      cases h
    · rw [hsome] at h
      obtain rfl := Option.some.inj h
      exact hgathered
  refine ⟨hgathered.books hwaits fun f hf => (mem_of_mem_taken hf).2, ?_⟩
  rw [progress?, h, ← hgathered.length, ← hgathered.received, ← hgathered.lastSeen]
  rfl

end Reassembly

end Books

/-! ### An overlap that makes up for a gap -/

namespace Reassembly

open Shuffled (fragment)

/-- Sixteen octets, eight that the datagram has already, and an end that is eight too far
    behind: the lengths add up, but the payloads do not join. -/
def cancelled : List Event :=
  [.submit (fragment 7 0 true [0, 1, 2, 3, 4, 5, 6, 7, 8, 9, 10, 11, 12, 13, 14, 15]) 0,
    .submit (fragment 7 1 true [8, 9, 10, 11, 12, 13, 14, 15]) 1,
    .submit (fragment 7 3 false []) 2]

/-- What is kept of them. -/
def cancelledParts : Partial where
  pieces := [⟨0, [0, 1, 2, 3, 4, 5, 6, 7, 8, 9, 10, 11, 12, 13, 14, 15]⟩,
    ⟨8, [8, 9, 10, 11, 12, 13, 14, 15]⟩, ⟨24, []⟩]
  reach := 24
  received := 24
  lastSeen := true
  touched := 2
  head := some ((fragment 7 0 true []).header, none)

/-- Its octets 16 to 23 are missing, and the books say nothing else. -/
theorem books_cancelled :
    ((empty (.ofVersion .v4)).run cancelled).partials.get? (fragment 7 0 true []).key =
        some cancelledParts ∧
      cancelledParts.isComplete = true ∧
      ∃ before since, cancelled = before ++ since ∧
        Since (empty (.ofVersion .v4)) (fragment 7 0 true []).key before since ∧
        cancelledParts.Books (.ofVersion .v4) ((FragmentLimits.ofVersion .v4).taken
          (submittedFor (fragment 7 0 true []).key since)) := by
  have hget : ((empty (.ofVersion .v4)).run cancelled).partials.get?
      (fragment 7 0 true []).key = some cancelledParts := by
    decide
  obtain ⟨before, since, hsplit, hsince, hbooks, -⟩ :=
    books_after_run (.ofVersion .v4) cancelled _ cancelledParts hget
  exact ⟨hget, by decide, before, since, hsplit, hsince, hbooks⟩

end Reassembly

end PassiveDns
