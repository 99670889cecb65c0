/-
  PassiveDns.Proofs.Fragments.Gathering

  The fragments of a datagram that came so far. `Tiles` says that fragments make a whole
  datagram. While some of them are missing the datagram is not complete, and the last to
  come completes it (`Gathered.add`).
-/
import Mathlib.Data.List.Nodup
import PassiveDns.Proofs.Lists
import PassiveDns.Proofs.Table
import PassiveDns.Reassembly

namespace PassiveDns

/-! ## Fragments that make a datagram -/

namespace Fragment

/-- The octet of the datagram at which a fragment starts. -/
def start (fragment : Fragment) : Nat := fragment.offset * 8

/-- The octet behind a fragment. -/
def stop (fragment : Fragment) : Nat := fragment.start + fragment.payload.length

/-- A fragment as it is kept. -/
def piece (fragment : Fragment) : Piece := ⟨fragment.start, fragment.payload⟩

end Fragment

/-- Fragments follow one another from an octet on without a gap or an overlap; only the
    last one is marked as the last, and only it may be empty. -/
inductive Tiles : Nat → List Fragment → Prop
  | last {start : Nat} {f : Fragment} (hstart : f.start = start) (hmore : f.more = false) :
    Tiles start [f]
  | before {start : Nat} {f : Fragment} {rest : List Fragment} (hstart : f.start = start)
    (hmore : f.more = true) (hlength : 0 < f.payload.length)
    (hrest : Tiles (start + f.payload.length) rest) : Tiles start (f :: rest)

/-- The number of octets in fragments. -/
def sizeOf (fragments : List Fragment) : Nat :=
  (fragments.map fun f => f.payload.length).sum

/-- The datagram that fragments make, the first of them in front. -/
def datagramOf : List Fragment → Option Datagram
  | [] => none
  | first :: rest => some ⟨first.header, (first :: rest).flatMap Fragment.payload, first.time⟩

namespace Tiles

variable {start : Nat} {whole : List Fragment}

theorem bounds (h : Tiles start whole) :
    ∀ f ∈ whole, start ≤ f.start ∧ f.stop ≤ start + sizeOf whole := by
  induction h with
  | last hstart _ =>
    intro g hg
    rw [List.mem_singleton.mp hg]
    simp only [Fragment.stop, sizeOf, List.map_cons, List.map_nil, List.sum_cons, List.sum_nil]
    omega
  | before hstart _ _ _ ih =>
    intro g hg
    simp only [sizeOf, List.map_cons, List.sum_cons] at ih ⊢
    rcases List.mem_cons.mp hg with rfl | hg
    · simp only [Fragment.stop]
      omega
    · have := ih g hg
      omega

/-- No two fragments start at one octet. -/
theorem sorted (h : Tiles start whole) : whole.Pairwise fun f g => f.start < g.start := by
  induction h with
  | last _ _ => exact List.pairwise_singleton ..
  | before hstart _ hlength hrest ih =>
    refine List.pairwise_cons.mpr ⟨fun g hg => ?_, ih⟩
    have := (hrest.bounds g hg).1
    omega

/-- Exactly one fragment is marked as the last, and it ends where the datagram does. -/
theorem ends (h : Tiles start whole) :
    (whole.filter fun f => !f.more).length = 1 ∧
      ∀ f ∈ whole, f.more = false → f.stop = start + sizeOf whole := by
  induction h with
  | last hstart hmore =>
    refine ⟨by simp [hmore], fun g hg _ => ?_⟩
    rw [List.mem_singleton.mp hg]
    simp only [Fragment.stop, sizeOf, List.map_cons, List.map_nil, List.sum_cons, List.sum_nil]
    omega
  | before _ hmore _ _ ih =>
    refine ⟨by simpa [hmore] using ih.1, fun g hg hlast => ?_⟩
    rcases List.mem_cons.mp hg with rfl | hg
    · exact absurd (hmore.symm.trans hlast) (by simp)
    · have := ih.2 g hg hlast
      simp only [sizeOf, List.map_cons, List.sum_cons] at this ⊢
      omega

theorem length_pos (h : Tiles start whole) :
    ∀ f ∈ whole, f.more = true → 0 < f.payload.length := by
  induction h with
  | last _ hmore =>
    intro g hg hlast
    rw [List.mem_singleton.mp hg] at hlast
    exact absurd (hlast.symm.trans hmore) (by simp)
  | before _ _ hlength _ ih =>
    intro g hg
    rcases List.mem_cons.mp hg with rfl | hg
    · exact fun _ => hlength
    · exact ih g hg

/-- The fragments join. -/
theorem join_eq (h : Tiles start whole) :
    Partial.join start (whole.map Fragment.piece) = .ok (whole.flatMap Fragment.payload) := by
  induction h with
  | last hstart _ =>
    simp only [List.map_cons, List.map_nil, Partial.join, Fragment.piece]
    rw [if_pos hstart]
    simp [Except.map]
  | before hstart _ _ _ ih =>
    simp only [List.map_cons, Partial.join, Fragment.piece] at ih ⊢
    rw [if_pos hstart, ih]
    rfl

/-- The datagram begins with the fragment at octet zero. -/
theorem head (h : Tiles start whole) :
    ∃ first rest, whole = first :: rest ∧ first.start = start := by
  cases h with
  | last hstart _ => exact ⟨_, [], rfl, hstart⟩
  | before hstart _ _ _ => exact ⟨_, _, rfl, hstart⟩

/-- At an offset there is one fragment. -/
theorem eq_of_start (h : Tiles start whole) {f g : Fragment} (hf : f ∈ whole) (hg : g ∈ whole)
    (heq : f.start = g.start) : f = g := by
  have hdistinct : (whole.map Fragment.start).Nodup :=
    List.pairwise_map.mpr (h.sorted.imp fun hlt => Nat.ne_of_lt hlt)
  exact List.inj_on_of_nodup_map hdistinct hf hg heq

/-- The fragment at the first octet says what the datagram is. -/
theorem datagramOf_eq (h : Tiles 0 whole) {first : Fragment} (hfirst : first ∈ whole)
    (hzero : first.start = 0) :
    datagramOf whole = some ⟨first.header, whole.flatMap Fragment.payload, first.time⟩ := by
  obtain ⟨front, others, rfl, hfront⟩ := h.head
  obtain rfl := h.eq_of_start hfirst (List.mem_cons_self ..) (hzero.trans hfront.symm)
  rfl

end Tiles

/-! ## The fragments of one datagram that came so far -/

theorem mem_insertPiece {p q : Piece} {pieces : List Piece} :
    q ∈ Partial.insertPiece p pieces ↔ q = p ∨ q ∈ pieces := by
  induction pieces with
  | nil => exact List.mem_cons
  | cons r rest ih =>
    unfold Partial.insertPiece
    split
    · rw [List.mem_cons, ih, List.mem_cons]
      exact or_left_comm
    · exact List.mem_cons

theorem perm_insertPiece (p : Piece) (pieces : List Piece) :
    (Partial.insertPiece p pieces).Perm (p :: pieces) := by
  induction pieces with
  | nil => exact List.Perm.refl _
  | cons r rest ih =>
    unfold Partial.insertPiece
    split
    · exact (ih.cons r).trans (List.Perm.swap p r rest)
    · exact List.Perm.refl _

theorem sorted_insertPiece {p : Piece} {pieces : List Piece}
    (h : pieces.Pairwise fun a b => a.start < b.start) (hne : ∀ q ∈ pieces, q.start ≠ p.start) :
    (Partial.insertPiece p pieces).Pairwise fun a b => a.start < b.start := by
  induction pieces with
  | nil => exact List.pairwise_singleton ..
  | cons r rest ih =>
    obtain ⟨hr, hrest⟩ := List.pairwise_cons.mp h
    have hner := hne r (List.mem_cons_self ..)
    unfold Partial.insertPiece
    split
    · refine List.pairwise_cons.mpr ⟨fun q hq => ?_,
        ih hrest fun q hq => hne q (List.mem_cons_of_mem _ hq)⟩
      rcases mem_insertPiece.mp hq with rfl | hq
      · assumption
      · exact hr q hq
    · refine List.pairwise_cons.mpr ⟨fun q hq => ?_, h⟩
      rcases List.mem_cons.mp hq with rfl | hq
      · omega
      · have := hr q hq
        omega

/-- What is kept of fragments that came. -/
structure Gathered (came : List Fragment) (whole : Partial) : Prop where
  sorted : whole.pieces.Pairwise fun a b => a.start < b.start
  pieces : whole.pieces.Perm (came.map Fragment.piece)
  reach : ∀ bound, whole.reach ≤ bound ↔ ∀ f ∈ came, f.stop ≤ bound
  received : whole.received = sizeOf came
  lastSeen : whole.lastSeen = came.any fun f => !f.more
  head : ∀ f ∈ came, f.start = 0 → (∀ g ∈ came, g.start = 0 → g = f) →
    whole.head = some (f.header, f.time)

theorem gathered_empty (now : Instant) : Gathered [] (.empty now) where
  sorted := List.Pairwise.nil
  pieces := List.Perm.refl _
  reach := by simp [Partial.empty]
  received := rfl
  lastSeen := rfl
  head := by simp

theorem Gathered.hasStart {came : List Fragment} {whole : Partial} (h : Gathered came whole)
    (start : Nat) : whole.hasStart start = true ↔ ∃ f ∈ came, f.start = start := by
  unfold Partial.hasStart
  rw [List.any_eq_true]
  constructor
  · rintro ⟨p, hp, hstart⟩
    obtain ⟨f, hf, rfl⟩ := List.mem_map.mp (h.pieces.mem_iff.mp hp)
    exact ⟨f, hf, of_decide_eq_true hstart⟩
  · rintro ⟨f, hf, hstart⟩
    exact ⟨f.piece, h.pieces.mem_iff.mpr (List.mem_map_of_mem hf), decide_eq_true hstart⟩

theorem Gathered.length {came : List Fragment} {whole : Partial} (h : Gathered came whole) :
    whole.pieces.length = came.length := by
  rw [h.pieces.length_eq, List.length_map]

theorem Gathered.add {came : List Fragment} {whole : Partial} (h : Gathered came whole)
    {f : Fragment} (hnew : ∀ g ∈ came, g.start ≠ f.start) (now : Instant) :
    Gathered (came ++ [f]) (whole.add f now) where
  sorted := by
    refine sorted_insertPiece h.sorted fun q hq => ?_
    obtain ⟨g, hg, rfl⟩ := List.mem_map.mp (h.pieces.mem_iff.mp hq)
    exact hnew g hg
  pieces := by
    rw [List.map_append]
    refine (perm_insertPiece _ _).trans ?_
    exact (h.pieces.cons f.piece).trans (List.perm_append_singleton ..).symm
  reach := by
    intro bound
    show max whole.reach f.stop ≤ bound ↔ _
    rw [Nat.max_le, h.reach bound, List.forall_mem_append, List.forall_mem_singleton]
  received := by
    show whole.received + f.payload.length = _
    rw [h.received]
    simp [sizeOf]
  lastSeen := by
    show (whole.lastSeen || !f.more) = _
    rw [h.lastSeen]
    simp
  head := by
    intro g hg hzero hunique
    show (if f.start = 0 then some (f.header, f.time) else whole.head) = _
    -- the fragment at octet zero is either the new one or came before
    by_cases hf : f.start = 0
    · rw [if_pos hf, hunique f (by simp) hf]
    · rw [if_neg hf]
      rcases List.mem_append.mp hg with hg | hg
      · exact h.head g hg hzero fun g' hg' => hunique g' (List.mem_append_left _ hg')
      · rw [List.mem_singleton.mp hg] at hzero
        exact absurd hzero hf

/-! ## Completing a datagram -/

variable {whole came rest : List Fragment} {parts : Partial}

theorem sizeOf_perm {a b : List Fragment} (h : a.Perm b) : sizeOf a = sizeOf b :=
  (h.map _).sum_nat

theorem sizeOf_append (a b : List Fragment) : sizeOf (a ++ b) = sizeOf a + sizeOf b := by
  simp [sizeOf]

/-- As long as a fragment is missing the datagram is not complete. -/
theorem Gathered.not_complete (h : Gathered came parts) (tiles : Tiles 0 whole)
    (hsplit : (came ++ rest).Perm whole) (hrest : rest ≠ []) : parts.isComplete = false := by
  by_contra hcomplete
  obtain ⟨hlast, hreach⟩ : parts.lastSeen = true ∧ parts.reach = parts.received := by
    simpa [Partial.isComplete] using hcomplete
  rw [h.lastSeen, List.any_eq_true] at hlast
  obtain ⟨last, hlastMem, hlast⟩ := hlast
  have hends := tiles.ends
  -- the last fragment reaches the end of the datagram
  have hstop : last.stop = sizeOf whole := by
    have := hends.2 last (hsplit.mem_iff.mp (List.mem_append_left _ hlastMem))
      (by simpa using hlast)
    omega
  have hlow : sizeOf whole ≤ parts.reach := by
    rw [← hstop]
    exact (h.reach parts.reach).mp (Nat.le_refl _) last hlastMem
  -- but every fragment that is missing has octets
  obtain ⟨g, hg⟩ := List.exists_mem_of_ne_nil rest hrest
  have hmore : g.more = true := by
    -- else two fragments would be marked as the last
    by_contra hmore
    have hcount : 2 ≤ ((came ++ rest).filter fun f => !f.more).length := by
      rw [List.filter_append, List.length_append]
      have hone : 0 < (came.filter fun f => !f.more).length :=
        List.length_pos_of_mem (List.mem_filter.mpr ⟨hlastMem, hlast⟩)
      have htwo : 0 < (rest.filter fun f => !f.more).length :=
        List.length_pos_of_mem (List.mem_filter.mpr ⟨hg, by simpa using hmore⟩)
      omega
    rw [(hsplit.filter _).length_eq, hends.1] at hcount
    omega
  have hpositive := tiles.length_pos g (hsplit.mem_iff.mp (List.mem_append_right _ hg)) hmore
  have hmissing : 0 < sizeOf rest := by
    obtain ⟨before, after, rfl⟩ := List.append_of_mem hg
    rw [sizeOf_append, sizeOf, sizeOf, List.map_cons, List.sum_cons]
    omega
  -- so fewer octets came than the last fragment reaches
  have hsize := sizeOf_perm hsplit
  rw [sizeOf_append, ← h.received, ← hreach] at hsize
  omega

/-- Once all fragments are there the datagram is complete. -/
theorem Gathered.complete (h : Gathered came parts) (tiles : Tiles 0 whole)
    (hall : came.Perm whole) :
    parts.isComplete = true ∧ parts.pieces = whole.map Fragment.piece ∧
      ∃ first, whole.head? = some first ∧ parts.head = some (first.header, first.time) := by
  obtain ⟨hone, hstop⟩ := tiles.ends
  refine ⟨?_, ?_, ?_⟩
  · have hlast : parts.lastSeen = true := by
      rw [h.lastSeen, List.any_eq_true]
      obtain ⟨last, hlast⟩ := List.exists_mem_of_length_pos (hone ▸ Nat.one_pos)
      obtain ⟨hmem, hmore⟩ := List.mem_filter.mp hlast
      exact ⟨last, hall.mem_iff.mpr hmem, hmore⟩
    have hreach : parts.reach = parts.received := by
      rw [h.received, sizeOf_perm hall]
      refine Nat.le_antisymm ?_ ?_
      · refine (h.reach _).mpr fun f hf => ?_
        have := (tiles.bounds f (hall.mem_iff.mp hf)).2
        omega
      · obtain ⟨last, hlast⟩ := List.exists_mem_of_length_pos (hone ▸ Nat.one_pos)
        obtain ⟨hmem, hmore⟩ := List.mem_filter.mp hlast
        have hend := hstop last hmem (by simpa using hmore)
        have hle := (h.reach parts.reach).mp (Nat.le_refl _) last (hall.mem_iff.mpr hmem)
        omega
    simp [Partial.isComplete, hlast, hreach]
  · -- two lists in ascending order with the same members are equal
    refine (h.pieces.trans (hall.map _)).eq_of_pairwise ?_ h.sorted ?_
    · intro a b _ _ hab hba
      exact absurd (Nat.lt_trans hab hba) (Nat.lt_irrefl _)
    · exact List.pairwise_map.mpr tiles.sorted
  · obtain ⟨first, more, rfl, hzero⟩ := tiles.head
    refine ⟨first, rfl, h.head first (hall.mem_iff.mpr (List.mem_cons_self ..)) hzero ?_⟩
    intro g hg hg0
    exact tiles.eq_of_start (hall.mem_iff.mp hg) (List.mem_cons_self ..) (hg0.trans hzero.symm)

/-! ## One datagram among others -/

/-- Fragments that a reassembly puts together to the datagram of a key. -/
structure Whole (limits : FragmentLimits) (key : FragmentKey) (fragments : List Fragment) :
    Prop where
  tiles : Tiles 0 fragments
  keyed : ∀ f ∈ fragments, f.key = key
  checked : ∀ f ∈ fragments, limits.check f = .ok ()
  few : fragments.length ≤ limits.maxFragments

namespace Reassembly

variable {state : Reassembly} {key : FragmentKey} {fragment : Fragment} {now : Instant}

/-- What becomes of the fragments of a key when one is submitted: they stay, are replaced, or
    are forgotten. -/
inductive Submitting (state : Reassembly) (fragment : Fragment) :
    Except FragmentError (Option Datagram) × Reassembly → Prop
  | unchanged (outcome : Except FragmentError (Option Datagram)) :
    Submitting state fragment (outcome, state)
  | kept (outcome : Except FragmentError (Option Datagram)) (whole : Partial) :
    Submitting state fragment (outcome, state.put fragment.key whole)
  | ended (outcome : Except FragmentError (Option Datagram)) :
    Submitting state fragment (outcome, state.forget fragment.key)

theorem submitting (state : Reassembly) (fragment : Fragment) (now : Instant) :
    Submitting state fragment (state.submit fragment now) := by
  unfold submit
  split
  · exact .unchanged _
  · unfold accept
    dsimp only
    split
    · exact .unchanged _
    · split
      · exact .ended _
      · split
        · exact .kept _ _
        · split
          · exact .kept _ _
          · exact .kept _ _
          · exact .ended _

theorem submit_limits (state : Reassembly) (fragment : Fragment) (now : Instant) :
    (state.submit fragment now).2.limits = state.limits := by
  have hcases := submitting state fragment now
  generalize state.submit fragment now = result at hcases ⊢
  cases hcases <;> rfl

/-- A fragment leaves the datagrams of other keys as they are. -/
theorem submit_other (hne : fragment.key ≠ key) :
    (state.submit fragment now).2.partials.get? key = state.partials.get? key := by
  have hcases := submitting state fragment now
  generalize state.submit fragment now = result at hcases ⊢
  cases hcases with
  | unchanged => rfl
  | kept => simp [put, hne.symm]
  | ended => simp [forget, hne.symm]

/-- What is kept of the fragments of a key that came, as long as some are missing. -/
def Keeps (state : Reassembly) (key : FragmentKey) (came : List Fragment) : Prop :=
  (came = [] ∧ state.partials.get? key = none) ∨
    ∃ parts, state.partials.get? key = some parts ∧ Gathered came parts

theorem Keeps.gathered {came : List Fragment} (h : state.Keeps key came) (now : Instant) :
    Gathered came (state.fragmentsOf key now) := by
  unfold fragmentsOf
  rcases h with ⟨rfl, hnone⟩ | ⟨parts, hsome, hgathered⟩
  · rw [hnone]
    exact gathered_empty now
  · rw [hsome]
    exact hgathered

end Reassembly

end PassiveDns
