/-
  PassiveDns.Proofs.Stream.Waiting

  The pieces of a stream that wait for a gap to close. They are `Laid` in the
  order of their offsets, and neither putting one among them nor handing out what
  follows on the octets before them loses an octet (`waitsAt_wait`,
  `release_spec`).
-/
import PassiveDns.Proofs.Stream.Session

namespace PassiveDns.Stream

variable {stream : Octets} {anchor : Nat}

theorem joined_append (a b : List Chunk) : joined (a ++ b) = joined a ++ joined b :=
  List.flatMap_append

/-- A waiting piece is a true piece of the stream that starts at `anchor`. -/
structure Waiting.IsOf (stream : Octets) (anchor : Nat) (w : Waiting) : Prop where
  nonempty : 0 < w.chunk.octets.length
  stop_le : anchor + w.stop ≤ stream.length
  octets_eq : w.chunk.octets = stream.slice (anchor + w.offset) w.chunk.octets.length

/-- True pieces of the stream in the order of their offsets, no two at one. -/
structure Laid (stream : Octets) (anchor : Nat) (waiting : List Waiting) : Prop where
  sorted : waiting.Pairwise fun v w => v.offset < w.offset
  isOf : ∀ w ∈ waiting, w.IsOf stream anchor

/-- Whether waiting pieces have the octet at an offset. -/
def WaitsAt (waiting : List Waiting) (offset : Nat) : Prop :=
  ∃ w ∈ waiting, w.offset ≤ offset ∧ offset < w.stop

theorem Laid.tail {w : Waiting} {rest : List Waiting} (h : Laid stream anchor (w :: rest)) :
    Laid stream anchor rest :=
  ⟨(List.pairwise_cons.mp h.sorted).2, fun v hv => h.isOf v (List.mem_cons_of_mem _ hv)⟩

/-! ## Putting a piece among them -/

theorem mem_wait {v w : Waiting} {waiting : List Waiting} (h : v ∈ Reorder.wait w waiting) :
    v = w ∨ v ∈ waiting := by
  induction waiting with
  | nil => exact .inl (List.mem_singleton.mp h)
  | cons u rest ih =>
    unfold Reorder.wait at h
    split at h
    · rcases List.mem_cons.mp h with rfl | h
      · exact .inr (List.mem_cons_self ..)
      · rcases ih h with rfl | h
        · exact .inl rfl
        · exact .inr (List.mem_cons_of_mem _ h)
    · split at h
      · -- at equal offsets only the longer of the two stays
        rcases List.mem_cons.mp h with h | h
        · split at h
          · exact .inr (h ▸ List.mem_cons_self ..)
          · exact .inl h
        · exact .inr (List.mem_cons_of_mem _ h)
      · rcases List.mem_cons.mp h with rfl | h
        · exact .inl rfl
        · exact .inr h

theorem sorted_wait (w : Waiting) {waiting : List Waiting}
    (h : waiting.Pairwise fun v w => v.offset < w.offset) :
    (Reorder.wait w waiting).Pairwise fun v w => v.offset < w.offset := by
  induction waiting with
  | nil => exact List.pairwise_singleton ..
  | cons u rest ih =>
    obtain ⟨hu, hrest⟩ := List.pairwise_cons.mp h
    unfold Reorder.wait
    split
    · rename_i hlt
      refine List.pairwise_cons.mpr ⟨fun v hv => ?_, ih hrest⟩
      rcases mem_wait hv with rfl | hv
      · exact hlt
      · exact hu v hv
    · split
      · rename_i heq
        -- whichever of the two stays, its offset is the same
        refine List.pairwise_cons.mpr ⟨fun v hv => ?_, hrest⟩
        have := hu v hv
        split <;> omega
      · refine List.pairwise_cons.mpr ⟨fun v hv => ?_, h⟩
        rcases List.mem_cons.mp hv with rfl | hv
        · omega
        · have := hu v hv
          omega

theorem length_wait_le (w : Waiting) (waiting : List Waiting) :
    (Reorder.wait w waiting).length ≤ waiting.length + 1 := by
  induction waiting with
  | nil => exact Nat.le_refl _
  | cons u rest ih =>
    unfold Reorder.wait
    split
    · simp only [List.length_cons]
      omega
    · split <;> simp

/-- No octet is lost: where two pieces start at one offset, the longer stays. -/
theorem waitsAt_wait {w : Waiting} {waiting : List Waiting} {offset : Nat}
    (h : WaitsAt (w :: waiting) offset) : WaitsAt (Reorder.wait w waiting) offset := by
  -- `v` has the octet; the recursion goes as that of `wait`
  obtain ⟨v, hv, hle, hlt⟩ := h
  induction waiting with
  | nil => exact ⟨v, hv, hle, hlt⟩
  | cons u rest ih =>
    unfold Reorder.wait
    split
    · -- `w` belongs further behind
      have further (hmem : v ∈ w :: rest) : WaitsAt (u :: Reorder.wait w rest) offset := by
        obtain ⟨x, hx, hxle, hxlt⟩ := ih hmem
        exact ⟨x, List.mem_cons_of_mem _ hx, hxle, hxlt⟩
      rcases List.mem_cons.mp hv with rfl | hv
      · exact further (List.mem_cons_self ..)
      · rcases List.mem_cons.mp hv with rfl | hv
        · exact ⟨v, List.mem_cons_self .., hle, hlt⟩
        · exact further (List.mem_cons_of_mem _ hv)
    · split
      · rename_i heq
        -- the one that stays starts where both do, and is no shorter than either
        have atHead (hvwu : v = w ∨ v = u) :
            WaitsAt ((if w.chunk.octets.length ≤ u.chunk.octets.length then u else w) :: rest)
              offset := by
          refine ⟨_, List.mem_cons_self .., ?_⟩
          unfold Waiting.stop at hlt ⊢
          split <;> rcases hvwu with rfl | rfl <;> constructor <;> omega
        rcases List.mem_cons.mp hv with rfl | hv
        · exact atHead (.inl rfl)
        · rcases List.mem_cons.mp hv with rfl | hv
          · exact atHead (.inr rfl)
          · exact ⟨v, List.mem_cons_of_mem _ hv, hle, hlt⟩
      · exact ⟨v, hv, hle, hlt⟩

/-! ## Handing out what follows -/

/-- All that handing out from waiting pieces does: the octets given follow one
    another from `next` on, what is left lies behind a gap, and nothing is lost. -/
structure Released (stream : Octets) (anchor next : Nat) (waiting : List Waiting)
    (result : List Chunk × List Waiting × Nat) : Prop where
  le_reached : next ≤ result.2.2
  reached_le : anchor + next ≤ stream.length → anchor + result.2.2 ≤ stream.length
  given : joined result.1 = stream.slice (anchor + next) (result.2.2 - next)
  times : ∀ chunk ∈ result.1, ∃ w ∈ waiting, chunk.time = w.chunk.time
  suffix : result.2.1 <:+ waiting
  gap : ∀ w ∈ result.2.1, result.2.2 < w.offset
  kept : ∀ offset, WaitsAt waiting offset → offset < result.2.2 ∨ WaitsAt result.2.1 offset
  waited : ∀ offset, next ≤ offset → offset < result.2.2 → WaitsAt waiting offset

/-- There is a gap in front of the first piece, if any: nothing is handed out. -/
theorem Released.nothing {next : Nat} {waiting : List Waiting}
    (hgap : ∀ w ∈ waiting, next < w.offset) :
    Released stream anchor next waiting ([], waiting, next) := by
  refine ⟨Nat.le_refl _, id, ?_, by simp, List.suffix_refl _, hgap, fun _ h => .inr h, ?_⟩
  · simp [joined, Octets.slice_zero]
  · intro offset hle hlt
    simp only at hlt
    omega

/-- The first piece was handed out before. -/
theorem Released.skip {next : Nat} {w : Waiting} {rest : List Waiting}
    {result : List Chunk × List Waiting × Nat} (h : Released stream anchor next rest result)
    (hold : w.stop ≤ next) : Released stream anchor next (w :: rest) result := by
  refine ⟨h.le_reached, h.reached_le, h.given, ?_, h.suffix.trans (List.suffix_cons ..), h.gap,
    ?_, ?_⟩
  · intro chunk hchunk
    obtain ⟨v, hv, htime⟩ := h.times chunk hchunk
    exact ⟨v, List.mem_cons_of_mem _ hv, htime⟩
  · rintro offset ⟨v, hv, hle, hlt⟩
    rcases List.mem_cons.mp hv with rfl | hv
    · have := h.le_reached
      exact .inl (by omega)
    · exact h.kept offset ⟨v, hv, hle, hlt⟩
  · intro offset hle hlt
    obtain ⟨v, hv, hlow, hhigh⟩ := h.waited offset hle hlt
    exact ⟨v, List.mem_cons_of_mem _ hv, hlow, hhigh⟩

/-- The first piece has octets from `next` on, and what follows it is handed out too. -/
theorem Released.cons {next : Nat} {w : Waiting} {rest : List Waiting} {chunks : List Chunk}
    {left : List Waiting} {reached : Nat}
    (h : Released stream anchor w.stop rest (chunks, left, reached))
    (hw : w.IsOf stream anchor) (hgap : w.offset ≤ next) (hnew : next < w.stop) :
    Released stream anchor next (w :: rest)
      (⟨w.chunk.octets.drop (next - w.offset), w.chunk.time⟩ :: chunks, left, reached) := by
  have hstop : w.stop = w.offset + w.chunk.octets.length := rfl
  have hreached : w.stop ≤ reached := h.le_reached
  refine ⟨?_, fun _ => h.reached_le hw.stop_le, ?_, ?_, h.suffix.trans (List.suffix_cons ..),
    h.gap, ?_, ?_⟩
  · show next ≤ reached
    omega
  · -- of this piece only what lies behind `next` is new
    have hfresh : w.chunk.octets.drop (next - w.offset) =
        stream.slice (anchor + next) (w.stop - next) := by
      rw [hw.octets_eq, Octets.drop_slice]
      congr 1 <;> omega
    have hrest : joined chunks = stream.slice (anchor + next + (w.stop - next))
        (reached - w.stop) := by
      rw [h.given]
      congr 1
      omega
    show _ ++ joined chunks = _
    rw [hfresh, hrest, Octets.slice_append]
    congr 1
    show _ = reached - next
    omega
  · intro chunk hchunk
    rcases List.mem_cons.mp hchunk with rfl | hchunk
    · exact ⟨w, List.mem_cons_self .., rfl⟩
    · obtain ⟨v, hv, htime⟩ := h.times chunk hchunk
      exact ⟨v, List.mem_cons_of_mem _ hv, htime⟩
  · rintro offset ⟨v, hv, hle, hlt⟩
    rcases List.mem_cons.mp hv with rfl | hv
    · exact .inl (Nat.lt_of_lt_of_le hlt hreached)
    · exact h.kept offset ⟨v, hv, hle, hlt⟩
  · intro offset hle hlt
    by_cases hfirst : offset < w.stop
    · exact ⟨w, List.mem_cons_self .., by omega, hfirst⟩
    · obtain ⟨v, hv, hlow, hhigh⟩ := h.waited offset (Nat.le_of_not_lt hfirst) hlt
      exact ⟨v, List.mem_cons_of_mem _ hv, hlow, hhigh⟩

theorem release_spec (next : Nat) {waiting : List Waiting} (laid : Laid stream anchor waiting) :
    Released stream anchor next waiting (Reorder.release next waiting) := by
  -- the recursion of `release`: `next` moves on with each piece that is handed out
  induction waiting generalizing next with
  | nil => exact .nothing fun _ h => absurd h List.not_mem_nil
  | cons w rest ih =>
    unfold Reorder.release
    split
    · -- a gap in front of the first piece is in front of all
      rename_i hgap
      refine .nothing fun v hv => ?_
      rcases List.mem_cons.mp hv with rfl | hv
      · exact hgap
      · exact Nat.lt_trans hgap ((List.pairwise_cons.mp laid.sorted).1 v hv)
    · rename_i hgap
      split
      · rename_i hold
        exact (ih next laid.tail).skip hold
      · rename_i hnew
        have hw := laid.isOf w (List.mem_cons_self ..)
        exact (ih w.stop laid.tail).cons hw (Nat.le_of_not_lt hgap) (Nat.lt_of_not_le hnew)

end PassiveDns.Stream
