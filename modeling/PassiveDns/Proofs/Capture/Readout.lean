/-
  PassiveDns.Proofs.Capture.Readout

  What an open file hands out. Opening it reads as far as its first frame, which is kept and
  handed out first; so whoever asks gets the frames in their order and then none, however often
  the question is, and as many are counted as were handed out (`File.delivers_of_yields`).
-/
import Mathlib.Tactic.Common
import PassiveDns.Capture.File

namespace PassiveDns.Capture

/-- The frames that reading a file gives up to its end, where it stays. The link number is known
    with the first of them, or at the end. -/
inductive Cursor.Yields (link : Int) : Cursor → List Frame → Prop where
  | finished {cursor after : Cursor} (ends : cursor.next = .ok (none, after))
    (stays : after.next = .ok (none, after)) (known : after.link = some link) :
    Yields link cursor []
  | frame {cursor after : Cursor} {frame : Frame} {frames : List Frame}
    (reads : cursor.next = .ok (some frame, after)) (known : after.link = some link)
    (rest : Yields link after frames) : Yields link cursor (frame :: frames)

/-- What is passed over gives no frame. -/
theorem Cursor.Yields.of_next_eq {link : Int} {cursor after : Cursor} {frames : List Frame}
    (h : after.Yields link frames) (heq : cursor.next = after.next) :
    cursor.Yields link frames := by
  cases h with
  | finished ends stays known => exact .finished (heq.trans ends) stays known
  | frame reads known rest => exact .frame (heq.trans reads) known rest

namespace File

variable {file : File} {link : Int} {frames : List Frame}

/-- What a file answers if it is asked so many times for a frame, and the file then. -/
def reads (file : File) : Nat → Except Error (List (Option Frame) × File)
  | 0 => .ok ([], file)
  | count + 1 => do
    let (frame, after) ← file.next
    let (frames, last) ← after.reads count
    pure (frame :: frames, last)

/-- A file from which these frames are still to be had: they are answered in their order, then
    none is, and those that are handed out are counted. -/
def Delivers (file : File) (frames : List Frame) : Prop :=
  ∀ count, ∃ after, file.reads count = .ok ((List.range count).map (frames[·]?), after) ∧
    after.link = file.link ∧ after.received = file.received + min count frames.length

/-- A file of which these frames are ahead: the first may have been read already. -/
inductive Holds (link : Int) (file : File) : List Frame → Prop where
  | ahead {frame : Frame} {frames : List Frame} (read : file.readAhead = some frame)
    (rest : file.cursor.Yields link frames) : Holds link file (frame :: frames)
  | unread {frames : List Frame} (nothing : file.readAhead = none)
    (rest : file.cursor.Yields link frames) : Holds link file frames

/-- One question. -/
theorem Holds.next (h : file.Holds link frames) :
    ∃ after, file.next = .ok (frames.head?, after) ∧ after.Holds link frames.tail ∧
      after.link = file.link ∧ after.received = file.received + min 1 frames.length := by
  cases h with
  | ahead read rest =>
    refine ⟨{ file with readAhead := none, received := file.received + 1 }, ?_, .unread rfl rest,
      rfl, ?_⟩
    · rw [File.next, read]
      rfl
    · rw [List.length_cons, Nat.min_eq_left (Nat.le_add_left ..)]
  | unread nothing rest =>
    cases rest with
    | @finished _ after ends stays known =>
      refine ⟨{ file with cursor := after }, ?_, .unread nothing (.finished stays stays known), rfl,
        rfl⟩
      rw [File.next, nothing]
      dsimp only
      rw [ends]
      rfl
    | @frame _ after frame frames reads known rest =>
      refine ⟨{ file with cursor := after, received := file.received + 1 }, ?_,
        .unread nothing rest, rfl, ?_⟩
      · rw [File.next, nothing]
        dsimp only
        rw [reads]
        rfl
      · rw [List.length_cons, Nat.min_eq_left (Nat.le_add_left ..)]

theorem Holds.delivers (h : file.Holds link frames) : file.Delivers frames := by
  intro count
  induction count generalizing file frames with
  | zero => exact ⟨file, rfl, rfl, by rw [Nat.zero_min, Nat.add_zero]⟩
  | succ count ih =>
    obtain ⟨next, hnext, hholds, hlink, hreceived⟩ := h.next
    obtain ⟨after, hafter, hlink', hreceived'⟩ := ih hholds
    refine ⟨after, ?_, hlink'.trans hlink, ?_⟩
    · have hanswers : (List.range (count + 1)).map (frames[·]?) =
          frames.head? :: (List.range count).map (frames.tail[·]?) := by
        rw [List.range_succ_eq_map, List.map_cons, List.map_map, List.head?_eq_getElem?]
        simp only [List.getElem?_tail]
        rfl
      have hreads : file.reads (count + 1) =
          (next.reads count).map fun more => (frames.head? :: more.1, more.2) := by
        rw [reads, hnext]
        rfl
      rw [hreads, hafter, hanswers]
      rfl
    · rw [hreceived', hreceived, List.length_tail]
      omega

/-- A file whose link number is one of a link type opens, and delivers what reading it gives. -/
theorem delivers_of_yields {octets : Octets} {start : Cursor} {type : LinkType}
    (hstart : Cursor.ofContents octets = .ok start) (h : start.Yields link frames)
    (htype : LinkType.ofNumber? (link % 4294967296).toNat = some type) (hlink : 0 ≤ link) :
    ∃ file, ofContents (some octets) = .ok file ∧ file.link = type ∧ file.received = 0 ∧
      file.Delivers frames := by
  have hopen {first : Option Frame} {cursor : Cursor} (hfirst : start.next = .ok (first, cursor))
      (hknown : cursor.link = some link) :
      ofContents (some octets) = .ok ⟨cursor, type, first, 0⟩ := by
    have hnumber : linkNumber cursor.link first = link := by
      rw [linkNumber, hknown, Option.getD_some]
      exact if_neg fun hneg => Int.not_lt.mpr hlink hneg.1
    simp only [ofContents, hstart, hfirst, bind, Except.bind, hnumber, htype]
    rfl
  cases h with
  | @finished _ after ends stays known =>
    exact ⟨_, hopen ends known, rfl, rfl, (Holds.unread rfl (.finished stays stays known)).delivers⟩
  | frame reads known rest =>
    exact ⟨_, hopen reads known, rfl, rfl, (Holds.ahead rfl rest).delivers⟩

end File

end PassiveDns.Capture
