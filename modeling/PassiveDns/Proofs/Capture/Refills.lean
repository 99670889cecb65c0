/-
  PassiveDns.Proofs.Capture.Refills

  Records of a file come out of the window as they stand in the file, wherever its ends cut
  them. Numbers are found where they were written (`numberAt_words`), so a parser knows how long
  a record is and asks for what it lacks of it (`Reads`). A window shows a start of what was not
  consumed, and all of it once nothing more was found (`Window.Sound`); so the parser gets what
  it asks for, if the record is shorter than the window (`Window.next_of_reads`).
-/
import Mathlib.Data.List.Basic
import Mathlib.Tactic.Common
import PassiveDns.Proofs.Octets
import PassiveDns.Capture.Window

namespace PassiveDns.Capture

/-! ## Numbers -/

theorem slice_self (octets more : Octets) : (octets ++ more).slice 0 octets.length = octets := by
  rw [Octets.slice, List.drop_zero, List.take_left]

/-- A number as it is written in so many octets. -/
def spell (bigEndian : Bool) (count n : Nat) : Octets :=
  if bigEndian then Octets.ofNatBE count n else (Octets.ofNatBE count n).reverse

@[simp] theorem length_spell (bigEndian : Bool) (count n : Nat) :
    (spell bigEndian count n).length = count := by
  rw [spell]
  split <;> simp

/-- A number that fits is read where it was written. -/
theorem numberAt_spell (bigEndian : Bool) {count n : Nat} (h : n < 256 ^ count) (more : Octets) :
    numberAt bigEndian (spell bigEndian count n ++ more) 0 count = n := by
  have hslice : (spell bigEndian count n ++ more).slice 0 count = spell bigEndian count n := by
    have hself := slice_self (spell bigEndian count n) more
    rwa [length_spell] at hself
  have hback : (Octets.ofNatBE count n).toNatBE = n := by
    rw [Octets.toNatBE_ofNatBE, Nat.mod_eq_of_lt h]
  rw [numberAt, hslice, spell]
  cases bigEndian with
  | true => exact hback
  | false =>
    show Octets.toNatLE (Octets.ofNatBE count n).reverse = n
    rw [Octets.toNatLE, List.foldr_reverse]
    exact hback

/-- What stands behind a number does not matter. -/
theorem numberAt_start (bigEndian : Bool) {front : Octets} {count : Nat} (h : count ≤ front.length)
    (back : Octets) :
    numberAt bigEndian (front ++ back) 0 count = numberAt bigEndian front 0 count := by
  rw [numberAt, Octets.slice_append_left (by omega), ← numberAt]

/-- What stands in front does not matter. -/
theorem slice_behind (front back : Octets) {start : Nat} (h : front.length ≤ start) (count : Nat) :
    (front ++ back).slice start count = back.slice (start - front.length) count := by
  rw [Octets.slice, Octets.slice, List.drop_append, List.drop_eq_nil_of_le h, List.nil_append]

theorem numberAt_behind (bigEndian : Bool) (front back : Octets) {start count : Nat}
    (h : front.length ≤ start) : numberAt bigEndian (front ++ back) start count =
      numberAt bigEndian back (start - front.length) count := by
  rw [numberAt, slice_behind front back h, numberAt]

/-- Numbers of four octets each, one behind the other. -/
def words (bigEndian : Bool) (ns : List Nat) : Octets :=
  ns.flatMap (spell bigEndian 4)

@[simp] theorem length_words (bigEndian : Bool) (ns : List Nat) :
    (words bigEndian ns).length = 4 * ns.length := by
  induction ns with
  | nil => rfl
  | cons n ns ih =>
    rw [words, List.flatMap_cons, List.length_append, length_spell, ← words, ih, List.length_cons]
    omega

theorem numberAt_words (bigEndian : Bool) {ns : List Nat} {i n : Nat} (h : ns[i]? = some n)
    (hn : n < 256 ^ 4) (more : Octets) :
    numberAt bigEndian (words bigEndian ns ++ more) (4 * i) 4 = n := by
  induction ns generalizing i with
  | nil => cases h
  | cons m ns ih =>
    rw [words, List.flatMap_cons, List.append_assoc, ← words]
    cases i with
    | zero =>
      obtain rfl : m = n := Option.some.inj h
      exact numberAt_spell _ hn _
    | succ i =>
      rw [numberAt_behind _ _ _ (by rw [length_spell]; omega), length_spell]
      exact ih h

theorem slice_words (bigEndian : Bool) (ns : List Nat) (octets more : Octets) :
    (words bigEndian ns ++ (octets ++ more)).slice (4 * ns.length) octets.length = octets := by
  rw [slice_behind _ _ (by rw [length_words]), length_words, Nat.sub_self, slice_self]

/-! ## The window -/

/-- What a parser does with octets that begin with a record: it reads the record once it is on
    hand, and up to then asks for octets of it. -/
structure Reads {α : Type} (parse : Octets → Nat → Parsed α) (record : Octets) (value : α) :
    Prop where
  whole : ∀ more onHand, record.length ≤ onHand →
    parse (record ++ more) onHand = .ok value record.length
  part : ∀ more onHand, onHand < record.length → ∃ count,
    parse (record ++ more) onHand = .missing count ∧ onHand + count ≤ record.length

/-- A parser that asks for `least` octets before it becomes another reads what that one reads. -/
theorem Reads.of_least {α : Type} {parse asking : Octets → Nat → Parsed α} {record : Octets}
    {value : α} {least : Nat} (h : Reads parse record value)
    (hleast : least ≤ record.length)
    (hless : ∀ data onHand, onHand < least → asking data onHand = .missing (least - onHand))
    (hsame : ∀ more onHand, least ≤ onHand →
      asking (record ++ more) onHand = parse (record ++ more) onHand) :
    Reads asking record value := by
  constructor
  · intro more onHand hwhole
    rw [hsame more onHand (by omega)]
    exact h.whole more onHand hwhole
  · intro more onHand hpart
    rcases Nat.lt_or_ge onHand least with hshort | henough
    · exact ⟨_, hless _ _ hshort, by omega⟩
    · rw [hsame more onHand henough]
      exact h.part more onHand hpart

namespace Window

variable {window : Window} {α : Type} {parse : Octets → Nat → Parsed α}

theorem capacity_pos : 0 < capacity := by
  decide

/-- What is on hand fits the window, and is all that there is once nothing more was found. -/
structure Sound (window : Window) : Prop where
  onHand_le : window.onHand ≤ window.rest.length
  fits : window.onHand ≤ capacity
  ahead_le : window.ahead ≤ window.beyond
  exhausted : window.exhausted = true → window.onHand = window.rest.length

/-- More octets come to hand, some if there are some. -/
theorem Sound.gain (h : window.Sound) {count ahead : Nat}
    (hspace : window.onHand + count ≤ capacity) (hcount : count ≤ window.beyond)
    (hahead : ahead ≤ window.beyond - count) (hsome : 0 < window.beyond → 0 < count) :
    let after : Window := ⟨window.rest, window.onHand + count, ahead, count = 0⟩
    after.Sound ∧ (0 < window.beyond → after.beyond < window.beyond) := by
  have honHand := h.onHand_le
  have hbeyond : window.beyond = window.rest.length - window.onHand := rfl
  refine ⟨⟨?_, hspace, ?_, fun hnone => ?_⟩, fun hmore => ?_⟩
  · show window.onHand + count ≤ window.rest.length
    omega
  · show ahead ≤ window.rest.length - (window.onHand + count)
    omega
  · have hzero : count = 0 := of_decide_eq_true hnone
    show window.onHand + count = window.rest.length
    omega
  · show window.rest.length - (window.onHand + count) < window.beyond
    have := hsome hmore
    omega

/-- Where there is space, a fetch finds more if there is more. -/
theorem Sound.fetch (h : window.Sound) (hspace : window.onHand < capacity) :
    window.fetch.Sound ∧ (0 < window.beyond → window.fetch.beyond < window.beyond) := by
  have hahead := h.ahead_le
  rw [Window.fetch]
  dsimp only
  split
  · -- straight from the file
    rename_i hdirect
    exact h.gain (by omega) (Nat.min_le_right ..) (by omega) (by omega)
  · -- from the second buffer, which is filled if it was empty
    generalize hbuffered :
      (if window.ahead = 0 then min capacity window.beyond else window.ahead) = buffered
    have hfilled : buffered ≤ window.beyond ∧ (0 < window.beyond → 0 < buffered) := by
      split at hbuffered <;> omega
    exact h.gain (by omega) (Nat.min_le_right ..) (by omega) (by omega)

/-- A file at its start has its first octets on hand, as many as the window holds. -/
theorem sound_ofFile (contents : Octets) :
    (ofFile contents).Sound ∧ (ofFile contents).rest = contents ∧
      (ofFile contents).onHand = min capacity contents.length := by
  have hempty : (⟨contents, 0, 0, false⟩ : Window).Sound :=
    ⟨Nat.zero_le _, Nat.zero_le _, Nat.zero_le _, fun h => by cases h⟩
  obtain ⟨⟨honHand, hfits, hahead, -⟩, -⟩ := hempty.fetch capacity_pos
  refine ⟨⟨honHand, hfits, hahead, fun h => by cases h⟩, rfl, ?_⟩
  exact Nat.zero_add _

theorem Sound.consume (h : window.Sound) {count : Nat} (hcount : count ≤ window.onHand) :
    (window.consume count).Sound := by
  obtain ⟨honHand, hfits, hahead, hexhausted⟩ := h
  rw [beyond] at hahead
  refine ⟨?_, ?_, ?_, fun h => ?_⟩
  all_goals simp only [Window.consume, beyond, List.length_drop]
  · omega
  · omega
  · omega
  · have := hexhausted h
    omega

/-- **A record that is shorter than the window is read, wherever the window ends.** -/
theorem next_of_reads {record more : Octets} {value : α} (h : window.Sound)
    (hrest : window.rest = record ++ more) (hreads : Reads parse record value)
    (hsome : 0 < record.length) (hfits : record.length < capacity) :
    ∃ after, window.next parse = .record value after ∧ after.Sound ∧ after.rest = more := by
  -- on what is not on hand: every fetch brings some of it
  induction hn : window.beyond using Nat.strongRecOn generalizing window with
  | _ n ih =>
    have hlength : window.rest.length = record.length + more.length := by
      rw [hrest, List.length_append]
    rw [next]
    by_cases hwhole : record.length ≤ window.onHand
    · have hnotEnd : ¬(window.onHand = 0 ∧ window.exhausted = true) := by omega
      rw [if_neg hnotEnd, hrest, hreads.whole more _ hwhole]
      refine ⟨_, rfl, h.consume hwhole, ?_⟩
      show window.rest.drop record.length = more
      rw [hrest, List.drop_left]
    · obtain ⟨count, hmissing, hcount⟩ := hreads.part more _ (Nat.lt_of_not_le hwhole)
      have hmore : ¬window.exhausted = true := by
        intro hexhausted
        have := h.exhausted hexhausted
        omega
      have hroom : ¬capacity ≤ window.onHand + count := by omega
      rw [if_neg fun hend => hmore hend.2, hrest, hmissing]
      dsimp only
      rw [if_neg hmore, if_neg hroom]
      obtain ⟨hsound, hless⟩ := h.fetch (by omega)
      have hbeyond : 0 < window.beyond := by
        rw [beyond]
        omega
      exact ih _ (hn ▸ hless hbeyond) hsound (by rw [rest_fetch, hrest]) rfl

/-- At the end of a file there is no further record. -/
theorem next_of_end (h : window.Sound) (hrest : window.rest = []) {count : Nat}
    (hmissing : parse [] 0 = .missing count) (hcount : count < capacity) :
    window.next parse = .finished := by
  have honHand : window.onHand = 0 := by
    have := h.onHand_le
    rw [hrest] at this
    exact Nat.le_zero.mp this
  rw [next, honHand, hrest]
  by_cases hexhausted : window.exhausted = true
  · rw [if_pos ⟨rfl, hexhausted⟩]
  · -- one more fetch, which finds nothing
    have hspace : window.onHand < capacity := honHand ▸ capacity_pos
    have hnone : window.fetch.exhausted = true := by
      refine (fetch_progress hspace).resolve_right fun hless => ?_
      rw [beyond, beyond, rest_fetch, hrest] at hless
      simp at hless
    have hnothing : window.fetch.onHand = 0 := by
      have := (h.fetch hspace).1.onHand_le
      rw [rest_fetch, hrest] at this
      exact Nat.le_zero.mp this
    rw [if_neg fun hend => hexhausted hend.2, hmissing]
    dsimp only
    rw [if_neg hexhausted, Nat.zero_add, if_neg (Nat.not_le_of_lt hcount), next,
      if_pos ⟨hnothing, hnone⟩]

end Window

end PassiveDns.Capture
