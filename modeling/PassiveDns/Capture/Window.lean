/-
  PassiveDns.Capture.Window

  A file seen through a buffer of limited size. Records are read from what is on
  hand; a record that is not complete there makes the window fetch more, and one
  that cannot ever fit is refused. A second buffer of the same size stands
  between the window and the file: it is filled only when it is empty, and is
  passed by when the whole window is free.
-/
import PassiveDns.Capture.Error

namespace PassiveDns.Capture

/-- The size of both buffers. -/
def capacity : Nat := 65536

/-- A file under reading. Of the octets not consumed yet, `onHand` can be looked
    at and `ahead` more are in the second buffer. `exhausted` says that the last
    attempt to fetch found nothing. -/
structure Window where
  rest : Octets
  onHand : Nat
  ahead : Nat
  exhausted : Bool
deriving Repr, DecidableEq, Inhabited

/-- What one look at the octets on hand yields. -/
inductive Parsed (α : Type) where
  | ok (value : α) (size : Nat)
  | missing (count : Nat)
  | bad (fault : Fault)
deriving Repr, Inhabited

namespace Window

/-- The octets behind those on hand. -/
def beyond (window : Window) : Nat := window.rest.length - window.onHand

/-- Fetches octets from the file, as many as one read of it gives. -/
def fetch (window : Window) : Window :=
  let space := capacity - window.onHand
  let beyond := window.beyond
  if window.ahead = 0 ∧ capacity ≤ space then
    let count := min space beyond
    { window with onHand := window.onHand + count, exhausted := count = 0 }
  else
    let ahead := if window.ahead = 0 then min capacity beyond else window.ahead
    let count := min (min space ahead) beyond
    { window with
      onHand := window.onHand + count
      ahead := ahead - count
      exhausted := count = 0 }

/-- A file at its start, after one fetch. -/
def ofFile (contents : Octets) : Window :=
  { (⟨contents, 0, 0, false⟩ : Window).fetch with exhausted := false }

/-- Goes on behind a record. -/
def consume (window : Window) (count : Nat) : Window :=
  { window with rest := window.rest.drop count, onHand := window.onHand - count }

/-- Fetching either finds nothing more, or brings octets to hand. -/
theorem fetch_progress {window : Window} (h : window.onHand < capacity) :
    window.fetch.exhausted = true ∨ window.fetch.beyond < window.beyond := by
  unfold fetch
  simp only
  split
  · by_cases hc : min (capacity - window.onHand) window.beyond = 0
    · exact .inl (by simp [hc])
    · right
      simp only [beyond] at hc ⊢
      omega
  · generalize (if window.ahead = 0 then min capacity window.beyond else window.ahead) = ahead
    by_cases hc : min (min (capacity - window.onHand) ahead) window.beyond = 0
    · exact .inl (by simp [hc])
    · right
      simp only [beyond] at hc ⊢
      omega

@[simp] theorem rest_fetch (window : Window) : window.fetch.rest = window.rest := by
  unfold fetch
  simp only
  split <;> rfl

/-- How a read ends: at the end of the file, with a record, or with a fault. -/
inductive Next (α : Type) where
  | finished
  | record (value : α) (window : Window)
  | fault (fault : Fault)
deriving Repr, Inhabited

/-- Reads a record with `parse`, which looks at the octets not consumed and is
    told how many of them are on hand. -/
def next {α : Type} (parse : Octets → Nat → Parsed α) (window : Window) : Next α :=
  if window.onHand = 0 ∧ window.exhausted then .finished
  else
    match parse window.rest window.onHand with
    | .ok value size => .record value (window.consume size)
    | .bad fault => .fault fault
    | .missing count =>
      if window.exhausted then .fault .unexpectedEnd
      else if capacity ≤ window.onHand + count then .fault .bufferTooSmall
      else next parse window.fetch
termination_by (window.beyond, if window.exhausted then 0 else 1)
decreasing_by
  rename_i hexhausted hroom
  have h : window.onHand < capacity := by omega
  have hprogress := fetch_progress h
  have hle : window.fetch.beyond ≤ window.beyond := by
    unfold fetch
    simp only
    split <;> simp only [beyond] <;> omega
  simp only [Prod.lex_def]
  rcases hprogress with hdone | hless
  · simp only [hdone, hexhausted]
    rcases Nat.lt_or_eq_of_le hle with hlt | heq
    · exact .inl hlt
    · exact .inr ⟨heq, by simp⟩
  · exact .inl hless

end Window

/-! ## Numbers in either order of octets -/

/-- The number in `count` octets from `start` on. -/
def numberAt (bigEndian : Bool) (octets : Octets) (start count : Nat) : Nat :=
  let field := octets.slice start count
  if bigEndian then field.toNatBE else field.toNatLE

/-- A 32-bit number read with its sign. -/
def signed32 (n : Nat) : Int := Int.bmod n 4294967296

end PassiveDns.Capture
