/-
  PassiveDns.Proofs.Dns.Access

  Views and drafts of the same octets. They differ in where their cursor may go: a
  view refuses to put it past the end, and a draft lets it stand anywhere. No step
  of reading a message goes there (`Watched.Follows`), whatever the octets are and
  however reading them ends, so both are read alike (`read_draft_eq_view`).
-/
import PassiveDns.Proofs.Dns.Watched

namespace PassiveDns.Dns

/-- A draft of octets with the cursor at their start. -/
def Wire.ofDraft (octets : Octets) (suffixes : List (String × Nat)) : Wire :=
  ⟨octets.toArray, 0, .draft, suffixes⟩

namespace Reader

variable {α : Type} {octets : Array UInt8} {n : Nat}

/-! ## Where the two differ -/

/-- A view's cursor stays where it is rather than go past the end. -/
theorem seek_view (octets : Array UInt8) (i n : Nat) :
    Reader.seek i ⟨octets, .view⟩ n =
      if i ≤ octets.size then .ok () i else .error .endOfBuffer n := by
  by_cases h : i ≤ octets.size
  · rw [if_pos h, seek_ok h]
  · rw [if_neg h, seek_error rfl h]

theorem skip_eq (source : Source) (count n : Nat) :
    Reader.skip count source n = Reader.seek (n + count) source n := by
  rw [Reader.skip, bind_ok (position_ok source n)]

/-! ## Where they do not -/

/-- A step ends alike in a view and in a draft, with the cursor at one place in the
    octets. -/
inductive Alike (step : Reader α) (octets : Array UInt8) (n : Nat) : Prop where
  | done {a : α} {m : Nat} (hm : m ≤ octets.size)
      (hview : step ⟨octets, .view⟩ n = .ok a m) (hdraft : step ⟨octets, .draft⟩ n = .ok a m)
  | refused {cause : WireError} {m : Nat} (hm : m ≤ octets.size)
      (hview : step ⟨octets, .view⟩ n = .error cause m)
      (hdraft : step ⟨octets, .draft⟩ n = .error cause m)

/-- A watched step does not see whether the octets are a view or a draft, so a step
    that ends as it does ends alike in both. -/
theorem Alike.of_follows {watched : Watched α} {step : Reader α}
    (hview : Watched.Follows watched step ⟨octets, .view⟩ n)
    (hdraft : Watched.Follows watched step ⟨octets, .draft⟩ n) : Alike step octets n := by
  cases hview with
  | done hm hwatched hstep =>
    cases hdraft with
    | done _ hwatched' hstep' =>
      cases hwatched.symm.trans hwatched'
      exact .done hm hstep hstep'
    | refused _ hwatched' _ => cases hwatched.symm.trans hwatched'
  | refused hm hwatched hstep =>
    cases hdraft with
    | done _ hwatched' _ => cases hwatched.symm.trans hwatched'
    | refused _ hwatched' hstep' =>
      cases hwatched.symm.trans hwatched'
      exact .refused hm hstep hstep'

theorem alike_message (h : n ≤ octets.size) : Alike Reader.message octets n :=
  .of_follows (.message h) (.message h)

end Reader

/-- **A view and a draft of the same octets are read alike.** Either both give the same
    message or both are refused for the same cause; the cursor ends at the same place,
    which is in the octets, and nothing else of either changes. Yet moves of the cursor
    past the end, by position or by count, fail in the view and succeed in the draft. -/
theorem read_draft_eq_view (octets : Octets) (suffixes : List (String × Nat)) :
    ((∃ message n, n ≤ octets.length ∧
        (Wire.ofCaptured octets).read Reader.message =
          .ok message { Wire.ofCaptured octets with position := n } ∧
        (Wire.ofDraft octets suffixes).read Reader.message =
          .ok message { Wire.ofDraft octets suffixes with position := n }) ∨
      ∃ cause n, n ≤ octets.length ∧
        (Wire.ofCaptured octets).read Reader.message =
          .error cause { Wire.ofCaptured octets with position := n } ∧
        (Wire.ofDraft octets suffixes).read Reader.message =
          .error cause { Wire.ofDraft octets suffixes with position := n }) ∧
    (∀ i n, Reader.seek i (Wire.ofCaptured octets).source n =
        (if i ≤ octets.length then .ok () i else .error .endOfBuffer n) ∧
      Reader.seek i (Wire.ofDraft octets suffixes).source n = .ok () i) ∧
    ∀ count n, Reader.skip count (Wire.ofCaptured octets).source n =
        (if n + count ≤ octets.length then .ok () (n + count) else .error .endOfBuffer n) ∧
      Reader.skip count (Wire.ofDraft octets suffixes).source n = .ok () (n + count) := by
  have hseek : ∀ i n, Reader.seek i (Wire.ofCaptured octets).source n =
        (if i ≤ octets.length then .ok () i else .error .endOfBuffer n) ∧
      Reader.seek i (Wire.ofDraft octets suffixes).source n = .ok () i :=
    fun i n => ⟨Reader.seek_view octets.toArray i n, Reader.seek_draft rfl i n⟩
  refine ⟨?_, hseek, fun count n => ?_⟩
  · have halike := Reader.alike_message (Nat.zero_le octets.toArray.size)
    cases halike with
    | @done message n hn hview hdraft =>
      exact .inl ⟨message, n, hn, Wire.read_ok hview, Wire.read_ok hdraft⟩
    | @refused cause n hn hview hdraft =>
      exact .inr ⟨cause, n, hn, Wire.read_error hview, Wire.read_error hdraft⟩
  · rw [Reader.skip_eq, Reader.skip_eq]
    exact hseek (n + count) n

end PassiveDns.Dns
