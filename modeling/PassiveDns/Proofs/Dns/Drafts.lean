/-
  PassiveDns.Proofs.Dns.Drafts

  What a writing step appends to a draft whose cursor stands at its end. A body
  behind a length is the one place where octets change that stand already, and
  there too the draft has only grown once the length is in place.
-/
import Mathlib.Tactic.Common
import PassiveDns.Dns.Message
import PassiveDns.Proofs.Octets

namespace PassiveDns.Dns

/-- Where name suffixes were written, the newest entry first. -/
abbrev Suffixes := List (String × Nat)

/-- A draft whose cursor stands behind its last octet. -/
def Wire.draft (written : Octets) (suffixes : Suffixes) : Wire :=
  ⟨written.toArray, written.length, .draft, suffixes⟩

namespace Writer

/-- Behind `n` octets, with the suffixes `before` remembered, a step appends
    `octets` and leaves the suffixes `after`. -/
def Appends (step : Writer Unit) (n : Nat) (before : Suffixes) (octets : Octets)
    (after : Suffixes) : Prop :=
  ∀ written : Octets, written.length = n →
    step (.draft written before) = .ok () (.draft (written ++ octets) after)

variable {step next : Writer Unit} {n : Nat} {before between after : Suffixes}

theorem appends_pure (n : Nat) (suffixes : Suffixes) :
    Appends (pure ()) n suffixes [] suffixes := by
  intro written _
  rw [List.append_nil]
  rfl

theorem bind_ok {α β : Type} {step : Writer α} {next : α → Writer β} {wire wire' : Wire} {a : α}
    (h : step wire = .ok a wire') : (step >>= next) wire = next a wire' := by
  show EStateM.bind step next wire = _
  rw [EStateM.bind, h]

theorem Appends.bind {first second : Octets} (hstep : Appends step n before first between)
    (hnext : Appends next (n + first.length) between second after) :
    Appends (step >>= fun _ => next) n before (first ++ second) after := by
  intro written hn
  rw [bind_ok (hstep written hn), hnext _ (by rw [List.length_append, hn]), List.append_assoc]

theorem position_draft (written : Octets) (suffixes : Suffixes) :
    position (.draft written suffixes) = .ok written.length (.draft written suffixes) := rfl

theorem appends_octet (b : UInt8) (n : Nat) (suffixes : Suffixes) :
    Appends (octet b) n suffixes [b] suffixes := by
  intro written _
  have hend : ¬ written.length < written.toArray.size := by simp
  simp only [octet, Wire.draft, if_neg hend, List.push_toArray, List.length_append,
    List.length_singleton]

theorem appends_octets (bytes : Octets) (n : Nat) (suffixes : Suffixes) :
    Appends (octets bytes) n suffixes bytes suffixes := by
  induction bytes generalizing n with
  | nil => exact appends_pure n suffixes
  | cons b rest ih => exact (appends_octet b n suffixes).bind (ih (n + 1))

theorem appends_word16 (w : UInt16) (n : Nat) (suffixes : Suffixes) :
    Appends (word16 w) n suffixes (Octets.ofWord16 w) suffixes :=
  appends_octets _ n suffixes

/-! ## Lengths put in later -/

theorem setOctet_draft (front back : Octets) (b b' : UInt8) (suffixes : Suffixes) :
    setOctet front.length b (.draft (front ++ b' :: back) suffixes) =
      .ok () (.draft (front ++ b :: back) suffixes) := by
  simp [setOctet, Wire.draft]

theorem setWord16_draft (front back : Octets) (w w' : UInt16) (suffixes : Suffixes) :
    setWord16 front.length w (.draft (front ++ (Octets.ofWord16 w' ++ back)) suffixes) =
      .ok () (.draft (front ++ (Octets.ofWord16 w ++ back)) suffixes) := by
  show (setOctet _ _ >>= fun _ => setOctet _ _) _ = _
  rw [Octets.ofWord16, List.cons_append, bind_ok (setOctet_draft _ _ _ _ suffixes),
    List.singleton_append]
  have h := setOctet_draft (front ++ [UInt8.ofNat (w.toNat / 256)]) back (UInt8.ofNat w.toNat)
    (UInt8.ofNat w'.toNat) suffixes
  simpa [Octets.ofWord16] using h

/-- A body of any length is written behind its length. -/
theorem Appends.measured {body : Octets} (h : Appends step (n + 2) before body after) :
    Appends (Writer.measured step) n before (Octets.ofWord16 (UInt16.ofNat body.length) ++ body)
      after := by
  intro written hn
  have hplace : (written ++ Octets.ofWord16 0).length = n + 2 := by
    rw [List.length_append, hn, Octets.length_ofWord16]
  have hlength : (written ++ Octets.ofWord16 0 ++ body).length - (written.length + 2) =
      body.length := by
    rw [List.length_append, hplace, hn, Nat.add_sub_cancel_left]
  rw [Writer.measured, bind_ok (position_draft written before),
    bind_ok (appends_word16 0 n before written hn), bind_ok (h _ hplace),
    bind_ok (position_draft _ after), hlength, List.append_assoc, setWord16_draft]

end Writer

end PassiveDns.Dns
