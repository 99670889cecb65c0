/-
  PassiveDns.Stream.Framing

  Cutting a stream into messages, each of which follows its length, a big-endian
  16-bit number. `split` cuts a whole stream; `Framing` does it piece by piece.
-/
import PassiveDns.Octets

namespace PassiveDns.Stream

/-- What is needed next: a length, or a message whose length is known. -/
inductive Awaiting where
  | length
  | body (length : UInt16)
deriving Repr, DecidableEq, Inhabited

/-- A stream that is being cut: the octets that no message has taken yet. The
    length of the message to come stays in front of it. -/
structure Framing where
  buffer : Octets
  awaiting : Awaiting
deriving Repr, DecidableEq, Inhabited

namespace Framing

/-- Nothing yet. -/
def empty : Framing := ⟨[], .length⟩

/-- Cuts off messages until one is incomplete. -/
def cut (buffer : Octets) (awaiting : Awaiting) : List Octets × Framing :=
  match awaiting with
  | .length =>
    match buffer with
    | hi :: lo :: rest => cut (hi :: lo :: rest) (.body (Octets.word16 hi lo))
    | short => ([], ⟨short, .length⟩)
  | .body length =>
    if buffer.reaches (length.toNat + 2) then
      let (messages, after) := cut (buffer.drop (length.toNat + 2)) .length
      ((buffer.drop 2).take length.toNat :: messages, after)
    else ([], ⟨buffer, .body length⟩)
termination_by 2 * buffer.length + if awaiting = .length then 1 else 0
decreasing_by
  · simp
  · rename_i h
    rw [Octets.reaches_iff] at h
    rw [if_pos trivial, if_neg not_false, List.length_drop]
    omega

/-- Appends octets and gives the messages that they complete. -/
def push (framing : Framing) (octets : Octets) : List Octets × Framing :=
  cut (framing.buffer ++ octets) framing.awaiting

/-- The number of octets that wait for the rest of a message. -/
def buffered (framing : Framing) : Nat := framing.buffer.length

end Framing

end PassiveDns.Stream
