/-
  PassiveDns.Capture.Replay

  Frames kept in memory and handed out in the order in which they were added.
-/
import PassiveDns.Packet.Basic

namespace PassiveDns.Capture

/-- Frames that wait, and the number of those handed out. -/
structure Replay where
  link : LinkType
  frames : List Frame
  received : Nat
deriving Repr, DecidableEq, Inhabited

namespace Replay

/-- Frames of one link type. -/
def ofFrames (link : LinkType) (frames : List Frame) : Replay := ⟨link, frames, 0⟩

/-- Adds a frame behind the others. -/
def push (replay : Replay) (frame : Frame) : Replay :=
  { replay with frames := replay.frames ++ [frame] }

/-- Takes the first frame. -/
def next (replay : Replay) : Option Frame × Replay :=
  match replay.frames with
  | [] => (none, replay)
  | frame :: rest => (some frame, { replay with frames := rest, received := replay.received + 1 })

end Replay

end PassiveDns.Capture
