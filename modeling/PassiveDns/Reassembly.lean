/-
  PassiveDns.Reassembly

  Putting Internet datagrams together from their fragments. The fragments of one
  datagram are collected in the order of their offsets; the datagram is complete
  once its last fragment has come and the payloads leave neither gap nor
  overlap. Only the limits differ between the two versions.
-/
import PassiveDns.Packet.Basic
import PassiveDns.Table

namespace PassiveDns

/-- What a fragment must keep to. -/
structure FragmentLimits where
  maxDatagram : Nat
  maxOffset : Nat
  maxFragments : Nat
  minFragment : Nat
deriving Repr, DecidableEq, Inhabited

/-- The limits of a version. -/
def FragmentLimits.ofVersion : IpVersion → FragmentLimits
  | .v4 => ⟨65535, 8183, 8192, 8⟩
  | .v6 => ⟨65535, 8191, 8191, 0⟩

/-- Why a fragment is refused, or the fragments so far make no datagram. -/
inductive FragmentError where
  | offsetTooLarge (offset : Nat)
  | datagramTooLarge (size : Nat)
  | fragmentTooSmall (length : Nat)
  | hole (position : Nat)
  | tooManyFragments (count : Nat)
deriving Repr, DecidableEq, Inhabited

/-- What is reported for each cause. -/
def FragmentError.message : FragmentError → String
  | offsetTooLarge offset =>
    "fragment offset " ++ toString offset ++ " exceeds the limit"
  | datagramTooLarge size =>
    "fragment would extend the datagram to " ++ toString size ++ " bytes"
  | fragmentTooSmall length =>
    "non-final fragment of " ++ toString length ++ " bytes is too small"
  | hole position => "hole or overlap at byte " ++ toString position
  | tooManyFragments count =>
    "more than " ++ toString count ++ " fragments for one datagram"

/-- Which limit a fragment breaks: its offset first, then the end of the
    datagram it would belong to, then its own size. -/
def FragmentLimits.check (limits : FragmentLimits) (fragment : Fragment) :
    Except FragmentError Unit :=
  let length := fragment.payload.length
  let size := fragment.offset * 8 + length
  if limits.maxOffset < fragment.offset then .error (.offsetTooLarge fragment.offset)
  else if limits.maxDatagram < size then .error (.datagramTooLarge size)
  else if fragment.more ∧ length < limits.minFragment then .error (.fragmentTooSmall length)
  else .ok ()

/-! ## The fragments of one datagram -/

/-- A payload and the octet of the datagram at which it starts. -/
structure Piece where
  start : Nat
  octets : Octets
deriving Repr, DecidableEq, Inhabited

/-- The fragments of one datagram so far. `reach` is the end of the furthest
    one, `received` the sum of their lengths, and `head` what the fragment at
    offset zero says about the datagram. -/
structure Partial where
  pieces : List Piece
  reach : Nat
  received : Nat
  lastSeen : Bool
  touched : Instant
  head : Option (IpHeader × Option Timestamp)
deriving Repr, DecidableEq, Inhabited

namespace Partial

/-- No fragments yet. -/
def empty (now : Instant) : Partial := ⟨[], 0, 0, false, now, none⟩

/-- Whether a fragment at an offset is there. -/
def hasStart (whole : Partial) (start : Nat) : Bool :=
  whole.pieces.any fun piece => piece.start = start

/-- Puts a piece where its offset belongs. -/
def insertPiece (piece : Piece) : List Piece → List Piece
  | [] => [piece]
  | p :: rest =>
    if p.start < piece.start then p :: insertPiece piece rest else piece :: p :: rest

/-- Adds a fragment. -/
def add (whole : Partial) (fragment : Fragment) (now : Instant) : Partial :=
  let start := fragment.offset * 8
  { pieces := insertPiece ⟨start, fragment.payload⟩ whole.pieces
    reach := max whole.reach (start + fragment.payload.length)
    received := whole.received + fragment.payload.length
    lastSeen := whole.lastSeen || !fragment.more
    touched := now
    head := if start = 0 then some (fragment.header, fragment.time) else whole.head }

/-- Whether the last fragment has come and the lengths add up to the end. -/
def isComplete (whole : Partial) : Bool :=
  whole.lastSeen && whole.reach = whole.received

/-- The payloads one after the other; each must start where the one before it
    ends, the first of them at `position`. -/
def join (position : Nat) : List Piece → Except FragmentError Octets
  | [] => .ok []
  | piece :: rest =>
    if piece.start = position then
      (join (position + piece.octets.length) rest).map (piece.octets ++ ·)
    else .error (.hole position)

end Partial

/-! ## All datagrams in progress -/

/-- What the fragments of one datagram have in common. -/
structure FragmentKey where
  source : Address
  destination : Address
  protocol : UInt8
  id : UInt32
deriving Repr, DecidableEq, Inhabited

/-- The datagram to which a fragment belongs. -/
def Fragment.key (fragment : Fragment) : FragmentKey :=
  ⟨fragment.header.source, fragment.header.destination, fragment.header.protocol,
    fragment.id⟩

/-- The datagrams in progress. -/
structure Reassembly where
  limits : FragmentLimits
  partials : Table FragmentKey Partial

namespace Reassembly

/-- No datagram in progress. -/
def empty (limits : FragmentLimits) : Reassembly := ⟨limits, .empty⟩

instance : Inhabited Reassembly := ⟨empty default⟩

/-- The fragments of a datagram so far, none of a new one. -/
def fragmentsOf (state : Reassembly) (key : FragmentKey) (now : Instant) : Partial :=
  (state.partials.get? key).getD (.empty now)

/-- Replaces the fragments of a datagram. -/
def put (state : Reassembly) (key : FragmentKey) (whole : Partial) : Reassembly :=
  { state with partials := state.partials.set key whole }

/-- Forgets the fragments of a datagram. -/
def forget (state : Reassembly) (key : FragmentKey) : Reassembly :=
  { state with partials := state.partials.erase key }

/-- Adds a fragment that keeps the limits. One at an offset that is there
    already changes nothing. One too many ends its datagram. A datagram that is
    complete is handed out and forgotten; where the lengths add up but the
    payloads do not join, its fragments stay. -/
def accept (state : Reassembly) (fragment : Fragment) (now : Instant) :
    Except FragmentError (Option Datagram) × Reassembly :=
  let key := fragment.key
  let before := state.fragmentsOf key now
  if before.hasStart (fragment.offset * 8) then (.ok none, state)
  else if state.limits.maxFragments ≤ before.pieces.length then
    (.error (.tooManyFragments before.pieces.length), state.forget key)
  else
    let whole := before.add fragment now
    if !whole.isComplete then (.ok none, state.put key whole)
    else
      match Partial.join 0 whole.pieces, whole.head with
      | .error cause, _ => (.error cause, state.put key whole)
      | .ok _, none => (.error (.hole 0), state.put key whole)
      | .ok payload, some (header, time) =>
        (.ok (some ⟨header, payload, time⟩), state.forget key)

/-- Takes a fragment. One that breaks a limit changes nothing. -/
def submit (state : Reassembly) (fragment : Fragment) (now : Instant) :
    Except FragmentError (Option Datagram) × Reassembly :=
  match state.limits.check fragment with
  | .error cause => (.error cause, state)
  | .ok () => state.accept fragment now

/-- How far a datagram in progress has come: its fragments, their octets, and
    whether the last of them is there. -/
structure Progress where
  fragments : Nat
  octets : Nat
  lastSeen : Bool
deriving Repr, DecidableEq, Inhabited

/-- How far the datagram of a key has come, if there are fragments of it. -/
def progress? (state : Reassembly) (key : FragmentKey) : Option Progress :=
  (state.partials.get? key).map fun whole =>
    ⟨whole.pieces.length, whole.received, whole.lastSeen⟩

/-- Forgets the datagrams to which nothing was added since before `cutoff`, and
    counts them. -/
def discardOlderThan (state : Reassembly) (cutoff : Instant) : Nat × Reassembly :=
  let kept := state.partials.filter fun _ whole => cutoff ≤ whole.touched
  (state.partials.size - kept.size, { state with partials := kept })

end Reassembly

end PassiveDns
