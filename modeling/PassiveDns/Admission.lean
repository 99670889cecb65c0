/-
  PassiveDns.Admission

  Which packets are looked at at all: sampling by a ratio first, and behind it
  the refusal of packets whose octets were seen a short while ago.
-/
import PassiveDns.Config.Settings
import PassiveDns.Table

namespace PassiveDns

/-! ## Sampling -/

/-- A ratio, and how many packets were counted for it. -/
structure Sampler where
  ratio : Config.Ratio
  counter : Nat
deriving Repr, DecidableEq, Inhabited

namespace Sampler

/-- No packet counted yet. -/
def ofRatio (ratio : Config.Ratio) : Sampler := ⟨ratio, 0⟩

/-- Whether the next packet is taken: the first ones of each cycle of the ratio
    are. The counter is cut back to its place in the cycle once it grew past the
    product of both sides, which changes no later answer. -/
def next (sampler : Sampler) : Bool × Sampler :=
  if sampler.ratio.isPassthrough then (true, sampler)
  else
    let count := sampler.counter + 1
    let taken := decide (count % sampler.ratio.outOf < sampler.ratio.accept)
    let bounded :=
      if sampler.ratio.accept * sampler.ratio.outOf < count then count % sampler.ratio.outOf
      else count
    (taken, { sampler with counter := bounded })

end Sampler

/-! ## Packets seen lately -/

/-- The hashes of the packets seen since the last reset. -/
structure RecentPackets where
  hashes : List UInt64
  capacity : Nat
  interval : Nat
  lastReset : Instant
deriving Repr, DecidableEq, Inhabited

namespace RecentPackets

/-- No packet seen yet. -/
def empty (interval capacity : Nat) (now : Instant) : RecentPackets :=
  ⟨[], capacity, interval, now⟩

/-- The hashes that still count: none once a whole interval has passed since the
    last reset, which is a reset. -/
def current (recent : RecentPackets) (now : Instant) : RecentPackets :=
  if recent.interval ≤ now - recent.lastReset then
    { recent with hashes := [], lastReset := now }
  else recent

/-- Adds a hash that is not there; if there is no room, all others go first. -/
def remember (recent : RecentPackets) (hash : UInt64) : RecentPackets :=
  let kept := if recent.capacity ≤ recent.hashes.length then [] else recent.hashes
  { recent with hashes := hash :: kept }

/-- Whether a packet was seen since the last reset. One that was not is
    remembered. -/
def check (recent : RecentPackets) (octets : Octets) (now : Instant) :
    Bool × RecentPackets :=
  let current := recent.current now
  let hash := Octets.fnv1a64 octets
  if current.hashes.contains hash then (true, current) else (false, current.remember hash)

end RecentPackets

/-! ## Both -/

/-- What becomes of a packet. -/
inductive Decision where
  | accepted
  | skipped
  | duplicate
deriving Repr, DecidableEq, Inhabited

/-- The state of both checks; the second is made only if `recent` is there. -/
structure Admission where
  sampler : Sampler
  recent : Option RecentPackets
deriving Repr, DecidableEq, Inhabited

namespace Admission

/-- The checks that the settings ask for. -/
def ofSettings (settings : Settings) (now : Instant) : Admission where
  sampler := .ofRatio settings.ratio
  recent :=
    if settings.dedup then
      some (.empty (settings.dedupCleanupSecs * 1000) settings.dedupMaxEntries now)
    else none

/-- Decides on a packet. Only a packet that sampling takes is compared with
    those seen lately. -/
def check (admission : Admission) (octets : Octets) (now : Instant) :
    Decision × Admission :=
  match admission.sampler.next with
  | (false, sampler) => (.skipped, { admission with sampler })
  | (true, sampler) =>
    match admission.recent with
    | none => (.accepted, { admission with sampler })
    | some recent =>
      match recent.check octets now with
      | (true, after) => (.duplicate, ⟨sampler, some after⟩)
      | (false, after) => (.accepted, ⟨sampler, some after⟩)

end Admission

end PassiveDns
