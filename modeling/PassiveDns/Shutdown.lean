/-
  PassiveDns.Shutdown

  Ending a run in good order: a flag that is raised once, a notification to
  those who wait for it, and a bound on how long the workers may take to finish.
  The flag goes up before the notification goes out, so one who looks at the
  flag first and then waits misses neither.
-/

namespace PassiveDns

/-- The flag, the notifications that wait to be taken, one place for each
    subscriber, and the number of workers that run. Times are in milliseconds. -/
structure Shutdown where
  drainTimeout : Nat
  raised : Bool
  inboxes : List Bool
  workers : Nat
deriving Repr, DecidableEq, Inhabited

namespace Shutdown

/-- Why a shutdown does not go as asked. -/
inductive Error where
  | alreadyShuttingDown
  | drainTimeout (workers : Nat)
deriving Repr, DecidableEq, Inhabited

/-- What is reported for each cause. -/
def Error.message : Error → String
  | alreadyShuttingDown => "shutdown already in progress"
  | drainTimeout workers =>
    "drain timeout exceeded with " ++ toString workers ++ " workers still running"

/-- Nobody waits, nothing runs. -/
def ofTimeout (drainTimeout : Nat) : Shutdown := ⟨drainTimeout, false, [], 0⟩

/-! ## Single steps -/

/-- Raises the flag; says whether it was up before. -/
def raiseFlag (state : Shutdown) : Bool × Shutdown :=
  (state.raised, { state with raised := true })

/-- Leaves a notification for every subscriber there is. -/
def announce (state : Shutdown) : Shutdown :=
  { state with inboxes := state.inboxes.map fun _ => true }

/-- Adds a subscriber, whose number is returned. Notifications that went out
    before do not reach it. -/
def openInbox (state : Shutdown) : Nat × Shutdown :=
  (state.inboxes.length, { state with inboxes := state.inboxes ++ [false] })

/-- Whether a notification waits for a subscriber. -/
def hasMail (state : Shutdown) (subscriber : Nat) : Bool :=
  state.inboxes.getD subscriber false

/-- A subscriber takes its notification, which does not come again. -/
def takeMail (state : Shutdown) (subscriber : Nat) : Shutdown :=
  { state with inboxes := state.inboxes.set subscriber false }

/-! ## Whole operations -/

/-- Begins the shutdown, which can be done once. -/
def trigger (state : Shutdown) : Except Error Unit × Shutdown :=
  match state.raiseFlag with
  | (true, _) => (.error .alreadyShuttingDown, state)
  | (false, after) => (.ok (), after.announce)

/-- Whether a subscriber who looks now need not wait. -/
def isReady (state : Shutdown) (subscriber : Nat) : Bool :=
  state.raised || state.hasMail subscriber

/-- A worker starts. -/
def enter (state : Shutdown) : Shutdown := { state with workers := state.workers + 1 }

/-- A worker ends. -/
def leave (state : Shutdown) : Shutdown := { state with workers := state.workers - 1 }

/-- The outcome of waiting for something that takes a while. -/
def drain (state : Shutdown) (takes : Nat) : Except Error Unit :=
  if takes ≤ state.drainTimeout then .ok () else .error (.drainTimeout state.workers)

end Shutdown

end PassiveDns
