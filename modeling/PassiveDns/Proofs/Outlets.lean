/-
  PassiveDns.Proofs.Outlets

  Where each sink stands while observations are handed out, whatever becomes of its writes.
  A sink that did not break has all that is due to it; one that broke has written what came
  before the observation at which it did, and has nothing left to do. `Meets` says so of all
  sinks: those behind the one that is served next lack what is in hand.
-/
import Mathlib.Data.List.Basic
import Mathlib.Tactic.Common
import PassiveDns.Proofs.Lists
import PassiveDns.Sink.FanOut

namespace PassiveDns.Sink

/-! ## One sink -/

namespace Outlet

/-- All that a sink was handed, in order. -/
def handed (outlet : Outlet) : List Observation :=
  outlet.taken.toList ++ outlet.hand.toList ++ outlet.queue

/-- Where a sink stands with what is due to it. Only once nothing more is handed out may it
    have closed, with nothing left to write. -/
inductive Standing (closing : Bool) (due : List Observation) (outlet : Outlet) : Prop
  | running (hstage : outlet.stage = .running) (hlive : outlet.live = true)
    (hhanded : outlet.handed = due)
  | closed (hstage : outlet.stage = .closed) (hclosing : closing = true)
    (hlive : outlet.live = true) (hhand : outlet.hand = none) (hqueue : outlet.queue = [])
    (htaken : outlet.taken.toList = due)
  | broken (hstage : outlet.stage = .broken) (hhand : outlet.hand = none)
    (hqueue : outlet.queue = []) (observation : Observation)
    (hreply : outlet.sink.reply outlet.taken.size = .broken)
    (htaken : outlet.taken.toList ++ [observation] <+: due)

/-- A sink whose writes return: where it stands, and that none of the writes behind it broke. -/
structure Meets (closing : Bool) (due : List Observation) (outlet : Outlet) : Prop where
  standing : outlet.Standing closing due
  unblocked : outlet.blocked = false
  lasted : ∀ n < outlet.taken.size, outlet.sink.reply n ≠ .broken

/-- What a sink still has to do. -/
def load (outlet : Outlet) : Nat :=
  2 * outlet.queue.length + outlet.hand.toList.length + if outlet.stage = .running then 1 else 0

variable {closing : Bool} {due : List Observation} {outlet : Outlet}
  {result : List (Series × Nat) × Outlet}

theorem meets_ofSink (closing : Bool) (sink : Sink) :
    (ofSink sink false).Meets closing [] :=
  ⟨.running rfl rfl rfl, rfl, fun _ h => absurd h (Nat.not_lt_zero _)⟩

theorem handed_of_done (hhand : outlet.hand = none) (hqueue : outlet.queue = []) :
    outlet.handed = outlet.taken.toList := by
  unfold handed
  rw [hhand, hqueue]
  simp only [Option.toList_none, List.append_nil]

/-- What a sink has taken, with what is in its queue, comes first of all that is due to it. -/
theorem Meets.prefix_handed (h : outlet.Meets closing due) : outlet.handed <+: due := by
  cases h.standing with
  | running _ _ hhanded => exact hhanded ▸ List.prefix_refl _
  | closed _ _ _ hhand hqueue htaken =>
    have heq : outlet.handed = due := (handed_of_done hhand hqueue).trans htaken
    exact heq ▸ List.prefix_refl _
  | broken _ hhand hqueue observation _ htaken =>
    rw [handed_of_done hhand hqueue]
    exact (List.prefix_append ..).trans htaken

/-- A further observation is handed over; a sink that broke takes none. -/
theorem Meets.offer (h : outlet.Meets false due) (observation : Observation) :
    (outlet.offer observation).Meets false (due ++ [observation]) := by
  have hlasted := h.lasted
  cases h.standing with
  | running hstage hlive hhanded =>
    have hoffer : outlet.offer observation =
        { outlet with queue := outlet.queue ++ [observation] } := by
      unfold Outlet.offer
      rw [hlive, hstage]
      rfl
    rw [hoffer]
    refine ⟨.running hstage hlive ?_, h.unblocked, hlasted⟩
    show outlet.taken.toList ++ outlet.hand.toList ++ (outlet.queue ++ [observation]) = _
    rw [← List.append_assoc]
    exact congrArg (· ++ [observation]) hhanded
  | closed _ hclosing => cases hclosing
  | broken hstage hhand hqueue first hreply htaken =>
    have hmore := htaken.trans (List.prefix_append due [observation])
    unfold Outlet.offer
    split
    · exact ⟨.broken hstage hhand hqueue first hreply hmore, h.unblocked, hlasted⟩
    · rw [if_pos (by rw [hstage]; simp)]
      exact ⟨.broken hstage hhand hqueue first hreply hmore, h.unblocked, hlasted⟩

/-- Nothing more is handed out. -/
theorem Meets.close (h : outlet.Meets closing due) : outlet.Meets true due := by
  refine ⟨?_, h.unblocked, h.lasted⟩
  cases h.standing with
  | running hstage hlive hhanded => exact .running hstage hlive hhanded
  | closed hstage _ hlive hhand hqueue htaken => exact .closed hstage rfl hlive hhand hqueue htaken
  | broken hstage hhand hqueue first hreply htaken =>
    exact .broken hstage hhand hqueue first hreply htaken

/-- What a sink that still runs does next: it writes what it has in hand, takes the next
    observation, or closes. -/
inductive Acting (closing : Bool) (outlet : Outlet) : List (Series × Nat) × Outlet → Prop
  | writes (observation : Observation) (hhand : outlet.hand = some observation) :
    Acting closing outlet (outlet.write observation)
  | takes (observation : Observation) (rest : List Observation) (hhand : outlet.hand = none)
    (hqueue : outlet.queue = observation :: rest) :
    Acting closing outlet ([], { outlet with hand := some observation, queue := rest })
  | closes (hhand : outlet.hand = none) (hqueue : outlet.queue = []) (hclosing : closing = true) :
    Acting closing outlet ([], { outlet with stage := .closed })

theorem acting (hstep : outlet.step? closing = some result) :
    outlet.stage = .running ∧ Acting closing outlet result := by
  unfold step? at hstep
  split at hstep
  · cases hstep
  · rename_i hrunning
    refine ⟨Decidable.not_not.mp hrunning, ?_⟩
    split at hstep
    · rename_i observation hhand
      split at hstep
      · cases hstep
      · rw [← Option.some.inj hstep]
        exact .writes observation hhand
    · rename_i observation rest hhand hqueue
      rw [← Option.some.inj hstep]
      exact .takes observation rest hhand hqueue
    · rename_i hhand hqueue
      split at hstep
      · rename_i hclosing
        rw [← Option.some.inj hstep]
        exact .closes hhand hqueue hclosing
      · cases hstep

/-- Only a sink that runs has something to do, and it has all that is due to it. -/
theorem Meets.of_running (h : outlet.Meets closing due) (hrunning : outlet.stage = .running) :
    outlet.live = true ∧ outlet.handed = due := by
  cases h.standing with
  | running _ hlive hhanded => exact ⟨hlive, hhanded⟩
  | closed hstage => rw [hstage] at hrunning; cases hrunning
  | broken hstage => rw [hstage] at hrunning; cases hrunning

/-- A sink that has ended has nothing left to do. -/
theorem Meets.empty_of_ended (h : outlet.Meets closing due) (hended : outlet.stage ≠ .running) :
    outlet.hand = none ∧ outlet.queue = [] := by
  cases h.standing with
  | running hstage => exact absurd hstage hended
  | closed _ _ _ hhand hqueue => exact ⟨hhand, hqueue⟩
  | broken _ hhand hqueue => exact ⟨hhand, hqueue⟩

/-- A sink closes only once nothing more is handed out. -/
theorem Meets.closing_of_closed (h : outlet.Meets closing due) (hclosed : outlet.stage = .closed) :
    closing = true := by
  cases h.standing with
  | running hstage => rw [hstage] at hclosed; cases hclosed
  | closed _ hclosing => exact hclosing
  | broken hstage => rw [hstage] at hclosed; cases hclosed

/-- The write of the observation in hand ends. -/
theorem Meets.write (h : outlet.Meets closing due) (hrunning : outlet.stage = .running)
    {observation : Observation} (hhand : outlet.hand = some observation) :
    (outlet.write observation).2.Meets closing due ∧
      (outlet.write observation).2.load < outlet.load := by
  obtain ⟨hlive, hhanded⟩ := h.of_running hrunning
  have hsplit : outlet.taken.toList ++ [observation] ++ outlet.queue = due := by
    unfold handed at hhanded
    rw [hhand] at hhanded
    exact hhanded
  -- with any other reply the observation counts as taken
  have htaken (hreply : outlet.sink.reply outlet.taken.size ≠ .broken) :
      Meets closing due { outlet with hand := none, taken := outlet.taken.push observation } ∧
        load { outlet with hand := none, taken := outlet.taken.push observation } <
          outlet.load := by
    refine ⟨⟨.running hrunning hlive ?_, h.unblocked, fun n hn => ?_⟩, ?_⟩
    · simpa [handed] using hsplit
    · rw [Array.size_push] at hn
      rcases Nat.lt_succ_iff_lt_or_eq.mp hn with hn | rfl
      · exact h.lasted n hn
      · exact hreply
    · simp [load, hhand]
  unfold Outlet.write
  dsimp only
  split
  · rename_i hreply
    exact htaken (by rw [hreply]; simp)
  · rename_i hreply
    exact htaken (by rw [hreply]; simp)
  · rename_i hreply
    refine ⟨⟨.broken rfl rfl rfl observation hreply ?_, h.unblocked, h.lasted⟩, ?_⟩
    · rw [← hsplit]
      exact List.prefix_append ..
    · simp only [load, hhand, hrunning, List.length_nil, Option.toList_none, Option.toList_some,
        List.length_singleton, if_true, reduceCtorEq, if_false]
      omega

/-- Whatever a sink does, it stands with what is due to it, and has less to do. -/
theorem Meets.step (h : outlet.Meets closing due) (hstep : outlet.step? closing = some result) :
    result.2.Meets closing due ∧ result.2.load < outlet.load := by
  obtain ⟨hrunning, hacting⟩ := acting hstep
  obtain ⟨hlive, hhanded⟩ := h.of_running hrunning
  cases hacting with
  | writes observation hhand => exact h.write hrunning hhand
  | takes observation rest hhand hqueue =>
    refine ⟨⟨.running hrunning hlive ?_, h.unblocked, h.lasted⟩, ?_⟩
    · rw [← hhanded]
      simp [handed, hhand, hqueue]
    · simp [load, hhand, hqueue]
      omega
  | closes hhand hqueue hclosing =>
    refine ⟨⟨.closed rfl hclosing hlive hhand hqueue ?_, h.unblocked, h.lasted⟩, ?_⟩
    · rw [← handed_of_done hhand hqueue, hhanded]
    · simp [load, hrunning]

theorem sink_of_step (hstep : outlet.step? closing = some result) :
    result.2.sink = outlet.sink := by
  cases (acting hstep).2 with
  | writes observation =>
    unfold write
    dsimp only
    split <;> rfl
  | takes => rfl
  | closes => rfl

/-- A sink has to take and to write what it is handed. -/
theorem load_offer_le (outlet : Outlet) (observation : Observation) :
    (outlet.offer observation).load ≤ outlet.load + 2 := by
  unfold offer
  split
  · exact Nat.le_add_right ..
  · split
    · exact Nat.le_add_right ..
    · unfold load
      dsimp only
      rw [List.length_append, List.length_singleton]
      omega

theorem sink_offer (outlet : Outlet) (observation : Observation) :
    (outlet.offer observation).sink = outlet.sink := by
  unfold offer
  split
  · rfl
  · split <;> rfl

/-- A sink that can do nothing has written all that it was handed, and waits for more unless
    it ended. -/
theorem Meets.of_stuck (h : outlet.Meets closing due) (hstuck : outlet.step? closing = none) :
    outlet.hand = none ∧ outlet.queue = [] ∧ (closing = true → outlet.stage ≠ .running) := by
  cases h.standing with
  | running hrunning =>
    unfold step? at hstuck
    rw [if_neg (by simp [hrunning])] at hstuck
    split at hstuck
    · -- its writes return, so it could go on with an observation in hand
      rw [if_neg (by rw [h.unblocked]; exact Bool.false_ne_true)] at hstuck
      cases hstuck
    · cases hstuck
    · rename_i hhand hqueue
      split at hstuck
      · cases hstuck
      · rename_i hclosing
        exact ⟨hhand, hqueue, fun htrue => absurd htrue hclosing⟩
  | closed hstage _ _ hhand hqueue => exact ⟨hhand, hqueue, fun _ => by rw [hstage]; simp⟩
  | broken hstage hhand hqueue => exact ⟨hhand, hqueue, fun _ => by rw [hstage]; simp⟩

end Outlet

/-! ## All sinks -/

namespace FanOut

/-- The sinks of a run that begins: those that can be made ready. -/
def ofSinks (capacity : Nat) (sinks : List Sink) : FanOut :=
  sinks.foldl (fun fanOut sink => (fanOut.register sink false).2) (.empty capacity)

/-- The sinks, as they were registered. -/
def sinks (fanOut : FanOut) : List Sink := fanOut.outlets.map Outlet.sink

/-- What is due to a sink of all that was given to the hand-out: those that are not yet served
    lack the observation in hand. -/
def due (fanOut : FanOut) (given : List Observation) (index : Nat) : List Observation :=
  match fanOut.hand with
  | some (_, served) => if index < served then given else given.dropLast
  | none => given

/-- All sinks stand with what was given to the hand-out. -/
structure Meets (given : List Observation) (fanOut : FanOut) : Prop where
  room : 0 < fanOut.capacity
  hand : ∀ observation served, fanOut.hand = some (observation, served) →
    fanOut.closing = false ∧ served ≤ fanOut.outlets.length ∧ given.getLast? = some observation
  meets : ∀ index (outlet : Outlet), fanOut.outlets[index]? = some outlet →
    outlet.Meets fanOut.closing (fanOut.due given index)

/-- All that was given to the hand-out is counted, but for what is in hand. -/
def Counts (given : List Observation) (fanOut : FanOut) : Prop :=
  fanOut.dispatched + fanOut.hand.toList.length = given.length

/-- What the sinks still have to do. -/
def writeLoad (fanOut : FanOut) : Nat := (fanOut.outlets.map Outlet.load).sum

/-- What the hand-out still has to do with the observation in hand. -/
def handLoad (fanOut : FanOut) : Nat :=
  match fanOut.hand with
  | some (_, served) => fanOut.outlets.length + 1 - served
  | none => 0

variable {given : List Observation} {fanOut after : FanOut}

/-- At the start each sink that can be made ready has an outlet of its own, in order. -/
theorem outlets_ofSinks (capacity : Nat) (sinks : List Sink) :
    ofSinks capacity sinks =
      ⟨capacity, (sinks.filter Sink.usable).map fun sink => .ofSink sink false,
        none, 0, false⟩ := by
  have hfold (outlets : List Outlet) :
      sinks.foldl (fun (fanOut : FanOut) sink => (fanOut.register sink false).2)
          ⟨capacity, outlets, none, 0, false⟩ =
        ⟨capacity, outlets ++ (sinks.filter Sink.usable).map fun sink => .ofSink sink false,
          none, 0, false⟩ := by
    induction sinks generalizing outlets with
    | nil => rw [List.foldl_nil, List.filter_nil, List.map_nil, List.append_nil]
    | cons sink rest ih =>
      rw [List.foldl_cons, List.filter_cons]
      by_cases husable : sink.usable = true
      · have hregister : (register ⟨capacity, outlets, none, 0, false⟩ sink false).2 =
            ⟨capacity, outlets ++ [.ofSink sink false], none, 0, false⟩ := by
          unfold register
          rw [if_pos husable]
        rw [hregister, ih, if_pos husable, List.map_cons, List.append_assoc]
        rfl
      · have hregister : (register ⟨capacity, outlets, none, 0, false⟩ sink false).2 =
            ⟨capacity, outlets, none, 0, false⟩ := by
          unfold register
          rw [if_neg husable]
        rw [hregister, ih, if_neg husable]
  exact hfold []

/-- Only a sink that cannot be made ready is left out. -/
theorem sinks_ofSinks (capacity : Nat) (sinks : List Sink) :
    (ofSinks capacity sinks).sinks = sinks.filter Sink.usable := by
  rw [outlets_ofSinks]
  unfold FanOut.sinks
  rw [List.map_map]
  exact List.map_id _

theorem meets_ofSinks {capacity : Nat} (hcapacity : 0 < capacity) (sinks : List Sink) :
    (ofSinks capacity sinks).Meets [] := by
  rw [outlets_ofSinks]
  refine ⟨hcapacity, fun _ _ hsome => absurd hsome (by simp), fun index outlet houtlet => ?_⟩
  obtain ⟨sink, _, rfl⟩ := List.mem_map.mp (List.mem_of_getElem? houtlet)
  exact Outlet.meets_ofSink false sink

/-! ### The hand-out -/

/-- A further observation is in hand, and no sink has it yet. -/
theorem Meets.take (h : fanOut.Meets given) (hhand : fanOut.hand = none)
    (hopen : fanOut.closing = false) (observation : Observation) :
    (fanOut.take observation).Meets (given ++ [observation]) := by
  refine ⟨h.room, ?_, fun index outlet houtlet => ?_⟩
  · rintro other served heq
    obtain ⟨rfl, rfl⟩ := Prod.mk.inj (Option.some.inj heq)
    exact ⟨hopen, Nat.zero_le _, by simp⟩
  · have hmeets := h.meets index outlet houtlet
    unfold due at hmeets ⊢
    rw [hhand] at hmeets
    show outlet.Meets fanOut.closing (if index < 0 then _ else _)
    rw [if_neg (Nat.not_lt_zero index), List.dropLast_concat]
    exact hmeets

theorem Counts.take (h : fanOut.Counts given) (hhand : fanOut.hand = none)
    (observation : Observation) : (fanOut.take observation).Counts (given ++ [observation]) := by
  unfold Counts at h ⊢
  rw [hhand] at h
  rw [List.length_append, ← h]
  rfl

/-- What the hand-out does next: it is through with all sinks, or serves one more that has
    room. -/
inductive HandingOut (fanOut : FanOut) : FanOut → Prop
  | through (observation : Observation) (served : Nat)
      (hhand : fanOut.hand = some (observation, served))
      (hend : fanOut.outlets[served]? = none) :
    HandingOut fanOut { fanOut with hand := none, dispatched := fanOut.dispatched + 1 }
  | further (observation : Observation) (served : Nat) (outlet : Outlet)
      (hhand : fanOut.hand = some (observation, served))
      (houtlet : fanOut.outlets[served]? = some outlet) :
    HandingOut fanOut { fanOut with
      outlets := fanOut.outlets.set served (outlet.offer observation)
      hand := some (observation, served + 1) }

theorem handingOut {result : List (Series × Nat) × FanOut} (hstep : fanOut.handOut? = some result) :
    HandingOut fanOut result.2 := by
  unfold handOut? at hstep
  split at hstep
  · cases hstep
  · rename_i observation served hhand
    split at hstep
    · rename_i hend
      rw [← Option.some.inj hstep]
      exact .through observation served hhand hend
    · rename_i outlet houtlet
      split at hstep
      · rw [← Option.some.inj hstep]
        exact .further observation served outlet hhand houtlet
      · cases hstep

/-- What is in hand is counted once all sinks were gone through for it. -/
theorem tally_handOut {result : List (Series × Nat) × FanOut}
    (hstep : fanOut.handOut? = some result) :
    ∃ observation served, fanOut.hand = some (observation, served) ∧
      (result.1 = [(.results, 1)] ∧ result.2.hand = none ∨
        result.1 = [] ∧ result.2.hand = some (observation, served + 1)) := by
  unfold handOut? at hstep
  split at hstep
  · cases hstep
  · rename_i observation served hhand
    refine ⟨observation, served, hhand, ?_⟩
    split at hstep
    · rw [← Option.some.inj hstep]
      exact .inl ⟨rfl, rfl⟩
    · split at hstep
      · rw [← Option.some.inj hstep]
        exact .inr ⟨rfl, rfl⟩
      · cases hstep

theorem due_of_hand {observation : Observation} {served : Nat}
    (h : fanOut.hand = some (observation, served)) (given : List Observation) (index : Nat) :
    fanOut.due given index = if index < served then given else given.dropLast := by
  unfold due
  rw [h]

theorem prefix_due (fanOut : FanOut) (given : List Observation) (index : Nat) :
    fanOut.due given index <+: given := by
  unfold due
  split
  · split
    · exact List.prefix_refl _
    · exact List.dropLast_prefix _
  · exact List.prefix_refl _

theorem due_of_none (h : fanOut.hand = none) (given : List Observation) (index : Nat) :
    fanOut.due given index = given := by
  unfold due
  rw [h]

/-- The hand-out goes on to the next sink, or is through with all. -/
theorem Meets.handOut (h : fanOut.Meets given) (hstep : HandingOut fanOut after) :
    after.Meets given ∧ after.handLoad < fanOut.handLoad ∧ after.closing = fanOut.closing := by
  cases hstep with
  | through observation served hhand hend =>
    have hserved := List.getElem?_eq_none_iff.mp hend
    refine ⟨⟨h.room, fun _ _ hsome => absurd hsome (by simp), fun index outlet houtlet => ?_⟩,
      ?_, rfl⟩
    · have hmeets := h.meets index outlet houtlet
      have hindex := (List.getElem?_eq_some_iff.mp houtlet).1
      rw [due_of_hand hhand, if_pos (Nat.lt_of_lt_of_le hindex hserved)] at hmeets
      exact hmeets
    · -- as long as it was in hand at least its end was left to do
      have hle := (h.hand observation served hhand).2.1
      unfold handLoad
      rw [hhand]
      dsimp only
      omega
  | further observation served outlet hhand houtlet =>
    obtain ⟨hopen, hle, hlast⟩ := h.hand observation served hhand
    have hindex := (List.getElem?_eq_some_iff.mp houtlet).1
    have hlength : (fanOut.outlets.set served (outlet.offer observation)).length =
        fanOut.outlets.length := List.length_set
    refine ⟨⟨h.room, ?_, fun index other hother => ?_⟩, ?_, rfl⟩
    · rintro observation' served' heq
      obtain ⟨rfl, rfl⟩ := Prod.mk.inj (Option.some.inj heq)
      refine ⟨hopen, ?_, hlast⟩
      dsimp only
      rw [hlength]
      exact hindex
    · rw [due_of_hand rfl]
      dsimp only at hother ⊢
      rw [List.getElem?_set] at hother
      by_cases heq : served = index
      · -- this sink now has the observation in hand too
        subst heq
        rw [if_pos rfl, if_pos hindex] at hother
        rw [← Option.some.inj hother, if_pos (Nat.lt_succ_self _), hopen]
        have hmeets := h.meets served outlet houtlet
        rw [due_of_hand hhand, if_neg (Nat.lt_irrefl _), hopen] at hmeets
        have hgiven : given.dropLast ++ [observation] = given :=
          List.dropLast_append_getLast? observation hlast
        have hoffer := hmeets.offer observation
        rw [hgiven] at hoffer
        exact hoffer
      · rw [if_neg heq] at hother
        have hmeets := h.meets index other hother
        rw [due_of_hand hhand] at hmeets
        by_cases hless : index < served
        · rw [if_pos hless] at hmeets
          rw [if_pos (Nat.lt_succ_of_lt hless)]
          exact hmeets
        · rw [if_neg hless] at hmeets
          rw [if_neg (by omega)]
          exact hmeets
    · unfold handLoad
      rw [hhand]
      dsimp only
      rw [hlength]
      omega

theorem Counts.handOut (h : fanOut.Counts given) (hstep : HandingOut fanOut after) :
    after.Counts given := by
  unfold Counts at h ⊢
  cases hstep with
  | through observation served hhand hend =>
    rw [hhand] at h
    exact h
  | further observation served outlet hhand houtlet =>
    rw [hhand] at h
    exact h

/-- Nothing more is handed out. -/
theorem Meets.close (h : fanOut.Meets given) (hhand : fanOut.hand = none) :
    fanOut.close.Meets given := by
  refine ⟨h.room, fun observation served hsome => ?_, fun index outlet houtlet => ?_⟩
  · exact absurd (hhand.symm.trans hsome) (by simp)
  · exact (h.meets index outlet houtlet).close

/-! ### The sinks -/

/-- A sink goes on. -/
inductive Writing (fanOut : FanOut) (index : Nat) : List (Series × Nat) × FanOut → Prop
  | at (outlet : Outlet) (result : List (Series × Nat) × Outlet)
      (houtlet : fanOut.outlets[index]? = some outlet)
      (hstep : outlet.step? fanOut.closing = some result) :
    Writing fanOut index
      (result.1, { fanOut with outlets := fanOut.outlets.set index result.2 })

theorem writing {index : Nat} {result : List (Series × Nat) × FanOut}
    (hstep : fanOut.write? index = some result) : Writing fanOut index result := by
  unfold write? at hstep
  split at hstep
  · cases hstep
  · rename_i outlet houtlet
    obtain ⟨result, hresult, rfl⟩ := Option.map_eq_some_iff.mp hstep
    exact .at outlet result houtlet hresult

theorem Meets.write {index : Nat} {result : List (Series × Nat) × FanOut}
    (h : fanOut.Meets given) (hstep : Writing fanOut index result) :
    result.2.Meets given ∧ result.2.writeLoad < fanOut.writeLoad ∧
      result.2.hand = fanOut.hand ∧ result.2.closing = fanOut.closing ∧
      result.2.handLoad = fanOut.handLoad := by
  cases hstep with
  | «at» outlet result houtlet hstep =>
    obtain ⟨hmeets, hless⟩ := (h.meets index outlet houtlet).step hstep
    have hlength : (fanOut.outlets.set index result.2).length = fanOut.outlets.length :=
      List.length_set
    refine ⟨⟨h.room, fun observation served hhand => ?_, fun other outlet' houtlet' => ?_⟩, ?_,
      rfl, rfl, ?_⟩
    · dsimp only
      rw [hlength]
      exact h.hand observation served hhand
    · dsimp only at houtlet' ⊢
      rw [List.getElem?_set] at houtlet'
      by_cases hindex : index = other
      · subst hindex
        rw [if_pos rfl, if_pos (List.getElem?_eq_some_iff.mp houtlet).1] at houtlet'
        rw [← Option.some.inj houtlet']
        exact hmeets
      · rw [if_neg hindex] at houtlet'
        exact h.meets other outlet' houtlet'
    · have hsum := sum_map_set Outlet.load (b := result.2) houtlet
      unfold writeLoad
      dsimp only
      omega
    · unfold handLoad
      dsimp only
      rw [hlength]

theorem Counts.write {index : Nat} {result : List (Series × Nat) × FanOut}
    (h : fanOut.Counts given) (hstep : Writing fanOut index result) : result.2.Counts given := by
  cases hstep with
  | «at» => exact h

theorem sinks_of_handingOut (h : HandingOut fanOut after) : after.sinks = fanOut.sinks := by
  cases h with
  | through => rfl
  | further observation served outlet hhand houtlet =>
    exact map_set_of_eq Outlet.sink houtlet (outlet.sink_offer observation)

theorem sinks_of_writing {index : Nat} {result : List (Series × Nat) × FanOut}
    (h : Writing fanOut index result) : result.2.sinks = fanOut.sinks := by
  cases h with
  | «at» outlet result houtlet hstep =>
    exact map_set_of_eq Outlet.sink houtlet (Outlet.sink_of_step hstep)

/-! ### When nobody can go on -/

theorem step_of_stuck (hstuck : ∀ index, fanOut.write? index = none) {index : Nat}
    {outlet : Outlet} (houtlet : fanOut.outlets[index]? = some outlet) :
    outlet.step? fanOut.closing = none := by
  have hnone := hstuck index
  unfold write? at hnone
  rw [houtlet] at hnone
  exact Option.map_eq_none_iff.mp hnone

/-- If no sink can do anything the hand-out can. -/
theorem Meets.handOut_of_stuck (h : fanOut.Meets given)
    (hstuck : ∀ index, fanOut.write? index = none) (hhand : fanOut.hand ≠ none) :
    fanOut.handOut? ≠ none := by
  unfold handOut?
  split
  · rename_i hnone
    exact absurd hnone hhand
  · rename_i observation served hsome
    split
    · exact fun hnone => by cases hnone
    · rename_i outlet houtlet
      -- the sink that is next does nothing, so its queue is empty and has room
      have hempty := ((h.meets served outlet houtlet).of_stuck (step_of_stuck hstuck houtlet)).2.1
      have hroom : outlet.hasRoom fanOut.capacity = true := by
        unfold Outlet.hasRoom
        rw [hempty, List.length_nil, decide_eq_true h.room, Bool.or_true]
      rw [if_pos hroom]
      exact fun hnone => by cases hnone

/-- If no sink can do anything once nothing more is handed out, all have ended. -/
theorem Meets.isFinished_of_stuck (h : fanOut.Meets given) (hclosing : fanOut.closing = true)
    (hstuck : ∀ index, fanOut.write? index = none) : fanOut.isFinished = true := by
  unfold isFinished
  rw [hclosing, Bool.true_and, List.all_eq_true]
  intro outlet houtlet
  obtain ⟨index, hindex⟩ := List.getElem?_of_mem houtlet
  have hended := ((h.meets index outlet hindex).of_stuck (step_of_stuck hstuck hindex)).2.2 hclosing
  exact decide_eq_true hended

/-! ### At the end -/

theorem isFinished_iff (fanOut : FanOut) : fanOut.isFinished = true ↔
    fanOut.closing = true ∧ ∀ outlet ∈ fanOut.outlets, outlet.stage ≠ .running := by
  unfold isFinished
  rw [Bool.and_eq_true, List.all_eq_true]
  simp only [decide_eq_true_eq]

/-- Nothing is in hand once nothing more is handed out. -/
theorem Meets.hand_of_closing (h : fanOut.Meets given) (hclosing : fanOut.closing = true) :
    fanOut.hand = none := by
  cases hhand : fanOut.hand with
  | none => rfl
  | some entry =>
    have hopen := (h.hand entry.1 entry.2 hhand).1
    rw [hclosing] at hopen
    cases hopen

theorem Counts.of_none (h : fanOut.Counts given) (hhand : fanOut.hand = none) :
    fanOut.dispatched = given.length := by
  unfold Counts at h
  rw [hhand] at h
  exact h

/-- Once nothing more is handed out all of it is due to each sink. -/
theorem Meets.of_closing (h : fanOut.Meets given) (hclosing : fanOut.closing = true) :
    ∀ outlet ∈ fanOut.outlets, outlet.Meets true given := by
  have hhand := h.hand_of_closing hclosing
  intro outlet houtlet
  obtain ⟨index, hindex⟩ := List.getElem?_of_mem houtlet
  have hmeets := h.meets index outlet hindex
  rw [due_of_none hhand, hclosing] at hmeets
  exact hmeets

end FanOut

end PassiveDns.Sink
