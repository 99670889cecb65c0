/-
  PassiveDns.Proofs.FanOut

  Every sink that does not break gets every observation. `Serves` says how far each sink is
  with what was given to the hand-out: it has all of it, and the sinks behind the one that
  is served next lack what is in hand. Nothing but the end stops the sinks for good, and
  each step leaves less to do. For sinks none of which breaks it is `Meets`.
-/
import Mathlib.Data.List.Basic
import Mathlib.Tactic.Common
import PassiveDns.Proofs.Outlets

namespace PassiveDns.Sink

/-! ## One sink -/

namespace Outlet

/-- A sink that never breaks and has been handed some observations. Only once nothing more is
    handed out may it have ended, with nothing left to write. -/
structure Has (closing : Bool) (given : List Observation) (outlet : Outlet) : Prop where
  handed : outlet.handed = given
  live : outlet.live = true
  unblocked : outlet.blocked = false
  lasting : ∀ n, outlet.sink.reply n ≠ .broken
  stage : outlet.stage = .running ∨
    outlet.stage = .closed ∧ closing = true ∧ outlet.hand = none ∧ outlet.queue = []

variable {closing : Bool} {given : List Observation} {outlet : Outlet}

/-- A sink that never breaks stands with all that is due to it. -/
theorem has_iff : outlet.Has closing given ↔
    outlet.Meets closing given ∧ ∀ n, outlet.sink.reply n ≠ .broken := by
  constructor
  · intro h
    refine ⟨⟨?_, h.unblocked, fun n _ => h.lasting n⟩, h.lasting⟩
    rcases h.stage with hrunning | ⟨hclosed, hclosing, hhand, hqueue⟩
    · exact .running hrunning h.live h.handed
    · refine .closed hclosed hclosing h.live hhand hqueue ?_
      rw [← handed_of_done hhand hqueue, h.handed]
  · rintro ⟨h, hlasting⟩
    cases h.standing with
    | running hstage hlive hhanded =>
      exact ⟨hhanded, hlive, h.unblocked, hlasting, .inl hstage⟩
    | closed hstage hclosing hlive hhand hqueue htaken =>
      refine ⟨?_, hlive, h.unblocked, hlasting, .inr ⟨hstage, hclosing, hhand, hqueue⟩⟩
      rw [handed_of_done hhand hqueue, htaken]
    | broken _ _ _ _ hreply => exact absurd hreply (hlasting _)

end Outlet

/-! ## All sinks -/

namespace FanOut

/-- The sinks have what was given to the hand-out. -/
structure Serves (given : List Observation) (fanOut : FanOut) : Prop where
  room : 0 < fanOut.capacity
  hand : ∀ observation served, fanOut.hand = some (observation, served) →
    fanOut.closing = false ∧ served ≤ fanOut.outlets.length ∧ given.getLast? = some observation
  has : ∀ index (outlet : Outlet), fanOut.outlets[index]? = some outlet →
    outlet.Has fanOut.closing (fanOut.due given index)

variable {given : List Observation} {fanOut after : FanOut}

/-- No sink breaks. -/
def Lasting (fanOut : FanOut) : Prop := ∀ sink ∈ fanOut.sinks, ∀ n, sink.reply n ≠ .broken

theorem serves_iff : fanOut.Serves given ↔ fanOut.Meets given ∧ fanOut.Lasting := by
  constructor
  · intro h
    refine ⟨⟨h.room, h.hand, fun index outlet houtlet =>
      (Outlet.has_iff.mp (h.has index outlet houtlet)).1⟩, fun sink hsink => ?_⟩
    obtain ⟨outlet, houtlet, rfl⟩ := List.mem_map.mp hsink
    obtain ⟨index, hindex⟩ := List.getElem?_of_mem houtlet
    exact (h.has index outlet hindex).lasting
  · rintro ⟨h, hlasting⟩
    refine ⟨h.room, h.hand, fun index outlet houtlet => Outlet.has_iff.mpr
      ⟨h.meets index outlet houtlet, hlasting outlet.sink ?_⟩⟩
    exact List.mem_map_of_mem (List.mem_of_getElem? houtlet)

theorem serves_ofSinks {capacity : Nat} (hcapacity : 0 < capacity) {sinks : List Sink}
    (hlasting : ∀ sink ∈ sinks, ∀ n, sink.reply n ≠ .broken) :
    (ofSinks capacity sinks).Serves [] ∧ (ofSinks capacity sinks).closing = false ∧
      (ofSinks capacity sinks).hand = none := by
  refine ⟨serves_iff.mpr ⟨meets_ofSinks hcapacity sinks, fun sink hsink => ?_⟩, ?_, ?_⟩
  · rw [sinks_ofSinks] at hsink
    exact hlasting sink (List.mem_filter.mp hsink).1
  · rw [outlets_ofSinks]
  · rw [outlets_ofSinks]

/-- A further observation is in hand, and no sink has it yet. -/
theorem Serves.take (h : fanOut.Serves given) (hhand : fanOut.hand = none)
    (hopen : fanOut.closing = false) (observation : Observation) :
    (fanOut.take observation).Serves (given ++ [observation]) := by
  obtain ⟨hmeets, hlasting⟩ := serves_iff.mp h
  exact serves_iff.mpr ⟨hmeets.take hhand hopen observation, hlasting⟩

/-- The hand-out goes on to the next sink, or is through with all. -/
theorem Serves.handOut (h : fanOut.Serves given) (hstep : HandingOut fanOut after) :
    after.Serves given ∧ after.handLoad < fanOut.handLoad ∧ after.closing = fanOut.closing := by
  obtain ⟨hmeets, hlasting⟩ := serves_iff.mp h
  obtain ⟨hafter, hless, hclosing⟩ := hmeets.handOut hstep
  refine ⟨serves_iff.mpr ⟨hafter, ?_⟩, hless, hclosing⟩
  unfold Lasting
  rw [sinks_of_handingOut hstep]
  exact hlasting

/-- A sink goes on. -/
theorem Serves.write {tally : List (Series × Nat)} {index : Nat} (h : fanOut.Serves given)
    (hstep : fanOut.write? index = some (tally, after)) :
    after.Serves given ∧ after.writeLoad < fanOut.writeLoad ∧ after.hand = fanOut.hand ∧
      after.closing = fanOut.closing ∧ after.handLoad = fanOut.handLoad := by
  obtain ⟨hmeets, hlasting⟩ := serves_iff.mp h
  obtain ⟨hafter, hrest⟩ := hmeets.write (writing hstep)
  refine ⟨serves_iff.mpr ⟨hafter, ?_⟩, hrest⟩
  unfold Lasting
  rw [sinks_of_writing (writing hstep)]
  exact hlasting

/-- Nothing more is handed out. -/
theorem Serves.close (h : fanOut.Serves given) (hhand : fanOut.hand = none) :
    fanOut.close.Serves given := by
  obtain ⟨hmeets, hlasting⟩ := serves_iff.mp h
  exact serves_iff.mpr ⟨hmeets.close hhand, hlasting⟩

/-- Once all sinks have ended each has taken all that was given to the hand-out. -/
theorem Serves.taken_of_finished (h : fanOut.Serves given) (hfinished : fanOut.isFinished = true) :
    ∀ outlet ∈ fanOut.outlets, outlet.live = true ∧ outlet.taken.toList = given := by
  obtain ⟨hclosing, hended⟩ := (isFinished_iff fanOut).mp hfinished
  obtain ⟨hmeets, hlasting⟩ := serves_iff.mp h
  intro outlet houtlet
  have houtletMeets := hmeets.of_closing hclosing outlet houtlet
  have hhas := Outlet.has_iff.mpr ⟨houtletMeets, hlasting _ (List.mem_map_of_mem houtlet)⟩
  refine ⟨hhas.live, ?_⟩
  rcases hhas.stage with hrunning | ⟨_, _, hhand, hqueue⟩
  · exact absurd hrunning (hended outlet houtlet)
  · rw [← Outlet.handed_of_done hhand hqueue, hhas.handed]

end FanOut

end PassiveDns.Sink
