/-
  PassiveDns.Proofs.Fragments.Eviction

  Which datagrams in progress are discarded as too old. What counts is when a fragment was
  last taken of them, whatever came since and was not (`lastEntered`); all that are older
  than the cutoff go and no others (`discards_idle`).
-/
import PassiveDns.Proofs.Fragments.Effects

namespace PassiveDns.Reassembly

/-! ## When a fragment was last taken -/

/-- A fragment that is taken among those of its datagram: it keeps the limits, is the first
    at its offset, and there is room. -/
structure Enters (state : Reassembly) (fragment : Fragment) (now : Instant) : Prop where
  admits : state.limits.Admits fragment
  new : ¬(state.fragmentsOf fragment.key now).Holds fragment.start
  room : (state.fragmentsOf fragment.key now).pieces.length < state.limits.maxFragments

/-- A fragment that was taken after `early` is the last one, up to the end of `late`, that was
    taken of the datagram in progress of its key. -/
structure Latest (start : Reassembly) (early : List Event) (fragment : Fragment)
    (time : Instant) (late : List Event) : Prop where
  enters : (start.run early).Enters fragment time
  /-- The datagram is in progress since. -/
  kept : ∀ more, more <+: late →
    (start.run (early ++ .submit fragment time :: more)).partials.get? fragment.key ≠ none
  /-- What else came was not taken. -/
  last : ∀ more other now rest, late = more ++ .submit other now :: rest →
    other.key = fragment.key →
      ¬(start.run (early ++ .submit fragment time :: more)).Enters other now

/-- When the fragment was submitted that was the last to be taken of the datagram in progress
    of a key. -/
def LastEntered (start : Reassembly) (key : FragmentKey) (events : List Event)
    (time : Instant) : Prop :=
  ∃ early fragment late, events = early ++ .submit fragment time :: late ∧
    fragment.key = key ∧ Latest start early fragment time late

section Eviction

variable {start : Reassembly} {key : FragmentKey} {events : List Event} {time : Instant}

/-- It is the last one still after an event that leaves its datagram in progress and takes
    nothing. -/
theorem LastEntered.snoc (h : LastEntered start key events time) {event : Event}
    (hkept : (start.run (events ++ [event])).partials.get? key ≠ none)
    (hnot : ∀ other now, event = .submit other now → other.key = key →
      ¬(start.run events).Enters other now) :
    LastEntered start key (events ++ [event]) time := by
  obtain ⟨early, fragment, late, rfl, rfl, hlatest⟩ := h
  rw [List.append_assoc, List.cons_append] at hkept ⊢
  refine ⟨early, fragment, late ++ [event], rfl, rfl, hlatest.enters, ?_, ?_⟩
  · intro more hmore
    rcases List.prefix_concat_iff.mp hmore with rfl | hmore
    · exact hkept
    · exact hlatest.kept more hmore
  · intro more other now rest hsplit hkey
    -- the event is either the one that is added or was there before
    rcases List.eq_nil_or_concat rest with rfl | ⟨rest, last, rfl⟩
    · obtain ⟨rfl, hlast⟩ := List.append_inj' hsplit rfl
      exact hnot other now (List.cons.inj hlast).1 hkey
    · rw [List.concat_eq_append, ← List.cons_append, ← List.append_assoc] at hsplit
      exact hlatest.last more other now rest (List.append_inj' hsplit rfl).1 hkey

/-- No fragment of its datagram is taken behind it. -/
theorem Latest.time_eq {early more late late' : List Event} {fragment fragment' : Fragment}
    {time' : Instant} (h : Latest start early fragment time late)
    (hsplit : .submit fragment time :: late = more ++ .submit fragment' time' :: late')
    (hkey : fragment'.key = fragment.key)
    (henters : (start.run (early ++ more)).Enters fragment' time') : time = time' := by
  cases more with
  | nil => exact (Event.submit.inj (List.cons.inj hsplit).1).2
  | cons event more =>
    obtain ⟨rfl, hlate⟩ := List.cons.inj hsplit
    exact absurd henters (h.last more fragment' time' late' hlate hkey)

/-- Of one key there is one such time. -/
theorem LastEntered.unique (h : LastEntered start key events time) {time' : Instant}
    (h' : LastEntered start key events time') : time = time' := by
  obtain ⟨early, fragment, late, rfl, hkey, hlatest⟩ := h
  obtain ⟨early', fragment', late', hsplit, hkey', hlatest'⟩ := h'
  rcases List.append_eq_append_iff.mp hsplit with ⟨more, rfl, hmore⟩ | ⟨more, rfl, hmore⟩
  · exact hlatest.time_eq hmore (hkey'.trans hkey.symm) hlatest'.enters
  · exact (hlatest'.time_eq hmore (hkey.trans hkey'.symm) hlatest.enters).symm

/-- The time that is written down of a datagram is that of the fragment taken last. -/
theorem lastEntered {limits : FragmentLimits} {parts : Partial}
    (h : ((empty limits).run events).partials.get? key = some parts) :
    LastEntered (empty limits) key events parts.touched := by
  -- each event keeps the time that is written down, or is itself the last to be taken
  induction events using List.reverseRecOn generalizing parts with
  | nil => cases h
  | append_singleton events event ih =>
    -- after the event too the datagram is in progress, which is what `snoc` asks for
    have hkept : ((empty limits).run (events ++ [event])).partials.get? key ≠ none := by
      rw [h]
      exact Option.some_ne_none _
    rw [run_append_singleton] at h
    cases event with
    | discard cutoff =>
      replace h : (((empty limits).run events).partials.filter _).get? key = some parts := h
      rw [Table.get?_filter, Option.filter_eq_some_iff] at h
      exact (ih h.1).snoc hkept fun other now heq => by cases heq
    | submit fragment now =>
      replace h : (((empty limits).run events).submit fragment now).2.partials.get? key =
        some parts := h
      by_cases hkey : fragment.key = key
      · subst hkey
        have hturn := turn_run limits events fragment now
        have hlimits : ((empty limits).run events).limits = limits := run_limits _ _
        -- what is not taken leaves the list
        have hsame (hget : ((empty limits).run events).partials.get? fragment.key = some parts)
            (hnot : ¬((empty limits).run events).Enters fragment now) :
            LastEntered (empty limits) fragment.key (events ++ [.submit fragment now])
              parts.touched := by
          refine (ih hget).snoc hkept fun other now' heq _ => ?_
          obtain ⟨rfl, rfl⟩ := Event.submit.inj heq
          exact hnot
        generalize ((empty limits).run events).submit fragment now = result at hturn h
        cases hturn with
        | refused hbreaks =>
          exact hsame h fun henters => (hlimits ▸ henters.admits).not_breaks hbreaks
        | repeated _ hholds => exact hsame h fun henters => henters.new hholds
        | crowded => simp [forget] at h
        | whole => simp [forget] at h
        | @kept _ gained _ hadmits hnew hroom hgains =>
          have hgained : gained = parts := by simpa [put] using h
          rw [← hgained, hgains.touched]
          have henters : ((empty limits).run events).Enters fragment now := by
            refine ⟨?_, hnew, ?_⟩
            · rw [hlimits]
              exact hadmits
            · rw [hlimits]
              exact hroom
          refine ⟨events, fragment, [], rfl, rfl, henters, fun more hmore => ?_,
            fun more other now' rest hsplit => ?_⟩
          · rw [List.prefix_nil.mp hmore]
            exact hkept
          · exact absurd hsplit (by simp)
      · rw [submit_other hkey] at h
        refine (ih h).snoc hkept fun other now' heq hother => ?_
        obtain ⟨rfl, rfl⟩ := Event.submit.inj heq
        exact absurd hother hkey

/-! ## What is discarded -/

/-- What discarding with a cutoff leaves, told by what was submitted before. -/
structure Discards (start : Reassembly) (events : List Event) (cutoff : Instant) (count : Nat)
    (after : Reassembly) : Prop where
  limits : after.limits = start.limits
  /-- Each datagram in progress has one time at which it last took a fragment. -/
  times : ∀ key, (start.run events).partials.get? key ≠ none ↔
    ∃ time, LastEntered start key events time
  unique : ∀ key time time', LastEntered start key events time →
    LastEntered start key events time' → time = time'
  /-- That time decides. -/
  kept_iff : ∀ key, after.partials.get? key ≠ none ↔
    (start.run events).partials.get? key ≠ none ∧
      ∃ time, LastEntered start key events time ∧ cutoff ≤ time
  /-- What stays is as it was. -/
  same : ∀ key parts, after.partials.get? key = some parts →
    (start.run events).partials.get? key = some parts
  /-- What does not is counted. -/
  counts : count = ((start.run events).partials.entries.filter fun entry =>
    !after.partials.contains entry.1).length
  /-- Nothing is left if nothing was taken since the cutoff. -/
  empties : (∀ early fragment time late, events = early ++ .submit fragment time :: late →
    (start.run early).Enters fragment time → time < cutoff) → after.partials.entries = []

theorem get?_discard (state : Reassembly) (cutoff : Instant) (key : FragmentKey) :
    (state.discardOlderThan cutoff).2.partials.get? key =
      (state.partials.get? key).filter fun parts => cutoff ≤ parts.touched :=
  Table.get?_filter ..

theorem discard_count (state : Reassembly) (cutoff : Instant) :
    (state.discardOlderThan cutoff).1 = (state.partials.entries.filter fun entry =>
      !(state.discardOlderThan cutoff).2.partials.contains entry.1).length := by
  have hsize := Table.size_filter_add state.partials fun _ parts => cutoff ≤ parts.touched
  exact Nat.sub_eq_of_eq_add (hsize.symm.trans (Nat.add_comm ..))

/-- A datagram in progress has a fragment that was taken last, and nothing else has. -/
theorem inProgress_iff (limits : FragmentLimits) (events : List Event) (key : FragmentKey) :
    ((empty limits).run events).partials.get? key ≠ none ↔
      ∃ time, LastEntered (empty limits) key events time := by
  constructor
  · intro hsome
    obtain ⟨parts, hget⟩ := Option.ne_none_iff_exists'.mp hsome
    exact ⟨parts.touched, lastEntered hget⟩
  · rintro ⟨time, early, fragment, late, rfl, rfl, hlatest⟩
    exact hlatest.kept late (List.prefix_refl late)

/-- It is kept if that was at the cutoff or later. -/
theorem kept_iff (limits : FragmentLimits) (events : List Event) (cutoff : Instant)
    (key : FragmentKey) :
    (((empty limits).run events).discardOlderThan cutoff).2.partials.get? key ≠ none ↔
      ((empty limits).run events).partials.get? key ≠ none ∧
        ∃ time, LastEntered (empty limits) key events time ∧ cutoff ≤ time := by
  rw [get?_discard]
  cases hget : ((empty limits).run events).partials.get? key with
  | none => simp
  | some parts =>
    have hlast := lastEntered hget
    have hfilter : (some parts).filter (fun parts => cutoff ≤ parts.touched) ≠ none ↔
        cutoff ≤ parts.touched := by
      simp [Option.filter_eq_none_iff]
    rw [hfilter]
    constructor
    · intro hcutoff
      exact ⟨Option.some_ne_none _, parts.touched, hlast, hcutoff⟩
    · rintro ⟨-, time, htime, hcutoff⟩
      rw [hlast.unique htime]
      exact hcutoff

/-- **Only idle datagrams are discarded, and all of them.** Whatever fragments were submitted
    under whatever limits, and whenever others were discarded before: a datagram in progress
    stays if the last fragment that was taken of it came at the cutoff or later. What came
    since and was refused, or was there already, does not count. -/
theorem discards_idle (limits : FragmentLimits) (events : List Event) (cutoff : Instant) :
    Discards (empty limits) events cutoff
      (((empty limits).run events).discardOlderThan cutoff).1
      (((empty limits).run events).discardOlderThan cutoff).2 where
  limits := run_limits (empty limits) events
  times := inProgress_iff limits events
  unique := fun _ _ _ h h' => h.unique h'
  kept_iff := kept_iff limits events cutoff
  same := fun key parts h => by
    rw [get?_discard, Option.filter_eq_some_iff] at h
    exact h.1
  counts := discard_count _ cutoff
  empties := fun hold => by
    refine List.eq_nil_iff_forall_not_mem.mpr fun entry hentry => ?_
    have hkept : (((empty limits).run events).discardOlderThan cutoff).2.partials.get? entry.1 ≠
        none := by
      rw [Table.get?_of_mem hentry]
      exact Option.some_ne_none _
    obtain ⟨-, time, ⟨early, fragment, late, hsplit, -, hlatest⟩, hcutoff⟩ :=
      (kept_iff limits events cutoff entry.1).mp hkept
    exact Nat.not_lt_of_le hcutoff (hold early fragment time late hsplit hlatest.enters)

end Eviction

open Shuffled (fragment) in
/-- A repeat does not keep its datagram. -/
example :
    (((empty (.ofVersion .v4)).run
      [.submit (fragment 7 0 true [0, 1, 2, 3, 4, 5, 6, 7]) 0,
        .submit (fragment 7 0 true [0, 1, 2, 3, 4, 5, 6, 7]) 9]).discardOlderThan 5).1 = 1 := by
  decide

end PassiveDns.Reassembly
