/-
  PassiveDns.Proofs.Fragments.Origin

  Where the octets of a datagram come from, whatever fragments were submitted and
  whenever those in progress were discarded. The fragments that are kept of a datagram are
  those that were taken since some are kept (`exists_since`); so a datagram that comes out is
  made of these and of nothing else (`made_of_taken`).
-/
import PassiveDns.Proofs.Fragments.Completion

namespace PassiveDns

/-- A datagram made of fragments: they follow one another from its first octet to its last,
    and the one in front says what it is. -/
structure Datagram.MadeOf (datagram : Datagram) (limits : FragmentLimits) (key : FragmentKey)
    (fragments : List Fragment) : Prop where
  keyed : ∀ f ∈ fragments, f.key = key
  checked : ∀ f ∈ fragments, limits.check f = .ok ()
  distinct : (fragments.map Fragment.offset).Nodup
  tiles : ∃ whole : List Fragment, whole.Perm fragments ∧ Adjoining 0 whole ∧
    whole.flatMap Fragment.payload = datagram.payload
  ended : ∃ f ∈ fragments, f.more = false
  size : datagram.payload.length ≤ limits.maxDatagram
  head : ∃ f ∈ fragments, f.offset = 0 ∧ datagram.header = f.header ∧ datagram.time = f.time

namespace Reassembly

section Origin

/-! ## Runs -/

/-- What is done to a reassembly. -/
inductive Event where
  | submit (fragment : Fragment) (now : Instant)
  | discard (cutoff : Instant)
deriving Repr, DecidableEq

/-- The reassembly after one event. -/
def perform (state : Reassembly) : Event → Reassembly
  | .submit fragment now => (state.submit fragment now).2
  | .discard cutoff => (state.discardOlderThan cutoff).2

/-- The reassembly after events. -/
def run (state : Reassembly) (events : List Event) : Reassembly :=
  events.foldl perform state

/-- The fragment that an event brings. -/
def Event.fragment? : Event → Option Fragment
  | .submit fragment _ => some fragment
  | .discard _ => none

/-- The fragments of a key that events bring. -/
def submittedFor (key : FragmentKey) (events : List Event) : List Fragment :=
  (events.filterMap Event.fragment?).filter fun f => f.key = key

variable {state : Reassembly} {key : FragmentKey} {fragment : Fragment} {events : List Event}

theorem run_append_singleton (state : Reassembly) (events : List Event) (event : Event) :
    state.run (events ++ [event]) = (state.run events).perform event :=
  List.foldl_append

theorem submittedFor_append_singleton (key : FragmentKey) (events : List Event) (event : Event) :
    submittedFor key (events ++ [event]) =
      submittedFor key events ++ submittedFor key [event] := by
  rw [submittedFor, List.filterMap_append, List.filter_append]
  rfl

theorem submittedFor_own (hkey : fragment.key = key) (now : Instant) :
    submittedFor key [.submit fragment now] = [fragment] := by
  simp [submittedFor, Event.fragment?, hkey]

theorem submittedFor_other (hkey : fragment.key ≠ key) (now : Instant) :
    submittedFor key [.submit fragment now] = [] := by
  simp [submittedFor, Event.fragment?, hkey]

theorem perform_limits (state : Reassembly) (event : Event) :
    (state.perform event).limits = state.limits := by
  cases event with
  | submit fragment now => exact submit_limits state fragment now
  | discard cutoff => rfl

theorem run_limits (state : Reassembly) (events : List Event) :
    (state.run events).limits = state.limits := by
  induction events generalizing state with
  | nil => rfl
  | cons event rest ih => exact (ih _).trans (perform_limits state event)

/-! ## What is kept -/

/-- Fragments are kept of a key on and on since a point of a run, and none were before it. -/
structure Since (start : Reassembly) (key : FragmentKey) (before since : List Event) : Prop where
  fresh : (start.run before).partials.get? key = none
  kept : ∀ early late, since = early ++ late → early ≠ [] →
    (start.run (before ++ early)).partials.get? key ≠ none

/-- The fragments of a key after an event, if any are kept of it then. -/
theorem Keeps.perform {came : List Fragment} (h : state.Keeps key (state.limits.taken came))
    (event : Event) (hkept : (state.perform event).partials.get? key ≠ none) :
    (state.perform event).Keeps key (state.limits.taken (came ++ submittedFor key [event])) := by
  cases event with
  | discard cutoff =>
    have hget : (state.perform (.discard cutoff)).partials.get? key =
        (state.partials.get? key).filter fun whole => cutoff ≤ whole.touched :=
      Table.get?_filter ..
    have hnone : submittedFor key [.discard cutoff] = [] := rfl
    rw [hnone, List.append_nil]
    rw [hget] at hkept
    rcases h with ⟨-, hempty⟩ | ⟨parts, hsome, hgathered⟩
    · rw [hempty] at hkept
      exact absurd rfl hkept
    · -- either they stay as they are or none are left
      refine .inr ⟨parts, ?_, hgathered⟩
      rw [hget, hsome]
      rw [hsome] at hkept
      exact Option.filter_some_pos (by simpa [Option.filter_eq_none_iff] using hkept)
  | submit fragment now =>
    by_cases hkey : fragment.key = key
    · rw [submittedFor_own hkey now]
      subst hkey
      have htaking := h.taking now
      show (state.submit fragment now).2.Keeps _ _
      have hkept' : (state.submit fragment now).2.partials.get? fragment.key ≠ none := hkept
      generalize state.submit fragment now = result at htaking hkept' ⊢
      cases htaking with
      | refused hcheck =>
        rw [taken_of_refused hcheck]
        exact h
      | repeated _ hstart =>
        rw [taken_of_repeated hstart]
        exact h
      | crowded => exact absurd (by simp [forget]) hkept'
      | waiting hcheck hnew =>
        rw [taken_of_new hcheck hnew]
        exact .inr ⟨_, by simp [put], h.withFragment now hnew⟩
      | broken hcheck hnew =>
        rw [taken_of_new hcheck hnew]
        exact .inr ⟨_, by simp [put], h.withFragment now hnew⟩
      | whole => exact absurd (by simp [forget]) hkept'
    · rw [submittedFor_other hkey now, List.append_nil]
      show (state.submit fragment now).2.Keeps key _
      rw [Keeps, submit_other hkey]
      exact h

/-- What is kept of a key at the end of a run is what was taken since some is kept. -/
theorem exists_since (limits : FragmentLimits) (key : FragmentKey) (events : List Event) :
    ∃ before since, events = before ++ since ∧ Since (empty limits) key before since ∧
      ((empty limits).run events).Keeps key (limits.taken (submittedFor key since)) := by
  induction events using List.reverseRecOn with
  | nil => exact ⟨[], [], rfl, ⟨rfl, by simp⟩, .inl ⟨rfl, rfl⟩⟩
  | append_singleton events event ih =>
    obtain ⟨before, since, rfl, hsince, hkeeps⟩ := ih
    by_cases hnone : ((empty limits).run (before ++ since ++ [event])).partials.get? key = none
    · -- nothing is left, so all begins anew
      exact ⟨before ++ since ++ [event], [], by simp, ⟨hnone, by simp⟩, .inl ⟨rfl, hnone⟩⟩
    · refine ⟨before, since ++ [event], List.append_assoc .., ⟨hsince.fresh, ?_⟩, ?_⟩
      · intro early late hsplit hne
        rcases List.eq_nil_or_concat late with rfl | ⟨late, last, rfl⟩
        · rw [List.append_nil] at hsplit
          rw [← hsplit, ← List.append_assoc]
          exact hnone
        · rw [List.concat_eq_append, ← List.append_assoc] at hsplit
          exact hsince.kept early late (List.append_inj' hsplit rfl).1 hne
      · rw [submittedFor_append_singleton]
        have hlimits : ((empty limits).run (before ++ since)).limits = limits :=
          run_limits (empty limits) (before ++ since)
        rw [run_append_singleton] at hnone ⊢
        generalize (empty limits).run (before ++ since) = state at hnone hkeeps hlimits ⊢
        subst hlimits
        exact hkeeps.perform event hnone

/-! ## Datagrams that come out -/

/-- Fragments that are complete and join make the datagram. -/
theorem madeOf_of_join {limits : FragmentLimits} {came : List Fragment} {parts : Partial}
    {first : Fragment} {payload : Octets} (h : Gathered came parts)
    (hkeyed : ∀ f ∈ came, f.key = key) (hchecked : ∀ f ∈ came, limits.check f = .ok ())
    (hcomplete : parts.isComplete = true) (hjoin : Partial.join 0 parts.pieces = .ok payload)
    (hfirst : first ∈ came) (hzero : first.start = 0) :
    Datagram.MadeOf ⟨first.header, payload, first.time⟩ limits key came := by
  obtain ⟨whole, hperm, hpieces⟩ := h.exists_whole
  rw [← hpieces] at hjoin
  obtain ⟨hadjoining, hpayload⟩ := Adjoining.of_join hjoin
  have hstops : ∀ f ∈ whole, f.stop ≤ limits.maxDatagram := fun f hf =>
    (FragmentLimits.check_eq_ok_iff.mp (hchecked f (hperm.mem_iff.mp hf))).short
  have hne : whole ≠ [] := List.ne_nil_of_mem (hperm.mem_iff.mpr hfirst)
  refine {
    keyed := hkeyed
    checked := hchecked
    distinct := ?_
    tiles := ⟨whole, hperm, hadjoining, hpayload⟩
    ended := ?_
    size := ?_
    head := ⟨first, hfirst, ?_, rfl, rfl⟩ }
  · have hstarts : ((came.map Fragment.offset).map (· * 8)).Nodup := by
      rw [List.map_map]
      exact h.distinct
    exact List.Nodup.of_map _ hstarts
  · have hlast : parts.lastSeen = true := (Bool.and_eq_true_iff.mp hcomplete).1
    rw [h.lastSeen, List.any_eq_true] at hlast
    obtain ⟨f, hf, hmore⟩ := hlast
    exact ⟨f, hf, by simpa using hmore⟩
  · show payload.length ≤ limits.maxDatagram
    rw [← hpayload, List.length_flatMap]
    have hsize := hadjoining.stop_le_iff hne hstops
    rw [sizeOf] at hsize
    omega
  · rw [Fragment.start] at hzero
    omega

/-- A datagram that comes out with a fragment is made of those kept before and of this one. -/
theorem Keeps.madeOf {came : List Fragment} {datagram : Datagram} {now : Instant}
    (h : state.Keeps fragment.key (state.limits.taken came))
    (hkeyed : ∀ f ∈ came, f.key = fragment.key)
    (hsubmit : (state.submit fragment now).1 = .ok (some datagram)) :
    state.limits.taken (came ++ [fragment]) = state.limits.taken came ++ [fragment] ∧
      datagram.MadeOf state.limits fragment.key (state.limits.taken (came ++ [fragment])) := by
  have htaking := h.taking now
  generalize state.submit fragment now = result at htaking hsubmit
  cases htaking with
  | refused => cases hsubmit
  | repeated => cases hsubmit
  | crowded => cases hsubmit
  | waiting => cases hsubmit
  | broken => cases hsubmit
  | whole hcheck hnew _ hcomplete hjoin hfirst hzero =>
    obtain rfl := Option.some.inj (Except.ok.inj hsubmit)
    have htaken := taken_of_new hcheck hnew
    refine ⟨htaken, ?_⟩
    have hmem : ∀ f ∈ state.limits.taken came ++ [fragment],
        f ∈ came ++ [fragment] ∧ state.limits.check f = .ok () := fun f hf => by
      rw [← htaken] at hf
      exact mem_of_mem_taken hf
    rw [htaken]
    refine madeOf_of_join (h.withFragment now hnew) (fun f hf => ?_) (fun f hf => (hmem f hf).2)
      hcomplete hjoin hfirst hzero
    rcases List.mem_append.mp (hmem f hf).1 with hf | hf
    · exact hkeyed f hf
    · rw [List.mem_singleton.mp hf]

/-- Whatever happened before, a datagram that comes out is made of the fragments of its key
    that were taken since some of them are kept, the one with which it comes out included. -/
theorem exists_madeOf {limits : FragmentLimits} {now : Instant} {datagram : Datagram}
    (hsubmit : (((empty limits).run events).submit fragment now).1 = .ok (some datagram)) :
    ∃ before since, events = before ++ since ∧ Since (empty limits) fragment.key before since ∧
      limits.taken (submittedFor fragment.key (since ++ [.submit fragment now])) =
        limits.taken (submittedFor fragment.key since) ++ [fragment] ∧
      datagram.MadeOf limits fragment.key
        (limits.taken (submittedFor fragment.key (since ++ [.submit fragment now]))) := by
  obtain ⟨before, since, hsplit, hsince, hkeeps⟩ := exists_since limits fragment.key events
  have hlimits : ((empty limits).run events).limits = limits := run_limits (empty limits) events
  generalize (empty limits).run events = state at hkeeps hlimits hsubmit
  subst hlimits
  refine ⟨before, since, hsplit, hsince, ?_⟩
  rw [submittedFor_append_singleton, submittedFor_own rfl now]
  exact hkeeps.madeOf (fun f hf => by simpa using (List.mem_filter.mp hf).2) hsubmit

/-- Whatever happened before, a datagram that comes out is made of the fragments of its key
    that were taken since some of them are kept, the one with which it comes out included.
    Where the payloads of fragments join there is always one that says what the datagram
    is. -/
theorem made_of_taken (limits : FragmentLimits) (events : List Event) (fragment : Fragment)
    (now : Instant) :
    (∀ datagram, (((empty limits).run events).submit fragment now).1 = .ok (some datagram) →
      ∃ before since, events = before ++ since ∧ Since (empty limits) fragment.key before since ∧
        limits.taken (submittedFor fragment.key (since ++ [.submit fragment now])) =
          limits.taken (submittedFor fragment.key since) ++ [fragment] ∧
        datagram.MadeOf limits fragment.key
          (limits.taken (submittedFor fragment.key (since ++ [.submit fragment now])))) ∧
    ∀ payload, Partial.join 0 (((empty limits).run events).withFragment fragment now).pieces =
      .ok payload → (((empty limits).run events).withFragment fragment now).head ≠ none := by
  refine ⟨fun datagram hsubmit => exists_madeOf hsubmit, fun payload hjoin => ?_⟩
  obtain ⟨_, _, -, -, hkeeps⟩ := exists_since limits fragment.key events
  exact (hkeeps.gathered now).head_of_add hjoin

end Origin

/-! ### Fragments that do not belong together -/

open Shuffled (fragment)

/-- A first fragment that is discarded, one too far behind, the end, a repeat of its offset,
    and a fragment of another datagram. -/
def hostile : List Event :=
  [.submit (fragment 7 0 true [9, 9, 9, 9, 9, 9, 9, 9]) 0, .discard 5,
    .submit (fragment 7 9000 true [9, 9, 9, 9, 9, 9, 9, 9]) 6,
    .submit (fragment 7 1 false [8, 9]) 7, .submit (fragment 7 1 true [1, 1, 1, 1, 1, 1, 1, 1]) 8,
    .submit (fragment 8 0 true []) 9]

/-- The fragment that completes the datagram. -/
def completing : Fragment := fragment 7 0 true [0, 1, 2, 3, 4, 5, 6, 7]

/-- The datagram has none of the octets that do not belong to it. -/
theorem made_of_taken_hostile :
    (((empty (.ofVersion .v4)).run hostile).submit completing 10).1 =
      .ok (some ⟨completing.header, [0, 1, 2, 3, 4, 5, 6, 7, 8, 9], none⟩) ∧
      ∃ before since, hostile = before ++ since ∧
        Since (empty (.ofVersion .v4)) completing.key before since ∧
        Datagram.MadeOf ⟨completing.header, [0, 1, 2, 3, 4, 5, 6, 7, 8, 9], none⟩ (.ofVersion .v4)
          completing.key ((FragmentLimits.ofVersion .v4).taken
            (submittedFor completing.key (since ++ [.submit completing 10]))) := by
  have hsubmit : (((empty (.ofVersion .v4)).run hostile).submit completing 10).1 =
      .ok (some ⟨completing.header, [0, 1, 2, 3, 4, 5, 6, 7, 8, 9], none⟩) := by
    decide
  obtain ⟨before, since, hsplit, hsince, -, hmade⟩ :=
    (made_of_taken (.ofVersion .v4) hostile completing 10).1 _ hsubmit
  exact ⟨hsubmit, before, since, hsplit, hsince, hmade⟩

end Reassembly

end PassiveDns
