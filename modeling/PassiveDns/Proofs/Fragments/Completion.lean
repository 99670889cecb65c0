/-
  PassiveDns.Proofs.Fragments.Completion

  A whole set of fragments gives its datagram in every order. Fragments of other datagrams
  and repeats of offsets that are there may come in between: neither changes what is kept
  (`keeps_after`), nothing comes out before the last fragment that is missing, and with it
  the datagram does (`completes_in_any_order`).
-/
import PassiveDns.Proofs.Datagrams

namespace PassiveDns

namespace Reassembly

section Completion

variable {state : Reassembly} {key : FragmentKey} {whole came rest : List Fragment}
  {fragment : Fragment}

theorem after_append (state : Reassembly) (early late : List (Fragment × Instant)) :
    state.after (early ++ late) = (state.after early).after late :=
  List.foldl_append

theorem after_limits (state : Reassembly) (arrivals : List (Fragment × Instant)) :
    (state.after arrivals).limits = state.limits := by
  induction arrivals generalizing state with
  | nil => rfl
  | cons arrival rest ih => exact (ih _).trans (submit_limits state arrival.1 arrival.2)

theorem fragmentsFor_append (key : FragmentKey) (early late : List (Fragment × Instant)) :
    fragmentsFor key (early ++ late) = fragmentsFor key early ++ fragmentsFor key late := by
  rw [fragmentsFor, List.map_append, List.filter_append]
  rfl

theorem fragmentsFor_own (hkey : fragment.key = key) (now : Instant) :
    fragmentsFor key [(fragment, now)] = [fragment] := by
  simp [fragmentsFor, hkey]

theorem fragmentsFor_other (hkey : fragment.key ≠ key) (now : Instant) :
    fragmentsFor key [(fragment, now)] = [] := by
  simp [fragmentsFor, hkey]

/-- A repeat of an offset changes nothing. -/
theorem Keeps.submit_of_repeated (h : state.Keeps fragment.key came)
    (hcheck : state.limits.check fragment = .ok ()) (hstart : ∃ g ∈ came, g.start = fragment.start)
    (now : Instant) : state.submit fragment now = (.ok none, state) := by
  rw [Reassembly.submit, hcheck]
  show state.accept fragment now = _
  rw [accept_eq, if_pos (((h.gathered now).hasStart _).mpr hstart)]

/-- A repeat, or a fragment behind which others are still missing. -/
theorem Keeps.submit_of_open (h : state.Keeps key (state.limits.taken came))
    (hwhole : Whole state.limits key whole) (hkey : fragment.key = key)
    (hcheck : state.limits.check fragment = .ok ())
    (hsplit : (state.limits.taken (came ++ [fragment]) ++ rest).Perm whole) (hmissing : rest ≠ [])
    (now : Instant) :
    (state.submit fragment now).1 = .ok none ∧
      (state.submit fragment now).2.Keeps key (state.limits.taken (came ++ [fragment])) := by
  by_cases hstart : ∃ g ∈ state.limits.taken came, g.start = fragment.start
  · rw [taken_of_repeated hstart]
    rw [← hkey] at h ⊢
    rw [h.submit_of_repeated hcheck hstart now]
    exact ⟨rfl, h⟩
  · rw [taken_of_new hcheck fun g hg heq => hstart ⟨g, hg, heq⟩] at hsplit ⊢
    rw [List.append_assoc] at hsplit
    exact h.submit_of_missing hwhole hsplit hmissing now

/-- As long as fragments of a datagram are missing, exactly those that came are kept,
    whatever else came. -/
theorem keeps_after {arrivals : List (Fragment × Instant)} (hnone : state.partials.get? key = none)
    (hwhole : Whole state.limits key whole)
    (hchecked : ∀ arrival ∈ arrivals, arrival.1.key = key → state.limits.check arrival.1 = .ok ())
    (hsplit : (state.limits.taken (fragmentsFor key arrivals) ++ rest).Perm whole)
    (hmissing : rest ≠ []) :
    (state.after arrivals).Keeps key (state.limits.taken (fragmentsFor key arrivals)) := by
  induction arrivals using List.reverseRecOn generalizing rest with
  | nil => exact .inl ⟨rfl, hnone⟩
  | append_singleton arrivals arrival ih =>
    obtain ⟨fragment, now⟩ := arrival
    rw [fragmentsFor_append] at hsplit ⊢
    rw [after_append]
    show ((state.after arrivals).submit fragment now).2.Keeps key _
    -- what was missing before this fragment came
    obtain ⟨more, hmore⟩ := taken_append state.limits (fragmentsFor key arrivals)
      (fragmentsFor key [(fragment, now)])
    have hearly : (state.limits.taken (fragmentsFor key arrivals) ++ (more ++ rest)).Perm
        whole := by
      rw [← List.append_assoc, ← hmore]
      exact hsplit
    have hkeeps := ih (fun arrival harrival => hchecked arrival (List.mem_append_left _ harrival))
      hearly (by simp [hmissing])
    by_cases hkey : fragment.key = key
    · have hcheck := hchecked (fragment, now) (by simp) hkey
      rw [fragmentsFor_own hkey now] at hsplit ⊢
      rw [← after_limits state arrivals] at hwhole hcheck hsplit hkeeps ⊢
      exact (hkeeps.submit_of_open hwhole hkey hcheck hsplit hmissing now).2
    · rw [fragmentsFor_other hkey now, List.append_nil, Keeps, submit_other hkey]
      exact hkeeps

/-- A datagram in fragments, none of which are there at first. They come in any order, one
    `last`; in between come fragments of other datagrams, and more of this one at offsets
    that came before. Every fragment but the last is answered with nothing, the last with
    the datagram: the payloads in the order of their offsets, under the header and with the
    time of the fragment at offset zero. Then nothing is kept of it. -/
theorem completes_in_any_order {arrivals : List (Fragment × Instant)} {last : Fragment}
    (now : Instant) (hnone : state.partials.get? key = none)
    (hwhole : Whole state.limits key whole)
    (hchecked : ∀ arrival ∈ arrivals, arrival.1.key = key → state.limits.check arrival.1 = .ok ())
    (hall : (state.limits.taken (fragmentsFor key arrivals) ++ [last]).Perm whole) :
    (∀ early fragment at' late, arrivals = early ++ (fragment, at') :: late → fragment.key = key →
      ((state.after early).submit fragment at').1 = .ok none) ∧
    (∃ first ∈ whole, first.offset = 0 ∧ ((state.after arrivals).submit last now).1 =
      .ok (some ⟨first.header, whole.flatMap Fragment.payload, first.time⟩)) ∧
    ((state.after arrivals).submit last now).2.partials.get? key = none := by
  refine ⟨fun early fragment at' late heq hkey => ?_, ?_⟩
  · -- the fragments that came up to this one, and those that were missing then
    subst heq
    have hsplit := hall
    rw [List.append_cons early, fragmentsFor_append, fragmentsFor_append,
      fragmentsFor_own hkey at'] at hsplit
    obtain ⟨more, hmore⟩ := taken_append state.limits (fragmentsFor key early ++ [fragment])
      (fragmentsFor key late)
    rw [hmore, List.append_assoc] at hsplit
    obtain ⟨own, hown⟩ := taken_append state.limits (fragmentsFor key early) [fragment]
    have hearly : (state.limits.taken (fragmentsFor key early) ++ (own ++ (more ++ [last]))).Perm
        whole := by
      rw [← List.append_assoc, ← hown]
      exact hsplit
    have hkeeps := keeps_after hnone hwhole
      (fun arrival harrival => hchecked arrival (List.mem_append_left _ harrival)) hearly (by simp)
    have hcheck := hchecked (fragment, at') (by simp) hkey
    rw [← after_limits state early] at hwhole hcheck hsplit hkeeps
    exact (hkeeps.submit_of_open hwhole hkey hcheck hsplit (by simp) at').1
  · have hkeeps := keeps_after hnone hwhole hchecked hall (by simp)
    rw [← after_limits state arrivals] at hwhole
    obtain ⟨first, hfirst, hzero, hsubmit⟩ := hkeeps.submit_of_last hwhole hall now
    rw [hsubmit]
    have hoffset : first.offset = 0 := by
      rw [Fragment.start] at hzero
      omega
    exact ⟨⟨first, hfirst, hoffset, rfl⟩, by simp [forget]⟩

end Completion

/-! ### Three fragments the wrong way round -/

namespace Shuffled

/-- A fragment from a stub resolver to a server. -/
def fragment (id : UInt32) (offset : Nat) (more : Bool) (payload : Octets) : Fragment :=
  ⟨⟨.v4, .v4 0x0a000001, .v4 0x0a000035, 17⟩, id, offset, more, payload, none⟩

/-- A datagram of nineteen octets. -/
def fragments : List Fragment :=
  [fragment 7 0 true [0, 1, 2, 3, 4, 5, 6, 7], fragment 7 1 true [8, 9, 10, 11, 12, 13, 14, 15],
    fragment 7 2 false [16, 17, 18]]

/-- The last two of them, the first part of another datagram, and two repeats that tell
    something else. -/
def arrivals : List (Fragment × Instant) :=
  [(fragment 7 2 false [16, 17, 18], 1), (fragment 8 0 true [0, 0, 0, 0, 0, 0, 0, 0], 2),
    (fragment 7 2 true [1, 1, 1, 1, 1, 1, 1, 1], 3),
    (fragment 7 1 true [8, 9, 10, 11, 12, 13, 14, 15], 4), (fragment 7 1 false [], 5)]

/-- What the datagram has in common. -/
def key : FragmentKey := ⟨.v4 0x0a000001, .v4 0x0a000035, 17, 7⟩

theorem whole_fragments : Whole (.ofVersion .v4) key fragments :=
  ⟨.before rfl rfl (by decide) (.before rfl rfl (by decide) (.last rfl rfl)), by decide, by decide,
    by decide⟩

end Shuffled

open Shuffled in
/-- The fragment at offset zero comes last. -/
theorem completes_shuffled :
    ((FragmentLimits.ofVersion .v4).taken (fragmentsFor key arrivals)).length = 2 ∧
      (((empty (.ofVersion .v4)).after arrivals).submit
        (fragment 7 0 true [0, 1, 2, 3, 4, 5, 6, 7]) 6).1 =
        .ok (some ⟨⟨.v4, .v4 0x0a000001, .v4 0x0a000035, 17⟩,
          [0, 1, 2, 3, 4, 5, 6, 7, 8, 9, 10, 11, 12, 13, 14, 15, 16, 17, 18], none⟩) := by
  have hall : ((FragmentLimits.ofVersion .v4).taken (fragmentsFor key arrivals) ++
      [fragment 7 0 true [0, 1, 2, 3, 4, 5, 6, 7]]).Perm fragments := by
    decide
  have hnone : (empty (.ofVersion .v4)).partials.get? key = none := rfl
  obtain ⟨-, ⟨first, hfirst, hzero, hsubmit⟩, -⟩ :=
    completes_in_any_order 6 hnone whole_fragments (by decide) hall
  refine ⟨by decide, ?_⟩
  rw [hsubmit]
  have honly : ∀ f ∈ fragments, f.offset = 0 → f = fragment 7 0 true [0, 1, 2, 3, 4, 5, 6, 7] := by
    decide
  rw [honly first hfirst hzero]
  rfl

end Reassembly

end PassiveDns
