/-
  PassiveDns.Proofs.Datagrams

  The fragments of a datagram may come in any order, and among those of others. Out of
  whole sets of fragments comes one datagram for each set (`yields_perm`).
-/
import PassiveDns.Proofs.Fragments.Taking

namespace PassiveDns

namespace Reassembly

/-- The reassembly after fragments, each with the time at which it came. -/
def after (state : Reassembly) (arrivals : List (Fragment × Instant)) : Reassembly :=
  arrivals.foldl (fun state arrival => (state.submit arrival.1 arrival.2).2) state

/-- The datagram that a fragment completes, under its key. -/
def completed (state : Reassembly) (fragment : Fragment) (now : Instant) :
    List (FragmentKey × Datagram) :=
  match (state.submit fragment now).1 with
  | .ok (some datagram) => [(fragment.key, datagram)]
  | _ => []

/-- The datagrams that fragments complete. -/
def yields (state : Reassembly) : List (Fragment × Instant) → List (FragmentKey × Datagram)
  | [] => []
  | (fragment, now) :: rest =>
    state.completed fragment now ++ (state.submit fragment now).2.yields rest

/-- The datagrams of one key that fragments complete. -/
def yieldsFor (key : FragmentKey) (state : Reassembly) (arrivals : List (Fragment × Instant)) :
    List (FragmentKey × Datagram) :=
  (state.yields arrivals).filter fun y => y.1 = key

/-- The fragments of one key. -/
def fragmentsFor (key : FragmentKey) (arrivals : List (Fragment × Instant)) : List Fragment :=
  (arrivals.map Prod.fst).filter fun f => f.key = key

variable {state : Reassembly} {key : FragmentKey} {fragment : Fragment} {now : Instant}

theorem key_of_mem_completed {y : FragmentKey × Datagram} (h : y ∈ state.completed fragment now) :
    y.1 = fragment.key := by
  unfold completed at h
  split at h
  · rw [List.mem_singleton.mp h]
  · cases h

theorem key_of_mem_yields {arrivals : List (Fragment × Instant)} {y : FragmentKey × Datagram}
    (h : y ∈ state.yields arrivals) : ∃ arrival ∈ arrivals, y.1 = arrival.1.key := by
  induction arrivals generalizing state with
  | nil => cases h
  | cons arrival rest ih =>
    rcases List.mem_append.mp h with h | h
    · exact ⟨arrival, List.mem_cons_self .., key_of_mem_completed h⟩
    · obtain ⟨other, hother, heq⟩ := ih h
      exact ⟨other, List.mem_cons_of_mem _ hother, heq⟩

theorem yieldsFor_of_none {arrivals : List (Fragment × Instant)}
    (h : fragmentsFor key arrivals = []) : yieldsFor key state arrivals = [] := by
  refine List.filter_eq_nil_iff.mpr fun y hy heq => ?_
  obtain ⟨arrival, harrival, hkey⟩ := key_of_mem_yields hy
  refine List.filter_eq_nil_iff.mp h arrival.1 (List.mem_map_of_mem harrival) ?_
  rw [← hkey]
  exact heq

variable {limits : FragmentLimits} {whole came rest : List Fragment}

/-- A fragment completes nothing as long as others are missing. -/
theorem Keeps.completed_of_missing (h : state.Keeps key came)
    (hwhole : Whole state.limits key whole) (hsplit : (came ++ fragment :: rest).Perm whole)
    (hmissing : rest ≠ []) (now : Instant) : state.completed fragment now = [] := by
  rw [completed, (h.submit_of_missing hwhole hsplit hmissing now).1]

/-- The last to come completes the datagram. -/
theorem Keeps.completed_of_last (h : state.Keeps key came) (hwhole : Whole state.limits key whole)
    (hsplit : (came ++ [fragment]).Perm whole) (now : Instant) :
    ∃ datagram, datagramOf whole = some datagram ∧
      state.completed fragment now = [(key, datagram)] := by
  have hkey : fragment.key = key := hwhole.keyed fragment (hsplit.mem_iff.mp (by simp))
  obtain ⟨first, hfirst, hzero, hsubmit⟩ := h.submit_of_last hwhole hsplit now
  refine ⟨_, hwhole.tiles.datagramOf_eq hfirst hzero, ?_⟩
  rw [completed, hsubmit, hkey]

/-- While fragments of a key are missing, those that come complete its datagram once. -/
theorem Keeps.yieldsFor {arrivals : List (Fragment × Instant)} (h : state.Keeps key came)
    (hwhole : Whole state.limits key whole)
    (hsplit : (came ++ fragmentsFor key arrivals).Perm whole)
    (hmissing : fragmentsFor key arrivals ≠ []) :
    ∃ datagram, datagramOf whole = some datagram ∧
      yieldsFor key state arrivals = [(key, datagram)] := by
  induction arrivals generalizing state came with
  | nil => exact absurd rfl hmissing
  | cons arrival rest ih =>
    obtain ⟨fragment, now⟩ := arrival
    have hyields : yieldsFor key state ((fragment, now) :: rest) =
        (state.completed fragment now).filter (fun y => y.1 = key) ++
          yieldsFor key (state.submit fragment now).2 rest :=
      List.filter_append ..
    rw [hyields]
    -- a fragment of another key neither adds to these fragments nor completes them
    by_cases hkey : fragment.key = key
    · have hfragments : fragmentsFor key ((fragment, now) :: rest) =
          fragment :: fragmentsFor key rest := by
        simp [fragmentsFor, hkey]
      rw [hfragments] at hsplit
      by_cases hrest : fragmentsFor key rest = []
      · rw [hrest] at hsplit
        obtain ⟨datagram, hdatagram, hcompleted⟩ := h.completed_of_last hwhole hsplit now
        rw [hcompleted, yieldsFor_of_none hrest]
        exact ⟨datagram, hdatagram, by simp⟩
      · rw [h.completed_of_missing hwhole hsplit hrest now]
        refine ih (h.submit_of_missing hwhole hsplit hrest now).2 ?_ ?_ hrest
        · rw [submit_limits]
          exact hwhole
        · rw [List.append_assoc]
          exact hsplit
    · have hfragments : fragmentsFor key ((fragment, now) :: rest) = fragmentsFor key rest := by
        simp [fragmentsFor, hkey]
      have hnone : (state.completed fragment now).filter (fun y => y.1 = key) = [] := by
        refine List.filter_eq_nil_iff.mpr fun y hy heq => hkey ?_
        rw [← key_of_mem_completed hy]
        exact of_decide_eq_true heq
      rw [hfragments] at hsplit hmissing
      rw [hnone]
      refine ih ?_ ?_ hsplit hmissing
      · unfold Keeps
        rw [submit_other hkey]
        exact h
      · rw [submit_limits]
        exact hwhole

/-! ## All datagrams -/

/-- Fragments of whole datagrams, in any order and at any times, give each of the datagrams
    once and nothing else. -/
theorem yields_perm {sets : List (FragmentKey × List Fragment)}
    (distinct : (sets.map Prod.fst).Nodup)
    (hwhole : ∀ set ∈ sets, Whole limits set.1 set.2) {arrivals : List (Fragment × Instant)}
    (harrivals : (arrivals.map Prod.fst).Perm (sets.flatMap Prod.snd)) :
    (((empty limits).yields arrivals).map Prod.snd).Perm
      (sets.filterMap fun set => datagramOf set.2) := by
  have hkeyed : ∀ set ∈ sets, ∀ f ∈ set.2, f.key = set.1 := fun set hset => (hwhole set hset).keyed
  have hkeys : ∀ y ∈ (empty limits).yields arrivals, y.1 ∈ sets.map Prod.fst := by
    intro y hy
    obtain ⟨arrival, harrival, hkey⟩ := key_of_mem_yields hy
    obtain ⟨set, hset, hf⟩ := List.mem_flatMap.mp
      (harrivals.mem_iff.mp (List.mem_map_of_mem harrival))
    rw [hkey, hkeyed set hset _ hf]
    exact List.mem_map_of_mem hset
  have hsplit := (perm_flatMap_filter Prod.fst distinct hkeys).map Prod.snd
  refine hsplit.trans (List.Perm.of_eq ?_)
  rw [List.flatMap_map, List.map_flatMap, List.filterMap_eq_flatMap_toList]
  refine List.flatMap_congr fun set hset => ?_
  -- the fragments of the key of a set are those of the set
  have hfragments : (fragmentsFor set.1 arrivals).Perm set.2 := by
    refine (harrivals.filter _).trans (List.Perm.of_eq ?_)
    exact filter_flatMap_of_distinct Fragment.key Prod.fst Prod.snd distinct hkeyed hset
  have hmissing : fragmentsFor set.1 arrivals ≠ [] := by
    intro hnone
    rw [hnone] at hfragments
    obtain ⟨first, others, heq, _⟩ := (hwhole set hset).tiles.head
    rw [heq] at hfragments
    cases hfragments.length_eq
  have hkeeps : (empty limits).Keeps set.1 [] := .inl ⟨rfl, rfl⟩
  obtain ⟨datagram, hdatagram, hyields⟩ :=
    hkeeps.yieldsFor (hwhole set hset) hfragments hmissing
  show (yieldsFor set.1 _ arrivals).map Prod.snd = _
  rw [hyields, hdatagram]
  rfl

end Reassembly

end PassiveDns
