/-
  PassiveDns.Proofs.Sampling

  Sampling takes the packets that it should, however long it runs. The counter is at the place
  of the last packet in the cycle of the ratio, cut back or not, and stays within bounds
  (`Sampler.counts_next`); so whether a packet is taken depends on its number alone, and each
  cycle takes as many. Packets seen lately matter for those that are taken, and only they are
  remembered (`sampled_exactly`).
-/
import Mathlib.Data.Nat.Count
import Mathlib.Tactic.Common
import PassiveDns.Admission

namespace PassiveDns

open Config (Ratio)

/-- A ratio that takes no more than all, of more than none. -/
structure Config.Ratio.Proper (ratio : Ratio) : Prop where
  positive : 0 < ratio.outOf
  accept_le : ratio.accept ≤ ratio.outOf

theorem Settings.proper_of_validate {settings : Settings} (h : settings.validate = .ok ()) :
    settings.ratio.Proper := by
  rw [validate] at h
  split at h
  · cases h
  · split at h
    · cases h
    · exact ⟨by omega, by omega⟩

/-! ## The counter -/

namespace Sampler

variable {sampler : Sampler} {ratio : Ratio} {n : Nat}

/-- A sampler that has counted so many packets. Where all are taken none is counted. -/
structure Counts (sampler : Sampler) (ratio : Ratio) (n : Nat) : Prop where
  same : sampler.ratio = ratio
  place : ratio.isPassthrough = false → sampler.counter % ratio.outOf = n % ratio.outOf
  bounded : sampler.counter ≤ max (ratio.accept * ratio.outOf) (ratio.outOf - 1)

theorem counts_ofRatio (ratio : Ratio) : (ofRatio ratio).Counts ratio 0 :=
  ⟨rfl, fun _ => rfl, Nat.zero_le _⟩

/-- The next packet is taken by its number, and is counted. -/
theorem counts_next (h : sampler.Counts ratio n) (proper : ratio.Proper) :
    sampler.next.1 = decide ((n + 1) % ratio.outOf < ratio.accept) ∧
      sampler.next.2.Counts ratio (n + 1) := by
  obtain ⟨rfl, hplace, hbounded⟩ := h
  have hremainder : (n + 1) % sampler.ratio.outOf < sampler.ratio.outOf :=
    Nat.mod_lt _ proper.positive
  rw [next]
  by_cases hall : sampler.ratio.isPassthrough = true
  · rw [if_pos hall]
    have heq : sampler.ratio.accept = sampler.ratio.outOf := of_decide_eq_true hall
    refine ⟨(decide_eq_true ?_).symm, rfl, fun hnot => ?_, hbounded⟩
    · rw [heq]
      exact hremainder
    · rw [hall] at hnot
      cases hnot
  · rw [if_neg hall]
    rw [Bool.not_eq_true] at hall
    have hcount : (sampler.counter + 1) % sampler.ratio.outOf = (n + 1) % sampler.ratio.outOf := by
      rw [Nat.add_mod, hplace hall, ← Nat.add_mod]
    refine ⟨?_, rfl, fun _ => ?_, ?_⟩
    · show decide ((sampler.counter + 1) % sampler.ratio.outOf < sampler.ratio.accept) = _
      rw [hcount]
    · -- cut back or not, the counter has the same place in the cycle
      dsimp only
      split
      · rw [Nat.mod_mod, hcount]
      · exact hcount
    · dsimp only
      split
      · have hcut : (sampler.counter + 1) % sampler.ratio.outOf ≤ sampler.ratio.outOf - 1 := by
          omega
        exact Nat.le_trans hcut (Nat.le_max_right _ _)
      · exact Nat.le_trans (by omega) (Nat.le_max_left _ _)

end Sampler

/-- Of as many numbers in a row as the cycle has, exactly those to be taken have a small
    remainder. -/
theorem Config.Ratio.Proper.count_cycle {ratio : Ratio} (proper : ratio.Proper) (n : Nat) :
    Nat.count (fun k => (n + k) % ratio.outOf < ratio.accept) ratio.outOf = ratio.accept := by
  induction n with
  | zero =>
    -- the first numbers are their own remainders
    have hfirst : ∀ m ≤ ratio.outOf,
        Nat.count (fun k => (0 + k) % ratio.outOf < ratio.accept) m = min m ratio.accept := by
      intro m hm
      induction m with
      | zero => exact (Nat.zero_min _).symm
      | succ m ih =>
        rw [Nat.count_succ, ih (Nat.le_of_succ_le hm), Nat.zero_add, Nat.mod_eq_of_lt hm]
        split <;> omega
    rw [hfirst _ (Nat.le_refl _), Nat.min_eq_right proper.accept_le]
  | succ n ih =>
    -- the number that leaves and the one that enters have the same remainder
    have hlast := Nat.count_succ (fun k => (n + k) % ratio.outOf < ratio.accept) ratio.outOf
    have hfirst := Nat.count_succ' (fun k => (n + k) % ratio.outOf < ratio.accept) ratio.outOf
    rw [ih, Nat.add_mod_right] at hlast
    simp only [hlast, Nat.add_zero, ← Nat.add_assoc, Nat.add_right_comm n _ 1] at hfirst
    omega

/-! ## Packets -/

/-- Decides on a packet by what was seen lately, if that is looked at. -/
def screen (recent : Option RecentPackets) (octets : Octets) (now : Instant) :
    Decision × Option RecentPackets :=
  match recent with
  | none => (.accepted, none)
  | some recent =>
    ((if (recent.check octets now).1 then .duplicate else .accepted),
      some (recent.check octets now).2)

theorem screen_ne_skipped (recent : Option RecentPackets) (octets : Octets) (now : Instant) :
    (screen recent octets now).1 ≠ .skipped := by
  cases recent with
  | none => exact Decision.noConfusion
  | some recent =>
    show (if (recent.check octets now).1 then Decision.duplicate else .accepted) ≠ _
    split <;> exact Decision.noConfusion

/-- What is remembered after packets, each of which is screened. -/
def screened (recent : Option RecentPackets) (packets : List (Octets × Instant)) :
    Option RecentPackets :=
  packets.foldl (fun recent packet => (screen recent packet.1 packet.2).2) recent

/-- Of packets that come after `n` others those that are to be taken. -/
def sampled (ratio : Ratio) (n : Nat) : List (Octets × Instant) → List (Octets × Instant)
  | [] => []
  | packet :: rest =>
    if (n + 1) % ratio.outOf < ratio.accept then packet :: sampled ratio (n + 1) rest
    else sampled ratio (n + 1) rest

namespace Admission

variable {admission : Admission} {ratio : Ratio} {n : Nat}

/-- The state of both checks after packets. -/
def after (admission : Admission) (packets : List (Octets × Instant)) : Admission :=
  packets.foldl (fun admission packet => (admission.check packet.1 packet.2).2) admission

/-- What is decided on packets. -/
def decisions (admission : Admission) : List (Octets × Instant) → List Decision
  | [] => []
  | packet :: rest =>
    (admission.check packet.1 packet.2).1 ::
      (admission.check packet.1 packet.2).2.decisions rest

theorem check_eq (admission : Admission) (octets : Octets) (now : Instant) :
    admission.check octets now =
      if admission.sampler.next.1 then
        ((screen admission.recent octets now).1,
          ⟨admission.sampler.next.2, (screen admission.recent octets now).2⟩)
      else (.skipped, ⟨admission.sampler.next.2, admission.recent⟩) := by
  rw [check]
  obtain ⟨taken, sampler⟩ := admission.sampler.next
  cases taken with
  | false => rfl
  | true =>
    cases admission.recent with
    | none => rfl
    | some recent =>
      rw [screen]
      dsimp only
      obtain ⟨seen, after⟩ := recent.check octets now
      cases seen <;> rfl

/-- What becomes of a packet, and of what is remembered, by the number of packets before. -/
theorem check_counted (h : admission.sampler.Counts ratio n) (proper : ratio.Proper)
    (octets : Octets) (now : Instant) :
    ((admission.check octets now).1, (admission.check octets now).2.recent) =
        (if ratio.accept ≤ (n + 1) % ratio.outOf then (.skipped, admission.recent)
          else screen admission.recent octets now) ∧
      (admission.check octets now).2.sampler.Counts ratio (n + 1) := by
  obtain ⟨htaken, hcounts⟩ := Sampler.counts_next h proper
  rw [check_eq, htaken]
  by_cases hskip : ratio.accept ≤ (n + 1) % ratio.outOf
  · rw [if_pos hskip, decide_eq_false (Nat.not_lt_of_le hskip)]
    exact ⟨rfl, hcounts⟩
  · rw [if_neg hskip, decide_eq_true (Nat.lt_of_not_le hskip)]
    exact ⟨rfl, hcounts⟩

theorem skipped_iff (h : admission.sampler.Counts ratio n) (proper : ratio.Proper)
    (octets : Octets) (now : Instant) :
    (admission.check octets now).1 = .skipped ↔ ratio.accept ≤ (n + 1) % ratio.outOf := by
  obtain ⟨hcheck, -⟩ := check_counted h proper octets now
  by_cases hskip : ratio.accept ≤ (n + 1) % ratio.outOf
  · rw [if_pos hskip] at hcheck
    exact iff_of_true (congrArg Prod.fst hcheck) hskip
  · rw [if_neg hskip] at hcheck
    have hdecision : (admission.check octets now).1 = (screen admission.recent octets now).1 :=
      congrArg Prod.fst hcheck
    rw [hdecision]
    exact iff_of_false (screen_ne_skipped _ _ _) hskip

/-- Each packet is counted. -/
theorem counts_after (h : admission.sampler.Counts ratio n) (proper : ratio.Proper)
    (packets : List (Octets × Instant)) :
    (admission.after packets).sampler.Counts ratio (n + packets.length) := by
  induction packets generalizing admission n with
  | nil => exact h
  | cons packet rest ih =>
    have hrest := ih (check_counted h proper packet.1 packet.2).2
    rw [List.length_cons, Nat.add_comm rest.length, ← Nat.add_assoc]
    exact hrest

/-- Only packets that are taken are screened. -/
theorem recent_after (h : admission.sampler.Counts ratio n) (proper : ratio.Proper)
    (packets : List (Octets × Instant)) :
    (admission.after packets).recent = screened admission.recent (sampled ratio n packets) := by
  induction packets generalizing admission n with
  | nil => rfl
  | cons packet rest ih =>
    obtain ⟨hcheck, hcounts⟩ := check_counted h proper packet.1 packet.2
    have hrecent := congrArg Prod.snd hcheck
    dsimp only at hrecent
    show ((admission.check packet.1 packet.2).2.after rest).recent = _
    rw [ih hcounts, hrecent, sampled]
    by_cases hskip : ratio.accept ≤ (n + 1) % ratio.outOf
    · rw [if_pos hskip, if_neg (Nat.not_lt_of_le hskip)]
    · rw [if_neg hskip, if_pos (Nat.lt_of_not_le hskip)]
      rfl

/-- As many packets are taken as have a number with a small remainder. -/
theorem countP_decisions (h : admission.sampler.Counts ratio n) (proper : ratio.Proper)
    (packets : List (Octets × Instant)) :
    (admission.decisions packets).countP (· ≠ .skipped) =
      Nat.count (fun k => (n + 1 + k) % ratio.outOf < ratio.accept) packets.length := by
  induction packets generalizing admission n with
  | nil => rfl
  | cons packet rest ih =>
    have hcounts := (check_counted h proper packet.1 packet.2).2
    have hskipped := skipped_iff h proper packet.1 packet.2
    rw [decisions, List.countP_cons, ih hcounts, List.length_cons, Nat.count_succ']
    congr 1
    · simp only [Nat.add_assoc, Nat.add_comm 1]
    · simp only [Nat.add_zero, decide_eq_true_eq, ne_eq, hskipped, Nat.not_le]

/-- With a ratio of valid settings, and whether packets seen lately are looked at or not, the
    n-th packet is skipped exactly by the remainder of n, so as many packets in a row as the
    cycle has are taken as often as the ratio says. A packet that is skipped neither asks what
    was seen lately nor changes it, and one that is taken is screened by that alone. The counter
    stays within bounds, so 64 bits are enough for it and for the product of the sides. -/
theorem sampled_exactly {settings : Settings} (hvalid : settings.validate = .ok ())
    {start : Admission} (hfresh : start.sampler = .ofRatio settings.ratio) :
    (∀ before octets now, ((start.after before).check octets now).1 = .skipped ↔
      settings.ratio.accept ≤ (before.length + 1) % settings.ratio.outOf) ∧
    (∀ before window, window.length = settings.ratio.outOf →
      ((start.after before).decisions window).countP (· ≠ .skipped) = settings.ratio.accept) ∧
    (∀ before recent octets now,
      let result := { start.after before with recent }.check octets now
      (result.1, result.2.recent) =
        if settings.ratio.accept ≤ (before.length + 1) % settings.ratio.outOf then
          (.skipped, recent)
        else screen recent octets now) ∧
    (∀ packets, (start.after packets).recent =
      screened start.recent (sampled settings.ratio 0 packets)) ∧
    (∀ packets, (start.after packets).sampler.counter ≤
      max (settings.ratio.accept * settings.ratio.outOf) (settings.ratio.outOf - 1)) ∧
    0 < settings.ratio.outOf ∧
    (settings.ratio.outOf < 2 ^ 32 →
      settings.ratio.accept * settings.ratio.outOf < 2 ^ 64 ∧
      ∀ packets, (start.after packets).sampler.counter + 1 < 2 ^ 64) := by
  have proper := settings.proper_of_validate hvalid
  have hstart : start.sampler.Counts settings.ratio 0 := by
    rw [hfresh]
    exact Sampler.counts_ofRatio settings.ratio
  have hcounts (packets : List (Octets × Instant)) :
      (start.after packets).sampler.Counts settings.ratio packets.length := by
    rw [← Nat.zero_add packets.length]
    exact counts_after hstart proper packets
  refine ⟨fun before => skipped_iff (hcounts before) proper, ?_, ?_, recent_after hstart proper,
    fun packets => (hcounts packets).bounded, proper.positive, fun hword => ?_⟩
  · intro before window hwindow
    rw [countP_decisions (hcounts before) proper, hwindow, proper.count_cycle]
  · intro before recent octets now
    have hsampler :
        { start.after before with recent }.sampler.Counts settings.ratio before.length :=
      hcounts before
    exact (check_counted hsampler proper octets now).1
  · have hproduct : settings.ratio.accept * settings.ratio.outOf ≤ 4294967295 * 4294967295 :=
      Nat.mul_le_mul (by have := proper.accept_le; omega) (by omega)
    refine ⟨by omega, fun packets => ?_⟩
    have hbounded := (hcounts packets).bounded
    omega

/-- All packets but one of each longest cycle, and no packet twice. -/
def nearlyAll : Settings := { ratio := ⟨4294967294, 4294967295⟩, dedup := true }

/-- However many packets come, the counter of the longest cycle fits its word, and the one packet
    to be skipped is. -/
theorem sampled_exactly_nearlyAll :
    nearlyAll.validate = .ok () ∧
      (Admission.ofSettings nearlyAll 0).sampler = .ofRatio nearlyAll.ratio ∧
      (∀ packets, ((Admission.ofSettings nearlyAll 0).after packets).sampler.counter + 1 < 2 ^ 64) ∧
      ∀ (before : List (Octets × Instant)) (octets : Octets) (now : Instant),
        before.length = 4294967293 →
        (((Admission.ofSettings nearlyAll 0).after before).check octets now).1 = .skipped := by
  have hvalid : nearlyAll.validate = .ok () := by
    decide
  have hfresh : (Admission.ofSettings nearlyAll 0).sampler = .ofRatio nearlyAll.ratio := rfl
  obtain ⟨hskipped, -, -, -, -, -, hword⟩ := sampled_exactly hvalid hfresh
  refine ⟨hvalid, hfresh, (hword (by decide)).2, fun before octets now hlength => ?_⟩
  rw [hskipped, hlength]
  decide

end Admission

end PassiveDns
