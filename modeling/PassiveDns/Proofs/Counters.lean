/-
  PassiveDns.Proofs.Counters

  What a series shows of what was counted. Counters have 64 bits, so it is the count modulo
  2^64 (`Shows`), and this is kept by all that counts up.
-/
import Mathlib.Data.Int.DivMod
import Mathlib.Tactic.Common
import PassiveDns.Metrics
import PassiveDns.Proofs.Table

namespace PassiveDns.Metrics

variable {metrics : Metrics} {series : Series} {count : Nat}

theorem value_add (metrics : Metrics) (series other : Series) (count : Nat) :
    (metrics.add series count).value other =
      if other = series then (metrics.value series + count) % 18446744073709551616
      else metrics.value other := by
  unfold Metrics.add Metrics.value
  rw [Table.get?_set]
  split <;> rfl

theorem value_put (metrics : Metrics) {series other : Series} (h : other ≠ series) (value : Nat) :
    (metrics.put series value).value other = metrics.value other := by
  unfold put Metrics.value
  rw [Table.get?_set, if_neg h]

/-- At the start no series has a value, or it is zero. -/
theorem value_empty (series : Series) : empty.value series = 0 := by
  unfold empty Metrics.value
  rw [Table.get?_set, Table.get?_set]
  split
  · rfl
  · split <;> rfl

/-- A series shows a count: it has the last 64 bits of it. -/
def Shows (metrics : Metrics) (series : Series) (count : Nat) : Prop :=
  metrics.value series = (count : Int) % 18446744073709551616

/-- How much of a tally is for one series. -/
def amountOf (series : Series) (tally : List (Series × Nat)) : Nat :=
  (tally.map fun entry => if entry.1 = series then entry.2 else 0).sum

theorem Shows.add (h : metrics.Shows series count) (other : Series) (amount : Nat) :
    (metrics.add other amount).Shows series (count + if other = series then amount else 0) := by
  unfold Shows at h ⊢
  rw [value_add]
  by_cases heq : other = series
  · rw [if_pos heq.symm, if_pos heq, heq, h]
    push_cast
    rw [Int.emod_add_emod]
  · rw [if_neg (Ne.symm heq), if_neg heq]
    exact h

theorem Shows.addAll (h : metrics.Shows series count) (tally : List (Series × Nat)) :
    (metrics.addAll tally).Shows series (count + amountOf series tally) := by
  induction tally generalizing metrics count with
  | nil => exact h
  | cons entry rest ih =>
    have hrest := ih (h.add entry.1 entry.2)
    rw [Nat.add_assoc] at hrest
    exact hrest

/-- The gauges of the source are none of the counters. -/
theorem Shows.putSource (h : metrics.Shows series count) (hseries : series.family ≠ .source)
    (received dropped : Nat) : (metrics.putSource received dropped).Shows series count := by
  have hne (kind : String) : series ≠ .source kind := fun heq => hseries (by rw [heq]; rfl)
  unfold Shows Metrics.putSource
  rw [value_put _ (hne _), value_put _ (hne _)]
  exact h

end PassiveDns.Metrics
