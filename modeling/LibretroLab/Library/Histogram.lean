import Mathlib.Data.List.MinMax
import Mathlib.Data.List.Count
import Mathlib.Logic.Function.Basic

/-!
# Histograms

A dictionary that counts the values of a list, enumerated in an order that
nobody promises. A value that fills more than half of the list is the entry of
the largest count in every such order.
-/

namespace LibretroLab
namespace Histogram

variable {α : Type} [DecidableEq α]

/-- `histogram[value, default: 0] += 1`. -/
def bump (dictionary : α → Option Nat) (value : α) : α → Option Nat :=
  Function.update dictionary value (some ((dictionary value).getD 0 + 1))

/-- The histogram of a list. -/
def histogram (values : List α) : α → Option Nat :=
  values.foldl bump fun _ => none

/-- The entries of a dictionary in some order. -/
def Enumerates (order : List (α × Nat)) (dictionary : α → Option Nat) : Prop :=
  ∀ value count, (value, count) ∈ order ↔ dictionary value = some count

theorem foldl_bump
    (values : List α)
    (dictionary : α → Option Nat)
    (value : α) :
    values.foldl bump dictionary value =
      if value ∈ values then
        some ((dictionary value).getD 0 + values.count value)
      else dictionary value := by
  induction values generalizing dictionary with
  | nil => simp
  | cons first rest inductionHypothesis =>
      rw [List.foldl_cons, inductionHypothesis, List.count_cons]
      by_cases same : value = first
      · subst same
        by_cases later : value ∈ rest
        · simp [bump, later, Nat.add_assoc, Nat.add_comm 1]
        · simp [bump, later, List.count_eq_zero_of_not_mem later]
      · simp [bump, same, Ne.symm same]

/-- A histogram has the counts of the values that occur. -/
theorem histogram_apply (values : List α) (value : α) :
    histogram values value =
      if value ∈ values then some (values.count value) else none := by
  rw [histogram, foldl_bump]
  simp

theorem mem_enumeration_iff
    {order : List (α × Nat)}
    {values : List α}
    (enumerates : Enumerates order (histogram values))
    (value : α)
    (count : Nat) :
    (value, count) ∈ order ↔ value ∈ values ∧ count = values.count value := by
  rw [enumerates value count, histogram_apply]
  split_ifs with occurs
  · simp [occurs, eq_comm]
  · simp [occurs]

/-- Every histogram can be enumerated. -/
theorem enumerates_map_count (values : List α) :
    Enumerates (values.map fun value => (value, values.count value))
      (histogram values) := by
  intro value count
  rw [histogram_apply]
  by_cases occurs : value ∈ values
  · simp [occurs]
  · simp only [if_neg occurs, reduceCtorEq, iff_false, List.mem_map,
      Prod.mk.injEq, not_exists, not_and]
    rintro other member rfl
    exact absurd member occurs

/-- Two values share the places of a list. -/
theorem count_add_count_le
    {first second : α}
    (differs : first ≠ second)
    (values : List α) :
    values.count first + values.count second ≤ values.length := by
  induction values with
  | nil => simp
  | cons value rest inductionHypothesis =>
      rw [List.count_cons, List.count_cons, List.length_cons]
      by_cases isFirst : value = first
      · have notSecond : value ≠ second := isFirst ▸ differs
        simp only [isFirst, beq_self_eq_true, if_true]
        simp only [isFirst] at notSecond
        simp only [beq_iff_eq, notSecond, if_false]
        omega
      · simp only [beq_iff_eq, isFirst, if_false]
        split_ifs <;> omega

/-- The largest entry belongs to the value that fills more than half. -/
theorem argmax_of_majority
    {order : List (α × Nat)}
    {values : List α}
    (enumerates : Enumerates order (histogram values))
    {value : α}
    (majority : values.length < 2 * values.count value) :
    order.argmax Prod.snd = some (value, values.count value) := by
  have occurs : value ∈ values := by
    apply List.count_pos_iff.mp
    omega
  have listed : (value, values.count value) ∈ order :=
    (mem_enumeration_iff enumerates _ _).mpr ⟨occurs, rfl⟩
  cases largest : order.argmax Prod.snd with
  | none =>
      rw [List.argmax_eq_none.mp largest] at listed
      contradiction
  | some found =>
      obtain ⟨other, count⟩ := found
      have isEntry := List.argmax_mem largest
      obtain ⟨_, rfl⟩ := (mem_enumeration_iff enumerates _ _).mp isEntry
      have atMost := List.not_lt_of_mem_argmax listed largest
      by_cases same : value = other
      · rw [same]
      · have shared := count_add_count_le same values
        simp only [not_lt] at atMost
        omega

/-- Whatever the order, the largest entry fills more than half exactly if some
value does. -/
theorem exists_argmax_iff
    {order : List (α × Nat)}
    {values : List α}
    (enumerates : Enumerates order (histogram values))
    {good : α → Nat → Prop}
    (isMajority : ∀ value, good value (values.count value) →
      values.length < 2 * values.count value) :
    (∃ value count, order.argmax Prod.snd = some (value, count) ∧
        good value count) ↔
      ∃ value, good value (values.count value) := by
  constructor
  · rintro ⟨value, count, largest, isGood⟩
    obtain ⟨_, rfl⟩ := (mem_enumeration_iff enumerates _ _).mp
      (List.argmax_mem largest)
    exact ⟨value, isGood⟩
  · rintro ⟨value, isGood⟩
    exact ⟨value, _, argmax_of_majority enumerates (isMajority value isGood),
      isGood⟩

end Histogram
end LibretroLab
