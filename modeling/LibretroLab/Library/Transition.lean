import Mathlib.Logic.Relation

/-!
# Machines that take steps

A machine is a partial step function. Its runs travel from state to state as
long as each state it leaves is safe; predicates on states are then connected
by what a machine ensures. A machine that reaches a state which steps to itself
stays there.
-/

namespace LibretroLab
namespace Transition

variable {σ : Type} {step : σ → Option σ} {safe : σ → Prop}

/-- The state after a number of steps, if the machine gets that far. -/
def run (step : σ → Option σ) : Nat → σ → Option σ
  | 0, s => some s
  | n + 1, s => (step s).bind (run step n)

/-- One step from a safe state. -/
def Moves (step : σ → Option σ) (safe : σ → Prop) (s t : σ) : Prop :=
  safe s ∧ step s = some t

/-- Any number of steps from safe states. -/
abbrev Travels (step : σ → Option σ) (safe : σ → Prop) : σ → σ → Prop :=
  Relation.ReflTransGen (Moves step safe)

/-- From every state of `pre` the machine travels to a state of `post`. -/
def Ensures
    (step : σ → Option σ)
    (safe pre post : σ → Prop) : Prop :=
  ∀ s, pre s → ∃ t, Travels step safe s t ∧ post t

@[simp] theorem run_zero (step : σ → Option σ) (s : σ) :
    run step 0 s = some s := rfl

theorem run_succ (step : σ → Option σ) (n : Nat) (s : σ) :
    run step (n + 1) s = (step s).bind (run step n) := rfl

/-- A state that steps to itself is never left. -/
theorem run_of_fixed
    {s : σ}
    (fixed : step s = some s)
    (n : Nat) :
    run step n s = some s := by
  induction n with
  | zero => rfl
  | succ n inductionHypothesis =>
      rw [run_succ, fixed, Option.bind_some, inductionHypothesis]

/-- A machine that travels to a safe state which steps to itself stays there,
and is safe all the way. -/
theorem settles
    {s final : σ}
    (travels : Travels step safe s final)
    (fixed : step final = some final)
    (safeFinal : safe final) :
    (∃ n, ∀ k, n ≤ k → run step k s = some final) ∧
      ∀ k, ∃ t, run step k s = some t ∧ safe t := by
  induction travels using Relation.ReflTransGen.head_induction_on with
  | refl =>
      exact ⟨⟨0, fun k _ => run_of_fixed fixed k⟩,
        fun k => ⟨final, run_of_fixed fixed k, safeFinal⟩⟩
  | @head s t moves _ inductionHypothesis =>
      obtain ⟨safeHere, next⟩ := moves
      obtain ⟨⟨n, arrived⟩, always⟩ := inductionHypothesis
      refine ⟨⟨n + 1, fun k enough => ?_⟩, fun k => ?_⟩
      · obtain ⟨rest, rfl⟩ := Nat.exists_eq_add_of_le enough
        rw [Nat.add_right_comm, run_succ, next, Option.bind_some]
        exact arrived (n + rest) (Nat.le_add_right n rest)
      · cases k with
        | zero => exact ⟨s, rfl, safeHere⟩
        | succ k =>
            obtain ⟨later, reached, isSafe⟩ := always k
            exact ⟨later, by rw [run_succ, next, Option.bind_some, reached],
              isSafe⟩

namespace Ensures

variable {pre middle post : σ → Prop}

theorem trans
    (first : Ensures step safe pre middle)
    (second : Ensures step safe middle post) :
    Ensures step safe pre post := by
  intro s initially
  obtain ⟨t, toMiddle, between⟩ := first s initially
  obtain ⟨u, toPost, atEnd⟩ := second t between
  exact ⟨u, toMiddle.trans toPost, atEnd⟩

theorem weaken
    {weaker : σ → Prop}
    (ensures : Ensures step safe pre post)
    (weakens : ∀ s, post s → weaker s) :
    Ensures step safe pre weaker := by
  intro s initially
  obtain ⟨t, travels, atEnd⟩ := ensures s initially
  exact ⟨t, travels, weakens t atEnd⟩

theorem of_exists
    {pre : Nat → σ → Prop}
    {condition : Nat → Prop}
    (each : ∀ n, condition n → Ensures step safe (pre n) post) :
    Ensures step safe (fun s => ∃ n, condition n ∧ pre n s) post := by
  rintro s ⟨n, holds, initially⟩
  exact each n holds s initially

/-- The waiting rule. A machine that polls looks again while the `n`-th answer
is not ready, and leaves when it is; if some later answer is ready, it leaves
after the first such answer. -/
theorem wait
    {waiting left : Nat → σ → Prop}
    {ready : Nat → Prop}
    (looksAgain : ∀ n, ¬ready n →
      Ensures step safe (waiting n) (waiting (n + 1)))
    (leaves : ∀ n, ready n → Ensures step safe (waiting n) (left (n + 1)))
    {last : Nat}
    (isReady : ready last)
    {n : Nat}
    (before : n ≤ last) :
    Ensures step safe (waiting n)
      (fun t => ∃ m, m ≤ last ∧ left (m + 1) t) := by
  obtain ⟨distance, rfl⟩ := Nat.exists_eq_add_of_le before
  induction distance generalizing n with
  | zero =>
      exact (leaves n isReady).weaken fun t atEnd => ⟨n, before, atEnd⟩
  | succ distance inductionHypothesis =>
      by_cases already : ready n
      · exact (leaves n already).weaken
          fun t atEnd => ⟨n, before, atEnd⟩
      · have shifted : n + (distance + 1) = n + 1 + distance :=
          (Nat.add_right_comm n 1 distance).symm ▸ rfl
        rw [shifted] at isReady ⊢
        exact (looksAgain n already).trans
          (inductionHypothesis isReady (Nat.le_add_right _ _))

end Ensures

end Transition
end LibretroLab
