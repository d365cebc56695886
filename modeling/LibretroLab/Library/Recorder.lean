import Mathlib.Data.List.Basic

/-!
# Recorded state transformers

A recorder transforms a state, returns a value, and keeps in order every atomic
step it takes, with the states on both sides of the step. Properties of whole
runs are then properties of the moments of a log, and the rules at the end of
this module lift a one-input argument to every sequence of inputs.
-/

namespace LibretroLab

/-- One atomic step: its label and the states on both sides of it. -/
structure Moment (σ ε : Type) where
  before : σ
  event : ε
  after : σ

/-- The value, the final state, and the log of one recorded execution. -/
structure Outcome (σ ε α : Type) where
  value : α
  state : σ
  log : List (Moment σ ε)

/-- A state transformer that logs its atomic steps. -/
def Recorder (σ ε α : Type) : Type := σ → Outcome σ ε α

namespace Recorder

/-- The returned value. -/
def value (program : Recorder σ ε α) (s : σ) : α := (program s).value

/-- The final state. -/
def state (program : Recorder σ ε α) (s : σ) : σ := (program s).state

/-- The atomic steps, in order. -/
def log (program : Recorder σ ε α) (s : σ) : List (Moment σ ε) :=
  (program s).log

instance : Monad (Recorder σ ε) where
  pure value := fun s => ⟨value, s, []⟩
  bind first next := fun s =>
    let middle := first s
    let final := next middle.value middle.state
    ⟨final.value, final.state, middle.log ++ final.log⟩

/-- Take one atomic step whose label may depend on the state. -/
def step (transition : σ → ε × σ) : Recorder σ ε Unit := fun s =>
  ⟨(), (transition s).2, [⟨s, (transition s).1, (transition s).2⟩]⟩

/-- Take one atomic step with a fixed label. -/
def emit (event : ε) (update : σ → σ) : Recorder σ ε Unit :=
  step fun s => (event, update s)

/-- Read the current state without a step. -/
def get : Recorder σ ε σ := fun s => ⟨s, s, []⟩

@[simp] theorem value_pure (value : α) (s : σ) :
    (pure value : Recorder σ ε α).value s = value := rfl

@[simp] theorem state_pure (value : α) (s : σ) :
    (pure value : Recorder σ ε α).state s = s := rfl

@[simp] theorem log_pure (value : α) (s : σ) :
    (pure value : Recorder σ ε α).log s = [] := rfl

@[simp] theorem value_bind
    (first : Recorder σ ε α) (next : α → Recorder σ ε β) (s : σ) :
    (first >>= next).value s =
      (next (first.value s)).value (first.state s) := rfl

@[simp] theorem state_bind
    (first : Recorder σ ε α) (next : α → Recorder σ ε β) (s : σ) :
    (first >>= next).state s =
      (next (first.value s)).state (first.state s) := rfl

@[simp] theorem log_bind
    (first : Recorder σ ε α) (next : α → Recorder σ ε β) (s : σ) :
    (first >>= next).log s =
      first.log s ++ (next (first.value s)).log (first.state s) := rfl

@[simp] theorem value_get (s : σ) :
    (get : Recorder σ ε σ).value s = s := rfl

@[simp] theorem state_get (s : σ) :
    (get : Recorder σ ε σ).state s = s := rfl

@[simp] theorem log_get (s : σ) :
    (get : Recorder σ ε σ).log s = [] := rfl

theorem state_get_bind (next : σ → Recorder σ ε α) (s : σ) :
    (get >>= next).state s = (next s).state s := rfl

theorem log_get_bind (next : σ → Recorder σ ε α) (s : σ) :
    (get >>= next).log s = (next s).log s := rfl

@[simp] theorem state_step (transition : σ → ε × σ) (s : σ) :
    (step transition).state s = (transition s).2 := rfl

@[simp] theorem log_step (transition : σ → ε × σ) (s : σ) :
    (step transition).log s =
      [⟨s, (transition s).1, (transition s).2⟩] := rfl

@[simp] theorem state_emit (event : ε) (update : σ → σ) (s : σ) :
    (emit event update).state s = update s := rfl

@[simp] theorem log_emit (event : ε) (update : σ → σ) (s : σ) :
    (emit event update).log s = [⟨s, event, update s⟩] := rfl

/-- Every atomic step of the execution from `s` is good. -/
def Throughout
    (good : Moment σ ε → Prop)
    (program : Recorder σ ε α)
    (s : σ) : Prop :=
  ∀ moment ∈ program.log s, good moment

instance
    (good : Moment σ ε → Prop)
    [DecidablePred good]
    (program : Recorder σ ε α)
    (s : σ) :
    Decidable (Throughout good program s) :=
  inferInstanceAs (Decidable (∀ moment ∈ program.log s, good moment))

@[simp] theorem throughout_pure
    (good : Moment σ ε → Prop) (value : α) (s : σ) :
    Throughout good (pure value) s := by
  simp [Throughout]

@[simp] theorem throughout_get (good : Moment σ ε → Prop) (s : σ) :
    Throughout good get s := by
  simp [Throughout]

@[simp] theorem throughout_step
    (good : Moment σ ε → Prop) (transition : σ → ε × σ) (s : σ) :
    Throughout good (step transition) s ↔
      good ⟨s, (transition s).1, (transition s).2⟩ := by
  simp [Throughout]

@[simp] theorem throughout_emit
    (good : Moment σ ε → Prop) (event : ε) (update : σ → σ) (s : σ) :
    Throughout good (emit event update) s ↔ good ⟨s, event, update s⟩ := by
  simp [Throughout]

@[simp] theorem throughout_bind
    (good : Moment σ ε → Prop)
    (first : Recorder σ ε α)
    (next : α → Recorder σ ε β)
    (s : σ) :
    Throughout good (first >>= next) s ↔
      Throughout good first s ∧
        Throughout good (next (first.value s)) (first.state s) := by
  simp only [Throughout, log_bind, List.mem_append, or_imp, forall_and]

theorem throughout_get_bind
    (good : Moment σ ε → Prop)
    (next : σ → Recorder σ ε α)
    (s : σ) :
    Throughout good (get >>= next) s ↔ Throughout good (next s) s := by
  rw [Throughout, log_get_bind, Throughout]

theorem throughout_ite_pure
    (good : Moment σ ε → Prop)
    (condition : Prop)
    [Decidable condition]
    (program : Recorder σ ε Unit)
    (s : σ) :
    Throughout good (if condition then program else pure ()) s ↔
      (condition → Throughout good program s) := by
  by_cases holds : condition
  · simp [holds]
  · simp [holds]

/-- From every state of `pre`, each step is good and `post` holds
afterwards. -/
def Leads
    (pre : σ → Prop)
    (good : Moment σ ε → Prop)
    (post : σ → Prop)
    (program : Recorder σ ε α) : Prop :=
  ∀ s, pre s → Throughout good program s ∧ post (program.state s)

namespace Leads

variable {pre middle post : σ → Prop} {good : Moment σ ε → Prop}

theorem bind
    {first : Recorder σ ε α}
    {next : α → Recorder σ ε β}
    (leadsFirst : Leads pre good middle first)
    (leadsNext : ∀ value, Leads middle good post (next value)) :
    Leads pre good post (first >>= next) := by
  intro s initially
  obtain ⟨goodFirst, between⟩ := leadsFirst s initially
  obtain ⟨goodNext, final⟩ := leadsNext (first.value s) _ between
  exact ⟨(throughout_bind good first next s).mpr ⟨goodFirst, goodNext⟩,
    final⟩

theorem emit
    {event : ε}
    {update : σ → σ}
    (isGood : ∀ s, pre s → good ⟨s, event, update s⟩)
    (leads : ∀ s, pre s → post (update s)) :
    Leads pre good post (Recorder.emit event update) := by
  intro s initially
  exact ⟨(throughout_emit good event update s).mpr (isGood s initially),
    leads s initially⟩

theorem pure (value : α) :
    Leads pre good pre (Pure.pure value : Recorder σ ε α) :=
  fun s initially => ⟨throughout_pure good value s, initially⟩

theorem get_bind
    {next : σ → Recorder σ ε α}
    (leads : ∀ s, pre s →
      Throughout good (next s) s ∧ post ((next s).state s)) :
    Leads pre good post (get >>= next) := by
  intro s initially
  rw [throughout_get_bind, state_get_bind]
  exact leads s initially

end Leads

/-- From every state of the invariant, each step is good and the invariant
holds afterwards. -/
def Keeps
    (invariant : σ → Prop)
    (good : Moment σ ε → Prop)
    (program : Recorder σ ε α) : Prop :=
  Leads invariant good invariant program

namespace Keeps

variable {invariant : σ → Prop} {good : Moment σ ε → Prop}

theorem bind
    {first : Recorder σ ε α}
    {next : α → Recorder σ ε β}
    (keepsFirst : Keeps invariant good first)
    (keepsNext : ∀ value, Keeps invariant good (next value)) :
    Keeps invariant good (first >>= next) :=
  Leads.bind keepsFirst keepsNext

/-- The last step may leave the invariant. -/
theorem throughout_bind
    {first : Recorder σ ε α}
    {next : α → Recorder σ ε β}
    (keepsFirst : Keeps invariant good first)
    (goodNext : ∀ value s, invariant s → Throughout good (next value) s)
    {s : σ}
    (initially : invariant s) :
    Throughout good (first >>= next) s := by
  obtain ⟨goodFirst, middle⟩ := keepsFirst s initially
  exact (Recorder.throughout_bind good first next s).mpr
    ⟨goodFirst, goodNext _ _ middle⟩

theorem emit
    {event : ε}
    {update : σ → σ}
    (isGood : ∀ s, invariant s → good ⟨s, event, update s⟩)
    (kept : ∀ s, invariant s → invariant (update s)) :
    Keeps invariant good (Recorder.emit event update) :=
  Leads.emit isGood kept

end Keeps

/-! ## Sequences of inputs -/

/-- Process a list of inputs one after another. -/
def each (process : ι → Recorder σ ε Unit) : List ι → Recorder σ ε Unit
  | [] => pure ()
  | input :: rest => do
      process input
      each process rest

@[simp] theorem state_each_nil (process : ι → Recorder σ ε Unit) (s : σ) :
    (each process []).state s = s := rfl

@[simp] theorem log_each_nil (process : ι → Recorder σ ε Unit) (s : σ) :
    (each process []).log s = [] := rfl

@[simp] theorem state_each_cons
    (process : ι → Recorder σ ε Unit) (input : ι) (rest : List ι) (s : σ) :
    (each process (input :: rest)).state s =
      (each process rest).state ((process input).state s) := rfl

@[simp] theorem log_each_cons
    (process : ι → Recorder σ ε Unit) (input : ι) (rest : List ι) (s : σ) :
    (each process (input :: rest)).log s =
      (process input).log s ++
        (each process rest).log ((process input).state s) := rfl

@[simp] theorem throughout_each_nil
    (good : Moment σ ε → Prop) (process : ι → Recorder σ ε Unit) (s : σ) :
    Throughout good (each process []) s := by
  simp [Throughout]

@[simp] theorem throughout_each_cons
    (good : Moment σ ε → Prop)
    (process : ι → Recorder σ ε Unit)
    (input : ι)
    (rest : List ι)
    (s : σ) :
    Throughout good (each process (input :: rest)) s ↔
      Throughout good (process input) s ∧
        Throughout good (each process rest) ((process input).state s) := by
  simp only [Throughout, log_each_cons, List.mem_append, or_imp, forall_and]

theorem state_each_append
    (process : ι → Recorder σ ε Unit) (first second : List ι) (s : σ) :
    (each process (first ++ second)).state s =
      (each process second).state ((each process first).state s) := by
  induction first generalizing s with
  | nil => rfl
  | cons input rest inductionHypothesis => exact inductionHypothesis _

theorem log_each_append
    (process : ι → Recorder σ ε Unit) (first second : List ι) (s : σ) :
    (each process (first ++ second)).log s =
      (each process first).log s ++
        (each process second).log ((each process first).state s) := by
  induction first generalizing s with
  | nil => rfl
  | cons input rest inductionHypothesis =>
      simp [inductionHypothesis, List.append_assoc]

theorem throughout_each_append
    (good : Moment σ ε → Prop)
    (process : ι → Recorder σ ε Unit)
    (first second : List ι)
    (s : σ) :
    Throughout good (each process (first ++ second)) s ↔
      Throughout good (each process first) s ∧
        Throughout good (each process second)
          ((each process first).state s) := by
  simp only [Throughout, log_each_append, List.mem_append, or_imp, forall_and]

/-- Every input of the sequence is allowed in the state it is processed in. -/
def Along
    (process : ι → Recorder σ ε Unit)
    (allowed : σ → ι → Prop) : σ → List ι → Prop
  | _, [] => True
  | s, input :: rest =>
      allowed s input ∧ Along process allowed ((process input).state s) rest

theorem along_of_forall
    {process : ι → Recorder σ ε Unit}
    {allowed : ι → Prop}
    {inputs : List ι}
    (every : ∀ input ∈ inputs, allowed input)
    (s : σ) :
    Along process (fun _ input => allowed input) s inputs := by
  induction inputs generalizing s with
  | nil => trivial
  | cons input rest inductionHypothesis =>
      exact ⟨every input List.mem_cons_self, inductionHypothesis
        (fun later member => every later (List.mem_cons_of_mem input member))
        _⟩

/-- An invariant kept by every allowed input holds after every allowed
sequence. -/
theorem state_each_invariant
    {process : ι → Recorder σ ε Unit}
    {allowed : σ → ι → Prop}
    (invariant : σ → Prop)
    (preserved : ∀ s input, invariant s → allowed s input →
      invariant ((process input).state s))
    (inputs : List ι)
    (s : σ)
    (initially : invariant s)
    (along : Along process allowed s inputs) :
    invariant ((each process inputs).state s) := by
  induction inputs generalizing s with
  | nil => exact initially
  | cons input rest inductionHypothesis =>
      exact inductionHypothesis _
        (preserved s input initially along.1) along.2

/-- An invariant kept by every input holds after every sequence. -/
theorem state_each_of_preserved
    {process : ι → Recorder σ ε Unit}
    (invariant : σ → Prop)
    (preserved : ∀ s input, invariant s →
      invariant ((process input).state s))
    (inputs : List ι)
    (s : σ)
    (initially : invariant s) :
    invariant ((each process inputs).state s) := by
  induction inputs generalizing s with
  | nil => exact initially
  | cons input rest inductionHypothesis =>
      exact inductionHypothesis _ (preserved s input initially)

/-- The simulation rule: a view of the state that follows each input by a rule
of its own follows a whole sequence by that rule. -/
theorem view_each
    {process : ι → Recorder σ ε Unit}
    {follow : β → ι → β}
    (view : σ → β)
    (invariant : σ → Prop)
    (preserved : ∀ s input, invariant s →
      invariant ((process input).state s))
    (follows : ∀ s input, invariant s →
      view ((process input).state s) = follow (view s) input)
    (inputs : List ι)
    (s : σ)
    (initially : invariant s) :
    view ((each process inputs).state s) = inputs.foldl follow (view s) := by
  induction inputs generalizing s with
  | nil => rfl
  | cons input rest inductionHypothesis =>
      rw [state_each_cons, List.foldl_cons, ← follows s input initially]
      exact inductionHypothesis _ (preserved s input initially)

/-- Inputs that each keep an invariant keep it in sequence. -/
theorem keeps_each
    {process : ι → Recorder σ ε Unit}
    {invariant : σ → Prop}
    {good : Moment σ ε → Prop}
    (keeps : ∀ input, Keeps invariant good (process input))
    (inputs : List ι) :
    Keeps invariant good (each process inputs) := by
  induction inputs with
  | nil => exact fun s initially => ⟨throughout_each_nil _ _ _, initially⟩
  | cons input rest inductionHypothesis =>
      exact (keeps input).bind fun _ => inductionHypothesis

/-- An invariant that links the state to the log that led to it. -/
theorem history_each_invariant
    {process : ι → Recorder σ ε Unit}
    {allowed : σ → ι → Prop}
    (invariant : List (Moment σ ε) → σ → Prop)
    (preserved : ∀ past s input, invariant past s → allowed s input →
      invariant (past ++ (process input).log s) ((process input).state s))
    (inputs : List ι)
    (past : List (Moment σ ε))
    (s : σ)
    (initially : invariant past s)
    (along : Along process allowed s inputs) :
    invariant (past ++ (each process inputs).log s)
      ((each process inputs).state s) := by
  induction inputs generalizing past s with
  | nil => simpa using initially
  | cons input rest inductionHypothesis =>
      have later := inductionHypothesis _ _
        (preserved past s input initially along.1) along.2
      simpa only [log_each_cons, state_each_cons, List.append_assoc] using
        later

/-- The exact-condition rule: when one input is good throughout exactly if it
is allowed, and allowed inputs keep the invariant, a whole sequence is good
throughout exactly if every input is allowed where it is processed. -/
theorem throughout_each_iff_along
    {process : ι → Recorder σ ε Unit}
    {assumed allowed : σ → ι → Prop}
    (invariant : σ → Prop)
    {good : Moment σ ε → Prop}
    (exact_step : ∀ s input, invariant s → assumed s input →
      (Throughout good (process input) s ↔ allowed s input))
    (preserved : ∀ s input, invariant s → assumed s input →
      allowed s input → invariant ((process input).state s))
    (inputs : List ι)
    (s : σ)
    (initially : invariant s)
    (along : Along process assumed s inputs) :
    Throughout good (each process inputs) s ↔
      Along process allowed s inputs := by
  induction inputs generalizing s with
  | nil => simp [Along]
  | cons input rest inductionHypothesis =>
      rw [throughout_each_cons, exact_step s input initially along.1, Along]
      refine and_congr_right fun ok => ?_
      exact inductionHypothesis _ (preserved s input initially along.1 ok)
        along.2

/-- What follows from an invariant and an assumption at every input. -/
theorem along_of_invariant
    {process : ι → Recorder σ ε Unit}
    {assumed concluded : σ → ι → Prop}
    (invariant : σ → Prop)
    (conclude : ∀ s input, invariant s → assumed s input → concluded s input)
    (preserved : ∀ s input, invariant s → assumed s input →
      invariant ((process input).state s))
    (inputs : List ι)
    (s : σ)
    (initially : invariant s)
    (along : Along process assumed s inputs) :
    Along process concluded s inputs := by
  induction inputs generalizing s with
  | nil => trivial
  | cons input rest inductionHypothesis =>
      exact ⟨conclude s input initially along.1,
        inductionHypothesis _ (preserved s input initially along.1) along.2⟩

/-! ## What is remembered -/

/-- Each step of a log is good after what the steps before it left to
remember. -/
def Remembering
    (remember : Moment σ ε → List γ)
    (good : List γ → Moment σ ε → Prop) :
    List γ → List (Moment σ ε) → Prop
  | _, [] => True
  | past, moment :: rest =>
      good past moment ∧
        Remembering remember good (past ++ remember moment) rest

/-- From every past and state of the invariant, each step is good after what
is remembered, and the invariant holds of what is remembered afterwards. -/
def Recalls
    (remember : Moment σ ε → List γ)
    (good : List γ → Moment σ ε → Prop)
    (invariant : List γ → σ → Prop)
    (program : Recorder σ ε α) : Prop :=
  ∀ past s, invariant past s →
    Remembering remember good past (program.log s) ∧
      invariant (past ++ (program.log s).flatMap remember) (program.state s)

section Remembering

variable {remember : Moment σ ε → List γ}
  {good : List γ → Moment σ ε → Prop}

theorem remembering_append
    (past : List γ)
    (first second : List (Moment σ ε)) :
    Remembering remember good past (first ++ second) ↔
      Remembering remember good past first ∧
        Remembering remember good (past ++ first.flatMap remember)
          second := by
  induction first generalizing past with
  | nil => simp [Remembering]
  | cons moment rest inductionHypothesis =>
      simp only [List.cons_append, Remembering, inductionHypothesis,
        List.flatMap_cons, List.append_assoc, and_assoc]

/-- What is also known of every step may be used. -/
theorem Remembering.mono
    {better : List γ → Moment σ ε → Prop}
    {known : Moment σ ε → Prop}
    (improves : ∀ past moment, good past moment → known moment →
      better past moment)
    {past : List γ}
    {log : List (Moment σ ε)}
    (remembering : Remembering remember good past log)
    (throughout : ∀ moment ∈ log, known moment) :
    Remembering remember better past log := by
  induction log generalizing past with
  | nil => trivial
  | cons moment rest inductionHypothesis =>
      exact ⟨improves past moment remembering.1
          (throughout moment List.mem_cons_self),
        inductionHypothesis remembering.2 fun later member =>
          throughout later (List.mem_cons_of_mem moment member)⟩

end Remembering

namespace Recalls

variable {remember : Moment σ ε → List γ}
  {good : List γ → Moment σ ε → Prop} {invariant : List γ → σ → Prop}

theorem pure (value : α) :
    Recalls remember good invariant
      (Pure.pure value : Recorder σ ε α) := by
  intro past s initially
  refine ⟨trivial, ?_⟩
  rw [log_pure, List.flatMap_nil, List.append_nil]
  exact initially

theorem bind
    {first : Recorder σ ε α}
    {next : α → Recorder σ ε β}
    (recallsFirst : Recalls remember good invariant first)
    (recallsNext : ∀ value, Recalls remember good invariant (next value)) :
    Recalls remember good invariant (first >>= next) := by
  intro past s initially
  obtain ⟨goodFirst, between⟩ := recallsFirst past s initially
  obtain ⟨goodNext, final⟩ := recallsNext (first.value s) _ _ between
  rw [log_bind, List.flatMap_append, ← List.append_assoc]
  exact ⟨(remembering_append past _ _).mpr ⟨goodFirst, goodNext⟩, final⟩

theorem step
    {transition : σ → ε × σ}
    (isGood : ∀ past s, invariant past s →
      good past ⟨s, (transition s).1, (transition s).2⟩)
    (kept : ∀ past s, invariant past s →
      invariant (past ++ remember ⟨s, (transition s).1, (transition s).2⟩)
        (transition s).2) :
    Recalls remember good invariant (Recorder.step transition) := by
  intro past s initially
  rw [log_step, List.flatMap_singleton]
  exact ⟨⟨isGood past s initially, trivial⟩, kept past s initially⟩

theorem emit
    {event : ε}
    {update : σ → σ}
    (isGood : ∀ past s, invariant past s → good past ⟨s, event, update s⟩)
    (kept : ∀ past s, invariant past s →
      invariant (past ++ remember ⟨s, event, update s⟩) (update s)) :
    Recalls remember good invariant (Recorder.emit event update) :=
  Recalls.step isGood kept

theorem get_bind
    {next : σ → Recorder σ ε α}
    (recalls : ∀ s, Recalls remember good invariant (next s)) :
    Recalls remember good invariant (get >>= next) := by
  intro past s initially
  rw [log_get_bind, state_get_bind]
  exact recalls s past s initially

theorem each
    {process : ι → Recorder σ ε Unit}
    (recalls : ∀ input, Recalls remember good invariant (process input))
    (inputs : List ι) :
    Recalls remember good invariant (Recorder.each process inputs) := by
  induction inputs with
  | nil => exact Recalls.pure ()
  | cons input rest inductionHypothesis =>
      exact (recalls input).bind fun _ => inductionHypothesis

end Recalls

/-! ## Two runs -/

/-- From states related by `pre`, two executions of the program return the same
value, are observed alike, and end in states related by `post`. -/
def Relates
    (pre : σ → σ → Prop)
    (observe : Moment σ ε → List ω)
    (post : σ → σ → Prop)
    (program : Recorder σ ε α) : Prop :=
  ∀ s t, pre s t →
    program.value s = program.value t ∧
      (program.log s).flatMap observe = (program.log t).flatMap observe ∧
      post (program.state s) (program.state t)

namespace Relates

variable {pre middle post : σ → σ → Prop} {observe : Moment σ ε → List ω}

theorem bind
    {first : Recorder σ ε α}
    {next : α → Recorder σ ε β}
    (relatesFirst : Relates pre observe middle first)
    (relatesNext : ∀ value, Relates middle observe post (next value)) :
    Relates pre observe post (first >>= next) := by
  intro s t related
  obtain ⟨sameValue, alike, between⟩ := relatesFirst s t related
  obtain ⟨sameResult, restAlike, final⟩ :=
    relatesNext (first.value s) _ _ between
  refine ⟨?_, ?_, ?_⟩
  · rw [value_bind, value_bind, ← sameValue, sameResult]
  · rw [log_bind, log_bind, List.flatMap_append, List.flatMap_append, alike,
      ← sameValue, restAlike]
  · rw [state_bind, state_bind, ← sameValue]
    exact final

theorem step
    {transition : σ → ε × σ}
    (alike : ∀ s t, pre s t →
      observe ⟨s, (transition s).1, (transition s).2⟩ =
        observe ⟨t, (transition t).1, (transition t).2⟩)
    (relates : ∀ s t, pre s t → post (transition s).2 (transition t).2) :
    Relates pre observe post (Recorder.step transition) := by
  intro s t related
  refine ⟨rfl, ?_, relates s t related⟩
  rw [log_step, log_step, List.flatMap_singleton, List.flatMap_singleton,
    alike s t related]

theorem emit
    {event : ε}
    {update : σ → σ}
    (alike : ∀ s t, pre s t →
      observe ⟨s, event, update s⟩ = observe ⟨t, event, update t⟩)
    (relates : ∀ s t, pre s t → post (update s) (update t)) :
    Relates pre observe post (Recorder.emit event update) :=
  Relates.step alike relates

theorem pure (value : α) :
    Relates pre observe pre (Pure.pure value : Recorder σ ε α) :=
  fun _ _ related => ⟨rfl, rfl, related⟩

/-- A branch on a condition that related states agree on. -/
theorem ite_get
    {condition : σ → Prop}
    [DecidablePred condition]
    {first second : Recorder σ ε α}
    (agree : ∀ s t, pre s t → (condition s ↔ condition t))
    (onTrue : Relates (fun s t => pre s t ∧ condition s) observe post first)
    (onFalse : Relates (fun s t => pre s t ∧ ¬condition s) observe post
      second) :
    Relates pre observe post
      (get >>= fun s => if condition s then first else second) := by
  intro s t related
  have sameBranch := agree s t related
  by_cases holds : condition s
  · have branches (r : σ) (branch : condition r) :
        (get >>= fun s => if condition s then first else second) r =
          first r := by
      change (if condition r then first else second) r = first r
      rw [if_pos branch]
    simp only [value, state, log, branches s holds,
      branches t (sameBranch.mp holds)]
    exact onTrue s t ⟨related, holds⟩
  · have branches (r : σ) (branch : ¬condition r) :
        (get >>= fun s => if condition s then first else second) r =
          second r := by
      change (if condition r then first else second) r = second r
      rw [if_neg branch]
    simp only [value, state, log, branches s holds,
      branches t fun other => holds (sameBranch.mpr other)]
    exact onFalse s t ⟨related, holds⟩

theorem weaken
    {weaker : σ → σ → Prop}
    {program : Recorder σ ε α}
    (relates : Relates pre observe post program)
    (weakens : ∀ s t, post s t → weaker s t) :
    Relates pre observe weaker program := by
  intro s t related
  obtain ⟨sameValue, alike, final⟩ := relates s t related
  exact ⟨sameValue, alike, weakens _ _ final⟩

theorem each
    {process : ι → Recorder σ ε Unit}
    {inputs : List ι}
    (relates : ∀ input ∈ inputs, Relates pre observe pre (process input)) :
    Relates pre observe pre (Recorder.each process inputs) := by
  induction inputs with
  | nil => exact Relates.pure ()
  | cons input rest inductionHypothesis =>
      exact Relates.bind (relates input List.mem_cons_self) fun _ =>
        inductionHypothesis fun later member =>
          relates later (List.mem_cons_of_mem input member)

end Relates

end Recorder

end LibretroLab
