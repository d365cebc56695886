import Mathlib.Data.List.TakeWhile
import Mathlib.Logic.Relation

/-!
# A pipe whose reader may leave early

A writer prints its lines into a pipe, one write each, while a reader takes them
out and leaves at the first line that it looks for. A writer that still has
something to write when the reader has left is killed. In which order the two
take their steps is open, so a search that ends before the last line may cost
the writer its life or not.
-/

namespace LibretroLab
namespace Pipe

/-- What has become of the writer. -/
inductive Writer
  | writing
  | finished
  | killed
  deriving DecidableEq

/-- What has become of the reader. -/
inductive Reader
  | reading
  | found
  | notFound
  deriving DecidableEq

/-- The lines that are still to be written, those in the pipe, and the two
processes. -/
structure State (Line : Type) where
  unwritten : List Line
  inPipe : List Line
  writer : Writer
  reader : Reader

variable {Line : Type}

/-- One step of one of the processes. -/
inductive Step (wanted : Line → Bool) : State Line → State Line → Prop
  | write (line : Line) (unwritten inPipe : List Line) :
      Step wanted ⟨line :: unwritten, inPipe, .writing, .reading⟩
        ⟨unwritten, inPipe ++ [line], .writing, .reading⟩
  | kill
      (line : Line)
      (unwritten inPipe : List Line)
      {reader : Reader}
      (left : reader ≠ .reading) :
      Step wanted ⟨line :: unwritten, inPipe, .writing, reader⟩
        ⟨line :: unwritten, inPipe, .killed, reader⟩
  | finish (inPipe : List Line) (reader : Reader) :
      Step wanted ⟨[], inPipe, .writing, reader⟩
        ⟨[], inPipe, .finished, reader⟩
  | skip
      {line : Line}
      (unwanted : wanted line = false)
      (unwritten inPipe : List Line)
      (writer : Writer) :
      Step wanted ⟨unwritten, line :: inPipe, writer, .reading⟩
        ⟨unwritten, inPipe, writer, .reading⟩
  | find
      {line : Line}
      (isWanted : wanted line = true)
      (unwritten inPipe : List Line)
      (writer : Writer) :
      Step wanted ⟨unwritten, line :: inPipe, writer, .reading⟩
        ⟨unwritten, inPipe, writer, .found⟩
  | endOfInput
      (unwritten : List Line)
      {writer : Writer}
      (closed : writer ≠ .writing) :
      Step wanted ⟨unwritten, [], writer, .reading⟩
        ⟨unwritten, [], writer, .notFound⟩

/-- Any number of steps, of either process in any order. -/
abbrev Runs (wanted : Line → Bool) : State Line → State Line → Prop :=
  Relation.ReflTransGen (Step wanted)

/-- Both processes can come to these ends. -/
def Ends
    (wanted : Line → Bool)
    (lines : List Line)
    (writer : Writer)
    (reader : Reader) : Prop :=
  writer ≠ .writing ∧ reader ≠ .reading ∧
    ∃ unwritten inPipe,
      Runs wanted ⟨lines, [], .writing, .reading⟩
        ⟨unwritten, inPipe, writer, reader⟩

/-! ## What holds on the way -/

/-- The reader has passed over some lines, all unwanted, and what is left of the
lines is in the pipe or still to be written. -/
inductive Passed (wanted : Line → Bool) (lines : List Line) :
    State Line → Prop
  | reading
      {taken unwritten inPipe : List Line}
      {writer : Writer}
      (unwanted : ∀ line ∈ taken, wanted line = false)
      (all : lines = taken ++ (inPipe ++ unwritten))
      (alive : writer ≠ .killed)
      (finished : writer = .finished → unwritten = []) :
      Passed wanted lines ⟨unwritten, inPipe, writer, .reading⟩
  | found
      {taken unwritten inPipe : List Line}
      {line : Line}
      {writer : Writer}
      (unwanted : ∀ line ∈ taken, wanted line = false)
      (isWanted : wanted line = true)
      (all : lines = taken ++ line :: (inPipe ++ unwritten))
      (killed : writer = .killed → unwritten ≠ []) :
      Passed wanted lines ⟨unwritten, inPipe, writer, .found⟩
  | notFound
      (unwanted : ∀ line ∈ lines, wanted line = false) :
      Passed wanted lines ⟨[], [], .finished, .notFound⟩

theorem passed_step
    {wanted : Line → Bool}
    {lines : List Line}
    {s t : State Line}
    (passed : Passed wanted lines s)
    (step : Step wanted s t) :
    Passed wanted lines t := by
  cases step with
  | write line unwritten inPipe =>
      cases passed with
      | reading unwanted all alive finished =>
          refine .reading unwanted ?_ alive (by simp)
          rw [all, List.append_assoc, List.singleton_append]
  | kill line unwritten inPipe left =>
      cases passed with
      | reading => exact absurd rfl left
      | found unwanted isWanted all _ =>
          exact .found unwanted isWanted all fun _ => List.cons_ne_nil _ _
  | finish inPipe reader =>
      cases passed with
      | reading unwanted all _ _ =>
          exact .reading unwanted all (by simp) fun _ => rfl
      | found unwanted isWanted all _ =>
          exact .found unwanted isWanted all (by simp)
  | @skip line isUnwanted unwritten inPipe writer =>
      cases passed with
      | @reading taken _ _ _ unwanted all alive finished =>
          have unwanted' : ∀ line' ∈ taken ++ [line],
              wanted line' = false := by
            rw [List.forall_mem_append, List.forall_mem_singleton]
            exact ⟨unwanted, isUnwanted⟩
          refine .reading unwanted' ?_ alive finished
          rw [all, List.append_assoc, List.singleton_append, List.cons_append]
  | @find line isWanted unwritten inPipe writer =>
      cases passed with
      | reading unwanted all alive _ =>
          exact .found unwanted isWanted all fun killed => absurd killed alive
  | @endOfInput unwritten writer closed =>
      cases passed with
      | reading unwanted all alive finished =>
          have isFinished : writer = .finished := by
            cases writer with
            | writing => exact absurd rfl closed
            | finished => rfl
            | killed => exact absurd rfl alive
          obtain rfl := finished isFinished
          subst isFinished
          rw [List.append_nil, List.append_nil] at all
          exact .notFound (all ▸ unwanted)

theorem passed_of_runs
    {wanted : Line → Bool}
    {lines : List Line}
    {s : State Line}
    (runs : Runs wanted ⟨lines, [], .writing, .reading⟩ s) :
    Passed wanted lines s := by
  induction runs with
  | refl =>
      exact .reading (List.forall_mem_nil _) rfl (by simp) (by simp)
  | tail _ step inductionHypothesis =>
      exact passed_step inductionHypothesis step

/-! ## Runs there are -/

/-- The writer can be as far ahead of the reader as it likes. -/
theorem runs_write
    (wanted : Line → Bool)
    (lines unwritten inPipe : List Line) :
    Runs wanted ⟨lines ++ unwritten, inPipe, .writing, .reading⟩
      ⟨unwritten, inPipe ++ lines, .writing, .reading⟩ := by
  induction lines generalizing inPipe with
  | nil =>
      rw [List.nil_append, List.append_nil]
  | cons line lines inductionHypothesis =>
      have rest := inductionHypothesis (inPipe ++ [line])
      rw [List.append_assoc, List.singleton_append] at rest
      exact .head (.write line (lines ++ unwritten) inPipe) rest

/-- The reader passes over what it does not look for. -/
theorem runs_skip
    {wanted : Line → Bool}
    {taken : List Line}
    (unwanted : ∀ line ∈ taken, wanted line = false)
    (unwritten inPipe : List Line)
    (writer : Writer) :
    Runs wanted ⟨unwritten, taken ++ inPipe, writer, .reading⟩
      ⟨unwritten, inPipe, writer, .reading⟩ := by
  induction taken with
  | nil => exact .refl
  | cons line taken inductionHypothesis =>
      rw [List.forall_mem_cons] at unwanted
      exact .head (.skip unwanted.1 unwritten (taken ++ inPipe) writer)
        (inductionHypothesis unwanted.2)

/-- The writer can finish before the reader takes a line. -/
theorem runs_finish (wanted : Line → Bool) (lines : List Line) :
    Runs wanted ⟨lines, [], .writing, .reading⟩
      ⟨[], lines, .finished, .reading⟩ := by
  have written := runs_write wanted lines [] []
  rw [List.append_nil, List.nil_append] at written
  exact written.tail (.finish lines .reading)

section Ends

variable {wanted : Line → Bool} {taken after : List Line} {line : Line}

/-- What the reader leaves behind begins at the first wanted line. -/
theorem dropWhile_unwanted
    (unwanted : ∀ line ∈ taken, wanted line = false)
    (isWanted : wanted line = true)
    (after : List Line) :
    ((taken ++ line :: after).dropWhile fun line => !wanted line) =
      line :: after := by
  rw [List.dropWhile_append_of_pos (by simpa using unwanted),
    List.dropWhile_cons_of_neg (by simpa using isWanted)]

theorem ends_notFound
    {lines : List Line}
    (unwanted : ∀ line ∈ lines, wanted line = false) :
    Ends wanted lines .finished .notFound := by
  refine ⟨by simp, by simp, [], [], ?_⟩
  have skipped := runs_skip unwanted [] [] .finished
  rw [List.append_nil] at skipped
  exact ((runs_finish wanted lines).trans skipped).tail
    (.endOfInput [] (by simp))

theorem ends_found
    (unwanted : ∀ line ∈ taken, wanted line = false)
    (isWanted : wanted line = true)
    (after : List Line) :
    Ends wanted (taken ++ line :: after) .finished .found := by
  refine ⟨by simp, by simp, [], after, ?_⟩
  exact ((runs_finish wanted _).trans
    (runs_skip unwanted [] (line :: after) .finished)).tail
      (.find isWanted [] after .finished)

/-- The reader can leave while the writer still has lines to write. -/
theorem ends_killed
    (unwanted : ∀ line ∈ taken, wanted line = false)
    (isWanted : wanted line = true)
    (more : after ≠ []) :
    Ends wanted (taken ++ line :: after) .killed .found := by
  obtain ⟨next, rest, rfl⟩ := List.exists_cons_of_ne_nil more
  refine ⟨by simp, by simp, next :: rest, [], ?_⟩
  have written := runs_write wanted (taken ++ [line]) (next :: rest) []
  rw [List.append_assoc, List.singleton_append, List.nil_append] at written
  have passed := runs_skip unwanted (next :: rest) [line] .writing
  exact ((written.trans passed).tail
    (.find isWanted (next :: rest) [] .writing)).tail
      (.kill next rest [] (by simp))

/-- A reader that finds nothing wanted reads everything. -/
theorem eq_of_ends_notFound
    {lines : List Line}
    {writer : Writer}
    {reader : Reader}
    (unwanted : ∀ line ∈ lines, wanted line = false)
    (ends : Ends wanted lines writer reader) :
    writer = .finished ∧ reader = .notFound := by
  obtain ⟨_, left, unwritten, inPipe, runs⟩ := ends
  cases passed_of_runs runs with
  | reading => exact absurd rfl left
  | found _ isWanted all _ =>
      rw [unwanted _ (all ▸ by simp)] at isWanted
      contradiction
  | notFound => exact ⟨rfl, rfl⟩

/-- A reader finds the first wanted line, and the writer is killed only if it
has lines left. -/
theorem eq_of_ends_found
    {writer : Writer}
    {reader : Reader}
    (unwanted : ∀ line ∈ taken, wanted line = false)
    (isWanted : wanted line = true)
    (ends : Ends wanted (taken ++ line :: after) writer reader) :
    reader = .found ∧
      (writer = .finished ∨ writer = .killed ∧ after ≠ []) := by
  obtain ⟨ended, left, unwritten, inPipe, runs⟩ := ends
  cases passed_of_runs runs with
  | reading => exact absurd rfl left
  | notFound noneWanted =>
      rw [noneWanted line (by simp)] at isWanted
      contradiction
  | @found taken' _ _ first _ unwanted' isFirst all killed =>
      refine ⟨rfl, ?_⟩
      cases writer with
      | writing => exact absurd rfl ended
      | finished => exact .inl rfl
      | killed =>
          refine .inr ⟨rfl, ?_⟩
          have same := (dropWhile_unwanted unwanted isWanted after).symm.trans
            (all ▸ dropWhile_unwanted unwanted' isFirst _)
          rw [(List.cons.inj same).2]
          exact List.append_ne_nil_of_right_ne_nil _ (killed rfl)

end Ends

/-- **How it can end.** If no line is wanted, the reader reads all of them and
the writer finishes. Otherwise the reader finds the first that is, and the
writer finishes or, unless that was the last line, is killed. -/
theorem ends_iff
    (wanted : Line → Bool)
    (lines : List Line)
    (writer : Writer)
    (reader : Reader) :
    Ends wanted lines writer reader ↔
      match lines.dropWhile fun line => !wanted line with
      | [] => writer = .finished ∧ reader = .notFound
      | _ :: after =>
          reader = .found ∧
            (writer = .finished ∨ writer = .killed ∧ after ≠ []) := by
  have unwantedBefore : ∀ line ∈ lines.takeWhile fun line => !wanted line,
      wanted line = false := by
    intro line member
    simpa using List.mem_takeWhile_imp member
  have split := List.takeWhile_append_dropWhile (p := fun line => !wanted line)
    (l := lines)
  cases rest : lines.dropWhile fun line => !wanted line with
  | nil =>
      rw [rest, List.append_nil] at split
      rw [split] at unwantedBefore
      constructor
      · exact eq_of_ends_notFound unwantedBefore
      · rintro ⟨rfl, rfl⟩
        exact ends_notFound unwantedBefore
  | cons line after =>
      have isWanted : wanted line = true := by
        have first := List.head?_dropWhile_not (fun line => !wanted line) lines
        rw [rest, List.head?_cons] at first
        simpa using first
      rw [rest] at split
      constructor
      · intro ends
        rw [← split] at ends
        exact eq_of_ends_found unwantedBefore isWanted ends
      · rintro ⟨rfl, rfl | ⟨rfl, more⟩⟩
        · exact split ▸ ends_found unwantedBefore isWanted after
        · exact split ▸ ends_killed unwantedBefore isWanted more

end Pipe
end LibretroLab
