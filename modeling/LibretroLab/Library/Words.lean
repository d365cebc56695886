import Mathlib.Data.List.DropRight
import Mathlib.Data.List.TakeWhile

/-!
# Lines and words

How a shell reads a text: line by line until the input ends, and within a line
word by word, where runs of a blank separator count as one, leading and
trailing ones are dropped, and the last variable takes the rest of the line.
-/

namespace LibretroLab
namespace Words

variable [DecidableEq α]

/-! ## Lines -/

/-- The input before the next newline and the input after it. There is none at
the end of the input, and a line without newline does not count. -/
def nextLine (newline : α) : List α → Option (List α × List α)
  | [] => none
  | first :: rest =>
      if first = newline then some ([], rest)
      else (nextLine newline rest).map fun found =>
        (first :: found.1, found.2)

theorem nextLine_append
    {newline : α}
    {line : List α}
    (noNewline : newline ∉ line)
    (rest : List α) :
    nextLine newline (line ++ newline :: rest) = some (line, rest) := by
  induction line with
  | nil => simp [nextLine]
  | cons first tail inductionHypothesis =>
      rw [List.mem_cons, not_or] at noNewline
      rw [List.cons_append, nextLine, if_neg (Ne.symm noNewline.1),
        inductionHypothesis noNewline.2]
      rfl

theorem nextLine_eq_none
    {newline : α}
    {text : List α}
    (noNewline : newline ∉ text) :
    nextLine newline text = none := by
  induction text with
  | nil => rfl
  | cons first tail inductionHypothesis =>
      rw [List.mem_cons, not_or] at noNewline
      rw [nextLine, if_neg (Ne.symm noNewline.1),
        inductionHypothesis noNewline.2]
      rfl

/-- A line that is found ends at the first newline. -/
theorem nextLine_eq_some_iff
    (newline : α)
    (text line rest : List α) :
    nextLine newline text = some (line, rest) ↔
      newline ∉ line ∧ text = line ++ newline :: rest := by
  constructor
  · intro found
    by_cases member : newline ∈ text
    · obtain ⟨first, later, rfl, noNewline⟩ :=
        List.eq_append_cons_of_mem member
      rw [nextLine_append noNewline, Option.some.injEq, Prod.mk.injEq] at found
      obtain ⟨rfl, rfl⟩ := found
      exact ⟨noNewline, rfl⟩
    · rw [nextLine_eq_none member] at found
      contradiction
  · rintro ⟨noNewline, rfl⟩
    exact nextLine_append noNewline rest

/-- What comes after a line is shorter. -/
theorem length_of_nextLine
    {newline : α}
    {text line rest : List α}
    (found : nextLine newline text = some (line, rest)) :
    rest.length < text.length := by
  obtain ⟨_, rfl⟩ := (nextLine_eq_some_iff newline text line rest).mp found
  rw [List.length_append, List.length_cons]
  omega

/-- The lines that a loop reads until the input ends. -/
def eachLine (newline : α) (text : List α) : List (List α) :=
  match _found : nextLine newline text with
  | none => []
  | some (line, rest) => line :: eachLine newline rest
termination_by text.length
decreasing_by exact length_of_nextLine _found

theorem eachLine_of_not_mem
    {newline : α}
    {text : List α}
    (noNewline : newline ∉ text) :
    eachLine newline text = [] := by
  rw [eachLine]
  split
  case h_1 => rfl
  case h_2 found =>
    rw [nextLine_eq_none noNewline] at found
    contradiction

theorem eachLine_append
    {newline : α}
    {line : List α}
    (noNewline : newline ∉ line)
    (rest : List α) :
    eachLine newline (line ++ newline :: rest) =
      line :: eachLine newline rest := by
  rw [eachLine]
  split
  case h_1 missing =>
    rw [nextLine_append noNewline] at missing
    contradiction
  case h_2 found =>
    rw [nextLine_append noNewline, Option.some.injEq, Prod.mk.injEq] at found
    rw [found.1, found.2]

/-- Lines without newlines, each followed by one, are read as they are. -/
theorem eachLine_flatMap
    {newline : α}
    (lines : List (List α))
    (noNewline : ∀ line ∈ lines, newline ∉ line) :
    eachLine newline (lines.flatMap fun line => line ++ [newline]) =
      lines := by
  induction lines with
  | nil => exact eachLine_of_not_mem List.not_mem_nil
  | cons line rest inductionHypothesis =>
      rw [List.flatMap_cons, List.append_assoc, List.singleton_append,
        eachLine_append (noNewline line List.mem_cons_self),
        inductionHypothesis fun later member =>
          noNewline later (List.mem_cons_of_mem line member)]

/-- A loop reads as many lines as there are newlines. -/
theorem length_eachLine (newline : α) (text : List α) :
    (eachLine newline text).length = text.count newline := by
  induction text using eachLine.induct newline with
  | case1 text missing =>
      have noNewline : newline ∉ text := by
        intro member
        obtain ⟨line, rest, rfl, first⟩ := List.eq_append_cons_of_mem member
        rw [nextLine_append first] at missing
        contradiction
      rw [eachLine_of_not_mem noNewline, List.count_eq_zero.mpr noNewline,
        List.length_nil]
  | case2 text line rest found inductionHypothesis =>
      obtain ⟨noNewline, rfl⟩ :=
        (nextLine_eq_some_iff newline text line rest).mp found
      rw [eachLine_append noNewline, List.length_cons, inductionHypothesis,
        List.count_append, List.count_eq_zero.mpr noNewline,
        List.count_cons_self, Nat.zero_add]

/-- A line that is read has no newline in it. -/
theorem newline_not_mem_eachLine
    {newline : α}
    {text line : List α}
    (member : line ∈ eachLine newline text) :
    newline ∉ line := by
  induction text using eachLine.induct newline with
  | case1 text missing =>
      rw [eachLine] at member
      split at member
      case h_1 => exact absurd member List.not_mem_nil
      case h_2 found =>
        rw [missing] at found
        contradiction
  | case2 text first rest found inductionHypothesis =>
      obtain ⟨noNewline, rfl⟩ :=
        (nextLine_eq_some_iff newline text first rest).mp found
      rw [eachLine_append noNewline, List.mem_cons] at member
      rcases member with rfl | later
      · exact noNewline
      · exact inductionHypothesis later

/-- The lines of a text, each with the newline that ends it. The last one may
have none. -/
def wholeLines (newline : α) : List α → List (List α)
  | [] => []
  | first :: rest =>
      if first = newline then [first] :: wholeLines newline rest
      else
        match wholeLines newline rest with
        | [] => [[first]]
        | line :: later => (first :: line) :: later

/-- The lines together are the text. -/
theorem flatten_wholeLines (newline : α) (text : List α) :
    (wholeLines newline text).flatten = text := by
  induction text with
  | nil => rfl
  | cons first rest inductionHypothesis =>
      rw [wholeLines]
      split_ifs
      · rw [List.flatten_cons, inductionHypothesis, List.singleton_append]
      · cases lines : wholeLines newline rest with
        | nil =>
            rw [lines] at inductionHypothesis
            simp [← inductionHypothesis]
        | cons line later =>
            rw [lines] at inductionHypothesis
            simp [← inductionHypothesis]

/-- The lines of a text, without newlines. The last one may have had none. -/
def splitLines (newline : α) (text : List α) : List (List α) :=
  (wholeLines newline text).map fun line => line.takeWhile (· ≠ newline)

theorem wholeLines_append
    {newline : α}
    {line : List α}
    (noNewline : newline ∉ line)
    (rest : List α) :
    wholeLines newline (line ++ newline :: rest) =
      (line ++ [newline]) :: wholeLines newline rest := by
  induction line with
  | nil => rw [List.nil_append, List.nil_append, wholeLines, if_pos rfl]
  | cons first later inductionHypothesis =>
      obtain ⟨differs, notLater⟩ :=
        not_or.mp (List.mem_cons.not.mp noNewline)
      rw [List.cons_append, wholeLines, if_neg (Ne.symm differs),
        inductionHypothesis notLater]
      rfl

theorem splitLines_append
    {newline : α}
    {line : List α}
    (noNewline : newline ∉ line)
    (rest : List α) :
    splitLines newline (line ++ newline :: rest) =
      line :: splitLines newline rest := by
  have untilNewline : (line ++ [newline]).takeWhile (· ≠ newline) = line := by
    rw [List.takeWhile_append_of_pos, List.takeWhile_cons_of_neg (by simp),
      List.append_nil]
    intro x member
    rw [decide_eq_true_eq]
    rintro rfl
    exact noNewline member
  rw [splitLines, wholeLines_append noNewline, List.map_cons, untilNewline]
  rfl

/-- A loop reads all lines of a text that ends with a newline. -/
theorem splitLines_concat (newline : α) (text : List α) :
    splitLines newline (text ++ [newline]) =
      eachLine newline (text ++ [newline]) := by
  by_cases member : newline ∈ text
  · obtain ⟨line, rest, rfl, noNewline⟩ := List.eq_append_cons_of_mem member
    rw [List.append_assoc, List.cons_append, splitLines_append noNewline,
      eachLine_append noNewline, splitLines_concat newline rest]
  · rw [splitLines_append member, eachLine_append member,
      eachLine_of_not_mem List.not_mem_nil]
    rfl
termination_by text.length
decreasing_by
  subst_vars
  rw [List.length_append, List.length_cons]
  omega

/-- A loop reads all lines if each of them is followed by a newline. -/
theorem splitLines_flatMap (newline : α) (texts : List (List α)) :
    splitLines newline (texts.flatMap fun text => text ++ [newline]) =
      eachLine newline (texts.flatMap fun text => text ++ [newline]) := by
  cases texts using List.reverseRecOn with
  | nil => exact (eachLine_of_not_mem List.not_mem_nil).symm
  | append_singleton first last =>
      rw [List.flatMap_append, List.flatMap_singleton, ← List.append_assoc]
      exact splitLines_concat newline _

omit [DecidableEq α] in
/-- What is dropped at the end of a list is not kept anyway. -/
theorem filter_rdropWhile (dropped : α → Bool) (text : List α) :
    (text.rdropWhile dropped).filter (fun x => !dropped x) =
      text.filter fun x => !dropped x := by
  induction text using List.reverseRecOn with
  | nil => rfl
  | append_singleton start last inductionHypothesis =>
      by_cases isDropped : dropped last = true
      · rw [List.rdropWhile_concat_pos _ _ _ isDropped, inductionHypothesis]
        simp [isDropped]
      · rw [List.rdropWhile_concat_neg _ _ _ isDropped]

omit [DecidableEq α] in
/-- The first element is dropped only with all that follow it. -/
theorem rdropWhile_cons (dropped : α → Bool) (x : α) (rest : List α) :
    (x :: rest).rdropWhile dropped =
      if dropped x = true ∧ rest.rdropWhile dropped = [] then []
      else x :: rest.rdropWhile dropped := by
  induction rest using List.reverseRecOn with
  | nil => simp [List.rdropWhile_singleton]
  | append_singleton start last inductionHypothesis =>
      rw [← List.cons_append]
      by_cases isDropped : dropped last = true
      · rw [List.rdropWhile_concat_pos _ _ _ isDropped,
          List.rdropWhile_concat_pos _ _ _ isDropped, inductionHypothesis]
      · rw [List.rdropWhile_concat_neg _ _ _ isDropped,
          List.rdropWhile_concat_neg _ _ _ isDropped, List.cons_append,
          if_neg (by simp)]

omit [DecidableEq α] in
/-- Where a search goes on does not depend on what is dropped at the end, if the
search passes over that. -/
theorem dropWhile_rdropWhile
    {dropped passed : α → Bool}
    (passes : ∀ x, dropped x = true → passed x = true)
    (text : List α) :
    (text.rdropWhile dropped).dropWhile passed =
      (text.dropWhile passed).rdropWhile dropped := by
  induction text with
  | nil => rfl
  | cons x rest inductionHypothesis =>
      by_cases isPassed : passed x = true
      · rw [List.dropWhile_cons_of_pos isPassed, ← inductionHypothesis,
          rdropWhile_cons]
        split_ifs with none
        · rw [none.2]
        · rw [List.dropWhile_cons_of_pos isPassed]
      · have kept : ¬dropped x = true := fun isDropped =>
          isPassed (passes x isDropped)
        rw [List.dropWhile_cons_of_neg isPassed, rdropWhile_cons,
          if_neg fun both => kept both.1, List.dropWhile_cons_of_neg isPassed]

/-- Lines of which the last is not empty end with one newline, so dropping the
newlines at the end and adding one gives them back. -/
theorem rdropWhile_flatMap_concat
    {newline : α}
    {last : List α}
    (nonempty : last ≠ [])
    (noNewline : newline ∉ last)
    (start : List (List α)) :
    ((start ++ [last]).flatMap fun line => line ++ [newline]).rdropWhile
        (· = newline) ++ [newline] =
      (start ++ [last]).flatMap fun line => line ++ [newline] := by
  obtain ⟨body, final, rfl⟩ :=
    (List.eq_nil_or_concat' last).resolve_left nonempty
  have differs : final ≠ newline := by
    rintro rfl
    exact noNewline (by simp)
  simp only [List.flatMap_append, List.flatMap_singleton,
    ← List.append_assoc]
  rw [List.rdropWhile_concat_pos _ _ _ (by simp),
    List.rdropWhile_concat_neg _ _ _ (by simpa using differs)]

/-- Dropping the newlines at the end drops the empty lines there. If nothing is
left, the newline that is added makes an empty line. -/
theorem eachLine_rdropWhile
    {newline : α}
    (lines : List (List α))
    (noNewline : ∀ line ∈ lines, newline ∉ line) :
    eachLine newline
        ((lines.flatMap fun line => line ++ [newline]).rdropWhile
          (· = newline) ++ [newline]) =
      if lines.rdropWhile (· = []) = [] then [[]]
      else lines.rdropWhile (· = []) := by
  induction lines using List.reverseRecOn with
  | nil =>
      rw [if_pos (by rfl)]
      exact (eachLine_append List.not_mem_nil []).trans
        (congrArg (List.cons []) (eachLine_of_not_mem List.not_mem_nil))
  | append_singleton start last inductionHypothesis =>
      rw [List.forall_mem_append, List.forall_mem_singleton] at noNewline
      by_cases empty : last = []
      · rw [List.rdropWhile_concat_pos _ _ _ (by simpa using empty),
          ← inductionHypothesis noNewline.1, empty, List.flatMap_append,
          List.flatMap_singleton, List.nil_append,
          List.rdropWhile_concat_pos _ _ _ (by simp)]
      · rw [List.rdropWhile_concat_neg _ _ _ (by simpa using empty),
          rdropWhile_flatMap_concat empty noNewline.2, if_neg (by simp)]
        apply eachLine_flatMap
        rw [List.forall_mem_append, List.forall_mem_singleton]
        exact noNewline

/-! ## Words -/

/-- The last word of a line, where any of several characters may separate
words. -/
def lastWord (separates : α → Bool) (line : List α) : List α :=
  (line.rdropWhile separates).rtakeWhile fun x => !separates x

omit [DecidableEq α] in
theorem mem_of_mem_lastWord
    {separates : α → Bool}
    {line : List α}
    {x : α}
    (member : x ∈ lastWord separates line) :
    x ∈ line :=
  (List.rdropWhile_prefix separates line).subset
    ((List.rtakeWhile_suffix _ _).subset member)

omit [DecidableEq α] in
theorem lastWord_append
    {separates : α → Bool}
    {separator : α}
    {word : List α}
    (ends : separates separator = true)
    (nonempty : word ≠ [])
    (plain : ∀ x ∈ word, separates x = false)
    (start : List α) :
    lastWord separates (start ++ separator :: word) = word := by
  have kept : (start ++ separator :: word).rdropWhile separates =
      start ++ separator :: word := by
    rw [List.rdropWhile_eq_self_iff]
    intro hl
    rw [List.getLast_append_of_right_ne_nil _ _ (by simp),
      List.getLast_cons nonempty, plain _ (List.getLast_mem nonempty)]
    simp
  have inWord : ∀ x ∈ word.reverse, (!separates x) = true := by
    simpa using plain
  rw [lastWord, kept, List.rtakeWhile, List.reverse_append,
    List.reverse_cons, List.append_assoc,
    List.takeWhile_append_of_pos inWord, List.singleton_append,
    List.takeWhile_cons_of_neg (by simpa using ends), List.append_nil,
    List.reverse_reverse]

/-- The words of a line, where any of several characters may separate words. -/
def fields (separates : α → Bool) (line : List α) : List (List α) :=
  (line.splitOnP separates).filter fun word => !word.isEmpty

omit [DecidableEq α] in
theorem fields_word
    {separates : α → Bool}
    {word : List α}
    (nonempty : word ≠ [])
    (plain : ∀ x ∈ word, separates x = false) :
    fields separates word = [word] := by
  rw [fields, List.splitOnP_eq_singleton plain]
  simpa using nonempty

omit [DecidableEq α] in
theorem fields_append
    {separates : α → Bool}
    {separator : α}
    {word : List α}
    (ends : separates separator = true)
    (nonempty : word ≠ [])
    (plain : ∀ x ∈ word, separates x = false)
    (rest : List α) :
    fields separates (word ++ separator :: rest) =
      word :: fields separates rest := by
  rw [fields, List.splitOnP_append_cons_of_forall_mem plain separator ends,
    List.filter_cons_of_pos (by simpa using nonempty)]
  rfl

omit [DecidableEq α] in
/-- A separator at the start of a line ends no word. -/
theorem fields_separators
    {separates : α → Bool}
    {separators : List α}
    (ends : ∀ x ∈ separators, separates x = true)
    (rest : List α) :
    fields separates (separators ++ rest) = fields separates rest := by
  induction separators with
  | nil => rfl
  | cons separator later inductionHypothesis =>
      have here : separates separator = true := ends _ List.mem_cons_self
      rw [List.cons_append, fields, List.splitOnP_cons_eq_if_modifyHead,
        if_pos here, List.filter_cons_of_neg (by simp)]
      exact inductionHypothesis fun x member =>
        ends x (List.mem_cons_of_mem _ member)

omit [DecidableEq α] in
/-- Words joined by a separator are the words of the line. -/
theorem fields_intercalate
    {separates : α → Bool}
    {separator : α}
    (ends : separates separator = true)
    (words : List (List α))
    (nonempty : ∀ word ∈ words, word ≠ [])
    (plain : ∀ word ∈ words, ∀ x ∈ word, separates x = false) :
    fields separates ([separator].intercalate words) = words := by
  induction words with
  | nil => rfl
  | cons word later inductionHypothesis =>
      have wordNonempty := nonempty word List.mem_cons_self
      have wordPlain := plain word List.mem_cons_self
      cases later with
      | nil => simpa using fields_word wordNonempty wordPlain
      | cons next rest =>
          rw [List.intercalate_cons_cons, List.append_assoc,
            List.singleton_append, fields_append ends wordNonempty wordPlain,
            inductionHypothesis
              (fun other later =>
                nonempty other (List.mem_cons_of_mem _ later))
              fun other later => plain other (List.mem_cons_of_mem _ later)]

omit [DecidableEq α] in
theorem not_mem_intercalate
    {x : α}
    {separator : List α}
    (notSeparator : x ∉ separator)
    (words : List (List α))
    (notWord : ∀ word ∈ words, x ∉ word) :
    x ∉ separator.intercalate words := by
  induction words with
  | nil => exact List.not_mem_nil
  | cons word later inductionHypothesis =>
      have here := notWord word List.mem_cons_self
      cases later with
      | nil => simpa using here
      | cons next rest =>
          rw [List.intercalate_cons_cons, List.mem_append, List.mem_append,
            not_or, not_or]
          exact ⟨⟨here, notSeparator⟩, inductionHypothesis fun other member =>
            notWord other (List.mem_cons_of_mem _ member)⟩

/-! ## Looking for a word between separators -/

omit [DecidableEq α] in
/-- Nothing that starts with a separator starts inside a word. -/
theorem infix_word_append
    {separator : α}
    {word : List α}
    (noSeparator : separator ∉ word)
    (pattern rest : List α) :
    separator :: pattern <:+: word ++ rest ↔
      separator :: pattern <:+: rest := by
  induction word with
  | nil => rfl
  | cons x word inductionHypothesis =>
      obtain ⟨differs, notLater⟩ := not_or.mp (List.mem_cons.not.mp noSeparator)
      rw [List.cons_append, List.infix_cons_iff, inductionHypothesis notLater]
      constructor
      · rintro (starts | later)
        · exact absurd (List.cons_prefix_cons.mp starts).1 differs
        · exact later
      · exact Or.inr

omit [DecidableEq α] in
/-- Two words that end in a separator are equal if one starts with the other. -/
theorem word_prefix_iff
    {separator : α}
    {word other : List α}
    (wordPlain : separator ∉ word)
    (otherPlain : separator ∉ other)
    (rest : List α) :
    word ++ [separator] <+: other ++ separator :: rest ↔ word = other := by
  induction word generalizing other with
  | nil =>
      cases other with
      | nil => simp
      | cons x other =>
          have differs : separator ≠ x := fun same =>
            otherPlain (same ▸ List.mem_cons_self)
          simp [differs]
  | cons x word inductionHypothesis =>
      cases other with
      | nil =>
          have differs : x ≠ separator := fun same =>
            wordPlain (same ▸ List.mem_cons_self)
          simp [differs]
      | cons y other =>
          rw [List.cons_append, List.cons_append, List.cons_prefix_cons,
            inductionHypothesis
              (fun member => wordPlain (List.mem_cons_of_mem _ member))
              fun member => otherPlain (List.mem_cons_of_mem _ member),
            List.cons_eq_cons]

omit [DecidableEq α] in
/-- A word stands between separators exactly if it is one of the words. -/
theorem infix_flatMap_iff
    {separator : α}
    {word : List α}
    (plain : separator ∉ word)
    (words : List (List α))
    (wordsPlain : ∀ other ∈ words, separator ∉ other) :
    separator :: (word ++ [separator]) <:+:
        separator :: words.flatMap (fun other => other ++ [separator]) ↔
      word ∈ words := by
  induction words with
  | nil => simp [List.infix_cons_iff]
  | cons other later inductionHypothesis =>
      have otherPlain := wordsPlain other List.mem_cons_self
      rw [List.flatMap_cons, List.infix_cons_iff, List.append_assoc,
        List.singleton_append, infix_word_append otherPlain,
        inductionHypothesis fun another member =>
          wordsPlain another (List.mem_cons_of_mem _ member),
        List.cons_prefix_cons, word_prefix_iff plain otherPlain, List.mem_cons]
      simp

/-- The words that a text splits into, each with a separator after it, are the
text with a separator after it. -/
theorem splitOn_spec (separator : α) (text : List α) :
    (text.splitOn separator).flatMap (fun word => word ++ [separator]) =
        text ++ [separator] ∧
      ∀ word ∈ text.splitOn separator, separator ∉ word := by
  induction text with
  | nil => simp
  | cons x text inductionHypothesis =>
      rw [List.splitOn_cons_eq_if_modifyHead]
      cases split : text.splitOn separator with
      | nil => exact absurd split (List.splitOn_ne_nil separator text)
      | cons first later =>
          rw [split] at inductionHypothesis
          obtain ⟨whole, plain⟩ := inductionHypothesis
          by_cases isSeparator : x = separator
          · rw [if_pos (by simpa using isSeparator), List.flatMap_cons, whole,
              isSeparator]
            exact ⟨rfl, List.forall_mem_cons.mpr ⟨List.not_mem_nil, plain⟩⟩
          · rw [if_neg (by simpa using isSeparator), List.modifyHead_cons,
              List.flatMap_cons]
            refine ⟨congrArg (List.cons x) whole,
              List.forall_mem_cons.mpr ⟨?_, ?_⟩⟩
            · rw [List.mem_cons, not_or]
              exact ⟨Ne.symm isSeparator, plain first List.mem_cons_self⟩
            · exact fun word member =>
                plain word (List.mem_cons_of_mem _ member)

/-- A word stands between separators in a text exactly if the text splits into
it and others. -/
theorem infix_iff_mem_splitOn
    {separator : α}
    {word : List α}
    (plain : separator ∉ word)
    (text : List α) :
    separator :: (word ++ [separator]) <:+: separator :: (text ++ [separator]) ↔
      word ∈ text.splitOn separator := by
  obtain ⟨whole, wordsPlain⟩ := splitOn_spec separator text
  rw [← whole]
  exact infix_flatMap_iff plain _ wordsPlain

/-- The text without the separators at its ends. -/
def trim (separator : α) (text : List α) : List α :=
  (text.dropWhile (· = separator)).rdropWhile (· = separator)

/-- The values of so many variables and a last one, from a text that does not
start with a separator. A run of separators ends a word. -/
def splitWords (separator : α) : Nat → List α → List (List α)
  | 0, text => [text.rdropWhile (· = separator)]
  | more + 1, text =>
      text.takeWhile (· ≠ separator) ::
        splitWords separator more
          ((text.dropWhile (· ≠ separator)).dropWhile (· = separator))

/-- The values of so many variables and a last one. -/
def words (separator : α) (more : Nat) (text : List α) :
    List (List α) :=
  splitWords separator more (text.dropWhile (· = separator))

/-- A word takes one variable. -/
theorem words_append
    {separator : α}
    {word : List α}
    (nonempty : word ≠ [])
    (noSeparator : separator ∉ word)
    (more : Nat)
    (rest : List α) :
    words separator (more + 1) (word ++ separator :: rest) =
      word :: words separator more rest := by
  have inWord : ∀ x ∈ word, x ≠ separator := by
    rintro x member rfl
    exact noSeparator member
  have starts : (word ++ separator :: rest).dropWhile (· = separator) =
      word ++ separator :: rest := by
    obtain ⟨first, tail, rfl⟩ := List.exists_cons_of_ne_nil nonempty
    simp [inWord first List.mem_cons_self]
  have taken : (word ++ separator :: rest).takeWhile (· ≠ separator) =
      word := by
    rw [List.takeWhile_append_of_pos (by simpa using inWord)]
    simp
  have left : ((word ++ separator :: rest).dropWhile
      (· ≠ separator)).dropWhile (· = separator) =
        rest.dropWhile (· = separator) := by
    rw [List.dropWhile_append_of_pos (by simpa using inWord)]
    simp
  rw [words, starts, splitWords, taken, left, words]

/-- Words that are each followed by a separator take one variable each, and the
last variable takes what is left, without separators at its ends. -/
theorem words_flatMap
    {separator : α}
    (fields : List (List α))
    (nonempty : ∀ field ∈ fields, field ≠ [])
    (noSeparator : ∀ field ∈ fields, separator ∉ field)
    (rest : List α) :
    words separator fields.length
        ((fields.flatMap fun field => field ++ [separator]) ++ rest) =
      fields ++ [trim separator rest] := by
  induction fields with
  | nil => rfl
  | cons field later inductionHypothesis =>
      rw [List.flatMap_cons, List.append_assoc, List.append_assoc,
        List.singleton_append, List.length_cons,
        words_append (nonempty field List.mem_cons_self)
          (noSeparator field List.mem_cons_self),
        inductionHypothesis
          (fun other member => nonempty other (List.mem_cons_of_mem _ member))
          fun other member => noSeparator other (List.mem_cons_of_mem _ member),
        List.cons_append]

theorem dropWhile_separator_eq_self_iff (separator : α) (text : List α) :
    text.dropWhile (· = separator) = text ↔ text.head? ≠ some separator := by
  cases text with
  | nil => simp
  | cons first rest =>
      rw [List.dropWhile_eq_self_iff]
      simp

theorem rdropWhile_separator_eq_self_iff (separator : α) (text : List α) :
    text.rdropWhile (· = separator) = text ↔
      text.getLast? ≠ some separator := by
  rw [List.rdropWhile_eq_self_iff]
  cases text using List.reverseRecOn with
  | nil => simp
  | append_singleton start last => simp

/-- Trimming changes nothing exactly if no separator is at either end. -/
theorem trim_eq_self_iff (separator : α) (text : List α) :
    trim separator text = text ↔
      text.head? ≠ some separator ∧ text.getLast? ≠ some separator := by
  rw [← dropWhile_separator_eq_self_iff, ← rdropWhile_separator_eq_self_iff,
    trim]
  constructor
  · intro kept
    have shorter := (List.rdropWhile_prefix (· = separator)
      (text.dropWhile (· = separator))).length_le
    rw [kept] at shorter
    have start : text.dropWhile (· = separator) = text :=
      (List.dropWhile_suffix (· = separator)).eq_of_length_le shorter
    rw [start] at kept
    exact ⟨start, kept⟩
  · rintro ⟨start, ending⟩
    rw [start, ending]

end Words
end LibretroLab
