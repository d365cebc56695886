import Mathlib.Data.List.Basic

/-!
# A fragment of the C lexer

Comment removal and tokenisation for text made of identifiers, punctuation and
white space. The lemmas compute the tokens of a text piece by piece.
-/

namespace LibretroLab
namespace CLexer

/-- Replace every comment by one space. `inside` says that the text starts
inside a comment. -/
def stripComments (inside : Bool) : List Char → List Char
  | [] => []
  | [last] => if inside then [] else [last]
  | first :: second :: rest =>
      if inside then
        if first = '*' ∧ second = '/' then ' ' :: stripComments false rest
        else stripComments true (second :: rest)
      else if first = '/' ∧ second = '*' then stripComments true rest
      else first :: stripComments false (second :: rest)

/-- No position of the text starts a comment terminator. -/
def unterminated : List Char → Bool
  | first :: second :: rest =>
      !(first == '*' && second == '/') && unterminated (second :: rest)
  | _ => true

/-- Skipping a comment whose body holds no terminator. -/
theorem stripComments_comment
    (body rest : List Char)
    (open_ : unterminated (body ++ ['*']) = true) :
    stripComments true (body ++ '*' :: '/' :: rest) =
      ' ' :: stripComments false rest := by
  induction body with
  | nil => simp [stripComments]
  | cons first tail inductionHypothesis =>
      cases tail with
      | nil =>
          have notClosing : ¬(first = '*' ∧ '*' = '/') := by
            rintro ⟨_, impossible⟩
            exact absurd impossible (by decide)
          simp only [List.cons_append, List.nil_append, stripComments,
            if_true, if_neg notClosing]
          exact inductionHypothesis rfl
      | cons second tail =>
          simp only [List.cons_append, unterminated, Bool.and_eq_true,
            Bool.not_eq_true', Bool.and_eq_false_iff, beq_eq_false_iff_ne,
            ne_eq] at open_
          have notClosing : ¬(first = '*' ∧ second = '/') := by
            rintro ⟨isStar, isSlash⟩
            rcases open_.1 with notStar | notSlash
            · exact notStar isStar
            · exact notSlash isSlash
          simp only [List.cons_append, stripComments, if_true,
            if_neg notClosing]
          exact inductionHypothesis open_.2

/-- Text without a slash has no comment to remove. -/
theorem stripComments_of_no_slash
    (text : List Char)
    (noSlash : '/' ∉ text) :
    stripComments false text = text := by
  induction text with
  | nil => rfl
  | cons first tail inductionHypothesis =>
      cases tail with
      | nil => simp [stripComments]
      | cons second tail =>
          have notOpening : ¬(first = '/' ∧ second = '*') := by
            rintro ⟨isSlash, _⟩
            exact noSlash (isSlash ▸ List.mem_cons_self)
          simp only [stripComments, Bool.false_eq_true, if_false,
            if_neg notOpening]
          rw [inductionHypothesis fun member =>
            noSlash (List.mem_cons_of_mem _ member)]

/-- Identifiers and single punctuation characters. -/
inductive Token
  | ident (spelling : List Char)
  | punct (char : Char)
  deriving DecidableEq

/-- The identifier collected so far, if any. -/
def pendingToken (pending : List Char) : List Token :=
  if pending = [] then [] else [.ident pending]

/-- The token of a character that is no identifier character. -/
def charToken (char : Char) : List Token :=
  if char.isWhitespace then [] else [.punct char]

/-- Tokenise with the longest identifiers; `pending` is the identifier being
collected. -/
def tokens (isPart : Char → Bool) (pending : List Char) :
    List Char → List Token
  | [] => pendingToken pending
  | char :: rest =>
      if isPart char then tokens isPart (pending ++ [char]) rest
      else pendingToken pending ++ charToken char ++ tokens isPart [] rest

/-- An identifier up to a character that ends it is collected whole. -/
theorem tokens_word
    {isPart : Char → Bool}
    (pending word : List Char)
    (parts : ∀ char ∈ word, isPart char = true)
    {stop : Char}
    (stops : isPart stop = false)
    (rest : List Char) :
    tokens isPart pending (word ++ stop :: rest) =
      pendingToken (pending ++ word) ++ charToken stop ++
        tokens isPart [] rest := by
  induction word generalizing pending with
  | nil => simp [tokens, stops]
  | cons char word inductionHypothesis =>
      have isPartChar := parts char List.mem_cons_self
      simp only [List.cons_append, tokens, isPartChar, if_true]
      rw [inductionHypothesis (pending ++ [char])
        fun other member => parts other (List.mem_cons_of_mem _ member)]
      simp

/-- A line-separated text tokenises line by line. -/
theorem tokens_intercalate
    {isPart : Char → Bool}
    {newline : Char}
    (newlineStops : isPart newline = false)
    (newlineBlank : newline.isWhitespace = true)
    (items : List ι)
    (line : ι → List Char)
    (lineTokens : ι → List Token)
    (tokenised : ∀ item ∈ items, ∀ rest,
      tokens isPart [] (line item ++ newline :: rest) =
        lineTokens item ++ tokens isPart [] rest)
    (rest : List Char) :
    tokens isPart []
        ([newline].intercalate (items.map line) ++ newline :: rest) =
      items.flatMap lineTokens ++ tokens isPart [] rest := by
  induction items with
  | nil =>
      simp [tokens, newlineStops, pendingToken, charToken, newlineBlank]
  | cons item items inductionHypothesis =>
      have first := tokenised item List.mem_cons_self
      cases items with
      | nil => simpa using first rest
      | cons next items =>
          have later := inductionHypothesis fun other member =>
            tokenised other (List.mem_cons_of_mem _ member)
          rw [List.map_cons] at later ⊢
          rw [List.map_cons, List.intercalate_cons_cons, List.append_assoc,
            List.append_assoc, List.singleton_append, first, later]
          simp

end CLexer
end LibretroLab
