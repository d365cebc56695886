import LibretroLab.Library.CLexer
import LibretroLab.Registry.GenRegistry

/-!
# The X-macro table

`cores.c` includes the generated header, whose tokens are invocations of the
macro `CORE`. This module reads the invocations back from the header text and
shows that they are the names the generator was given.
-/

namespace LibretroLab
namespace Registry

open CLexer

/-- The arguments of a sequence of `CORE(...)` invocations, and nothing else. -/
def coreArguments : List Token → Option (List String)
  | [] => some []
  | .ident macroName :: .punct '(' :: .ident argument :: .punct ')' :: rest =>
      if macroName = "CORE".toList then
        (coreArguments rest).map (String.ofList argument :: ·)
      else none
  | _ => none

/-- Include a core list: the arguments its `CORE` invocations are made with. -/
def includeCoresList (text : String) : Option (List String) :=
  coreArguments
    (tokens isIdentifierPart [] (stripComments false text.toList))

/-- The tokens of one line of the table. -/
def coreLineTokens (name : String) : List Token :=
  [.ident "CORE".toList, .punct '(', .ident name.toList, .punct ')']

theorem coreArguments_flatMap (names : List String) :
    coreArguments (names.flatMap coreLineTokens) = some names := by
  induction names with
  | nil => rfl
  | cons name names inductionHypothesis =>
      simp only [List.flatMap_cons, coreLineTokens, List.cons_append,
        List.nil_append, coreArguments, if_true]
      rw [inductionHypothesis]
      simp

/-- A table line tokenises to its macro invocation. -/
theorem tokens_coreLine
    {name : String}
    (identifier : isIdentifier name = true)
    (rest : List Char) :
    tokens isIdentifierPart [] ((coreLine name).toList ++ '\n' :: rest) =
      coreLineTokens name ++ tokens isIdentifierPart [] rest := by
  have split : (coreLine name).toList ++ '\n' :: rest =
      "CORE".toList ++ '(' :: (name.toList ++ ')' :: '\n' :: rest) := by
    simp [coreLine, String.toList_append]
  have nonempty := toList_ne_nil_of_isIdentifier identifier
  have letters : ∀ char ∈ "CORE".toList, isIdentifierPart char = true := by
    simp [isIdentifierPart]
  rw [split, tokens_word [] _ letters (by decide),
    tokens_word [] _ (fun _ => isIdentifierPart_of_mem identifier)
      (by decide)]
  have newline : tokens isIdentifierPart [] ('\n' :: rest) =
      tokens isIdentifierPart [] rest := rfl
  rw [newline]
  simp [coreLineTokens, pendingToken, charToken, nonempty]

/-- The comment at the top of the header ends where the template ends it. -/
theorem headerComment_unterminated :
    unterminated (headerComment.toList ++ ['*']) = true := by
  unfold headerComment
  repeat rw [String.toList_append]
  decide +kernel

/-- The header body without its comment. -/
def headerTable (names : List String) : List Char :=
  ['\n'].intercalate (names.map fun name => (coreLine name).toList) ++ ['\n']

private theorem toList_commented (comment table : String) :
    ("/*" ++ comment ++ "*/\n" ++ table ++ "\n").toList =
      '/' :: '*' :: (comment.toList ++ '*' :: '/' :: '\n' ::
        (table.toList ++ ['\n'])) := by
  simp [String.toList_append]

private theorem toList_table (cores : List CoreEntry) :
    ("\n".intercalate (cores.map fun core => coreLine core.name)).toList ++
        ['\n'] =
      headerTable (cores.map CoreEntry.name) := by
  simp [headerTable, List.map_map, Function.comp_def]

theorem toList_header (cores : List CoreEntry) :
    (header cores).toList =
      '/' :: '*' :: (headerComment.toList ++ '*' :: '/' :: '\n' ::
        headerTable (cores.map CoreEntry.name)) := by
  rw [header, toList_commented, toList_table]

/-- A table of identifiers contains no slash. -/
theorem slash_not_mem_headerTable
    (names : List String)
    (identifiers : ∀ name ∈ names, isIdentifier name = true) :
    '/' ∉ headerTable names := by
  induction names with
  | nil => decide
  | cons name names inductionHypothesis =>
      have inName : '/' ∉ (coreLine name).toList := by
        intro member
        simp only [coreLine, String.toList_append, List.mem_append] at member
        rcases member with (inMacro | inArgument) | inClose
        · exact absurd inMacro (by decide)
        · exact absurd (isIdentifierPart_of_mem
            (identifiers name List.mem_cons_self) inArgument) (by decide)
        · exact absurd inClose (by decide)
      have later := inductionHypothesis fun other member =>
        identifiers other (List.mem_cons_of_mem _ member)
      cases names with
      | nil => simpa [headerTable] using inName
      | cons next names =>
          unfold headerTable at later ⊢
          rw [List.map_cons, List.map_cons, List.intercalate_cons_cons]
          rw [List.map_cons] at later
          simp only [List.append_assoc, List.mem_append, not_or] at later ⊢
          exact ⟨inName, by decide, later⟩

/-- Reading the generated header back gives the names of the file, in order. -/
theorem includeCoresList_header
    (cores : List CoreEntry)
    (pass : NamesPass cores) :
    includeCoresList (header cores) = some (cores.map CoreEntry.name) := by
  have identifiers : ∀ name ∈ cores.map CoreEntry.name,
      isIdentifier name = true := by
    intro name member
    obtain ⟨core, coreMember, rfl⟩ := List.mem_map.mp member
    exact pass core coreMember
  unfold includeCoresList
  rw [toList_header]
  generalize cores.map CoreEntry.name = names at identifiers
  have opened : stripComments false
      ('/' :: '*' :: (headerComment.toList ++ '*' :: '/' :: '\n' ::
        headerTable names)) =
      ' ' :: stripComments false ('\n' :: headerTable names) := by
    rw [stripComments, if_neg (by decide), if_pos ⟨rfl, rfl⟩]
    exact stripComments_comment _ _ headerComment_unterminated
  have noSlash : '/' ∉ '\n' :: headerTable names := by
    rw [List.mem_cons, not_or]
    exact ⟨by decide, slash_not_mem_headerTable names identifiers⟩
  have blank : tokens isIdentifierPart []
      (' ' :: '\n' :: headerTable names) =
      tokens isIdentifierPart [] (headerTable names) := rfl
  rw [opened, stripComments_of_no_slash _ noSlash, blank, headerTable,
    tokens_intercalate (by decide) (by decide) names _ coreLineTokens
      (fun name member => tokens_coreLine (identifiers name member))]
  have done : tokens isIdentifierPart [] [] = [] := rfl
  rw [done, List.append_nil, coreArguments_flatMap]

end Registry
end LibretroLab
