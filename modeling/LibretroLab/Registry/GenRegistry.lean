import LibretroLab.Library.CString

/-!
# The registry generator

`tools/gen-registry.mjs`: validate the names of `tools/cores.json` and print
the header `cores_list.h`, one `CORE(name)` line per core.
-/

namespace LibretroLab
namespace Registry

/-- One object of `tools/cores.json`. The optional fields may be absent. -/
structure CoreEntry where
  name : String
  repo : String
  ref : Option String
  dir : Option String
  makefile : Option String
  prepatch : Option String

/-- The class `[A-Za-z_]`. -/
def isIdentifierStart (char : Char) : Bool := char.isAlpha || char == '_'

/-- The class `[A-Za-z0-9_]`. -/
def isIdentifierPart (char : Char) : Bool := char.isAlphanum || char == '_'

/-- The test `/^[A-Za-z_][A-Za-z0-9_]*$/`. Without the `m` flag `$` matches at
the very end only, so a trailing newline is rejected. -/
def isIdentifier (name : String) : Bool :=
  match name.toList with
  | [] => false
  | first :: rest => isIdentifierStart first && rest.all isIdentifierPart

/-- The validation loop, with its error text. -/
def checkNames : List CoreEntry → Except String Unit
  | [] => .ok ()
  | core :: rest =>
      if isIdentifier core.name then checkNames rest
      else .error
        ("core name \"" ++ core.name ++ "\" is not a valid C identifier")

/-- The comment between the opening and the closing delimiter at the top of
the header. -/
def headerComment : String :=
  " GENERATED by tools/gen-registry.mjs" ++
    " from tools/cores.json — do not edit.\n" ++
  " * One CORE(name) per statically linked" ++
    " core; cores.c defines CORE twice (extern\n" ++
  " * prototypes, then vtable entries) and" ++
    " includes this file each time (X-macro). "

/-- One line of the table. -/
def coreLine (name : String) : String := "CORE(" ++ name ++ ")"

/-- The header template. -/
def header (cores : List CoreEntry) : String :=
  "/*" ++ headerComment ++ "*/\n" ++
    "\n".intercalate (cores.map fun core => coreLine core.name) ++ "\n"

/-- The script: check every name, then write the header. -/
def genRegistry (cores : List CoreEntry) : Except String String := do
  checkNames cores
  return header cores

/-- Every entry passes the name check. -/
def NamesPass (cores : List CoreEntry) : Prop :=
  ∀ core ∈ cores, isIdentifier core.name = true

instance : DecidablePred NamesPass := fun cores =>
  inferInstanceAs (Decidable (∀ core ∈ cores, isIdentifier core.name = true))

/-- The script writes the header exactly for the files whose names all pass. -/
theorem genRegistry_eq_ok_iff (cores : List CoreEntry) :
    genRegistry cores = .ok (header cores) ↔ NamesPass cores := by
  have checked : checkNames cores = .ok () ↔ NamesPass cores := by
    induction cores with
    | nil => simp [checkNames, NamesPass]
    | cons core rest inductionHypothesis =>
        by_cases passes : isIdentifier core.name = true
        · rw [checkNames, if_pos passes, inductionHypothesis]
          simp [NamesPass, passes]
        · rw [checkNames, if_neg passes]
          simp [NamesPass, passes]
  rw [← checked]
  unfold genRegistry
  cases checkNames cores with
  | error message =>
      simp [bind, Except.bind]
  | ok checkedUnit => simp [bind, Except.bind, pure, Except.pure]

/-- Every character of an identifier is an identifier character. -/
theorem isIdentifierPart_of_mem
    {name : String}
    (identifier : isIdentifier name = true)
    {char : Char}
    (member : char ∈ name.toList) :
    isIdentifierPart char = true := by
  unfold isIdentifier at identifier
  generalize name.toList = chars at identifier member
  cases chars with
  | nil => cases member
  | cons first rest =>
      simp only [Bool.and_eq_true, List.all_eq_true] at identifier
      rcases List.mem_cons.mp member with rfl | inRest
      · have start := identifier.1
        simp only [isIdentifierStart, Bool.or_eq_true] at start
        simp only [isIdentifierPart, Char.isAlphanum, Bool.or_eq_true]
        exact start.imp_left Or.inl
      · exact identifier.2 char inRest

/-- An identifier is not empty. -/
theorem toList_ne_nil_of_isIdentifier
    {name : String}
    (identifier : isIdentifier name = true) :
    name.toList ≠ [] := by
  intro empty
  simp [isIdentifier, empty] at identifier

/-- An identifier contains no U+0000, so it reaches C whole. -/
theorem noNul_of_isIdentifier
    {name : String}
    (identifier : isIdentifier name = true) :
    ∀ char ∈ name.toList, char ≠ Char.ofNat 0 := by
  intro char member isNul
  have part := isIdentifierPart_of_mem identifier member
  subst isNul
  exact absurd part (by decide)

end Registry
end LibretroLab
