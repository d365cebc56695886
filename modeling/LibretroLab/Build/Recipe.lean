import LibretroLab.Build.Commons
import LibretroLab.Library.Linker
import LibretroLab.Registry.Linking

/-!
# The recipe of a core

For every core and slice `tools/build-cores.sh` merges the objects that `make`
left with the compiled shim, turns the tentative definitions of the result into
real ones, makes all names but the wrappers private, links once more and checks
what came out. The programs that the recipe calls are parameters with what the
script relies on of them, and so is whether `printf` is cut off in the checks.
-/

namespace LibretroLab
namespace Build

open Registry (ShimMacros Wrapper coreShim exported linkerName)
open Linker
open Words

/-- An object file of the build. -/
abbrev ObjectFile (Code : Type) := Linker.Object String Code

/-- What ends the script: a command that exits with another status than zero,
or a check. -/
inductive Failure
  | command (program : String)
  | fatal (message : String)
  deriving DecidableEq

/-- The programs of the toolchain for one slice. A program that fails has no
output. -/
structure Tools (Code : Type) where
  /-- `clang -c` of `core-shim.c` for a core: the code of each wrapper and its
  size. -/
  compile : CoreName → Option (Wrapper → Code × Nat)
  /-- `clang -c` of an assembler file. -/
  assemble : List Char → Option (ObjectFile Code)
  /-- The order in which `find` lists the objects of the build directory. -/
  find : List (ObjectFile Code) → List (ObjectFile Code)
  /-- `ld -r` -/
  ld : List (ObjectFile Code) → Option (ObjectFile Code)
  /-- `nmedit -s` -/
  nmedit : List String → ObjectFile Code → Option (ObjectFile Code)
  /-- `nm -g -P -t d` -/
  nmPosix : ObjectFile Code → Option (List PosixLine)
  /-- `nm -g` -/
  nmGlobal : ObjectFile Code → Option (List NmLine)
  /-- `nm -g --defined-only` -/
  nmDefined : ObjectFile Code → Option (List NmLine)
  /-- The pipelines in which `printf` is cut off when a core is checked. -/
  cutOff : CoreName → CutOff

/-- What `make` leaves in the build directory of a core, and what it wrote. Its
exit status does not matter. -/
structure Made (Code : Type) where
  objects : List (ObjectFile Code)
  log : List Char

variable {Code : Type}

/-- The object of `core-shim.c`, with a definition and a call for each
wrapper. -/
def shimObject
    (macros : ShimMacros)
    (name : CoreName)
    (code : Wrapper → Code × Nat) :
    ObjectFile Code where
  definitions := (coreShim (macros.withCorePrefix name)).map fun wrapper =>
    { name := linkerName wrapper.symbol
      scope := .external
      strength := .strong
      size := (code wrapper).2
      code := (code wrapper).1 }
  references := (coreShim (macros.withCorePrefix name)).map fun wrapper =>
    ⟨(code wrapper).1, .symbol (linkerName wrapper.calls)⟩

/-- Under `set -e` a program that fails ends the script. -/
def run (program : String) {α : Type} : Option α → Except Failure α
  | some output => .ok output
  | none => .error (.command program)

/-- `tail -n <count>` -/
def tail (count : Nat) (input : List Char) : String :=
  String.ofList ((wholeLines '\n' input).rtake count).flatten

/-- A short log is shown whole, whether or not its last line has ended. -/
theorem tail_of_short
    {count : Nat}
    {log : List Char}
    (short : (wholeLines '\n' log).length ≤ count) :
    tail count log = String.ofList log := by
  rw [tail, List.rtake, Nat.sub_eq_zero_of_le short, List.drop_zero,
    flatten_wholeLines]

/-- The message if `make` left too few objects, with the end of its log. -/
def tooFewObjects
    (name : CoreName)
    (slice : String)
    (log : List Char) : String :=
  "    FATAL: " ++ name.1 ++ "/" ++ slice ++
    " compile failed (too few objects)\n" ++ tail 60 log

/-- From `merged.o` to `merged2.o`: an assembler file defines the tentative
symbols, if there are any. -/
def materialize
    (tools : Tools Code)
    (merged : ObjectFile Code) :
    Except Failure (ObjectFile Code) := do
  let listing ← run "nm" (tools.nmPosix merged)
  if commonsS (posixOutput listing) ≠ [] then
    let commons ← run "clang" (tools.assemble (commonsS (posixOutput listing)))
    run "ld" (tools.ld [merged, commons])
  else
    pure merged

/-- From the compiled objects to the object of the archive: merge, make the
tentative definitions real, hide, and link again. -/
def hideCore
    (tools : Tools Code)
    (macros : ShimMacros)
    (name : CoreName)
    (objects : List (ObjectFile Code)) :
    Except Failure (ObjectFile Code) := do
  let code ← run "clang" (tools.compile name)
  let merged ← run "ld"
    (tools.ld (tools.find (shimObject macros name code :: objects)))
  let merged2 ← materialize tools merged
  let hidden ← run "nmedit" (tools.nmedit (exported name) merged2)
  run "ld" (tools.ld [hidden])

/-- The checks of what came out. -/
def checkCore
    (tools : Tools Code)
    (name : CoreName)
    (object : ObjectFile Code) :
    Except Failure Unit := do
  let defined ← run "nm" (tools.nmDefined object)
  (hidingGate (tools.cutOff name) name (nmOutput defined)).mapError
    Failure.fatal
  let globals ← run "nm" (tools.nmGlobal object)
  (commonsGate (nmOutput globals)).mapError Failure.fatal

/-- The recipe of one core for one slice. -/
def linkCore
    (tools : Tools Code)
    (macros : ShimMacros)
    (name : CoreName)
    (slice : String)
    (made : Made Code) :
    Except Failure (ObjectFile Code) :=
  if made.objects.length < 15 then
    .error (.fatal (tooFewObjects name slice made.log))
  else do
    let object ← hideCore tools macros name made.objects
    checkCore tools name object
    pure object

/-! ## What the script relies on -/

/-- The definitions that `nm -g` lists. -/
def globals (object : ObjectFile Code) : List (Definition String Code) :=
  object.definitions.filter fun definition => definition.scope = .external

/-- The tentative ones of them. -/
def tentatives (object : ObjectFile Code) : List (Definition String Code) :=
  (globals object).filter fun definition => definition.tentative

/-- A symbol that an assembler file can name as it is. -/
def IsPlain (symbol : String) : Prop :=
  symbol ≠ "" ∧
    ∀ char ∈ symbol.toList, char.isAlphanum = true ∨ char ∈ ['_', '.', '$']

instance : DecidablePred IsPlain := fun symbol =>
  decidable_of_iff
    (symbol ≠ "" ∧ symbol.toList.all
      (fun char => char.isAlphanum || ['_', '.', '$'].contains char) = true)
    (by simp [IsPlain])

/-- The line of `nm -P` for a tentative definition. -/
structure Commons (line : PosixLine) (definition : Definition String Code) :
    Prop where
  symbol : line.symbol = definition.name
  sized : Sized definition.size line.columns

/-- The definition that the assembler makes of a `.zerofill` directive. -/
structure ZeroFilled
    (directive : String × Nat)
    (definition : Definition String Code) : Prop where
  name : definition.name = directive.1
  scope : definition.scope = .external
  strength : definition.strength = .strong
  size : definition.size = directive.2

/-- A symbol that `nm -g` lists of an object: it is defined or referred to. -/
def Mentions (object : ObjectFile Code) (symbol : String) : Prop :=
  (∃ definition ∈ globals object, definition.name = symbol) ∨
    ∃ reference ∈ object.references, reference.target = .symbol symbol

/-- The lines of `nm -g`: defined symbols with their values, where the letter
tells a tentative definition from a real one, and undefined symbols without. -/
inductive ListedBy (object : ObjectFile Code) (line : NmLine) : Prop
  | defined
      (definition : Definition String Code)
      (isGlobal : definition ∈ globals object)
      (symbol : line.symbol = definition.name)
      (value : OneField line.value)
      (letter : line.letter = 'C' ↔ definition.tentative = true)
  | undefined
      (reference : Reference String Code)
      (member : reference ∈ object.references)
      (symbol : reference.target = .symbol line.symbol)
      (noValue : ∀ char ∈ line.value.toList, isBlank char = true)

/-- The documented behaviour of the programs. -/
structure Tools.Documented (tools : Tools Code) : Prop where
  find_perm : ∀ objects, (tools.find objects).Perm objects
  ld_ok : ∀ {inputs output}, tools.ld inputs = some output →
    DistinctDefinitions inputs ∧ output = partialLink inputs
  nmedit_ok : ∀ {keep input output}, tools.nmedit keep input = some output →
    output = demote keep input
  assemble_ok : ∀ {definitions output},
    (∀ definition ∈ definitions, IsPlain definition.1) →
      tools.assemble (directives definitions) = some output →
        output.references = [] ∧
          List.Forall₂ ZeroFilled definitions output.definitions
  nmPosix_ok : ∀ {object listing}, tools.nmPosix object = some listing →
    (∀ line ∈ listing, Mentions object line.symbol) ∧
      ∃ listed, listed.Perm (tentatives object) ∧
        List.Forall₂ Commons
          (listing.filter fun line => line.letter = 'C') listed
  nmGlobal_ok : ∀ {object listing}, tools.nmGlobal object = some listing →
    ∀ line ∈ listing, ListedBy object line
  nmDefined_ok : ∀ {object listing}, tools.nmDefined object = some listing →
    (symbols listing).Perm ((globals object).map Definition.name)

/-- The names that `nm -g` prints of an object are single fields for `awk`. -/
def Printable (object : ObjectFile Code) : Prop :=
  ∀ symbol, Mentions object symbol → OneField symbol

/-- What the script relies on of the objects that `make` compiles. Names can be
printed, and a tentative definition is an external variable of some size with a
name from C. As all names of C start with an underscore, none of them is `C`. -/
structure Compiled (object : ObjectFile Code) : Prop where
  printable : Printable object
  external : ∀ definition ∈ object.definitions, definition.tentative = true →
    definition.scope = .external
  positive : ∀ definition ∈ object.definitions, definition.tentative = true →
    0 < definition.size
  plain : ∀ definition ∈ object.definitions, definition.tentative = true →
    IsPlain definition.name
  underscored : ∀ reference ∈ object.references,
    reference.target ≠ .symbol "C"

/-- The inputs on which no program fails. `ld` wants no duplicates, and `nmedit`
wants the listed symbols to be there. -/
structure Tools.Reliable (tools : Tools Code) : Prop where
  compiles : ∀ name, (tools.compile name).isSome
  assembles : ∀ {definitions : List (String × Nat)},
    (∀ definition ∈ definitions, IsPlain definition.1) →
      (definitions.map Prod.fst).Nodup →
        (tools.assemble (directives definitions)).isSome
  links : ∀ {inputs}, DistinctDefinitions inputs → (tools.ld inputs).isSome
  hides : ∀ {keep input}, (∀ symbol ∈ keep, named [input] symbol ≠ []) →
    (tools.nmedit keep input).isSome
  printsPosix : ∀ object, (tools.nmPosix object).isSome
  printsGlobal : ∀ object, (tools.nmGlobal object).isSome
  printsDefined : ∀ object, (tools.nmDefined object).isSome

/-! ## The steps of a successful run -/

theorem run_eq_ok_iff
    {program : String}
    {α : Type}
    {result : Option α}
    {output : α} :
    run program result = .ok output ↔ result = some output := by
  cases result <;> simp [run]

/-- A program that fails is not a check that fails. -/
theorem run_ne_fatal
    {program : String}
    {α : Type}
    {result : Option α}
    {message : String} :
    run program result ≠ .error (.fatal message) := by
  cases result <;> simp [run]

theorem exists_of_bind_eq_ok
    {α β : Type}
    {first : Except Failure α}
    {next : α → Except Failure β}
    {output : β}
    (succeeds : (first >>= next) = .ok output) :
    ∃ value, first = .ok value ∧ next value = .ok output := by
  cases first with
  | error failure => cases succeeds
  | ok value => exact ⟨value, rfl, succeeds⟩

/-- Two steps end with a message if the first does, or if it succeeds and the
second does. -/
theorem fatal_of_bind
    {α β : Type}
    {first : Except Failure α}
    {next : α → Except Failure β}
    {message : String}
    (ends : (first >>= next) = .error (.fatal message)) :
    first = .error (.fatal message) ∨
      ∃ value, first = .ok value ∧ next value = .error (.fatal message) := by
  cases first with
  | error failure =>
      cases ends
      exact .inl rfl
  | ok value => exact .inr ⟨value, rfl, ends⟩

/-- The outputs of the programs in a run of the recipe that comes to hiding. -/
structure Merging
    (tools : Tools Code)
    (macros : ShimMacros)
    (name : CoreName)
    (objects : List (ObjectFile Code)) where
  code : Wrapper → Code × Nat
  merged : ObjectFile Code
  merged2 : ObjectFile Code
  compiles : tools.compile name = some code
  merges :
    tools.ld (tools.find (shimObject macros name code :: objects)) = some merged
  materializes : materialize tools merged = .ok merged2

/-- The outputs in a run that comes to the checks. -/
structure Stages
    (tools : Tools Code)
    (macros : ShimMacros)
    (name : CoreName)
    (objects : List (ObjectFile Code))
    (object : ObjectFile Code)
    extends Merging tools macros name objects where
  hidden : ObjectFile Code
  hides : tools.nmedit (exported name) merged2 = some hidden
  links : tools.ld [hidden] = some object

theorem stages_of_hideCore
    {tools : Tools Code}
    {macros : ShimMacros}
    {name : CoreName}
    {objects : List (ObjectFile Code)}
    {object : ObjectFile Code}
    (succeeds : hideCore tools macros name objects = .ok object) :
    Nonempty (Stages tools macros name objects object) := by
  obtain ⟨code, compiles, succeeds⟩ := exists_of_bind_eq_ok succeeds
  obtain ⟨merged, merges, succeeds⟩ := exists_of_bind_eq_ok succeeds
  obtain ⟨merged2, materializes, succeeds⟩ := exists_of_bind_eq_ok succeeds
  obtain ⟨hidden, hides, links⟩ := exists_of_bind_eq_ok succeeds
  exact ⟨⟨⟨code, merged, merged2, run_eq_ok_iff.mp compiles,
    run_eq_ok_iff.mp merges, materializes⟩, hidden, run_eq_ok_iff.mp hides,
    run_eq_ok_iff.mp links⟩⟩

/-- Making the tentative definitions real ends in no message. -/
theorem materialize_ne_fatal
    {tools : Tools Code}
    {merged : ObjectFile Code}
    {message : String} :
    materialize tools merged ≠ .error (.fatal message) := by
  intro ends
  rcases fatal_of_bind ends with ends | ⟨listing, _, ends⟩
  · exact run_ne_fatal ends
  · split at ends
    · rcases fatal_of_bind ends with ends | ⟨commons, _, ends⟩
      · exact run_ne_fatal ends
      · exact run_ne_fatal ends
    · cases ends

/-- Only the checks have messages. -/
theorem hideCore_ne_fatal
    {tools : Tools Code}
    {macros : ShimMacros}
    {name : CoreName}
    {objects : List (ObjectFile Code)}
    {message : String} :
    hideCore tools macros name objects ≠ .error (.fatal message) := by
  intro ends
  rcases fatal_of_bind ends with ends | ⟨code, _, ends⟩
  · exact run_ne_fatal ends
  rcases fatal_of_bind ends with ends | ⟨merged, _, ends⟩
  · exact run_ne_fatal ends
  rcases fatal_of_bind ends with ends | ⟨merged2, _, ends⟩
  · exact materialize_ne_fatal ends
  rcases fatal_of_bind ends with ends | ⟨hidden, _, ends⟩
  · exact run_ne_fatal ends
  · exact run_ne_fatal ends

/-- A run of the recipe that comes to its end came to its checks. -/
theorem stages_of_linkCore
    {tools : Tools Code}
    {macros : ShimMacros}
    {name : CoreName}
    {slice : String}
    {made : Made Code}
    {object : ObjectFile Code}
    (succeeds : linkCore tools macros name slice made = .ok object) :
    Nonempty (Stages tools macros name made.objects object) := by
  rw [linkCore] at succeeds
  split at succeeds
  · cases succeeds
  · obtain ⟨output, hides, succeeds⟩ := exists_of_bind_eq_ok succeeds
    obtain ⟨_, _, succeeds⟩ := exists_of_bind_eq_ok succeeds
    cases succeeds
    exact stages_of_hideCore hides

end Build
end LibretroLab
