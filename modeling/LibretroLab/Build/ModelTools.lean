import LibretroLab.Build.Recipe

/-!
# A toolchain

Programs that behave as documented and fail on no input without need. The code
of a wrapper is its name, and the code of a zero-filled block is its symbol.
-/

namespace LibretroLab
namespace Build

open Registry (ShimMacros Wrapper linkerName)
open Linker
open Words

theorem oneField_toString (number : Nat) : OneField (toString number) := by
  refine ⟨by simp, ?_⟩
  intro char member
  have digit := (spells_toString number).1 char member
  refine ⟨?_, ?_⟩
  · by_contra blank
    rw [Bool.not_eq_false, isBlank, Bool.or_eq_true, decide_eq_true_eq,
      decide_eq_true_eq] at blank
    rcases blank with rfl | rfl
    all_goals contradiction
  · rintro rfl
    contradiction

/-- The line of `nm -P` for a definition. -/
def posixLine (definition : Definition String String) : PosixLine where
  symbol := definition.name
  letter := if definition.tentative then 'C' else 'T'
  columns := [toString definition.size]
  letterField := by split <;> decide
  columnFields := by simpa using oneField_toString definition.size

/-- The line of `nm -P` for an undefined symbol. -/
def posixUndefinedLine (symbol : String) : PosixLine where
  symbol := symbol
  letter := 'U'
  columns := ["0", "0"]
  letterField := by decide
  columnFields := by decide

/-- The line of `nm` for a definition. -/
def definedLine (definition : Definition String String) : NmLine where
  value := "0000000000000000"
  letter := if definition.tentative then 'C' else 'T'
  symbol := definition.name
  valueOneLine := newline_not_mem_zeros
  letterVisible := by split <;> decide

/-- The line of `nm` for an undefined symbol. -/
def undefinedLine (symbol : String) : NmLine where
  value := "                "
  letter := 'U'
  symbol := symbol
  valueOneLine := by decide
  letterVisible := by decide

/-- The symbols that an object refers to and does not define. -/
def undefinedSymbols (object : ObjectFile String) : List String :=
  (object.references.filterMap fun reference =>
    match reference.target with
    | .symbol symbol => if named [object] symbol = [] then some symbol else none
    | .bound _ => none).dedup

/-- The definition that a line of an assembler file makes, if it is a
`.zerofill` directive. -/
def zerofillLine (line : List Char) : Option (Definition String String) :=
  match line.splitOn ',' with
  | [_, _, symbol, size, _] =>
      some
        { name := String.ofList symbol
          scope := .external
          strength := .strong
          size := awkNumber size
          code := String.ofList symbol }
  | _ => none

instance (inputs : List (ObjectFile String)) :
    Decidable (DistinctDefinitions inputs) :=
  inferInstanceAs (Decidable
    (((visible inputs).filter Definition.strong).map Definition.name).Nodup)

/-- The toolchain. -/
def modelTools : Tools String where
  compile := fun _ => some fun wrapper => (wrapper.symbol, 4)
  assemble := fun text =>
    some ⟨(eachLine '\n' text).filterMap zerofillLine, []⟩
  find := id
  ld := fun inputs =>
    if DistinctDefinitions inputs then some (partialLink inputs) else none
  nmedit := fun keep input =>
    if ∀ symbol ∈ keep, named [input] symbol ≠ [] then some (demote keep input)
    else none
  nmPosix := fun object =>
    some ((globals object).map posixLine ++
      (undefinedSymbols object).map posixUndefinedLine)
  nmGlobal := fun object =>
    some ((globals object).map definedLine ++
      (undefinedSymbols object).map undefinedLine)
  nmDefined := fun object => some ((globals object).map definedLine)
  cutOff := fun _ => ⟨false, false⟩

/-! ## What they assemble -/

/-- The lines of the directives for a definition. -/
def directiveLines (definition : String × Nat) : List (List Char) :=
  [".globl ".toList ++ definition.1.toList,
    [','].intercalate [".zerofill __DATA".toList, "__common".toList,
      definition.1.toList, (toString definition.2).toList, ['4']]]

theorem directives_eq (definitions : List (String × Nat)) :
    directives definitions =
      (definitions.flatMap directiveLines).flatMap fun line =>
        line ++ ['\n'] := by
  have first : "\n.zerofill __DATA,__common,".toList =
      '\n' :: (".zerofill __DATA".toList ++
        ',' :: ("__common".toList ++ [','])) := by decide
  have second : ",4\n".toList = [',', '4', '\n'] := by decide
  have third : ",".toList = [','] := by decide
  rw [directives, List.flatMap_assoc]
  apply List.flatMap_congr
  intro definition _
  unfold zerofill directiveLines
  rw [first, second, third]
  generalize ".globl ".toList = globl
  generalize ".zerofill __DATA".toList = segment
  generalize "__common".toList = sectionName
  simp only [List.flatMap_cons, List.flatMap_nil, List.intercalate_cons_cons,
    List.intercalate_singleton, List.append_assoc, List.cons_append,
    List.nil_append, List.append_nil]

/-- The characters of a plain symbol do not separate anything. -/
theorem plain_ne
    {symbol : String}
    (plain : IsPlain symbol) :
    ',' ∉ symbol.toList ∧ '\n' ∉ symbol.toList := by
  refine ⟨fun member => ?_, fun member => ?_⟩
  all_goals exact absurd (plain.2 _ member) (by decide)

theorem digits_ne (number : Nat) :
    ',' ∉ (toString number).toList ∧ '\n' ∉ (toString number).toList := by
  refine ⟨fun member => ?_, fun member => ?_⟩
  all_goals exact absurd ((spells_toString number).1 _ member) (by decide)

/-- The definition that the directives make. -/
def filledBlock (definition : String × Nat) : Definition String String where
  name := definition.1
  scope := .external
  strength := .strong
  size := definition.2
  code := definition.1

/-- Of the two directives for a definition the second makes it. -/
theorem filterMap_directiveLines
    {definition : String × Nat}
    (plain : IsPlain definition.1) :
    (directiveLines definition).filterMap zerofillLine =
      [filledBlock definition] := by
  have noComma := (plain_ne plain).1
  have first : zerofillLine (".globl ".toList ++ definition.1.toList) =
      none := by
    have whole : (".globl ".toList ++ definition.1.toList).splitOn ',' =
        [".globl ".toList ++ definition.1.toList] := by
      apply List.splitOn_eq_singleton
      rw [List.mem_append, not_or]
      exact ⟨by decide, noComma⟩
    rw [zerofillLine, whole]
  have second : zerofillLine ([','].intercalate [".zerofill __DATA".toList,
      "__common".toList, definition.1.toList,
      (toString definition.2).toList, ['4']]) =
        some (filledBlock definition) := by
    have noCommas : ∀ field ∈ [".zerofill __DATA".toList, "__common".toList,
        definition.1.toList, (toString definition.2).toList, ['4']],
        ',' ∉ field := by
      simp only [List.forall_mem_cons]
      exact ⟨by decide, by decide, noComma, (digits_ne definition.2).1,
        by decide, by simp⟩
    have fields := List.splitOn_intercalate ',' noCommas (by simp)
    rw [zerofillLine, fields]
    simp only [awkNumber_of_spells (spells_toString definition.2),
      String.ofList_toList]
    rfl
  unfold directiveLines
  simp only [List.filterMap_cons, List.filterMap_nil, first, second]

/-- The assembler makes the definitions. -/
theorem assemble_directives
    {definitions : List (String × Nat)}
    (plain : ∀ definition ∈ definitions, IsPlain definition.1) :
    (eachLine '\n' (directives definitions)).filterMap zerofillLine =
      definitions.map filledBlock := by
  have oneLine : ∀ line ∈ definitions.flatMap directiveLines,
      '\n' ∉ line := by
    intro line member
    obtain ⟨definition, isDefinition, inLines⟩ := List.mem_flatMap.mp member
    have noNewline := (plain_ne (plain definition isDefinition)).2
    unfold directiveLines at inLines
    rcases List.mem_pair.mp inLines with rfl | rfl
    · rw [List.mem_append, not_or]
      exact ⟨by decide, noNewline⟩
    · apply not_mem_intercalate (by decide)
      simp only [List.forall_mem_cons]
      exact ⟨by decide, by decide, noNewline, (digits_ne definition.2).2,
        by decide, by simp⟩
  rw [directives_eq, eachLine_flatMap _ oneLine, List.filterMap_flatMap,
    List.map_eq_flatMap]
  exact List.flatMap_congr fun definition member =>
    filterMap_directiveLines (plain definition member)

/-! ## The toolchain keeps its promises -/

/-- The letter `C` marks the tentative definitions. -/
theorem letter_eq_c_iff (definition : Definition String String) :
    (if definition.tentative = true then 'C' else 'T') = 'C' ↔
      definition.tentative = true := by
  by_cases tentative : definition.tentative = true <;> simp [tentative]

/-- `nm -P` lists the tentative definitions. -/
theorem nmPosix_modelTools (object : ObjectFile String) :
    List.Forall₂ Commons
      (((globals object).map posixLine ++
        (undefinedSymbols object).map posixUndefinedLine).filter
          fun line => line.letter = 'C') (tentatives object) := by
  have undefined : ((undefinedSymbols object).map posixUndefinedLine).filter
      (fun line => line.letter = 'C') = [] := by
    rw [List.filter_eq_nil_iff, List.forall_mem_map]
    exact fun _ _ => by simp [posixUndefinedLine]
  have isC : (fun line : PosixLine => decide (line.letter = 'C')) ∘ posixLine =
      Definition.tentative :=
    funext fun definition => Bool.eq_iff_iff.mpr
      (decide_eq_true_iff.trans (letter_eq_c_iff definition))
  rw [List.filter_append, undefined, List.append_nil, List.filter_map, isC,
    List.forall₂_map_left_iff, tentatives, List.forall₂_same]
  exact fun definition _ => ⟨rfl, .value [] (spells_toString definition.size)⟩

/-- An undefined symbol is the target of a reference. -/
theorem exists_reference
    {object : ObjectFile String}
    {undefined : String}
    (isUndefined : undefined ∈ undefinedSymbols object) :
    ∃ reference ∈ object.references, reference.target = .symbol undefined := by
  rw [undefinedSymbols, List.mem_dedup, List.mem_filterMap] at isUndefined
  obtain ⟨reference, member, isTarget⟩ := isUndefined
  refine ⟨reference, member, ?_⟩
  split at isTarget
  · split at isTarget
    · cases isTarget
      assumption
    · cases isTarget
  · cases isTarget

/-- `nm` lists definitions and undefined symbols. -/
theorem nmGlobal_modelTools (object : ObjectFile String) :
    ∀ line ∈ (globals object).map definedLine ++
      (undefinedSymbols object).map undefinedLine, ListedBy object line := by
  rw [List.forall_mem_append, List.forall_mem_map, List.forall_mem_map]
  constructor
  · intro definition isGlobal
    have value : OneField (definedLine definition).value := by
      change OneField "0000000000000000"
      decide
    exact .defined definition isGlobal rfl value (letter_eq_c_iff definition)
  · intro symbol isUndefined
    obtain ⟨reference, member, isTarget⟩ := exists_reference isUndefined
    have noValue : "                ".toList.all isBlank = true := by decide
    exact .undefined reference member isTarget (List.all_eq_true.mp noValue)

theorem modelTools_documented : modelTools.Documented where
  find_perm := fun objects => .refl objects
  ld_ok := by
    intro inputs output links
    simp only [modelTools] at links
    split at links
    · cases links
      exact ⟨by assumption, rfl⟩
    · cases links
  nmedit_ok := by
    intro keep input output hides
    simp only [modelTools] at hides
    split at hides
    · cases hides
      rfl
    · cases hides
  assemble_ok := by
    intro definitions output plain assembles
    simp only [modelTools, assemble_directives plain] at assembles
    cases assembles
    refine ⟨rfl, ?_⟩
    rw [List.forall₂_map_right_iff, List.forall₂_same]
    exact fun _ _ => ⟨rfl, rfl, rfl, rfl⟩
  nmPosix_ok := by
    intro object listing lists
    cases lists
    refine ⟨?_, _, .refl _, nmPosix_modelTools object⟩
    rw [List.forall_mem_append, List.forall_mem_map, List.forall_mem_map]
    exact ⟨fun definition isGlobal => .inl ⟨definition, isGlobal, rfl⟩,
      fun symbol isUndefined => .inr (exists_reference isUndefined)⟩
  nmGlobal_ok := by
    intro object listing lists
    cases lists
    exact nmGlobal_modelTools object
  nmDefined_ok := by
    intro object listing lists
    cases lists
    rw [symbols, List.map_map]
    exact .of_eq rfl

theorem modelTools_reliable : modelTools.Reliable where
  compiles := fun _ => rfl
  assembles := fun _ _ => rfl
  links := by
    intro inputs distinct
    simp only [modelTools, if_pos distinct]
    rfl
  hides := by
    intro keep input areNamed
    simp only [modelTools, if_pos areNamed]
    rfl
  printsPosix := fun _ => rfl
  printsGlobal := fun _ => rfl
  printsDefined := fun _ => rfl

/-! ## A core -/

/-- A shim compiled with no macros but its own. -/
def noMacros : ShimMacros where
  table := []
  entryPointsPlain := fun _ => List.not_mem_nil

/-- An object with an entry point, a function that other cores have too, an
inline function and an array that is not initialised. -/
def sampleObject (source : String) : ObjectFile String where
  definitions :=
    [⟨"_retro_run", .external, .strong, 64, source ++ " run"⟩,
      ⟨"_inflate", .external, .strong, 200, source ++ " inflate"⟩,
      ⟨"__Z3maxii", .external, .weak, 16, source ++ " max"⟩,
      ⟨"_RAM", .external, .tentative, 2048, source ++ " RAM"⟩]
  references :=
    [⟨source ++ " run", .symbol "_inflate"⟩,
      ⟨source ++ " run", .symbol "__Z3maxii"⟩,
      ⟨source ++ " run", .symbol "_RAM"⟩,
      ⟨source ++ " run", .symbol "_malloc"⟩]

/-- Another object with a copy of the inline function and a smaller array of the
same name. -/
def sampleHelper (source : String) : ObjectFile String where
  definitions :=
    [⟨"__Z3maxii", .external, .weak, 16, source ++ " max again"⟩,
      ⟨"_RAM", .external, .tentative, 512, source ++ " RAM"⟩]
  references := [⟨source ++ " max again", .symbol "_RAM"⟩]

/-- What `make` leaves of a small core. -/
def sampleMade (source : String) : Made String where
  objects := sampleObject source :: sampleHelper source ::
    List.replicate 13 ⟨[], []⟩
  log := []

theorem forall_sampleMade
    {source : String}
    {holds : ObjectFile String → Prop}
    (sample : holds (sampleObject source))
    (helper : holds (sampleHelper source))
    (empty : holds ⟨[], []⟩) :
    ∀ input ∈ (sampleMade source).objects, holds input := by
  rw [sampleMade, List.forall_mem_cons, List.forall_mem_cons]
  refine ⟨sample, helper, fun input member => ?_⟩
  rw [List.eq_of_mem_replicate member]
  exact empty

/-- An object is compiled if its names are plain, its references are to names
with an underscore, and its tentative definitions have a size. -/
theorem compiled_of_plain
    {object : ObjectFile String}
    (definitions : ∀ definition ∈ object.definitions,
      OneField definition.name ∧ (definition.tentative = true →
        definition.scope = .external ∧ 0 < definition.size ∧
          IsPlain definition.name))
    (references : ∀ reference ∈ object.references, ∃ symbol,
      reference.target = .symbol symbol ∧ OneField symbol ∧ symbol ≠ "C") :
    Compiled object where
  printable := by
    rintro symbol (⟨definition, isGlobal, rfl⟩ | ⟨reference, member, isTarget⟩)
    · exact (definitions definition (List.mem_of_mem_filter isGlobal)).1
    · obtain ⟨other, isOther, field, _⟩ := references reference member
      rw [isTarget, Target.symbol.injEq] at isOther
      exact isOther ▸ field
  external := fun definition member tentative =>
    ((definitions definition member).2 tentative).1
  positive := fun definition member tentative =>
    ((definitions definition member).2 tentative).2.1
  plain := fun definition member tentative =>
    ((definitions definition member).2 tentative).2.2
  underscored := by
    intro reference member isC
    obtain ⟨symbol, isSymbol, _, differs⟩ := references reference member
    rw [isC, Target.symbol.injEq] at isSymbol
    exact differs isSymbol.symm

theorem compiled_sampleMade (source : String) :
    ∀ input ∈ (sampleMade source).objects, Compiled input := by
  have isC (symbol : String) (plain : OneField symbol ∧ symbol ≠ "C") :
      ∃ target, (Target.symbol symbol : Target String String) =
        .symbol target ∧ OneField target ∧ target ≠ "C" :=
    ⟨symbol, rfl, plain⟩
  apply forall_sampleMade
  · apply compiled_of_plain
    · simp only [sampleObject, List.forall_mem_cons, Definition.tentative]
      exact ⟨⟨by decide, by simp⟩, ⟨by decide, by simp⟩, ⟨by decide, by simp⟩,
        by decide, by simp⟩
    · simp only [sampleObject, List.forall_mem_cons]
      exact ⟨isC _ (by decide), isC _ (by decide), isC _ (by decide),
        isC _ (by decide), by simp⟩
  · apply compiled_of_plain
    · simp only [sampleHelper, List.forall_mem_cons, Definition.tentative]
      exact ⟨⟨by decide, by simp⟩, by decide, by simp⟩
    · simp only [sampleHelper, List.forall_mem_singleton]
      exact isC _ (by decide)
  · exact compiled_of_plain (by simp) (by simp)

/-- The names that the objects show. -/
theorem names_sampleMade (source : String) :
    (visible (sampleMade source).objects).map Definition.name =
      ["_retro_run", "_inflate", "__Z3maxii", "_RAM", "__Z3maxii", "_RAM"] :=
  rfl

theorem distinctDefinitions_sampleMade (source : String) :
    DistinctDefinitions (sampleMade source).objects := by
  change ["_retro_run", "_inflate"].Nodup
  decide

end Build
end LibretroLab
