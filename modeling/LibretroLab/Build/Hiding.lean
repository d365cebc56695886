import LibretroLab.Build.ModelTools

/-!
# What the recipe hides

If the programs of the toolchain succeed, the object of a core defines its
wrappers under their names, defines nothing else for other objects to see, and
has no tentative definitions. The checks at the end of the recipe can then fail
only because `printf` is cut off.
-/

namespace LibretroLab
namespace Build

open Registry (ShimMacros Wrapper EntryPoint coreShim exported linkerName
  prefixedSymbol)
open Linker
open Words

variable {Code : Type}

/-! ## Tentative definitions -/

/-- A definition in place of another: of a tentative one a real one of the same
size, of a real one itself. -/
structure RealOf (before after : Definition String Code) : Prop where
  name : after.name = before.name
  scope : after.scope = .external
  real : after.tentative = false
  size : after.size = before.size
  same : before.tentative = false → after = before

/-- What the script relies on of a merged object: its names can be printed,
there is one definition of a name, all that can be seen is external, and the
tentative definitions can be given to the assembler. -/
structure Merged (object : ObjectFile Code) : Prop where
  printable : Printable object
  oneEach : ∀ symbol, (named [object] symbol).length ≤ 1
  external : ∀ definition ∈ visible [object], definition.scope = .external
  positive : ∀ definition ∈ visible [object], definition.tentative = true →
    0 < definition.size
  plain : ∀ definition ∈ visible [object], definition.tentative = true →
    IsPlain definition.name

/-- In a merged object `nm -g` lists what can be seen. -/
theorem globals_eq_visible
    {object : ObjectFile Code}
    (external : ∀ definition ∈ visible [object], definition.scope = .external) :
    globals object = visible [object] := by
  rw [visible, List.flatMap_singleton] at external ⊢
  rw [globals]
  apply List.filter_congr
  intro definition member
  by_cases isStatic : definition.scope = .static
  · simp [isStatic]
  · have isExternal := external definition
      (List.mem_filter.mpr ⟨member, by simpa using isStatic⟩)
    simp [isExternal]

/-- The tentative definitions of a name. -/
theorem filter_tentatives
    {object : ObjectFile Code}
    (external : ∀ definition ∈ visible [object], definition.scope = .external)
    (symbol : String) :
    (tentatives object).filter (fun definition => definition.name = symbol) =
      (named [object] symbol).filter Definition.tentative := by
  rw [tentatives, globals_eq_visible external, named, List.filter_comm]

/-- The assembler file is about the tentative definitions and their sizes. -/
theorem commons_eq
    {listing : List PosixLine}
    {listed : List (Definition String Code)}
    (lines : List.Forall₂ Commons
      (listing.filter fun line => line.letter = 'C') listed)
    (positive : ∀ definition ∈ listed, 0 < definition.size) :
    commons listing =
      listed.map fun definition => (definition.name, definition.size) := by
  rw [commons]
  generalize (listing.filter fun line => line.letter = 'C') = common at lines
  induction lines with
  | nil => rfl
  | @cons line definition _ _ common _ inductionHypothesis =>
      rw [List.map_cons, List.map_cons, common.symbol,
        commonSize_of_sized (positive definition List.mem_cons_self)
          common.sized,
        inductionHypothesis fun other member =>
          positive other (List.mem_cons_of_mem _ member)]

/-- Only an empty list needs no directives. -/
theorem directives_eq_nil_iff (definitions : List (String × Nat)) :
    directives definitions = [] ↔ definitions = [] := by
  cases definitions with
  | nil => simp [directives]
  | cons definition later =>
      have starts : ".globl ".toList ≠ [] := by decide
      have nonempty : zerofill definition.1.toList definition.2 ≠ [] := by
        unfold zerofill
        iterate 6 refine List.append_ne_nil_of_left_ne_nil ?_ _
        exact starts
      rw [directives, List.flatMap_cons]
      simp [nonempty]

/-- The assembled object defines what the tentative definitions become. -/
theorem forall₂_zeroFilled
    {listed assembled : List (Definition String Code)}
    (zeroFilled : List.Forall₂ ZeroFilled
      (listed.map fun definition => (definition.name, definition.size))
      assembled)
    (tentative : ∀ definition ∈ listed, definition.tentative = true) :
    List.Forall₂ RealOf listed assembled := by
  rw [List.forall₂_map_left_iff] at zeroFilled
  induction zeroFilled with
  | nil => exact .nil
  | @cons definition filled _ _ here _ inductionHypothesis =>
      have real : filled.tentative = false := by
        rw [Definition.tentative, here.strength]
        rfl
      refine .cons ⟨here.name, here.scope, real, here.size, ?_⟩
        (inductionHypothesis fun other member =>
          tentative other (List.mem_cons_of_mem _ member))
      intro real
      rw [tentative definition List.mem_cons_self] at real
      contradiction

/-- All that the assembled object defines can be seen. -/
theorem visible_of_realOf
    {listed : List (Definition String Code)}
    {assembled : ObjectFile Code}
    (realOf : List.Forall₂ RealOf listed assembled.definitions) :
    visible [assembled] = assembled.definitions ∧
      ∀ definition ∈ assembled.definitions, definition.scope = .external := by
  have external : ∀ definition ∈ assembled.definitions,
      definition.scope = .external := by
    generalize assembled.definitions = definitions at realOf
    induction realOf with
    | nil => simp
    | cons real _ inductionHypothesis =>
        exact List.forall_mem_cons.mpr ⟨real.scope, inductionHypothesis⟩
  refine ⟨?_, external⟩
  rw [visible, List.flatMap_singleton, List.filter_eq_self]
  intro definition member
  simp [external definition member]

/-- The definitions of a name that the assembled object has. -/
theorem named_assembled
    {merged assembled : ObjectFile Code}
    (external : ∀ definition ∈ visible [merged], definition.scope = .external)
    {listed : List (Definition String Code)}
    (all : listed.Perm (tentatives merged))
    (realOf : List.Forall₂ RealOf listed assembled.definitions)
    (symbol : String) :
    ∃ before,
      before.Perm
        ((named [merged] symbol).filter Definition.tentative) ∧
      List.Forall₂ RealOf before (named [assembled] symbol) := by
  refine ⟨listed.filter fun definition => definition.name = symbol, ?_, ?_⟩
  · rw [← filter_tentatives external]
    exact all.filter _
  · rw [named, (visible_of_realOf realOf).1]
    apply List.rel_filter _ realOf
    intro before after real
    simp [real.name]

/-- The definitions of a name in a merged object, and those of it and of the
assembled object together. -/
inductive BesideAssembled :
    List (Definition String Code) → List (Definition String Code) → Prop
  | undefined : BesideAssembled [] []
  | real
      (definition : Definition String Code)
      (scope : definition.scope = .external)
      (isReal : definition.tentative = false) :
      BesideAssembled [definition] [definition]
  | tentative
      (before after : Definition String Code)
      (isTentative : before.tentative = true)
      (realOf : RealOf before after) :
      BesideAssembled [before] [before, after]

/-- The assembled object adds a definition to each tentative one. -/
theorem besideAssembled
    {merged assembled : ObjectFile Code}
    (isMerged : Merged merged)
    {listed : List (Definition String Code)}
    (all : listed.Perm (tentatives merged))
    (realOf : List.Forall₂ RealOf listed assembled.definitions)
    (symbol : String) :
    BesideAssembled (named [merged] symbol)
      (named [merged, assembled] symbol) := by
  obtain ⟨before, tentativeOnes, after⟩ :=
    named_assembled isMerged.external all realOf symbol
  have split : named [merged, assembled] symbol =
      named [merged] symbol ++ named [assembled] symbol :=
    named_append [merged] [assembled] symbol
  have one := isMerged.oneEach symbol
  have isExternal : ∀ definition ∈ named [merged] symbol,
      definition.scope = .external := fun definition member =>
    isMerged.external definition
      ((mem_named_iff _ symbol definition).mp member).1
  rw [split]
  match defined : named [merged] symbol with
  | [] =>
      rw [defined, List.filter_nil, List.perm_nil] at tentativeOnes
      rw [tentativeOnes, List.forall₂_nil_left_iff] at after
      rw [after]
      exact .undefined
  | [definition] =>
      rw [defined] at isExternal tentativeOnes
      have scope := isExternal definition (List.mem_singleton_self _)
      cases tentative : definition.tentative with
      | false =>
          rw [List.filter_cons_of_neg (by simp [tentative]),
            List.filter_nil, List.perm_nil] at tentativeOnes
          rw [tentativeOnes, List.forall₂_nil_left_iff] at after
          rw [after]
          exact .real definition scope tentative
      | true =>
          rw [List.filter_cons_of_pos (by simp [tentative]),
            List.filter_nil, List.perm_singleton] at tentativeOnes
          rw [tentativeOnes] at after
          obtain ⟨filled, _, real, rest, filledOnly⟩ :=
            List.forall₂_cons_left_iff.mp after
          rw [List.forall₂_nil_left_iff.mp rest] at filledOnly
          rw [filledOnly]
          exact .tentative definition filled tentative real
  | _ :: _ :: _ =>
      rw [defined] at one
      simp at one

/-- Linked with the assembled object, each name of the merged object stands for
one real definition. -/
theorem forall₂_named_linked
    {merged assembled : ObjectFile Code}
    (isMerged : Merged merged)
    {listed : List (Definition String Code)}
    (all : listed.Perm (tentatives merged))
    (realOf : List.Forall₂ RealOf listed assembled.definitions)
    (symbol : String) :
    List.Forall₂ RealOf (named [merged] symbol)
      (named [partialLink [merged, assembled]] symbol) := by
  have beside := besideAssembled isMerged all realOf symbol
  rw [named_partialLink]
  generalize named [merged] symbol = before at beside
  generalize together : named [merged, assembled] symbol = both at beside
  cases beside with
  | undefined =>
      rw [(winner_eq_none_iff _ symbol).mpr together]
      exact .nil
  | real definition scope isReal =>
      rw [winner_of_named_eq_singleton together,
        Option.filter_some_pos (by simpa using scope)]
      exact .cons ⟨rfl, scope, isReal, rfl, fun _ => rfl⟩ .nil
  | tentative before after isTentative realOf =>
      rw [winner_of_named_eq_pair together isTentative realOf.real,
        Option.filter_some_pos (by simpa using realOf.scope)]
      exact .cons realOf .nil

/-- The assembled object brings no duplicates. -/
theorem distinctDefinitions_assembled
    {merged assembled : ObjectFile Code}
    (isMerged : Merged merged)
    {listed : List (Definition String Code)}
    (all : listed.Perm (tentatives merged))
    (realOf : List.Forall₂ RealOf listed assembled.definitions) :
    DistinctDefinitions [merged, assembled] := by
  rw [distinctDefinitions_iff]
  intro symbol
  have beside := besideAssembled isMerged all realOf symbol
  generalize named [merged] symbol = before at beside
  generalize named [merged, assembled] symbol = together at beside
  cases beside with
  | undefined => simp
  | real definition _ _ => exact List.length_filter_le _ [definition]
  | tentative before after isTentative realOf =>
      rw [List.filter_cons_of_neg
        (by simp [strong_eq_false_of_tentative isTentative])]
      exact List.length_filter_le _ [after]

/-- If nothing is tentative, each definition can stay what it is. -/
theorem forall₂_named_self
    {merged : ObjectFile Code}
    (isMerged : Merged merged)
    (noTentatives : tentatives merged = [])
    (symbol : String) :
    List.Forall₂ RealOf (named [merged] symbol) (named [merged] symbol) := by
  have allReal := filter_tentatives isMerged.external symbol
  rw [noTentatives, List.filter_nil] at allReal
  rw [List.forall₂_same]
  intro definition member
  have real := List.filter_eq_nil_iff.mp allReal.symm definition member
  refine ⟨rfl, ?_, by simpa using real, rfl, fun _ => rfl⟩
  exact isMerged.external definition
    ((mem_named_iff _ symbol definition).mp member).1

/-- The assembler file of a merged object is about its tentative definitions,
and the assembler can read it. -/
theorem commons_of_nmPosix
    {tools : Tools Code}
    (documented : tools.Documented)
    {merged : ObjectFile Code}
    (isMerged : Merged merged)
    {listing : List PosixLine}
    (lists : tools.nmPosix merged = some listing) :
    ∃ listed : List (Definition String Code),
      listed.Perm (tentatives merged) ∧
      (∀ definition ∈ listed, definition.tentative = true) ∧
      commonsS (posixOutput listing) = directives (commons listing) ∧
      commons listing =
        (listed.map fun definition => (definition.name, definition.size)) ∧
      ∀ definition ∈ commons listing, IsPlain definition.1 := by
  obtain ⟨mentioned, listed, all, lines⟩ := documented.nmPosix_ok lists
  have isTentative : ∀ definition ∈ listed,
      definition ∈ visible [merged] ∧ definition.tentative = true := by
    intro definition member
    have inTentatives := all.mem_iff.mp member
    rw [tentatives, globals_eq_visible isMerged.external,
      List.mem_filter] at inTentatives
    exact inTentatives
  have inFile : commons listing =
      listed.map fun definition => (definition.name, definition.size) :=
    commons_eq lines fun definition member =>
      isMerged.positive definition (isTentative definition member).1
        (isTentative definition member).2
  refine ⟨listed, all, fun definition member =>
    (isTentative definition member).2, commonsS_posixOutput fun line member =>
      isMerged.printable line.symbol (mentioned line member), inFile, ?_⟩
  rw [inFile, List.forall_mem_map]
  exact fun definition member =>
    isMerged.plain definition (isTentative definition member).1
      (isTentative definition member).2

/-- **Tentative definitions become real.** The object before hiding has one
definition for each that can be seen in the merged object, and it is real. -/
theorem materialize_spec
    {tools : Tools Code}
    (documented : tools.Documented)
    {merged merged2 : ObjectFile Code}
    (isMerged : Merged merged)
    (succeeds : materialize tools merged = .ok merged2) :
    merged2.references = merged.references ∧
      (∀ definition ∈ merged.definitions, definition.scope = .static →
        definition ∈ merged2.definitions) ∧
      ∀ symbol,
        List.Forall₂ RealOf (named [merged] symbol)
          (named [merged2] symbol) := by
  obtain ⟨listing, lists, succeeds⟩ := exists_of_bind_eq_ok succeeds
  obtain ⟨listed, all, allTentative, text, inFile, allPlain⟩ :=
    commons_of_nmPosix documented isMerged (run_eq_ok_iff.mp lists)
  rw [text] at succeeds
  by_cases noDirectives : directives (commons listing) = []
  · rw [if_neg (not_not.mpr noDirectives)] at succeeds
    cases succeeds
    refine ⟨rfl, fun definition member _ => member, ?_⟩
    rw [directives_eq_nil_iff, inFile, List.map_eq_nil_iff] at noDirectives
    rw [noDirectives] at all
    exact forall₂_named_self isMerged (List.nil_perm.mp all)
  · rw [if_pos noDirectives] at succeeds
    obtain ⟨assembled, assembles, links⟩ := exists_of_bind_eq_ok succeeds
    obtain ⟨noReferences, zeroFilled⟩ :=
      documented.assemble_ok allPlain (run_eq_ok_iff.mp assembles)
    rw [inFile] at zeroFilled
    have realOf := forall₂_zeroFilled zeroFilled allTentative
    obtain ⟨_, rfl⟩ := documented.ld_ok (run_eq_ok_iff.mp links)
    have external : ∀ definition ∈ visible [merged, assembled],
        definition.scope = .external := by
      intro definition member
      have split : visible [merged, assembled] =
          visible [merged] ++ visible [assembled] := by simp [visible]
      rw [split, List.mem_append, (visible_of_realOf realOf).1] at member
      rcases member with inMerged | inAssembled
      · exact isMerged.external definition inMerged
      · exact (visible_of_realOf realOf).2 definition inAssembled
    refine ⟨?_, ?_, forall₂_named_linked isMerged all realOf⟩
    · simp [partialLink, noReferences, rebind_eq_self external]
    · intro definition member isStatic
      exact mem_partialLink_of_static List.mem_cons_self member isStatic

/-! ## The shim -/

/-- The wrapper of an entry point. -/
def wrapperOf (name : CoreName) (f : EntryPoint) : Wrapper :=
  ⟨prefixedSymbol name f, f.cName⟩

/-- The definition of a wrapper in the shim's object. -/
def shimDefinition
    (name : CoreName)
    (code : Wrapper → Code × Nat)
    (f : EntryPoint) :
    Definition String Code where
  name := linkerName (prefixedSymbol name f)
  scope := .external
  strength := .strong
  size := (code (wrapperOf name f)).2
  code := (code (wrapperOf name f)).1

/-- The call in a wrapper. -/
def shimReference
    (name : CoreName)
    (code : Wrapper → Code × Nat)
    (f : EntryPoint) :
    Reference String Code :=
  ⟨(code (wrapperOf name f)).1, .symbol (linkerName f.cName)⟩

/-- Under a name that is no macro, the shim defines and calls what its lines
say. -/
theorem shimObject_eq
    {macros : ShimMacros}
    {name : CoreName}
    (plain : name.1 ∉ (macros.withCorePrefix name).map Prod.fst)
    (code : Wrapper → Code × Nat) :
    shimObject macros name code =
      { definitions := EntryPoint.all.map (shimDefinition name code)
        references := EntryPoint.all.map (shimReference name code) } := by
  rw [shimObject, Registry.coreShim_eq macros plain, List.map_map, List.map_map]
  rfl

/-! ## Names that can be printed -/

/-- A link gives nothing a new name. -/
theorem printable_partialLink
    {inputs : List (ObjectFile Code)}
    (printable : ∀ input ∈ inputs, Printable input) :
    Printable (partialLink inputs) := by
  rintro symbol (⟨definition, isGlobal, rfl⟩ | ⟨reference, member, isTarget⟩)
  · obtain ⟨inLink, isExternal⟩ := List.mem_filter.mp isGlobal
    have isVisible : definition ∈ visible [partialLink inputs] := by
      rw [visible, List.flatMap_singleton]
      rw [decide_eq_true_eq] at isExternal
      exact List.mem_filter.mpr ⟨inLink, by simp [isExternal]⟩
    rw [visible_partialLink, List.mem_filter, mem_winners_iff] at isVisible
    have inVisible :=
      ((mem_named_iff inputs _ definition).mp (winner_mem isVisible.1)).1
    obtain ⟨input, isInput, inInput⟩ := List.mem_flatMap.mp inVisible
    exact printable input isInput _ (.inl ⟨definition,
      List.mem_filter.mpr ⟨List.mem_of_mem_filter inInput, isExternal⟩, rfl⟩)
  · obtain ⟨before, inInputs, rfl⟩ := List.mem_map.mp member
    obtain ⟨input, isInput, inInput⟩ := List.mem_flatMap.mp inInputs
    exact printable input isInput symbol
      (.inr ⟨before, inInput, eq_of_rebind_eq_symbol isTarget⟩)

theorem cName_isIdentifier :
    ∀ f : EntryPoint, Registry.isIdentifier (linkerName f.cName) = true := by
  decide +kernel

theorem oneField_wrapper (name : CoreName) (f : EntryPoint) :
    OneField (linkerName (prefixedSymbol name f)) := by
  apply oneField_of_isIdentifier
  apply isIdentifier_of_mem_exported name
  rw [Registry.exported_eq]
  exact List.mem_map.mpr ⟨f, EntryPoint.mem_all f, rfl⟩

theorem printable_shimObject
    {macros : ShimMacros}
    {name : CoreName}
    (plain : name.1 ∉ (macros.withCorePrefix name).map Prod.fst)
    (code : Wrapper → Code × Nat) :
    Printable (shimObject macros name code) := by
  rw [shimObject_eq plain]
  rintro symbol (⟨definition, isGlobal, rfl⟩ | ⟨reference, member, isTarget⟩)
  · obtain ⟨f, _, rfl⟩ := List.mem_map.mp (List.mem_of_mem_filter isGlobal)
    exact oneField_wrapper name f
  · obtain ⟨f, _, rfl⟩ := List.mem_map.mp member
    cases isTarget
    exact oneField_of_isIdentifier (cName_isIdentifier f)

/-! ## The names of the object -/

/-- The objects that a run of the recipe merges. -/
def Merging.inputs
    {tools : Tools Code}
    {macros : ShimMacros}
    {name : CoreName}
    {objects : List (ObjectFile Code)}
    (merging : Merging tools macros name objects) :
    List (ObjectFile Code) :=
  tools.find (shimObject macros name merging.code :: objects)

section Run

variable
  {tools : Tools Code}
  {macros : ShimMacros}
  {name : CoreName}
  {objects : List (ObjectFile Code)}
  {object : ObjectFile Code}

/-- What is tentative comes from the compiled objects. -/
theorem tentative_of_visible
    (documented : tools.Documented)
    (compiled : ∀ input ∈ objects, Compiled input)
    {code : Wrapper → Code × Nat}
    {definition : Definition String Code}
    (isVisible : definition ∈
      visible (tools.find (shimObject macros name code :: objects)))
    (tentative : definition.tentative = true) :
    definition.scope = .external ∧ 0 < definition.size ∧
      IsPlain definition.name := by
  obtain ⟨input, isInput, inInput⟩ := List.mem_flatMap.mp isVisible
  have member := List.mem_of_mem_filter inInput
  rw [(documented.find_perm _).mem_iff, List.mem_cons] at isInput
  rcases isInput with rfl | isInput
  · obtain ⟨wrapper, _, rfl⟩ := List.mem_map.mp member
    contradiction
  · exact ⟨(compiled input isInput).external definition member tentative,
      (compiled input isInput).positive definition member tentative,
      (compiled input isInput).plain definition member tentative⟩

/-- All that is merged can be printed. -/
theorem printable_inputs
    (documented : tools.Documented)
    (plain : name.1 ∉ (macros.withCorePrefix name).map Prod.fst)
    (compiled : ∀ input ∈ objects, Compiled input)
    (code : Wrapper → Code × Nat) :
    ∀ input ∈ tools.find (shimObject macros name code :: objects),
      Printable input := by
  intro input isInput
  rw [(documented.find_perm _).mem_iff, List.mem_cons] at isInput
  rcases isInput with rfl | isInput
  · exact printable_shimObject plain code
  · exact (compiled input isInput).printable

/-- The merged object can be made real. -/
theorem merged_of_ld
    (documented : tools.Documented)
    (plain : name.1 ∉ (macros.withCorePrefix name).map Prod.fst)
    (compiled : ∀ input ∈ objects, Compiled input)
    {code : Wrapper → Code × Nat}
    {merged : ObjectFile Code}
    (merges : tools.ld (tools.find (shimObject macros name code :: objects)) =
      some merged) :
    Merged merged := by
  obtain ⟨_, rfl⟩ := documented.ld_ok merges
  have fromInputs : ∀ definition ∈
      visible
        [partialLink (tools.find (shimObject macros name code :: objects))],
      definition ∈
          visible (tools.find (shimObject macros name code :: objects)) ∧
        definition.scope = .external := by
    intro definition member
    rw [visible_partialLink, List.mem_filter, mem_winners_iff] at member
    exact ⟨((mem_named_iff _ _ definition).mp (winner_mem member.1)).1,
      by simpa using member.2⟩
  refine ⟨printable_partialLink
      (printable_inputs documented plain compiled code), ?_,
    fun definition member => (fromInputs definition member).2, ?_, ?_⟩
  · intro symbol
    rw [named_partialLink]
    exact Option.length_toList_le
  · intro definition member tentative
    exact (tentative_of_visible documented compiled
      (fromInputs definition member).1 tentative).2.1
  · intro definition member tentative
    exact (tentative_of_visible documented compiled
      (fromInputs definition member).1 tentative).2.2

/-- The last three steps hide all but the listed names. -/
theorem object_eq_hide
    (documented : tools.Documented)
    (stages : Stages tools macros name objects object) :
    object = hide (exported name) stages.merged2 := by
  rw [hide, ← documented.nmedit_ok stages.hides]
  exact (documented.ld_ok stages.links).2

/-- Before hiding there is a real definition for each name that stands for an
external one among the inputs. -/
theorem realOf_winner
    (documented : tools.Documented)
    (plain : name.1 ∉ (macros.withCorePrefix name).map Prod.fst)
    (compiled : ∀ input ∈ objects, Compiled input)
    (merging : Merging tools macros name objects)
    (symbol : String) :
    List.Forall₂ RealOf
      ((winner merging.inputs symbol).filter fun definition =>
        definition.scope = .external).toList
      (named [merging.merged2] symbol) := by
  have isMerged := merged_of_ld documented plain compiled merging.merges
  have realOf :=
    (materialize_spec documented isMerged merging.materializes).2.2 symbol
  rw [(documented.ld_ok merging.merges).2, named_partialLink] at realOf
  exact realOf

/-- A listed name keeps its definition, and no other name has one that can be
seen. -/
theorem named_object
    (documented : tools.Documented)
    (plain : name.1 ∉ (macros.withCorePrefix name).map Prod.fst)
    (compiled : ∀ input ∈ objects, Compiled input)
    (stages : Stages tools macros name objects object)
    (symbol : String) :
    named [object] symbol =
      if symbol ∈ exported name then named [stages.merged2] symbol else [] := by
  have realOf :=
    realOf_winner documented plain compiled stages.toMerging symbol
  have one : (named [stages.merged2] symbol).length ≤ 1 :=
    realOf.length_eq ▸ Option.length_toList_le
  have isHidden : named [object] symbol =
      named [hide (exported name) stages.merged2] symbol :=
    congrArg (fun object => named [object] symbol)
      (object_eq_hide documented stages)
  rw [isHidden]
  match after : named [stages.merged2] symbol with
  | [] =>
      rw [named_hide_of_unnamed after, ite_self]
  | [definition] =>
      rw [after] at realOf
      obtain ⟨before, _, real, _, _⟩ := List.forall₂_cons_right_iff.mp realOf
      exact named_hide after real.scope real.real
  | _ :: _ :: _ =>
      rw [after] at one
      simp at one

/-- The wrappers come through merging and through the tentative definitions. -/
theorem named_wrapper
    (documented : tools.Documented)
    (plain : name.1 ∉ (macros.withCorePrefix name).map Prod.fst)
    (compiled : ∀ input ∈ objects, Compiled input)
    (merging : Merging tools macros name objects)
    (f : EntryPoint) :
    named [merging.merged2] (linkerName (prefixedSymbol name f)) =
      [shimDefinition name merging.code f] := by
  have isVisible :
      shimDefinition name merging.code f ∈ visible merging.inputs := by
    refine List.mem_flatMap.mpr
      ⟨shimObject macros name merging.code, ?_, List.mem_filter.mpr ⟨?_, ?_⟩⟩
    · rw [Merging.inputs, (documented.find_perm _).mem_iff]
      exact List.mem_cons_self
    · rw [shimObject_eq plain]
      exact List.mem_map_of_mem (EntryPoint.mem_all f)
    · rfl
  have won : winner merging.inputs (linkerName (prefixedSymbol name f)) =
      some (shimDefinition name merging.code f) :=
    winner_of_strong (documented.ld_ok merging.merges).1 isVisible rfl
  have realOf := realOf_winner documented plain compiled merging
    (linkerName (prefixedSymbol name f))
  rw [won] at realOf
  obtain ⟨after, _, real, rest, only⟩ := List.forall₂_cons_left_iff.mp realOf
  rw [only, List.forall₂_nil_left_iff.mp rest, real.same rfl]

theorem named_object_wrapper
    (documented : tools.Documented)
    (plain : name.1 ∉ (macros.withCorePrefix name).map Prod.fst)
    (compiled : ∀ input ∈ objects, Compiled input)
    (stages : Stages tools macros name objects object)
    (f : EntryPoint) :
    named [object] (linkerName (prefixedSymbol name f)) =
      [shimDefinition name stages.code f] := by
  have isListed : linkerName (prefixedSymbol name f) ∈ exported name := by
    rw [Registry.exported_eq]
    exact List.mem_map.mpr ⟨f, EntryPoint.mem_all f, rfl⟩
  rw [named_object documented plain compiled stages, if_pos isListed,
    named_wrapper documented plain compiled stages.toMerging]

/-- What can be seen of the object are the wrappers' definitions, each once. -/
theorem visible_object
    (documented : tools.Documented)
    (plain : name.1 ∉ (macros.withCorePrefix name).map Prod.fst)
    (compiled : ∀ input ∈ objects, Compiled input)
    (stages : Stages tools macros name objects object) :
    (visible [object]).Perm
      (EntryPoint.all.map (shimDefinition name stages.code)) := by
  apply visible_perm_of_named
  intro symbol
  by_cases isListed : symbol ∈ exported name
  · rw [Registry.exported_eq] at isListed
    obtain ⟨f, _, rfl⟩ := List.mem_map.mp isListed
    have only : (EntryPoint.all.map (shimDefinition name stages.code)).filter
        (fun definition =>
          definition.name = linkerName (prefixedSymbol name f)) =
          [shimDefinition name stages.code f] := by
      rw [List.filter_map]
      have onlyEntryPoint : EntryPoint.all.filter (fun other =>
          linkerName (prefixedSymbol name other) =
            linkerName (prefixedSymbol name f)) = [f] := by
        apply filter_key_eq_singleton EntryPoint.nodup_all _
          (EntryPoint.mem_all f)
        intro first _ second _ equal
        exact (Registry.prefixedSymbol_inj
          (Registry.linkerName_inj.mp equal)).2
      exact congrArg (List.map (shimDefinition name stages.code)) onlyEntryPoint
    exact (named_object_wrapper documented plain compiled stages f).trans
      only.symm
  · rw [named_object documented plain compiled stages, if_neg isListed]
    symm
    rw [List.filter_eq_nil_iff]
    intro definition member isName
    obtain ⟨f, _, rfl⟩ := List.mem_map.mp member
    apply isListed
    rw [Registry.exported_eq]
    exact List.mem_map.mpr
      ⟨f, EntryPoint.mem_all f, of_decide_eq_true isName⟩

/-- What can be seen of the object is external. -/
theorem external_object
    (documented : tools.Documented)
    (stages : Stages tools macros name objects object) :
    ∀ definition ∈ visible [object], definition.scope = .external := by
  intro definition member
  rw [(documented.ld_ok stages.links).2, visible_partialLink,
    List.mem_filter] at member
  simpa using member.2

/-- What the recipe makes of a target in the objects that it merges. -/
def Stages.retarget
    (stages : Stages tools macros name objects object)
    (target : Target String Code) :
    Target String Code :=
  rebind [demote (exported name) stages.merged2] (rebind stages.inputs target)

/-- The object makes the references of all that has been merged. -/
theorem references_object
    (documented : tools.Documented)
    (plain : name.1 ∉ (macros.withCorePrefix name).map Prod.fst)
    (compiled : ∀ input ∈ objects, Compiled input)
    (stages : Stages tools macros name objects object) :
    object.references =
      (stages.inputs.flatMap Object.references).map fun reference =>
        { reference with target := stages.retarget reference.target } := by
  have isMerged := merged_of_ld documented plain compiled stages.merges
  have same := (materialize_spec documented isMerged stages.materializes).1
  have merged : stages.merged.references =
      (stages.inputs.flatMap Object.references).map fun reference =>
        { reference with target := rebind stages.inputs reference.target } := by
    rw [(documented.ld_ok stages.merges).2]
    rfl
  have isHidden : object.references =
      (hide (exported name) stages.merged2).references :=
    congrArg Object.references (object_eq_hide documented stages)
  rw [isHidden, references_hide, same, merged, List.map_map]
  rfl

/-- No reference is to a symbol that `awk` could take for the letter of a
tentative definition. -/
theorem target_ne_c
    (documented : tools.Documented)
    (plain : name.1 ∉ (macros.withCorePrefix name).map Prod.fst)
    (compiled : ∀ input ∈ objects, Compiled input)
    (stages : Stages tools macros name objects object)
    {reference : Reference String Code}
    (member : reference ∈ object.references) :
    reference.target ≠ .symbol "C" := by
  intro isC
  rw [references_object documented plain compiled stages,
    List.mem_map] at member
  obtain ⟨before, inInputs, rfl⟩ := member
  have wasC : before.target = .symbol "C" :=
    eq_of_rebind_eq_symbol (eq_of_rebind_eq_symbol isC)
  obtain ⟨input, isInput, inInput⟩ := List.mem_flatMap.mp inInputs
  rw [Merging.inputs, (documented.find_perm _).mem_iff,
    List.mem_cons] at isInput
  rcases isInput with rfl | isInput
  · rw [shimObject_eq plain] at inInput
    obtain ⟨f, _, rfl⟩ := List.mem_map.mp inInput
    have spelled : (linkerName f.cName).toList = "C".toList :=
      congrArg String.toList (Target.symbol.inj wasC)
    rw [linkerName, String.toList_append] at spelled
    cases spelled
  · exact (compiled input isInput).underscored before inInput wasC

/-- The object that comes to the checks can be printed. -/
theorem printable_object
    (documented : tools.Documented)
    (plain : name.1 ∉ (macros.withCorePrefix name).map Prod.fst)
    (compiled : ∀ input ∈ objects, Compiled input)
    (stages : Stages tools macros name objects object) :
    Printable object := by
  rintro symbol (⟨definition, isGlobal, rfl⟩ | ⟨reference, member, isTarget⟩)
  · rw [globals_eq_visible (external_object documented stages),
      (visible_object documented plain compiled stages).mem_iff] at isGlobal
    obtain ⟨f, _, rfl⟩ := List.mem_map.mp isGlobal
    exact oneField_wrapper name f
  · rw [references_object documented plain compiled stages,
      List.mem_map] at member
    obtain ⟨before, inInputs, rfl⟩ := member
    obtain ⟨input, isInput, inInput⟩ := List.mem_flatMap.mp inInputs
    exact printable_inputs documented plain compiled stages.code input isInput
      symbol (.inr ⟨before, inInput,
        eq_of_rebind_eq_symbol (eq_of_rebind_eq_symbol isTarget)⟩)

/-- The columns of a line are those of a symbol. -/
theorem columns_of_listedBy
    (printable : Printable object)
    {line : NmLine}
    (listed : ListedBy object line) :
    line.Columns := by
  cases listed with
  | defined definition isGlobal symbol value _ =>
      exact ⟨printable _ (.inl ⟨definition, isGlobal, symbol.symm⟩), .inl value⟩
  | undefined reference member symbol noValue =>
      exact ⟨printable _ (.inr ⟨reference, member, symbol⟩), .inr noValue⟩

/-- If nothing is tentative and no undefined symbol is called `C`, `awk` takes
no line for a common symbol. -/
theorem not_readsCommon_of_listedBy
    {line : NmLine}
    (allReal : ∀ definition ∈ globals object, definition.tentative = false)
    (underscored : ∀ reference ∈ object.references,
      reference.target ≠ .symbol "C")
    (listed : ListedBy object line) :
    ¬ line.ReadsCommon := by
  intro common
  cases listed with
  | defined definition isGlobal _ value letter =>
      rcases common with ⟨_, isC⟩ | ⟨noValue, _⟩
      · have tentative := letter.mp isC
        rw [allReal definition isGlobal] at tentative
        contradiction
      · exact noValue value
  | undefined reference member symbol noValue =>
      rcases common with ⟨value, _⟩ | ⟨_, isC⟩
      · exact not_oneField_of_blank noValue value
      · rw [isC] at symbol
        exact underscored reference member symbol

/-- `printf` is cut off when the wrapper of `retro_run` has been found, since
this is not the last symbol that `nm` prints. -/
def Interrupts
    (tools : Tools Code)
    (name : CoreName)
    (object : ObjectFile Code) : Prop :=
  (tools.cutOff name).run = true ∧
    ∃ defined, tools.nmDefined object = some defined ∧
      (symbols defined).getLast? ≠ some ("_" ++ name.1 ++ "_retro_run")

/-- The check of the names passes, unless `printf` is cut off. -/
theorem hidingGate_object
    (documented : tools.Documented)
    (plain : name.1 ∉ (macros.withCorePrefix name).map Prod.fst)
    (compiled : ∀ input ∈ objects, Compiled input)
    (stages : Stages tools macros name objects object)
    (cutOff : CutOff)
    {defined : List NmLine}
    (lists : tools.nmDefined object = some defined) :
    hidingGate cutOff name (nmOutput defined) =
      if cutOff.run = true ∧ (symbols defined).getLast? ≠
          some ("_" ++ name.1 ++ "_retro_run") then
        .error (runMissing name)
      else .ok () := by
  have all := visible_object documented plain compiled stages
  have names : (symbols defined).Perm (exported name) := by
    have listed := documented.nmDefined_ok lists
    rw [globals_eq_visible (external_object documented stages)] at listed
    refine (listed.trans (all.map _)).trans (.of_eq ?_)
    rw [List.map_map, Registry.exported_eq]
    rfl
  exact hidingGate_of_hidden cutOff
    (names.nodup_iff.mpr (exported_nodup name))
    (List.toFinset_eq_of_perm _ _ names)

/-- The check for common symbols passes. -/
theorem commonsGate_object
    (documented : tools.Documented)
    (plain : name.1 ∉ (macros.withCorePrefix name).map Prod.fst)
    (compiled : ∀ input ∈ objects, Compiled input)
    (stages : Stages tools macros name objects object)
    {listing : List NmLine}
    (lists : tools.nmGlobal object = some listing) :
    commonsGate (nmOutput listing) = .ok () := by
  have all := visible_object documented plain compiled stages
  have areGlobals := globals_eq_visible (external_object documented stages)
  have listedBy := documented.nmGlobal_ok lists
  have printable := printable_object documented plain compiled stages
  rw [commonsGate_eq_ok_iff fun line member =>
    columns_of_listedBy printable (listedBy line member)]
  intro line member
  apply not_readsCommon_of_listedBy _ _ (listedBy line member)
  · intro definition isGlobal
    rw [areGlobals, all.mem_iff] at isGlobal
    obtain ⟨f, _, rfl⟩ := List.mem_map.mp isGlobal
    rfl
  · exact fun reference isReference =>
      target_ne_c documented plain compiled stages isReference

/-- **What the checks can say.** If the programs of the toolchain have done what
they are documented to do, the only message there can be is that the wrapper of
`retro_run` is missing. It is there then, and `printf` has been cut off. -/
theorem checkCore_fatal_iff
    (documented : tools.Documented)
    (plain : name.1 ∉ (macros.withCorePrefix name).map Prod.fst)
    (compiled : ∀ input ∈ objects, Compiled input)
    (stages : Stages tools macros name objects object)
    (message : String) :
    checkCore tools name object = .error (.fatal message) ↔
      message = runMissing name ∧ Interrupts tools name object := by
  constructor
  · intro ends
    rcases fatal_of_bind ends with ends | ⟨defined, lists, ends⟩
    · exact absurd ends run_ne_fatal
    rw [run_eq_ok_iff] at lists
    rw [hidingGate_object documented plain compiled stages _ lists] at ends
    split_ifs at ends with interrupted
    · cases ends
      exact ⟨rfl, interrupted.1, defined, lists, interrupted.2⟩
    rcases fatal_of_bind ends with ends | ⟨_, _, ends⟩
    · cases ends
    rcases fatal_of_bind ends with ends | ⟨listing, lists, ends⟩
    · exact absurd ends run_ne_fatal
    rw [commonsGate_object documented plain compiled stages
      (run_eq_ok_iff.mp lists)] at ends
    cases ends
  · rintro ⟨rfl, isCutOff, defined, lists, notLast⟩
    simp only [checkCore, lists, run, bind, Except.bind,
      hidingGate_object documented plain compiled stages _ lists,
      if_pos (And.intro isCutOff notLast), Except.mapError]

/-- **The recipe hides.** It ends with a message only if `make` has left too few
objects or if `printf` is cut off in the checks. If it comes to its end, other
objects see the wrappers of the core, each once, and nothing else, and none of
what they see is tentative. -/
theorem linkCore_hides
    (documented : tools.Documented)
    (plain : name.1 ∉ (macros.withCorePrefix name).map Prod.fst)
    (slice : String)
    (made : Made Code)
    (compiled : ∀ input ∈ made.objects, Compiled input) :
    (∀ message,
      linkCore tools macros name slice made = .error (.fatal message) ↔
      (made.objects.length < 15 ∧
        message = tooFewObjects name slice made.log) ∨
      (15 ≤ made.objects.length ∧ message = runMissing name ∧
        ∃ object, hideCore tools macros name made.objects = .ok object ∧
          Interrupts tools name object)) ∧
    ∀ object, linkCore tools macros name slice made = .ok object →
      ∃ code, tools.compile name = some code ∧
        (globals object).Perm (EntryPoint.all.map (shimDefinition name code)) ∧
        ∀ definition ∈ object.definitions,
          definition.scope = .external ∨ definition.scope = .static := by
  constructor
  · intro message
    rw [linkCore]
    split_ifs with few
    · simp [few, Nat.not_le.mpr few, eq_comm]
    · have enough := Nat.not_lt.mp few
      simp only [few, enough, false_and, true_and, false_or]
      constructor
      · intro ends
        rcases fatal_of_bind ends with ends | ⟨object, hides, ends⟩
        · exact absurd ends hideCore_ne_fatal
        obtain ⟨stages⟩ := stages_of_hideCore hides
        rcases fatal_of_bind ends with ends | ⟨_, _, ends⟩
        · obtain ⟨same, interrupts⟩ :=
            (checkCore_fatal_iff documented plain compiled stages message).mp
              ends
          exact ⟨same, object, hides, interrupts⟩
        · cases ends
      · rintro ⟨same, object, hides, interrupts⟩
        obtain ⟨stages⟩ := stages_of_hideCore hides
        have ends := (checkCore_fatal_iff documented plain compiled stages
          message).mpr ⟨same, interrupts⟩
        simp only [hides, ends, bind, Except.bind]
  · intro object succeeds
    obtain ⟨stages⟩ := stages_of_linkCore succeeds
    have external := external_object documented stages
    refine ⟨stages.code, stages.compiles, ?_, ?_⟩
    · rw [globals_eq_visible external]
      exact visible_object documented plain compiled stages
    · intro definition member
      by_cases isStatic : definition.scope = .static
      · exact .inr isStatic
      · refine .inl (external definition ?_)
        rw [visible, List.flatMap_singleton]
        exact List.mem_filter.mpr ⟨member, by simpa using isStatic⟩

end Run

/-- The message for a core of which two objects were compiled, with a log whose
last line has not ended. -/
theorem linkCore_hides_few :
    linkCore modelTools noMacros pce "macos-arm64"
        ⟨[sampleObject "pce", sampleHelper "pce"], "make: error".toList⟩ =
      .error (.fatal ("    FATAL: pce/macos-arm64 compile failed" ++
        " (too few objects)\nmake: error")) := by
  have compiled : ∀ input ∈ [sampleObject "pce", sampleHelper "pce"],
      Compiled input := by
    rw [List.forall_mem_cons, List.forall_mem_singleton]
    exact ⟨compiled_sampleMade "pce" _ List.mem_cons_self,
      compiled_sampleMade "pce" _ (List.mem_cons_of_mem _ List.mem_cons_self)⟩
  exact ((linkCore_hides modelTools_documented (by decide) "macos-arm64"
    ⟨[sampleObject "pce", sampleHelper "pce"], "make: error".toList⟩
      compiled).1 _).mpr (.inl ⟨by decide, by decide⟩)

end Build
end LibretroLab
