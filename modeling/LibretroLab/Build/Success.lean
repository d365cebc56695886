import LibretroLab.Build.Hiding

/-!
# When the recipe succeeds

The script watches the recipe of a core with many checks. If the toolchain does
not fail without need and `printf` is not cut off in the checks, the recipe
succeeds exactly if `make` has left enough objects and no symbol has two strong
definitions, in them or in the shim.
-/

namespace LibretroLab
namespace Build

open Registry (ShimMacros Wrapper EntryPoint exported linkerName prefixedSymbol)
open Linker

variable {Code : Type}

/-! ## The programs succeed -/

/-- The assembler file defines no symbol twice. -/
theorem nodup_tentatives
    {merged : ObjectFile Code}
    (isMerged : Merged merged)
    {listed : List (Definition String Code)}
    (all : listed.Perm (tentatives merged)) :
    (listed.map Definition.name).Nodup := by
  rw [List.nodup_iff_count_le_one]
  intro symbol
  have few : ((tentatives merged).filter fun definition =>
      definition.name = symbol).length ≤ 1 := by
    rw [filter_tentatives isMerged.external]
    exact (List.length_filter_le _ _).trans (isMerged.oneEach symbol)
  rw [List.count_eq_countP, List.countP_map, List.countP_eq_length_filter]
  exact ((all.filter _).length_eq).le.trans few

/-- A merged object can be made real. -/
theorem materialize_succeeds
    {tools : Tools Code}
    (documented : tools.Documented)
    (reliable : tools.Reliable)
    {merged : ObjectFile Code}
    (isMerged : Merged merged) :
    ∃ merged2, materialize tools merged = .ok merged2 := by
  obtain ⟨listing, lists⟩ :=
    Option.isSome_iff_exists.mp (reliable.printsPosix merged)
  obtain ⟨listed, all, allTentative, text, inFile, allPlain⟩ :=
    commons_of_nmPosix documented isMerged lists
  have distinctNames : ((commons listing).map Prod.fst).Nodup := by
    rw [inFile, List.map_map]
    exact nodup_tentatives isMerged all
  simp only [materialize, lists, run, text, bind, Except.bind]
  split
  · obtain ⟨assembled, assembles⟩ := Option.isSome_iff_exists.mp
      (reliable.assembles allPlain distinctNames)
    obtain ⟨_, zeroFilled⟩ := documented.assemble_ok allPlain assembles
    rw [inFile] at zeroFilled
    have realOf := forall₂_zeroFilled zeroFilled allTentative
    obtain ⟨merged2, links⟩ := Option.isSome_iff_exists.mp
      (reliable.links (distinctDefinitions_assembled isMerged all realOf))
    simp only [assembles, links]
    exact ⟨merged2, rfl⟩
  · exact ⟨merged, rfl⟩

section Recipe

variable
  {tools : Tools Code}
  {macros : ShimMacros}
  {name : CoreName}
  {objects : List (ObjectFile Code)}
  {object : ObjectFile Code}

/-- If the shim brings no duplicates, the recipe comes to its checks. -/
theorem hideCore_succeeds
    (documented : tools.Documented)
    (reliable : tools.Reliable)
    (plain : name.1 ∉ (macros.withCorePrefix name).map Prod.fst)
    (compiled : ∀ input ∈ objects, Compiled input)
    (distinct : ∀ code,
      DistinctDefinitions (shimObject macros name code :: objects)) :
    ∃ object, hideCore tools macros name objects = .ok object := by
  obtain ⟨code, compiles⟩ :=
    Option.isSome_iff_exists.mp (reliable.compiles name)
  obtain ⟨merged, merges⟩ := Option.isSome_iff_exists.mp (reliable.links
    ((distinct code).perm (documented.find_perm _).symm))
  have isMerged := merged_of_ld documented plain compiled merges
  obtain ⟨merged2, materializes⟩ :=
    materialize_succeeds documented reliable isMerged
  have merging : ∃ merging : Merging tools macros name objects,
      merging.merged = merged ∧ merging.merged2 = merged2 :=
    ⟨⟨code, merged, merged2, compiles, merges, materializes⟩, rfl, rfl⟩
  obtain ⟨merging, rfl, rfl⟩ := merging
  have areNamed : ∀ symbol ∈ exported name,
      named [merging.merged2] symbol ≠ [] := by
    intro symbol isListed
    rw [Registry.exported_eq] at isListed
    obtain ⟨f, _, rfl⟩ := List.mem_map.mp isListed
    have isNamed := named_wrapper documented plain compiled merging f
    rw [linkerName] at isNamed
    rw [isNamed]
    exact List.cons_ne_nil _ _
  obtain ⟨hidden, hides⟩ :=
    Option.isSome_iff_exists.mp (reliable.hides areNamed)
  have hiddenDistinct : DistinctDefinitions [hidden] := by
    rw [documented.nmedit_ok hides, distinctDefinitions_iff]
    intro symbol
    have same := (materialize_spec documented isMerged materializes).2.2 symbol
    refine (List.length_filter_le _ _).trans ?_
    rw [named_demote, List.length_map, ← same.length_eq]
    exact isMerged.oneEach symbol
  obtain ⟨object, links⟩ :=
    Option.isSome_iff_exists.mp (reliable.links hiddenDistinct)
  refine ⟨object, ?_⟩
  simp only [hideCore, compiles, merges, materializes, hides, links, run, bind,
    Except.bind]

/-- The shim adds no duplicates unless a compiled object defines a wrapper. -/
theorem distinctDefinitions_shimObject_iff
    (plain : name.1 ∉ (macros.withCorePrefix name).map Prod.fst)
    (code : Wrapper → Code × Nat)
    (objects : List (ObjectFile Code)) :
    DistinctDefinitions (shimObject macros name code :: objects) ↔
      DistinctDefinitions objects ∧
        ∀ definition ∈ visible objects, definition.strong = true →
          definition.name ∉ exported name := by
  have split : visible (shimObject macros name code :: objects) =
      EntryPoint.all.map (shimDefinition name code) ++ visible objects := by
    have shim : visible [shimObject macros name code] =
        EntryPoint.all.map (shimDefinition name code) := by
      rw [visible, List.flatMap_singleton, shimObject_eq plain,
        List.filter_eq_self]
      intro definition member
      obtain ⟨f, _, rfl⟩ := List.mem_map.mp member
      rfl
    rw [← shim]
    simp [visible]
  have allStrong : (EntryPoint.all.map (shimDefinition name code)).filter
      Definition.strong = EntryPoint.all.map (shimDefinition name code) := by
    rw [List.filter_eq_self]
    intro definition member
    obtain ⟨f, _, rfl⟩ := List.mem_map.mp member
    rfl
  have names : (EntryPoint.all.map (shimDefinition name code)).map
      Definition.name = exported name := by
    rw [List.map_map, Registry.exported_eq]
    rfl
  rw [DistinctDefinitions, split, List.filter_append, allStrong,
    List.map_append, names, List.nodup_append', DistinctDefinitions]
  refine ⟨?_, ?_⟩
  · rintro ⟨_, distinct, apart⟩
    refine ⟨distinct, fun definition member isStrong isWrapper => ?_⟩
    exact apart isWrapper (List.mem_map_of_mem
      (List.mem_filter.mpr ⟨member, isStrong⟩))
  · rintro ⟨distinct, apart⟩
    refine ⟨exported_nodup name, distinct, fun symbol isWrapper inObjects => ?_⟩
    obtain ⟨definition, member, rfl⟩ := List.mem_map.mp inObjects
    obtain ⟨isVisible, isStrong⟩ := List.mem_filter.mp member
    exact apart definition isVisible isStrong isWrapper

/-- Enough objects without duplicates make a core, if `printf` is not cut
off. -/
theorem linkCore_succeeds
    (documented : tools.Documented)
    (reliable : tools.Reliable)
    (plain : name.1 ∉ (macros.withCorePrefix name).map Prod.fst)
    (uncut : (tools.cutOff name).run = false)
    (slice : String)
    {made : Made Code}
    (compiled : ∀ input ∈ made.objects, Compiled input)
    (enough : 15 ≤ made.objects.length)
    (distinct : DistinctDefinitions made.objects)
    (apart : ∀ definition ∈ visible made.objects,
      definition.strong = true → definition.name ∉ exported name) :
    ∃ object, linkCore tools macros name slice made = .ok object := by
  obtain ⟨object, hides⟩ := hideCore_succeeds documented reliable plain
    compiled fun code =>
      (distinctDefinitions_shimObject_iff plain code _).mpr ⟨distinct, apart⟩
  obtain ⟨stages⟩ := stages_of_hideCore hides
  obtain ⟨defined, listsDefined⟩ :=
    Option.isSome_iff_exists.mp (reliable.printsDefined object)
  obtain ⟨listing, lists⟩ :=
    Option.isSome_iff_exists.mp (reliable.printsGlobal object)
  have passes := hidingGate_object documented plain compiled stages
    (tools.cutOff name) listsDefined
  rw [if_neg fun interrupted => by simp [uncut] at interrupted] at passes
  refine ⟨object, ?_⟩
  simp only [linkCore, Nat.not_lt.mpr enough, if_false, hides, checkCore,
    listsDefined, lists, run, passes, commonsGate_object documented plain
      compiled stages lists, Except.mapError, bind, Except.bind, pure,
    Except.pure]

/-- **When a core can be built.** With a toolchain that does not fail without
need, and if `printf` is not cut off, the recipe succeeds exactly if `make` has
left 15 objects, no two of them have strong definitions of a symbol, and none
has one of a wrapper. -/
theorem linkCore_ok_iff
    (documented : tools.Documented)
    (reliable : tools.Reliable)
    (plain : name.1 ∉ (macros.withCorePrefix name).map Prod.fst)
    (uncut : (tools.cutOff name).run = false)
    (slice : String)
    (made : Made Code)
    (compiled : ∀ input ∈ made.objects, Compiled input) :
    (∃ object, linkCore tools macros name slice made = .ok object) ↔
      15 ≤ made.objects.length ∧ DistinctDefinitions made.objects ∧
        ∀ definition ∈ visible made.objects, definition.strong = true →
          definition.name ∉ exported name := by
  constructor
  · rintro ⟨object, succeeds⟩
    have enough : 15 ≤ made.objects.length := by
      by_contra few
      rw [linkCore, if_pos (Nat.lt_of_not_le few)] at succeeds
      cases succeeds
    obtain ⟨stages⟩ := stages_of_linkCore succeeds
    have distinct := (documented.ld_ok stages.merges).1.perm
      (documented.find_perm _)
    exact ⟨enough, (distinctDefinitions_shimObject_iff plain _ _).mp distinct⟩
  · rintro ⟨enough, distinct, apart⟩
    exact linkCore_succeeds documented reliable plain uncut slice compiled
      enough distinct apart

end Recipe

/-- The objects of the small core define no wrapper. -/
theorem apart_sampleMade (source name : String) :
    ∀ definition ∈ visible (sampleMade source).objects,
      definition.name ∉ exported name := by
  have fewUnderscores : ∀ symbol ∈
      (visible (sampleMade source).objects).map Definition.name,
      symbol.toList.count '_' ≤ 2 := by
    rw [names_sampleMade]
    decide
  exact fun definition member =>
    not_mem_exported (fewUnderscores _ (List.mem_map_of_mem member)) name

/-- A core can be built, although two of its objects define an inline function
and an array. -/
theorem linkCore_ok_pce :
    ∃ object, linkCore modelTools noMacros pce "macos-arm64"
      (sampleMade "pce") = .ok object :=
  (linkCore_ok_iff modelTools_documented modelTools_reliable (by decide) rfl
    "macos-arm64" (sampleMade "pce") (compiled_sampleMade "pce")).mpr
      ⟨by decide, distinctDefinitions_sampleMade "pce",
        fun definition member _ =>
          apart_sampleMade "pce" "pce" definition member⟩

end Build
end LibretroLab
