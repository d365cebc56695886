import LibretroLab.Build.Success
import LibretroLab.Registry.Cores

/-!
# Isolation in the final link

The objects of all cores and the objects of the app are linked into one program.
Whatever the cores define under equal names, each core refers to its own
definitions, the tentative ones included, and the vtables of the registry lead
to the core that they are named after.
-/

namespace LibretroLab
namespace Build

open Registry (ShimMacros Wrapper EntryPoint exported linkerName prefixedSymbol)
open Linker

variable
  {Code : Type}
  {tools : Tools Code}
  {macros : ShimMacros}
  {name : CoreName}
  {objects : List (ObjectFile Code)}
  {object : ObjectFile Code}

/-! ## References of a core -/

/-- What a definition among the inputs of a core has become in the object of the
core. A tentative one has become storage that is large enough for all objects
that share it. -/
structure OwnOf
    (inputs : List (ObjectFile Code))
    (object : ObjectFile Code)
    (before own : Definition String Code) : Prop where
  member : own ∈ object.definitions
  name : own.name = before.name
  real : own.tentative = false
  size : own.size = before.size
  same : before.tentative = false → own.code = before.code
  enough : before.tentative = true →
    ∀ other ∈ named inputs before.name, other.size ≤ own.size

/-- The winner of a tentative name is the largest of its definitions. -/
theorem enough_of_winner
    {inputs : List (ObjectFile Code)}
    {symbol : String}
    {before : Definition String Code}
    (won : winner inputs symbol = some before)
    (tentative : before.tentative = true) :
    ∀ other ∈ named inputs before.name, other.size ≤ before.size := by
  intro other member
  rw [name_of_winner won] at member
  exact (le_of_winner_tentative won tentative member).2

/-- What `nmedit` keeps is the shim's, and strong. -/
theorem strong_of_exported
    (documented : tools.Documented)
    (plain : name.1 ∉ (macros.withCorePrefix name).map Prod.fst)
    (compiled : ∀ input ∈ objects, Compiled input)
    (merging : Merging tools macros name objects)
    {symbol : String}
    {definition : Definition String Code}
    (only : named [merging.merged2] symbol = [definition])
    (isWrapper : symbol ∈ exported name) :
    definition.strong = true := by
  rw [Registry.exported_eq] at isWrapper
  obtain ⟨f, _, rfl⟩ := List.mem_map.mp isWrapper
  have wrapper := named_wrapper documented plain compiled merging f
  rw [linkerName] at wrapper
  rw [wrapper] at only
  rw [← (List.cons.inj only).1]
  rfl

/-- An external definition is hidden with the merged object, and the references
to its name are bound to it. -/
theorem own_of_external
    (documented : tools.Documented)
    (plain : name.1 ∉ (macros.withCorePrefix name).map Prod.fst)
    (compiled : ∀ input ∈ objects, Compiled input)
    (stages : Stages tools macros name objects object)
    {image : List (ObjectFile Code)}
    {place : Nat}
    (linked : image[place]? = some object)
    (distinct : DistinctDefinitions image)
    {symbol : String}
    {before : Definition String Code}
    (won : winner stages.inputs symbol = some before)
    (external : before.scope = .external) :
    ∃ own, OwnOf stages.inputs object before own ∧
      resolve (load 0 image)
          ((stages.retarget (.symbol symbol)).mapCode (Prod.mk place)) =
        some (place, own.code) := by
  have realOf :=
    realOf_winner documented plain compiled stages.toMerging symbol
  have isHidden := object_eq_hide documented stages
  rw [won, Option.filter_some_pos (by simpa using external)] at realOf
  obtain ⟨after, _, real, rest, only⟩ := List.forall₂_cons_left_iff.mp realOf
  rw [List.forall₂_nil_left_iff.mp rest] at only
  refine ⟨(after.demoted (exported name)).settled, ?_, ?_⟩
  · have inObject : (after.demoted (exported name)).settled ∈
        object.definitions := by
      rw [isHidden]
      exact settled_mem_partialLink (winner_demote only)
    refine ⟨inObject, by simp [real.name], by simp [real.real],
      by simp [real.size], ?_, ?_⟩
    · intro isReal
      simp [real.same isReal]
    · intro tentative other member
      rw [size_settled, size_demoted, real.size]
      exact enough_of_winner won tentative other member
  · rw [Stages.retarget, rebind_of_external won external, code_settled,
      code_demoted]
    -- What is kept is strong, so nothing else can win in the image.
    exact resolve_rebind_demote (isHidden ▸ linked) distinct only real.scope
      real.real (strong_of_exported documented plain compiled stages.toMerging
        only)

/-- A private definition becomes static in the first merge, which binds the
references to its name. -/
theorem own_of_privateExtern
    (documented : tools.Documented)
    (plain : name.1 ∉ (macros.withCorePrefix name).map Prod.fst)
    (compiled : ∀ input ∈ objects, Compiled input)
    (stages : Stages tools macros name objects object)
    (image : List (ObjectFile Code))
    (place : Nat)
    {symbol : String}
    {before : Definition String Code}
    (won : winner stages.inputs symbol = some before)
    (isPrivate : before.scope = .privateExtern) :
    ∃ own, OwnOf stages.inputs object before own ∧
      resolve (load 0 image)
          ((stages.retarget (.symbol symbol)).mapCode (Prod.mk place)) =
        some (place, own.code) := by
  have isMerged := merged_of_ld documented plain compiled stages.merges
  obtain ⟨_, isLink⟩ := documented.ld_ok stages.merges
  have statics :=
    (materialize_spec documented isMerged stages.materializes).2.1
  have real : before.tentative = false := by
    by_contra tentative
    have isExternal := (tentative_of_visible documented compiled
      ((mem_named_iff _ _ before).mp (winner_mem won)).1
      (by simpa using tentative)).1
    rw [isPrivate] at isExternal
    contradiction
  have settled : before.settled = { before with scope := .static } := by
    rw [Definition.settled, if_pos isPrivate]
  have isStatic : before.settled.scope = .static := by rw [settled]
  refine ⟨before.settled, ?_, ?_⟩
  · have inMerged : before.settled ∈ stages.merged.definitions := by
      rw [isLink]
      exact settled_mem_partialLink won
    have inObject : before.settled ∈ object.definitions := by
      rw [object_eq_hide documented stages]
      apply mem_partialLink_of_static (List.mem_singleton_self _) _ isStatic
      have notExternal : before.settled.scope ≠ .external := by
        rw [isStatic]
        decide
      rw [demote, ← demoted_of_not_external (exported name) notExternal]
      exact List.mem_map_of_mem (statics before.settled inMerged isStatic)
    refine ⟨inObject, by simp, by simpa using real, by simp, by simp, ?_⟩
    intro tentative
    rw [real] at tentative
    contradiction
  · have bound : rebind stages.inputs (.symbol symbol) =
        .bound before.code := by
      simp [rebind, won, isPrivate]
    rw [Stages.retarget, bound, code_settled]
    rfl

/-- A name that one of the inputs defines means for the core, wherever its
object is linked, the definition of its own object. -/
theorem own_of_winner
    (documented : tools.Documented)
    (plain : name.1 ∉ (macros.withCorePrefix name).map Prod.fst)
    (compiled : ∀ input ∈ objects, Compiled input)
    (stages : Stages tools macros name objects object)
    {image : List (ObjectFile Code)}
    {place : Nat}
    (linked : image[place]? = some object)
    (distinct : DistinctDefinitions image)
    {symbol : String}
    {before : Definition String Code}
    (won : winner stages.inputs symbol = some before) :
    ∃ own, OwnOf stages.inputs object before own ∧
      resolve (load 0 image)
          ((stages.retarget (.symbol symbol)).mapCode (Prod.mk place)) =
        some (place, own.code) := by
  cases scope : before.scope with
  | external =>
      exact own_of_external documented plain compiled stages linked distinct won
        scope
  | privateExtern =>
      exact own_of_privateExtern documented plain compiled stages image place
        won scope
  | static =>
      exact absurd scope (scope_of_mem_visible
        ((mem_named_iff _ _ before).mp (winner_mem won)).1)

/-- A name that no input defines is still to be looked up. -/
theorem retarget_of_unnamed
    (documented : tools.Documented)
    (plain : name.1 ∉ (macros.withCorePrefix name).map Prod.fst)
    (compiled : ∀ input ∈ objects, Compiled input)
    (stages : Stages tools macros name objects object)
    {symbol : String}
    (unnamed : winner stages.inputs symbol = none) :
    stages.retarget (.symbol symbol) = .symbol symbol := by
  have realOf :=
    realOf_winner documented plain compiled stages.toMerging symbol
  rw [unnamed] at realOf
  have gone := List.forall₂_nil_left_iff.mp realOf
  rw [Stages.retarget, rebind_of_unnamed unnamed,
    rebind_demote_of_unnamed gone]

/-- What has become of a reference, if the object is linked into an image at
some place. What the inputs define means the object's own definition at this
place, what was bound stays bound, and other names stay as they are. -/
structure Stays
    (image : List (ObjectFile Code))
    (place : Nat)
    (inputs : List (ObjectFile Code))
    (object : ObjectFile Code)
    (before after : Reference String Code) : Prop where
  site : after.site = before.site
  bound : ∀ code, before.target = .bound code → after.target = .bound code
  own : ∀ symbol definition, before.target = .symbol symbol →
    winner inputs symbol = some definition →
      ∃ own, OwnOf inputs object definition own ∧
        resolve (load 0 image) (after.target.mapCode (Prod.mk place)) =
          some (place, own.code)
  other : ∀ symbol, before.target = .symbol symbol →
    winner inputs symbol = none → after.target = .symbol symbol

/-- The references of a core stay within the core. -/
theorem references_stay
    (documented : tools.Documented)
    (plain : name.1 ∉ (macros.withCorePrefix name).map Prod.fst)
    (compiled : ∀ input ∈ objects, Compiled input)
    (stages : Stages tools macros name objects object)
    {image : List (ObjectFile Code)}
    {place : Nat}
    (linked : image[place]? = some object)
    (distinct : DistinctDefinitions image) :
    List.Forall₂ (Stays image place stages.inputs object)
      (stages.inputs.flatMap Object.references) object.references := by
  rw [references_object documented plain compiled stages,
    List.forall₂_map_right_iff, List.forall₂_same]
  intro reference _
  refine ⟨rfl, ?_, ?_, ?_⟩
  · intro code isBound
    rw [isBound]
    rfl
  · intro symbol definition isSymbol won
    rw [isSymbol]
    exact own_of_winner documented plain compiled stages linked distinct won
  · intro symbol isSymbol unnamed
    rw [isSymbol]
    exact retarget_of_unnamed documented plain compiled stages unnamed

/-! ## The program -/

/-- A core that the script has built for a slice. -/
structure BuiltCore
    (tools : Tools Code)
    (macros : ShimMacros)
    (slice : String) where
  name : CoreName
  made : Made Code
  object : ObjectFile Code
  plain : name.1 ∉ (macros.withCorePrefix name).map Prod.fst
  compiled : ∀ input ∈ made.objects, Compiled input
  builds : linkCore tools macros name slice made = .ok object

/-- The objects of the program: those of the cores and the rest, which are the
registry and the app. -/
def program
    {slice : String}
    (cores : List (BuiltCore tools macros slice))
    (rest : List (ObjectFile Code)) :
    List (ObjectFile Code) :=
  cores.map BuiltCore.object ++ rest

/-- The name of a core is no macro if the shim has none but its own. -/
theorem notMacro_of_ne
    {name : String}
    (plain : name ≠ "CORE_PREFIX") :
    name ∉ (noMacros.withCorePrefix name).map Prod.fst := by
  simpa [noMacros, ShimMacros.withCorePrefix] using plain

/-- The object of a core has the core's place in the program. -/
theorem getElem?_program
    {slice : String}
    {cores : List (BuiltCore tools macros slice)}
    {place : Nat}
    {core : BuiltCore tools macros slice}
    (isCore : cores[place]? = some core)
    (rest : List (ObjectFile Code)) :
    (program cores rest)[place]? = some core.object := by
  have bound : place < (cores.map BuiltCore.object).length := by
    rw [List.length_map]
    exact (List.getElem?_eq_some_iff.mp isCore).1
  rw [program, List.getElem?_append_left bound, List.getElem?_map, isCore]
  rfl

/-- The toolchain builds a small core under any name. -/
theorem exists_linkCore
    (name : CoreName)
    (plain : name.1 ≠ "CORE_PREFIX")
    (source : String) :
    ∃ object, linkCore modelTools noMacros name "macos-arm64"
      (sampleMade source) = .ok object :=
  linkCore_succeeds modelTools_documented modelTools_reliable
    (notMacro_of_ne plain) rfl "macos-arm64" (compiled_sampleMade source)
    (by simp [sampleMade]) (distinctDefinitions_sampleMade source)
    fun definition member _ => apart_sampleMade source name.1 definition member

theorem exists_builtCore
    (name : CoreName)
    (plain : name.1 ≠ "CORE_PREFIX")
    (source : String) :
    ∃ core : BuiltCore modelTools noMacros "macos-arm64",
      core.name = name ∧ core.made = sampleMade source := by
  obtain ⟨object, builds⟩ := exists_linkCore name plain source
  exact ⟨⟨name, sampleMade source, object, notMacro_of_ne plain,
    compiled_sampleMade source, builds⟩, rfl, rfl⟩

section Program

variable
  {slice : String}
  {cores : List (BuiltCore tools macros slice)}
  {rest : List (ObjectFile Code)}

/-- The objects of the cores show the wrappers of all cores, each once. -/
theorem names_visible_cores
    (documented : tools.Documented)
    (cores : List (BuiltCore tools macros slice)) :
    ((visible (cores.map BuiltCore.object)).map Definition.name).Perm
        ((cores.map fun core => core.name.1).flatMap exported) ∧
      ∀ definition ∈ visible (cores.map BuiltCore.object),
        definition.strong = true := by
  induction cores with
  | nil => exact ⟨.nil, by simp [visible]⟩
  | cons core cores inductionHypothesis =>
      obtain ⟨stages⟩ := stages_of_linkCore core.builds
      have here := visible_object documented core.plain core.compiled stages
      have split : visible ((core :: cores).map BuiltCore.object) =
          visible [core.object] ++ visible (cores.map BuiltCore.object) := by
        simp [visible]
      have names : ((visible [core.object]).map Definition.name).Perm
          (exported core.name) := by
        refine (here.map _).trans (.of_eq ?_)
        rw [List.map_map, Registry.exported_eq]
        rfl
      rw [split, List.map_append, List.map_cons, List.flatMap_cons]
      refine ⟨names.append inductionHypothesis.1, ?_⟩
      intro definition member
      rcases List.mem_append.mp member with isHere | isLater
      · obtain ⟨f, _, rfl⟩ := List.mem_map.mp (here.mem_iff.mp isHere)
        rfl
      · exact inductionHypothesis.2 definition isLater

/-- Distinct cores have no wrapper in common. -/
theorem nodup_flatMap_exported
    {names : List String}
    (nodup : names.Nodup) :
    (names.flatMap exported).Nodup := by
  rw [List.nodup_flatMap]
  refine ⟨fun name _ => exported_nodup name, nodup.imp ?_⟩
  intro first second differ symbol inFirst inSecond
  rw [Registry.exported_eq] at inFirst inSecond
  obtain ⟨f, _, rfl⟩ := List.mem_map.mp inFirst
  obtain ⟨g, _, same⟩ := List.mem_map.mp inSecond
  exact differ (Registry.prefixedSymbol_inj
    (Registry.linkerName_inj.mp same)).1.symm

/-- The final link finds no duplicate symbols, if the rest has none and defines
no wrapper. -/
theorem distinctDefinitions_program
    (documented : tools.Documented)
    (nodup : (cores.map fun core => core.name.1).Nodup)
    (restDistinct : DistinctDefinitions rest)
    (apart : ∀ definition ∈ visible rest, ∀ core ∈ cores,
      definition.name ∉ exported core.name) :
    DistinctDefinitions (program cores rest) := by
  obtain ⟨names, allStrong⟩ := names_visible_cores documented cores
  have split : visible (program cores rest) =
      visible (cores.map BuiltCore.object) ++ visible rest := by
    simp [visible, program]
  have kept : (visible (cores.map BuiltCore.object)).filter
      Definition.strong = visible (cores.map BuiltCore.object) :=
    List.filter_eq_self.mpr allStrong
  rw [DistinctDefinitions, split, List.filter_append, kept, List.map_append,
    List.nodup_append']
  refine ⟨names.nodup_iff.mpr (nodup_flatMap_exported nodup), restDistinct, ?_⟩
  intro symbol inCores inRest
  rw [names.mem_iff, List.mem_flatMap] at inCores
  obtain ⟨_, isName, isWrapper⟩ := inCores
  obtain ⟨core, isCore, rfl⟩ := List.mem_map.mp isName
  obtain ⟨definition, member, rfl⟩ := List.mem_map.mp inRest
  exact apart definition (List.mem_of_mem_filter member) core isCore isWrapper

/-- A name that is no wrapper means for the program what it means for the rest,
at its place. -/
theorem resolve_program_of_not_exported
    (documented : tools.Documented)
    {symbol : String}
    (noWrapper : ∀ core ∈ cores, symbol ∉ exported core.name) :
    resolve (load 0 (program cores rest)) (.symbol symbol) =
      resolve (load cores.length rest) (.symbol symbol) := by
  have unnamed : named (cores.map BuiltCore.object) symbol = [] := by
    rw [named, List.filter_eq_nil_iff]
    intro definition member isName
    have inNames := (names_visible_cores documented cores).1.mem_iff.mp
      (List.mem_map_of_mem member)
    obtain ⟨_, isListed, isWrapper⟩ := List.mem_flatMap.mp inNames
    obtain ⟨core, isCore, rfl⟩ := List.mem_map.mp isListed
    rw [of_decide_eq_true isName] at isWrapper
    exact noWrapper core isCore isWrapper
  have same : winner (load 0 (program cores rest)) symbol =
      winner (load cores.length rest) symbol := by
    apply winner_congr
    rw [program, load_append, named_append,
      (named_load_eq_nil_iff 0 _ symbol).mpr unnamed, List.nil_append,
      List.length_map, Nat.zero_add]
  rw [resolve, resolve, same]

/-- **Cores do not mix.** Distinct cores and a rest that has no duplicates and
defines no wrapper link without duplicates. In the program every reference of a
core to a name that its own objects define means the definition of its own
object, at the place of this object, and all other names but the wrappers mean
what they mean in the rest. -/
theorem program_isolates
    (documented : tools.Documented)
    (nodup : (cores.map fun core => core.name.1).Nodup)
    (restDistinct : DistinctDefinitions rest)
    (apart : ∀ definition ∈ visible rest, ∀ core ∈ cores,
      definition.name ∉ exported core.name) :
    DistinctDefinitions (program cores rest) ∧
    (∀ place core, cores[place]? = some core →
      ∃ code, tools.compile core.name = some code ∧ ∃ inputs,
        inputs.Perm (shimObject macros core.name code :: core.made.objects) ∧
        List.Forall₂ (Stays (program cores rest) place inputs core.object)
          (inputs.flatMap Object.references) core.object.references) ∧
    ∀ symbol, (∀ core ∈ cores, symbol ∉ exported core.name) →
      resolve (load 0 (program cores rest)) (.symbol symbol) =
        resolve (load cores.length rest) (.symbol symbol) := by
  have distinct :=
    distinctDefinitions_program documented nodup restDistinct apart
  refine ⟨distinct, ?_, fun symbol =>
    resolve_program_of_not_exported documented⟩
  intro place core isCore
  obtain ⟨stages⟩ := stages_of_linkCore core.builds
  refine ⟨stages.code, stages.compiles, stages.inputs,
    documented.find_perm _, ?_⟩
  exact references_stay documented core.plain core.compiled stages
    (getElem?_program isCore rest) distinct

theorem exists_of_mem_left
    {α β : Type}
    {R : α → β → Prop}
    {first : List α}
    {second : List β}
    (related : List.Forall₂ R first second)
    {x : α}
    (member : x ∈ first) :
    ∃ y ∈ second, R x y := by
  induction related with
  | nil => contradiction
  | cons here _ inductionHypothesis =>
      rcases List.mem_cons.mp member with rfl | later
      · exact ⟨_, List.mem_cons_self, here⟩
      · obtain ⟨y, isLater, there⟩ := inductionHypothesis later
        exact ⟨y, List.mem_cons_of_mem _ isLater, there⟩

/-- In a small core `_inflate` is the function of its sources. -/
theorem winner_inflate
    {source : String}
    {name : CoreName}
    {code : Wrapper → String × Nat}
    {inputs : List (ObjectFile String)}
    (plain : name.1 ∉ (macros.withCorePrefix name).map Prod.fst)
    (merged : inputs.Perm
      (shimObject macros name code :: (sampleMade source).objects)) :
    winner inputs "_inflate" =
      some ⟨"_inflate", .external, .strong, 200, source ++ " inflate"⟩ := by
  have distinct : DistinctDefinitions inputs :=
    ((distinctDefinitions_shimObject_iff plain code _).mpr
      ⟨distinctDefinitions_sampleMade source, fun definition member _ =>
        apart_sampleMade source name.1 definition member⟩).perm merged.symm
  have inSample : (⟨"_inflate", .external, .strong, 200, source ++ " inflate"⟩ :
      Definition String String) ∈ visible inputs := by
    refine List.mem_flatMap.mpr ⟨sampleObject source, ?_, ?_⟩
    · exact merged.mem_iff.mpr (List.mem_cons_of_mem _ List.mem_cons_self)
    · exact List.mem_cons_of_mem _ List.mem_cons_self
  exact winner_of_strong distinct inSample rfl

/-- A call of `_inflate` in one of two cores that both have such a function. -/
theorem program_isolates_two :
    ∃ cores : List (BuiltCore modelTools noMacros "macos-arm64"),
      (cores.map fun core => core.name.1) = ["fceumm", "pce"] ∧
      cores.map BuiltCore.made = [sampleMade "fceumm", sampleMade "pce"] ∧
      DistinctDefinitions (program cores []) ∧
      ∃ core call, cores[1]? = some core ∧ call ∈ core.object.references ∧
        call.site = "pce run" ∧
        resolve (load 0 (program cores []))
            (call.target.mapCode (Prod.mk 1)) = some (1, "pce inflate") := by
  obtain ⟨fceumm, isFceumm, madeFceumm⟩ :=
    exists_builtCore ⟨"fceumm", by decide⟩ (by decide) "fceumm"
  obtain ⟨core, isPce, madePce⟩ := exists_builtCore pce (by decide) "pce"
  have names : ([fceumm, core].map fun core => core.name.1) =
      ["fceumm", "pce"] := by
    simp [isFceumm, isPce, pce]
  have apart : ∀ definition ∈ visible ([] : List (ObjectFile String)),
      ∀ other ∈ [fceumm, core], definition.name ∉ exported other.name.1 := by
    simp [visible]
  obtain ⟨distinct, stay, _⟩ := program_isolates modelTools_documented
    (names ▸ by decide) (by decide) apart
  obtain ⟨code, _, inputs, merged, stays⟩ := stay 1 core rfl
  rw [madePce] at merged
  have isInput : sampleObject "pce" ∈ inputs :=
    merged.mem_iff.mpr (List.mem_cons_of_mem _ List.mem_cons_self)
  have inInputs : (⟨"pce run", .symbol "_inflate"⟩ : Reference String String) ∈
      inputs.flatMap Object.references :=
    List.mem_flatMap.mpr ⟨_, isInput, List.mem_cons_self⟩
  have won := winner_inflate core.plain merged
  obtain ⟨call, isCall, stays⟩ := exists_of_mem_left stays inInputs
  obtain ⟨own, isOwn, resolves⟩ := stays.own _ _ rfl won
  rw [isOwn.same rfl] at resolves
  exact ⟨[fceumm, core], names, by simp [madeFceumm, madePce], distinct, core,
    call, rfl, isCall, stays.site, resolves⟩

/-- A slot of the vtable of a core stands for the wrapper of the core. -/
theorem resolve_slot
    (documented : tools.Documented)
    (distinct : DistinctDefinitions (program cores rest))
    {place : Nat}
    {core : BuiltCore tools macros slice}
    (isCore : cores[place]? = some core)
    (stages : Stages tools macros core.name core.made.objects core.object)
    (f : EntryPoint) :
    resolve (load 0 (program cores rest))
        (.symbol (linkerName ((Registry.coreVtable core.name).slot f))) =
      some (place, (stages.code (wrapperOf core.name f)).1) := by
  have inObject :
      shimDefinition core.name stages.code f ∈ visible [core.object] := by
    rw [(visible_object documented core.plain core.compiled stages).mem_iff]
    exact List.mem_map_of_mem (EntryPoint.mem_all f)
  rw [Registry.coreVtable_slot]
  exact resolve_load_of_strong distinct (getElem?_program isCore rest) inObject
    rfl

/-- A slot of the vtable of a core that is not in the program stands for
nothing. -/
theorem resolve_slot_of_absent
    (documented : tools.Documented)
    {name : String}
    (absent : ∀ core ∈ cores, core.name.1 ≠ name)
    (apart : ∀ definition ∈ visible rest, definition.name ∉ exported name)
    (f : EntryPoint) :
    resolve (load 0 (program cores rest))
        (.symbol (linkerName ((Registry.coreVtable name).slot f))) = none := by
  have noWrapper : ∀ core ∈ cores,
      linkerName ((Registry.coreVtable name).slot f) ∉
        exported core.name := by
    intro core isCore isWrapper
    rw [Registry.coreVtable_slot, Registry.exported_eq] at isWrapper
    obtain ⟨g, _, same⟩ := List.mem_map.mp isWrapper
    exact absent core isCore (Registry.prefixedSymbol_inj
      (Registry.linkerName_inj.mp same)).1
  rw [resolve_program_of_not_exported documented noWrapper, resolve,
    Option.map_eq_none_iff, winner_eq_none_iff, named_load_eq_nil_iff, named,
    List.filter_eq_nil_iff]
  intro definition member isName
  apply apart definition member
  rw [of_decide_eq_true isName, Registry.coreVtable_slot,
    Registry.exported_eq]
  exact List.mem_map.mpr ⟨f, EntryPoint.mem_all f, rfl⟩

/-- The call in a wrapper of the core is of the definition in its own object. -/
theorem exists_call
    (documented : tools.Documented)
    (distinct : DistinctDefinitions (program cores rest))
    {place : Nat}
    {core : BuiltCore tools macros slice}
    (isCore : cores[place]? = some core)
    (stages : Stages tools macros core.name core.made.objects core.object)
    {f : EntryPoint}
    {before : Definition String Code}
    (won : winner stages.inputs (linkerName f.cName) = some before) :
    ∃ call own,
      call ∈ core.object.references ∧
      call.site = (stages.code (wrapperOf core.name f)).1 ∧
      OwnOf stages.inputs core.object before own ∧
      resolve (load 0 (program cores rest))
          (call.target.mapCode (Prod.mk place)) = some (place, own.code) := by
  obtain ⟨own, isOwn, resolves⟩ := own_of_winner documented core.plain
    core.compiled stages (getElem?_program isCore rest) distinct won
  refine ⟨⟨(stages.code (wrapperOf core.name f)).1,
    stages.retarget (.symbol (linkerName f.cName))⟩, own, ?_, rfl, isOwn,
    resolves⟩
  rw [references_object documented core.plain core.compiled stages]
  refine List.mem_map.mpr ⟨shimReference core.name stages.code f,
    List.mem_flatMap.mpr ⟨shimObject macros core.name stages.code, ?_, ?_⟩,
    rfl⟩
  · rw [Merging.inputs, (documented.find_perm _).mem_iff]
    exact List.mem_cons_self
  · rw [shimObject_eq core.plain]
    exact List.mem_map_of_mem (EntryPoint.mem_all f)

/-- What the objects of a core show can be seen among all that is merged. -/
theorem mem_visible_inputs
    (documented : tools.Documented)
    {merging : Merging tools macros name objects}
    {definition : Definition String Code}
    (isVisible : definition ∈ visible objects) :
    definition ∈ visible merging.inputs := by
  obtain ⟨input, isInput, inInput⟩ := List.mem_flatMap.mp isVisible
  refine List.mem_flatMap.mpr ⟨input, ?_, inInput⟩
  rw [Merging.inputs, (documented.find_perm _).mem_iff]
  exact List.mem_cons_of_mem _ isInput

/-- **A vtable leads to its core.** In such a program each slot of the vtable of
a core stands for the wrapper of the core, and if the core's objects define the
entry point, the call in the wrapper is of that definition in the core's own
object. -/
theorem vtable_reaches_core
    (documented : tools.Documented)
    (nodup : (cores.map fun core => core.name.1).Nodup)
    (restDistinct : DistinctDefinitions rest)
    (apart : ∀ definition ∈ visible rest, ∀ core ∈ cores,
      definition.name ∉ exported core.name)
    {place : Nat}
    {core : BuiltCore tools macros slice}
    (isCore : cores[place]? = some core)
    (f : EntryPoint)
    (defined : named core.made.objects (linkerName f.cName) ≠ []) :
    ∃ code call own,
      tools.compile core.name = some code ∧
      resolve (load 0 (program cores rest))
          (.symbol (linkerName ((Registry.coreVtable core.name).slot f))) =
        some (place, (code (wrapperOf core.name f)).1) ∧
      call ∈ core.object.references ∧
      call.site = (code (wrapperOf core.name f)).1 ∧
      own ∈ core.object.definitions ∧
      own.name = linkerName f.cName ∧
      resolve (load 0 (program cores rest))
          (call.target.mapCode (Prod.mk place)) = some (place, own.code) := by
  have distinct :=
    distinctDefinitions_program documented nodup restDistinct apart
  obtain ⟨stages⟩ := stages_of_linkCore core.builds
  have someWinner : winner stages.inputs (linkerName f.cName) ≠ none := by
    rw [ne_eq, winner_eq_none_iff]
    obtain ⟨definition, member⟩ := List.exists_mem_of_ne_nil _ defined
    obtain ⟨isVisible, isName⟩ := (mem_named_iff _ _ definition).mp member
    exact List.ne_nil_of_mem ((mem_named_iff _ _ _).mpr
      ⟨mem_visible_inputs documented isVisible, isName⟩)
  obtain ⟨before, won⟩ := Option.ne_none_iff_exists'.mp someWinner
  obtain ⟨call, own, isCall, site, isOwn, resolves⟩ :=
    exists_call documented distinct isCore stages won
  exact ⟨stages.code, call, own, stages.compiles,
    resolve_slot documented distinct isCore stages f, isCall, site,
    isOwn.member, isOwn.name.trans (name_of_winner won), resolves⟩

/-- The vtable of the second of two cores that define the same names. -/
theorem vtable_reaches_core_pce :
    ∃ (cores : List (BuiltCore modelTools noMacros "macos-arm64"))
      (core : BuiltCore modelTools noMacros "macos-arm64")
      (call : Reference String String) (own : Definition String String),
      cores.map BuiltCore.made = [sampleMade "fceumm", sampleMade "pce"] ∧
      cores[1]? = some core ∧ core.name = pce ∧
      resolve (load 0 (program cores []))
          (.symbol (linkerName ((Registry.coreVtable "pce").slot .retroRun))) =
        some (1, "pce_retro_run") ∧
      call ∈ core.object.references ∧ call.site = "pce_retro_run" ∧
      own ∈ core.object.definitions ∧ own.name = "_retro_run" ∧
      resolve (load 0 (program cores []))
        (call.target.mapCode (Prod.mk 1)) = some (1, own.code) := by
  obtain ⟨fceumm, isFceumm, madeFceumm⟩ :=
    exists_builtCore ⟨"fceumm", by decide⟩ (by decide) "fceumm"
  obtain ⟨core, isPce, madePce⟩ := exists_builtCore pce (by decide) "pce"
  have names : ([fceumm, core].map fun core => core.name.1) =
      ["fceumm", "pce"] := by
    simp [isFceumm, isPce, pce]
  have apart : ∀ definition ∈ visible ([] : List (ObjectFile String)),
      ∀ other ∈ [fceumm, core], definition.name ∉ exported other.name.1 := by
    simp [visible]
  have isSecond : [fceumm, core][1]? = some core := rfl
  have defined : named core.made.objects (linkerName "retro_run") ≠ [] := by
    rw [madePce]
    exact List.ne_nil_of_mem ((mem_named_iff _ _ _).mpr
      ⟨List.mem_flatMap.mpr ⟨_, List.mem_cons_self, List.mem_cons_self⟩, rfl⟩)
  obtain ⟨code, call, own, compiles, slot, member, site, inObject, isName,
    resolves⟩ := vtable_reaches_core modelTools_documented
      (names ▸ by decide) (by decide) apart isSecond .retroRun defined
  cases compiles
  rw [isPce] at slot site
  exact ⟨[fceumm, core], core, call, own, by simp [madeFceumm, madePce], rfl,
    isPce, slot, member, site, inObject, isName, resolves⟩

end Program

end Build
end LibretroLab
