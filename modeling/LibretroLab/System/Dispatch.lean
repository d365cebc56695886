import LibretroLab.Build.Archive
import LibretroLab.Host.LinkedNames
import LibretroLab.Host.Separation

/-!
# From the name of a core to its code

The whole chain: the entries of `cores.json`, the archive that the script builds
from them, the registry compiled from the generated header, and hosts that
dispatch through it. Every call that a host makes runs what the sources of the
core it was created for define.
-/

namespace LibretroLab

namespace Host

open Recorder Registry

/-! ## Hosts and the entries they were created for -/

/-- The host that an operation calls the methods of dispatches to the core that
gets the calls. -/
theorem exists_host_of_sent
    {platform : Platform}
    {w w' : World}
    {op : Op}
    {calls : List (CoreId × RetroCall)}
    (done : Performed platform w op calls w')
    {core : CoreId}
    {retroCall : RetroCall}
    (member : (core, retroCall) ∈ calls) :
    ∃ h host, op.addressee = some h ∧ w.callable h = some host ∧
      host.core = core := by
  cases done with
  | @started self host behaviour data romPath owned alive =>
      obtain ⟨_, _, same⟩ := List.mem_map.mp member
      exact ⟨self, host, rfl,
        (World.callable_eq_some_iff w self host).mpr ⟨owned, alive⟩,
        congrArg Prod.fst same⟩
  | @ranFrame self host behaviour owned alive loaded =>
      exact ⟨self, host, rfl,
        (World.callable_eq_some_iff w self host).mpr ⟨owned, alive⟩,
        (congrArg Prod.fst (List.mem_singleton.mp member)).symm⟩
  | @shutDown self host behaviour owned alive loaded =>
      refine ⟨self, host, rfl,
        (World.callable_eq_some_iff w self host).mpr ⟨owned, alive⟩, ?_⟩
      rcases List.mem_cons.mp member with first | later
      · exact (congrArg Prod.fst first).symm
      · exact (congrArg Prod.fst (List.mem_singleton.mp later)).symm
  | idle => contradiction
  | created => contradiction
  | dropped => contradiction
  | assigned => contradiction

/-- Only `create` gives out an identity, and one at a time. -/
theorem nextHost_of_performed
    {platform : Platform}
    {w w' : World}
    {op : Op}
    {calls : List (CoreId × RetroCall)}
    (done : Performed platform w op calls w') :
    w'.nextHost = w.nextHost ∨
      (∃ name, op = .create name) ∧ w'.nextHost = w.nextHost + 1 := by
  cases done with
  | idle => exact .inl rfl
  | @created name entry found => exact .inr ⟨⟨name, rfl⟩, rfl⟩
  | started => exact .inl nextHost_start
  | ranFrame => exact .inl rfl
  | shutDown => exact .inl rfl
  | dropped => exact .inl (by simp [World.dropOwner])
  | assigned => exact .inl rfl

/-- Every host that can be called dispatches through the entry that has the
name it was created with, as far as C reads it. -/
def Named (names : List String) (w : World) : Prop :=
  ∀ h ledger, w.ledger h = some ledger →
    names[ledger.core]? = some (CString.beforeNul ledger.coreName)

/-- No operation changes the name or the entry of a host. -/
theorem names_after
    {ledger next : Ledger}
    {op : Op}
    (after : ledger.after op = some next) :
    next.core = ledger.core ∧ next.coreName = ledger.coreName := by
  cases op <;> simp only [Ledger.after] at after <;>
    (try split_ifs at after) <;> cases after <;> exact ⟨rfl, rfl⟩

section Named

variable {names : List String} {w : World}

theorem named_perform
    (identifiers : ∀ name ∈ names, isIdentifier name = true)
    (nodup : names.Nodup)
    (systemDir saveDir : String)
    (op : Op)
    (bounded : w.Bounded)
    (isNamed : Named names w) :
    Named names
      ((perform (linkedPlatform names systemDir saveDir) op).state w) := by
  intro h ledger found
  have done := performed (linkedPlatform names systemDir saveDir) op w
  obtain ⟨host, callable, isLedger⟩ := Option.map_eq_some_iff.mp found
  have alive := ((World.callable_eq_some_iff _ h host).mp callable).2
  have below := bounded_of_performed done bounded h host alive
  by_cases old : h < w.nextHost
  · rw [ledger_perform _ op old, Ledger.follow] at found
    split_ifs at found with own
    · obtain ⟨before, isBefore, after⟩ := Option.bind_eq_some_iff.mp found
      obtain ⟨sameCore, sameName⟩ := names_after after
      rw [sameCore, sameName]
      exact isNamed h before isBefore
    · exact isNamed h ledger found
  · rcases nextHost_of_performed done with same | ⟨⟨n, rfl⟩, next⟩
    · rw [same] at below
      exact absurd below old
    · rw [next] at below
      have isNew : h = w.nextHost :=
        le_antisymm (Nat.lt_succ_iff.mp below) (not_lt.mp old)
      subst isNew
      obtain ⟨sameName, entry⟩ :=
        created_linkedPlatform identifiers nodup bounded alive
      rw [← isLedger]
      change names[host.core]? = some (CString.beforeNul host.coreName)
      rw [sameName]
      exact entry

theorem named_performAll
    (identifiers : ∀ name ∈ names, isIdentifier name = true)
    (nodup : names.Nodup)
    (systemDir saveDir : String)
    (ops : List Op) :
    Named names ((performAll (linkedPlatform names systemDir saveDir)
      ops).state World.initial) := by
  have both := state_each_of_preserved
    (fun w : World => w.Bounded ∧ Named names w)
    (fun w op both => ⟨bounded_of_performed
        (performed (linkedPlatform names systemDir saveDir) op w) both.1,
      named_perform identifiers nodup systemDir saveDir op both.1 both.2⟩)
    ops World.initial
    ⟨bounded_initial, fun h ledger found => by contradiction⟩
  exact both.2

end Named

end Host

namespace Build

open Registry (ShimMacros Wrapper EntryPoint CoreEntry NotMacros LibretroCoreT
  exported linkerName isIdentifier)
open Linker Recorder
open Host (CoreId Op RetroCall Platform World linkedPlatform perform performAll
  sent)

variable {Tree Code : Type}

/-! ## Code of the sources -/

/-- Through an entry of the registry a program runs the code of a core: the slot
stands for the wrapper compiled for the core, in the object that the recipe made
of the core's sources, and the call in this wrapper is of what the sources
define as that entry point, in the same object. -/
def RunsSources
    (upstream : Upstream Tree Code)
    (tools : Tools Code)
    (macros : ShimMacros)
    (slice : String)
    (image : List (ObjectFile Code))
    (fields : CoreFields)
    (entry : LibretroCoreT)
    (f : EntryPoint) : Prop :=
  ∃ (name : CoreName) (tree : Tree) (code : Wrapper → Code × Nat)
      (place : Nat) (object : ObjectFile Code),
    name.1 = fields.name ∧
    sourceTree upstream fields = .ok tree ∧
    tools.compile name = some code ∧
    image[place]? = some object ∧
    linkCore tools macros name slice
      (upstream.make tree fields.dir fields.mkfile slice) = .ok object ∧
    resolve (load 0 image) (.symbol (linkerName (entry.slot f))) =
      some (place, (code (wrapperOf name f)).1) ∧
    ∀ definition ∈ visible
        (upstream.make tree fields.dir fields.mkfile slice).objects,
      definition.name = linkerName f.cName → definition.strong = true →
        ∃ call ∈ object.references,
          call.site = (code (wrapperOf name f)).1 ∧
          resolve (load 0 image) (call.target.mapCode (Prod.mk place)) =
            some (place, definition.code)

/-- The vtable of a core in a program of built cores. -/
theorem runsSources_of_built
    {upstream : Upstream Tree Code}
    {tools : Tools Code}
    {macros : ShimMacros}
    {slice : String}
    {cores : List (BuiltCore tools macros slice)}
    {rest : List (ObjectFile Code)}
    (documented : tools.Documented)
    (distinct : DistinctDefinitions (program cores rest))
    {fields : CoreFields}
    {place : Nat}
    {core : BuiltCore tools macros slice}
    (isCore : cores[place]? = some core)
    (built : BuiltFrom upstream fields core)
    (f : EntryPoint) :
    RunsSources upstream tools macros slice (program cores rest) fields
      (Registry.coreVtable fields.name) f := by
  obtain ⟨stages⟩ := stages_of_linkCore core.builds
  obtain ⟨tree, gets, made⟩ := built.made
  refine ⟨core.name, tree, stages.code, place, core.object, built.name, gets,
    stages.compiles, getElem?_program isCore rest, made ▸ core.builds, ?_, ?_⟩
  · rw [← built.name]
    exact resolve_slot documented distinct isCore stages f
  · intro definition isVisible isName isStrong
    rw [← made] at isVisible
    have won := winner_of_strong (documented.ld_ok stages.merges).1
      (mem_visible_inputs documented isVisible) isStrong
    rw [isName] at won
    obtain ⟨call, own, isCall, site, isOwn, resolves⟩ :=
      exists_call documented distinct isCore stages won
    refine ⟨call, isCall, site, ?_⟩
    rw [resolves, isOwn.same (tentative_eq_false_of_strong isStrong)]

section Loop

variable
  {upstream : Upstream Tree Code}
  {volume : Volume Code}
  {tools : String → Tools Code}
  {macros : ShimMacros}
  {only : String}
  {slices : List String}
  {cores : List CoreEntry}
  {outputs : Outputs Code}
  {slice : String}
  {objects rest : List (ObjectFile Code)}

/-- Each entry of the compiled registry leads to the code of its core. -/
theorem runsSources_of_listed
    (listed : Listed volume cores)
    (slicesNodup : slices.Nodup)
    (documented : ∀ slice, (tools slice).Documented)
    (compiled : ∀ tree dir mkfile slice,
      ∀ input ∈ (upstream.make tree dir mkfile slice).objects, Compiled input)
    (plain : NotMacros macros (cores.map CoreEntry.name))
    (succeeds : buildCores upstream volume tools macros only slices
      (coresTsv cores) = .ok outputs)
    (selects : ∀ c ∈ cores, Selected only c.name)
    (isSlice : slice ∈ slices)
    (archived : archive volume outputs slice = .ok objects)
    (restDistinct : DistinctDefinitions rest)
    (apart : ∀ definition ∈ visible rest, ∀ c ∈ cores,
      definition.name ∉ exported c.name)
    {c : CoreEntry}
    (isCore : c ∈ cores)
    (f : EntryPoint) :
    RunsSources upstream (tools slice) macros slice (objects ++ rest)
      (encodeFields c) (Registry.coreVtable c.name) f := by
  have all : (cores.filter fun c => Selected only c.name) = cores := by
    rw [List.filter_eq_self]
    exact fun c isCore => by simpa using selects c isCore
  obtain ⟨entries, built, inOrder, origins, names, isProgram⟩ :=
    exists_program listed slicesNodup compiled plain succeeds isSlice archived
      rest
  rw [all] at inOrder names
  have distinct := distinctDefinitions_program (documented slice)
    (names.nodup_iff.mpr listed.nodup) restDistinct
    (apart_built names.subset apart)
  have isEntry : encodeFields c ∈ entries :=
    inOrder.mem_iff.mpr (List.mem_map_of_mem isCore)
  obtain ⟨core, isBuilt, origin⟩ := exists_of_mem_left origins isEntry
  obtain ⟨place, isBuilt⟩ := List.mem_iff_getElem?.mp isBuilt
  rw [isProgram]
  exact runsSources_of_built (documented slice) distinct isBuilt origin f

/-- **From the name to the code.** Let the script build all cores of a list, and
link the archive of a slice with the registry and the app. Whatever the hosts of
the program have done: every call that an operation makes is made by the host it
is performed on, through the entry that was found under the host's name, and
runs what the sources of the core of that name define. -/
theorem host_calls_run_sources
    (listed : Listed volume cores)
    (slicesNodup : slices.Nodup)
    (documented : ∀ slice, (tools slice).Documented)
    (compiled : ∀ tree dir mkfile slice,
      ∀ input ∈ (upstream.make tree dir mkfile slice).objects, Compiled input)
    (plain : NotMacros macros (cores.map CoreEntry.name))
    (succeeds : buildCores upstream volume tools macros only slices
      (coresTsv cores) = .ok outputs)
    (selects : ∀ c ∈ cores, Selected only c.name)
    (isSlice : slice ∈ slices)
    (archived : archive volume outputs slice = .ok objects)
    (restDistinct : DistinctDefinitions rest)
    (apart : ∀ definition ∈ visible rest, ∀ c ∈ cores,
      definition.name ∉ exported c.name)
    {registry : List LibretroCoreT}
    (compiles : Registry.compileRegistry (Registry.header cores) =
      some registry)
    (systemDir saveDir : String)
    (ops : List Op)
    (op : Op) :
    let platform : Platform := ⟨registry, systemDir, saveDir⟩
    let w := (performAll platform ops).state World.initial
    ∀ core retroCall,
      (core, retroCall) ∈ sent ((perform platform op).log w) →
        ∃ h host c entry, op.addressee = some h ∧
          w.callable h = some host ∧ host.core = core ∧
          cores[core]? = some c ∧ registry[core]? = some entry ∧
          c.name = CString.beforeNul host.coreName ∧
          RunsSources upstream (tools slice) macros slice (objects ++ rest)
            (encodeFields c) entry retroCall.entryPoint := by
  have isRegistry : registry =
      Registry.gCores (cores.map CoreEntry.name) := by
    rw [Registry.compileRegistry,
      Registry.includeCoresList_header cores listed.passes] at compiles
    exact (Option.some.inj compiles).symm
  subst isRegistry
  intro platform w core retroCall member
  have identifiers : ∀ name ∈ cores.map CoreEntry.name,
      isIdentifier name = true := by
    rw [List.forall_mem_map]
    exact listed.passes
  obtain ⟨h, host, addressed, callable, rfl⟩ :=
    Host.exists_host_of_sent (Host.performed platform op w) member
  have isNamed := Host.named_performAll identifiers listed.nodup systemDir
    saveDir ops h host.ledger
    (congrArg (Option.map Host.LibretroHost.ledger) callable)
  change (cores.map CoreEntry.name)[host.core]? = _ at isNamed
  rw [List.getElem?_map] at isNamed
  obtain ⟨c, isCore, sameName⟩ := Option.map_eq_some_iff.mp isNamed
  refine ⟨h, host, c, Registry.coreVtable c.name, addressed, callable, rfl,
    isCore, ?_, sameName, ?_⟩
  · rw [Registry.gCores, List.map_map, List.getElem?_map, isCore]
    rfl
  · exact runsSources_of_listed listed slicesNodup documented compiled plain
      succeeds selects isSlice archived restDistinct apart
      (List.mem_of_getElem? isCore) retroCall.entryPoint

end Loop

/-- A frame of a host on one of two cores that have functions of the same names,
each with code of its own. -/
theorem host_calls_run_sources_pce :
    ∃ outputs objects registry, sampleRun "" = .ok outputs ∧
      archive sampleVolume outputs "macos-arm64" = .ok objects ∧
      Registry.compileRegistry (Registry.header sampleCores) = some registry ∧
      ∃ place object, (objects ++ [])[place]? = some object ∧
        ∃ call ∈ object.references, call.site = "pce_retro_run" ∧
          resolve (load 0 (objects ++ []))
              (call.target.mapCode (Prod.mk place)) =
            some (place, pceEntry.repo ++ " run") := by
  obtain ⟨outputs, succeeds⟩ := exists_outputs ""
  obtain ⟨objects, archived⟩ :=
    exists_archive succeeds List.mem_cons_self (.inl rfl)
  have compiles : Registry.compileRegistry (Registry.header sampleCores) =
      some (Registry.gCores ["fceumm", "pce"]) := by
    rw [Registry.compileRegistry,
      Registry.includeCoresList_header _ listed_sampleCores.passes]
    rfl
  have restDistinct : DistinctDefinitions ([] : List (ObjectFile String)) := by
    decide
  obtain ⟨h, host, c, entry, addressed, _, _, isCore, isEntry, _, runs⟩ :=
    host_calls_run_sources listed_sampleCores (by decide)
      (fun _ => modelTools_documented)
      (fun tree _ _ _ => compiled_sampleMade tree) (by decide) succeeds
      (fun _ _ => .inl rfl) List.mem_cons_self archived restDistinct
      (by simp [visible]) compiles "sys" "sav"
      [.create "pce", .start 0 {} [1] "a.pce"] (.runFrame 0 {}) 1 .run
      (by decide)
  obtain rfl : pceEntry = c := Option.some.inj isCore
  obtain ⟨name, tree, code, place, object, isName, gets, compilesShim, linked,
    _, _, calls⟩ := runs
  cases compilesShim
  rw [sourceTree_sampleUpstream] at gets
  obtain rfl := Except.ok.inj gets
  have defined : (⟨"_retro_run", .external, .strong, 64,
      pceEntry.repo ++ " run"⟩ : Definition String String) ∈
        visible (sampleMade pceEntry.repo).objects :=
    List.mem_flatMap.mpr ⟨_, List.mem_cons_self, List.mem_cons_self⟩
  obtain ⟨call, isCall, site, resolves⟩ := calls _ defined (by decide) rfl
  refine ⟨outputs, objects, _, succeeds, archived, compiles, place, object,
    linked, call, isCall, ?_, resolves⟩
  rw [site]
  change name.1 ++ "_" ++ "retro_run" = "pce_retro_run"
  rw [isName]
  rfl

end Build

end LibretroLab
