import Mathlib.Logic.Function.Basic
import LibretroLab.Build.CoreLoop
import LibretroLab.Build.Isolation

/-!
# The archive of a slice

The loop of `tools/build-cores.sh` builds each core that the `CORES` filter
selects for each slice, and packs the objects of a slice into one archive, in
the order in which the shell lists their files. The committed registry names all
cores, so it links against the archive exactly if the filter selects all of
them.
-/

namespace LibretroLab
namespace Build

open Registry (ShimMacros EntryPoint CoreEntry NamesPass NotMacros exported
  linkerName isIdentifier)
open Linker
open Words

/-! ## The loop -/

/-- What the script gets from upstream: the tree of a repository at a branch,
the tree that a `prepatch` makes of it, and what `make` leaves for a directory,
a makefile and a slice. -/
structure Upstream (Tree Code : Type) where
  clone : String → String → Option Tree
  patch : String → Tree → Option Tree
  make : Tree → String → String → String → Made Code

/-- The files in `$WORK/out-<slice>`, for each slice. -/
abbrev Outputs (Code : Type) := String → List (String × ObjectFile Code)

/-- The volume that the files are on: how it folds the characters of their
names, if it is case-insensitive, and in which order `*.o` lists them. -/
structure Volume (Code : Type) where
  fold : Char → Char
  glob : List (String × ObjectFile Code) → List (String × ObjectFile Code)
  glob_perm : ∀ files, (glob files).Perm files

variable {Tree Code : Type}

/-- What tells the files of a directory apart. -/
def Volume.key (volume : Volume Code) (name : String) : List Char :=
  name.toList.map volume.fold

/-- Write a file, in place of one that the volume takes for the same. -/
def write
    (volume : Volume Code)
    (name : String)
    (object : ObjectFile Code)
    (files : List (String × ObjectFile Code)) :
    List (String × ObjectFile Code) :=
  files.filter (fun file => volume.key file.1 ≠ volume.key name) ++
    [(name, object)]

/-- `[ -z "$ONLY" ]`, or `" $ONLY "` matches `*" $name "*`. -/
def Selected (only name : String) : Prop :=
  only = "" ∨
    ' ' :: (name.toList ++ [' ']) <:+: ' ' :: (only.toList ++ [' '])

instance (only : String) : DecidablePred (Selected only) := fun name =>
  inferInstanceAs (Decidable (only = "" ∨
    ' ' :: (name.toList ++ [' ']) <:+: ' ' :: (only.toList ++ [' '])))

/-- `git clone` and the `prepatch`, if there is one. -/
def sourceTree
    (upstream : Upstream Tree Code)
    (fields : CoreFields) :
    Except Failure Tree := do
  let clone ← run "git" (upstream.clone fields.repo fields.ref)
  if fields.prepatch = "" then pure clone
  else run "eval" (upstream.patch fields.prepatch clone)

/-- One turn of the loop over the slices. -/
def buildSlice
    (upstream : Upstream Tree Code)
    (volume : Volume Code)
    (tools : String → Tools Code)
    (macros : ShimMacros)
    (name : CoreName)
    (fields : CoreFields)
    (tree : Tree)
    (outputs : Outputs Code)
    (slice : String) :
    Except Failure (Outputs Code) := do
  let object ← linkCore (tools slice) macros name slice
    (upstream.make tree fields.dir fields.mkfile slice)
  pure (Function.update outputs slice
    (write volume name object (outputs slice)))

/-- The body of the loop over the cores. What it does with a name that the
registry's generator rejects is left open. -/
def buildCore
    (upstream : Upstream Tree Code)
    (volume : Volume Code)
    (tools : String → Tools Code)
    (macros : ShimMacros)
    (only : String)
    (slices : List String) :
    LoopBody (Outputs Code) Failure := fun fields outputs =>
  if Selected only fields.name then
    if identifier : isIdentifier fields.name = true then do
      let tree ← sourceTree upstream fields
      slices.foldlM
        (buildSlice upstream volume tools macros ⟨fields.name, identifier⟩
          fields tree) outputs
    else .error (.command fields.name)
  else .ok outputs

/-- `ar rcs "$lib" "$WORK/out-$slice"/*.o`. Without files the pattern stays as
it is, and there is no file of this name. -/
def archive
    (volume : Volume Code)
    (outputs : Outputs Code)
    (slice : String) :
    Except Failure (List (ObjectFile Code)) :=
  if (outputs slice).isEmpty then .error (.command "ar")
  else .ok ((volume.glob (outputs slice)).map Prod.snd)

/-- The loop over the cores, from empty directories. -/
def buildCores
    (upstream : Upstream Tree Code)
    (volume : Volume Code)
    (tools : String → Tools Code)
    (macros : ShimMacros)
    (only : String)
    (slices : List String)
    (tsv : String) :
    Except Failure (Outputs Code) :=
  coreLoop (buildCore upstream volume tools macros only slices) tsv fun _ => []

/-! ## What it builds -/

/-- For identifiers the filter is a list of names with blanks between them. -/
theorem selected_iff
    {name : String}
    (identifier : isIdentifier name = true)
    (only : String) :
    Selected only name ↔
      only = "" ∨ name.toList ∈ only.toList.splitOn ' ' := by
  rw [Selected, infix_iff_mem_splitOn]
  intro blank
  have part := Registry.isIdentifierPart_of_mem identifier blank
  contradiction

/-- The object of an entry for a slice. -/
structure BuildsTo
    (upstream : Upstream Tree Code)
    (tools : String → Tools Code)
    (macros : ShimMacros)
    (slice : String)
    (fields : CoreFields)
    (file : String × ObjectFile Code) : Prop where
  name : file.1 = fields.name
  links : ∃ (identifier : isIdentifier fields.name = true) (tree : Tree),
    sourceTree upstream fields = .ok tree ∧
    linkCore (tools slice) macros ⟨fields.name, identifier⟩ slice
      (upstream.make tree fields.dir fields.mkfile slice) = .ok file.2

/-- Whatever the body of the loop does, it does it with the fields of the
entries, in order. -/
theorem coreLoop_coresTsv
    {State Failure : Type}
    (body : LoopBody State Failure)
    (state : State)
    {cores : List CoreEntry}
    (passes : NamesPass cores)
    (sendable : ∀ c ∈ cores, Sendable c)
    (kept : ∀ c ∈ cores, Kept (c.prepatch.getD "")) :
    coreLoop body (coresTsv cores) state =
      (cores.map encodeFields).foldlM (fun state fields => body fields state)
        state := by
  have noNewline : ∀ c ∈ cores, '\n' ∉ (encodeFields c).join.toList :=
    fun c member =>
      not_mem_join (by decide) (sendable c member).noNewline
        (encodeFields_prepatch c ▸ (kept c member).1)
  have readBack : cores.map encodeFields =
      cores.map fun c => readFields (encodeFields c).join.toList :=
    List.map_congr_left fun c member =>
      ((readFields_join_eq_iff (passes c member) (sendable c member)).mpr
        (encodeFields_prepatch c ▸ (kept c member).2)).symm
  rw [coreLoop, eachLine_coresTsv noNewline, readBack, List.foldlM_map,
    List.foldlM_map]

/-- The loop over distinct slices writes one file for each and no other. -/
theorem slices_written
    {upstream : Upstream Tree Code}
    {volume : Volume Code}
    {tools : String → Tools Code}
    {macros : ShimMacros}
    {name : CoreName}
    {fields : CoreFields}
    {tree : Tree}
    {slices : List String}
    (nodup : slices.Nodup)
    {outputs final : Outputs Code}
    (succeeds : slices.foldlM
      (buildSlice upstream volume tools macros name fields tree) outputs =
        .ok final) :
    (∀ slice ∉ slices, final slice = outputs slice) ∧
      ∀ slice ∈ slices, ∃ object,
        linkCore (tools slice) macros name slice
            (upstream.make tree fields.dir fields.mkfile slice) = .ok object ∧
          final slice = write volume name object (outputs slice) := by
  induction slices generalizing outputs with
  | nil =>
      cases succeeds
      exact ⟨fun _ _ => rfl, by simp⟩
  | cons first later inductionHypothesis =>
      obtain ⟨firstFresh, laterNodup⟩ := List.nodup_cons.mp nodup
      rw [List.foldlM_cons] at succeeds
      obtain ⟨next, builds, succeeds⟩ := exists_of_bind_eq_ok succeeds
      obtain ⟨object, links, writes⟩ := exists_of_bind_eq_ok builds
      cases writes
      obtain ⟨others, written⟩ := inductionHypothesis laterNodup succeeds
      refine ⟨?_, ?_⟩
      · intro slice notListed
        obtain ⟨differs, notLater⟩ :=
          not_or.mp (List.mem_cons.not.mp notListed)
        rw [others slice notLater, Function.update_of_ne differs]
      · intro slice listed
        rcases List.mem_cons.mp listed with rfl | isLater
        · refine ⟨object, links, ?_⟩
          rw [others slice firstFresh, Function.update_self]
        · obtain ⟨object, links, writes⟩ := written slice isLater
          refine ⟨object, links, ?_⟩
          have differs : slice ≠ first := fun same =>
            firstFresh (same ▸ isLater)
          rw [writes, Function.update_of_ne differs]

/-- A file of a new name comes after the others. -/
theorem write_of_fresh
    {volume : Volume Code}
    {name : String}
    {files : List (String × ObjectFile Code)}
    (fresh : ∀ file ∈ files, volume.key file.1 ≠ volume.key name)
    (object : ObjectFile Code) :
    write volume name object files = files ++ [(name, object)] := by
  rw [write, List.filter_eq_self.mpr fun file member => by
    simpa using fresh file member]

/-- What a turn of the loop over the cores writes for a selected entry that has
no file yet. -/
theorem written_of_buildCore
    {upstream : Upstream Tree Code}
    {volume : Volume Code}
    {tools : String → Tools Code}
    {macros : ShimMacros}
    {only : String}
    {slices : List String}
    (slicesNodup : slices.Nodup)
    {fields : CoreFields}
    (selected : Selected only fields.name)
    {outputs next : Outputs Code}
    (fresh : ∀ slice, ∀ file ∈ outputs slice,
      volume.key file.1 ≠ volume.key fields.name)
    (builds :
      buildCore upstream volume tools macros only slices fields outputs =
        .ok next) :
    (∀ slice ∉ slices, next slice = outputs slice) ∧
      ∀ slice ∈ slices, ∃ object,
        BuildsTo upstream tools macros slice fields (fields.name, object) ∧
          next slice = outputs slice ++ [(fields.name, object)] := by
  rw [buildCore, if_pos selected] at builds
  split at builds
  case isFalse => cases builds
  case isTrue identifier =>
    obtain ⟨tree, gets, builds⟩ := exists_of_bind_eq_ok builds
    obtain ⟨others, written⟩ := slices_written slicesNodup builds
    refine ⟨others, fun slice isSlice => ?_⟩
    obtain ⟨object, links, writes⟩ := written slice isSlice
    exact ⟨object, ⟨rfl, identifier, tree, gets, links⟩,
      writes.trans (write_of_fresh (fresh slice) object)⟩

/-- A turn of the loop leaves names free that are neither taken nor its own. -/
theorem fresh_of_written
    {volume : Volume Code}
    {name : String}
    {slices : List String}
    {outputs next : Outputs Code}
    (others : ∀ slice ∉ slices, next slice = outputs slice)
    (written : ∀ slice ∈ slices, ∃ object,
      next slice = outputs slice ++ [(name, object)])
    {taken : List (List Char)}
    (fresh : ∀ slice, ∀ file ∈ outputs slice, volume.key file.1 ∉ taken)
    (notTaken : volume.key name ∉ taken) :
    ∀ slice, ∀ file ∈ next slice, volume.key file.1 ∉ taken := by
  intro slice file member
  by_cases isSlice : slice ∈ slices
  · obtain ⟨object, writes⟩ := written slice isSlice
    rw [writes, List.mem_append, List.mem_singleton] at member
    rcases member with isOld | rfl
    · exact fresh slice file isOld
    · exact notTaken
  · rw [others slice isSlice] at member
    exact fresh slice file member

/-- The loop writes a file for every selected entry, in order. -/
theorem files_written
    {upstream : Upstream Tree Code}
    {volume : Volume Code}
    {tools : String → Tools Code}
    {macros : ShimMacros}
    {only : String}
    {slices : List String}
    (slicesNodup : slices.Nodup)
    {entries : List CoreFields}
    (nodup : (entries.map fun fields => volume.key fields.name).Nodup)
    {outputs final : Outputs Code}
    (fresh : ∀ slice, ∀ file ∈ outputs slice,
      volume.key file.1 ∉ entries.map fun fields => volume.key fields.name)
    (succeeds : entries.foldlM (fun outputs fields =>
      buildCore upstream volume tools macros only slices fields outputs)
        outputs = .ok final)
    {slice : String}
    (isSlice : slice ∈ slices) :
    ∃ files, final slice = outputs slice ++ files ∧
      List.Forall₂ (BuildsTo upstream tools macros slice)
        (entries.filter fun fields => Selected only fields.name) files := by
  induction entries generalizing outputs with
  | nil =>
      cases succeeds
      exact ⟨[], (List.append_nil _).symm, .nil⟩
  | cons fields later inductionHypothesis =>
      rw [List.map_cons, List.nodup_cons] at nodup
      rw [List.foldlM_cons] at succeeds
      obtain ⟨next, builds, succeeds⟩ := exists_of_bind_eq_ok succeeds
      have old : ∀ slice, ∀ file ∈ outputs slice,
          volume.key file.1 ∉ later.map fun fields => volume.key fields.name :=
        fun slice file member inLater =>
          fresh slice file member (List.mem_cons_of_mem _ inLater)
      by_cases selected : Selected only fields.name
      · have unwritten : ∀ slice, ∀ file ∈ outputs slice,
            volume.key file.1 ≠ volume.key fields.name :=
          fun slice file member same =>
            fresh slice file member (same ▸ List.mem_cons_self)
        obtain ⟨others, written⟩ :=
          written_of_buildCore slicesNodup selected unwritten builds
        have nextFresh := fresh_of_written others
          (fun slice isSlice =>
            (written slice isSlice).imp fun _ both => both.2) old nodup.1
        obtain ⟨object, buildsTo, writes⟩ := written slice isSlice
        obtain ⟨files, appends, builtFiles⟩ :=
          inductionHypothesis nodup.2 nextFresh succeeds
        refine ⟨(fields.name, object) :: files, ?_, ?_⟩
        · rw [appends, writes, List.append_assoc, List.singleton_append]
        · rw [List.filter_cons_of_pos (by simpa using selected)]
          exact .cons buildsTo builtFiles
      · rw [buildCore, if_neg selected] at builds
        cases builds
        rw [List.filter_cons_of_neg (by simpa using selected)]
        exact inductionHypothesis nodup.2 old succeeds

/-- If the recipe succeeds for each slice, so does the loop over the slices. -/
theorem slices_succeed
    {upstream : Upstream Tree Code}
    {volume : Volume Code}
    {tools : String → Tools Code}
    {macros : ShimMacros}
    {name : CoreName}
    {fields : CoreFields}
    {tree : Tree}
    {slices : List String}
    (links : ∀ slice ∈ slices, ∃ object,
      linkCore (tools slice) macros name slice
        (upstream.make tree fields.dir fields.mkfile slice) = .ok object)
    (outputs : Outputs Code) :
    ∃ final, slices.foldlM
      (buildSlice upstream volume tools macros name fields tree) outputs =
        .ok final := by
  induction slices generalizing outputs with
  | nil => exact ⟨outputs, rfl⟩
  | cons slice later inductionHypothesis =>
      obtain ⟨object, succeeds⟩ := links slice List.mem_cons_self
      rw [List.foldlM_cons, buildSlice, succeeds]
      exact inductionHypothesis
        (fun other member => links other (List.mem_cons_of_mem _ member)) _

/-- If the sources can be had and the recipe succeeds for each slice, so does
the loop over the cores. -/
theorem entries_succeed
    {upstream : Upstream Tree Code}
    {volume : Volume Code}
    {tools : String → Tools Code}
    {macros : ShimMacros}
    {only : String}
    {slices : List String}
    {entries : List CoreFields}
    (identifiers : ∀ fields ∈ entries, isIdentifier fields.name = true)
    (sources : ∀ fields ∈ entries, ∃ tree,
      sourceTree upstream fields = .ok tree)
    (links : ∀ fields ∈ entries,
      ∀ (identifier : isIdentifier fields.name = true) tree,
        ∀ slice ∈ slices, ∃ object,
          linkCore (tools slice) macros ⟨fields.name, identifier⟩ slice
            (upstream.make tree fields.dir fields.mkfile slice) = .ok object)
    (outputs : Outputs Code) :
    ∃ final, entries.foldlM (fun outputs fields =>
      buildCore upstream volume tools macros only slices fields outputs)
        outputs = .ok final := by
  induction entries generalizing outputs with
  | nil => exact ⟨outputs, rfl⟩
  | cons fields later inductionHypothesis =>
      have here : ∃ next,
          buildCore upstream volume tools macros only slices fields outputs =
            .ok next := by
        have identifier := identifiers fields List.mem_cons_self
        obtain ⟨tree, gets⟩ := sources fields List.mem_cons_self
        rw [buildCore, dif_pos identifier, gets]
        split
        · exact slices_succeed
            (links fields List.mem_cons_self identifier tree) outputs
        · exact ⟨outputs, rfl⟩
      obtain ⟨next, builds⟩ := here
      rw [List.foldlM_cons, builds]
      exact inductionHypothesis
        (fun other member => identifiers other (List.mem_cons_of_mem _ member))
        (fun other member => sources other (List.mem_cons_of_mem _ member))
        (fun other member => links other (List.mem_cons_of_mem _ member)) next

/-- A list of cores that the generator accepts and the loop reads as it is
meant, with names for distinct files. -/
structure Listed (volume : Volume Code) (cores : List CoreEntry) : Prop where
  passes : NamesPass cores
  sendable : ∀ c ∈ cores, Sendable c
  kept : ∀ c ∈ cores, Kept (c.prepatch.getD "")
  filesNodup : (cores.map fun c => volume.key c.name).Nodup

/-- Names for distinct files are distinct. -/
theorem Listed.nodup
    {volume : Volume Code}
    {cores : List CoreEntry}
    (listed : Listed volume cores) :
    (cores.map CoreEntry.name).Nodup := by
  have keys : ((cores.map CoreEntry.name).map volume.key).Nodup := by
    rw [List.map_map]
    exact listed.filesNodup
  exact keys.of_map

/-! ## A run over two cores -/

/-- Sources of which every repository holds a small core with code of its
own. -/
def sampleUpstream : Upstream String String where
  clone := fun repo _ => some repo
  patch := fun _ tree => some tree
  make := fun tree _ _ _ => sampleMade tree

/-- A case-insensitive volume, on which files are listed in the order of their
names. -/
def sampleVolume : Volume String where
  fold := Char.toLower
  glob := fun files => files.mergeSort fun left right => left.1 ≤ right.1
  glob_perm := fun files => List.mergeSort_perm files _

/-- Two entries, one with a `prepatch`. -/
def sampleCores : List CoreEntry := [fceummEntry, pceEntry]

theorem listed_sampleCores : Listed sampleVolume sampleCores where
  passes := by decide
  sendable := by
    rw [sampleCores, List.forall_mem_cons, List.forall_mem_singleton]
    exact ⟨fceummEntry_sendable, pceEntry_sendable⟩
  kept := by
    rw [sampleCores, List.forall_mem_cons, List.forall_mem_singleton]
    exact ⟨fceummEntry_kept, pceEntry_kept⟩
  filesNodup := by decide

theorem sourceTree_sampleUpstream (fields : CoreFields) :
    sourceTree sampleUpstream fields = .ok fields.repo := by
  rw [sourceTree]
  change (if fields.prepatch = "" then _ else _) = _
  split <;> rfl

/-- The programs and the volume of the run. -/
abbrev sampleRun (only : String) : Except Failure (Outputs String) :=
  buildCores sampleUpstream sampleVolume (fun _ => modelTools) noMacros only
    ["macos-arm64"] (coresTsv sampleCores)

/-- A run with any filter. -/
theorem exists_outputs (only : String) :
    ∃ outputs, sampleRun only = .ok outputs := by
  rw [sampleRun, buildCores, coreLoop_coresTsv _ _ listed_sampleCores.passes
    listed_sampleCores.sendable listed_sampleCores.kept]
  apply entries_succeed
  · rw [List.forall_mem_map]
    exact listed_sampleCores.passes
  · intro fields _
    exact ⟨fields.repo, sourceTree_sampleUpstream fields⟩
  · intro fields member identifier tree slice isSlice
    have plain : fields.name ≠ "CORE_PREFIX" := by
      rw [List.mem_map] at member
      obtain ⟨c, isCore, rfl⟩ := member
      have allPlain : ∀ c ∈ sampleCores, c.name ≠ "CORE_PREFIX" := by decide
      exact allPlain c isCore
    rw [List.mem_singleton.mp isSlice]
    exact exists_linkCore ⟨fields.name, identifier⟩ plain tree

/-! ## The results of a run -/

section Loop

variable
  {upstream : Upstream Tree Code}
  {volume : Volume Code}
  {tools : String → Tools Code}
  {macros : ShimMacros}
  {only : String}
  {slices : List String}
  {cores : List CoreEntry}
  {outputs : Outputs Code}

/-- The filter on the entries of the list. -/
theorem filter_selected (passes : NamesPass cores) :
    (cores.filter fun c => Selected only c.name) =
      cores.filter fun c =>
        only = "" ∨ c.name.toList ∈ only.toList.splitOn ' ' := by
  apply List.filter_congr
  intro c member
  rw [decide_eq_decide]
  exact selected_iff (passes c member) only

/-- The files of a slice are those of the selected entries. -/
theorem filesOf_selected
    (listed : Listed volume cores)
    (slicesNodup : slices.Nodup)
    (succeeds : buildCores upstream volume tools macros only slices
      (coresTsv cores) = .ok outputs)
    {slice : String}
    (isSlice : slice ∈ slices) :
    List.Forall₂ (BuildsTo upstream tools macros slice)
      ((cores.filter fun c => Selected only c.name).map encodeFields)
      (outputs slice) := by
  rw [buildCores, coreLoop_coresTsv _ _ listed.passes listed.sendable
    listed.kept] at succeeds
  have keys : ((cores.map encodeFields).map fun fields =>
      volume.key fields.name).Nodup := by
    rw [List.map_map]
    exact listed.filesNodup
  obtain ⟨files, appends, built⟩ := files_written slicesNodup keys
    (fun _ _ member => absurd member List.not_mem_nil) succeeds isSlice
  rw [List.nil_append] at appends
  rw [appends]
  rw [List.filter_map] at built
  exact built

/-- The archive holds the files in the order in which the shell lists them. -/
theorem archive_selected
    (listed : Listed volume cores)
    (slicesNodup : slices.Nodup)
    (succeeds : buildCores upstream volume tools macros only slices
      (coresTsv cores) = .ok outputs)
    {slice : String}
    (isSlice : slice ∈ slices) :
    ∃ entries files,
      entries.Perm
        ((cores.filter fun c => Selected only c.name).map encodeFields) ∧
      List.Forall₂ (BuildsTo upstream tools macros slice) entries files ∧
      archive volume outputs slice =
        if entries = [] then .error (.command "ar")
        else .ok (files.map Prod.snd) := by
  have built := filesOf_selected listed slicesNodup succeeds isSlice
  obtain ⟨entries, inOrder, all⟩ :=
    List.perm_comp_forall₂ (volume.glob_perm (outputs slice)) built.flip
  refine ⟨entries, volume.glob (outputs slice), all, inOrder.flip, ?_⟩
  have empty : (outputs slice).isEmpty = true ↔ entries = [] := by
    rw [List.isEmpty_iff, ← List.length_eq_zero_iff,
      ← List.length_eq_zero_iff (l := entries), all.length_eq,
      built.length_eq]
  rw [archive]
  exact if_congr empty rfl rfl

/-- **What the archive holds.** If the loop comes to its end, the archive of
each slice holds the objects of the selected cores, one for each, in the order
in which the shell lists their files, and each made by the recipe from the
sources of its core. If no core is selected there is no archive. -/
theorem archive_holds_selected
    (listed : Listed volume cores)
    (slicesNodup : slices.Nodup)
    (succeeds : buildCores upstream volume tools macros only slices
      (coresTsv cores) = .ok outputs)
    {slice : String}
    (isSlice : slice ∈ slices) :
    ∃ entries files,
      entries.Perm ((cores.filter fun c =>
        only = "" ∨ c.name.toList ∈ only.toList.splitOn ' ').map
          encodeFields) ∧
      List.Forall₂ (BuildsTo upstream tools macros slice) entries files ∧
      archive volume outputs slice =
        if entries = [] then .error (.command "ar")
        else .ok (files.map Prod.snd) := by
  rw [← filter_selected listed.passes]
  exact archive_selected listed slicesNodup succeeds isSlice

/-- The archive of the run holds the selected core. -/
theorem archive_holds_selected_pce :
    ∃ outputs objects file, sampleRun "pce" = .ok outputs ∧
      archive sampleVolume outputs "macos-arm64" = .ok objects ∧
      objects = [file.2] ∧
      BuildsTo sampleUpstream (fun _ => modelTools) noMacros "macos-arm64"
        (encodeFields pceEntry) file := by
  obtain ⟨outputs, succeeds⟩ := exists_outputs "pce"
  obtain ⟨entries, files, all, built, archived⟩ := archive_holds_selected
    listed_sampleCores (by decide) succeeds List.mem_cons_self
  have selected : (sampleCores.filter fun c => "pce" = "" ∨
      c.name.toList ∈ "pce".toList.splitOn ' ').map encodeFields =
        [encodeFields pceEntry] := by
    decide
  rw [selected, List.perm_singleton] at all
  subst all
  obtain ⟨file, _, here, rest, rfl⟩ := List.forall₂_cons_left_iff.mp built
  obtain rfl := List.forall₂_nil_left_iff.mp rest
  exact ⟨outputs, [file.2], file, succeeds, archived, rfl, here⟩

/-- A core that is built from the sources of an entry. -/
structure BuiltFrom
    (upstream : Upstream Tree Code)
    {sliceTools : Tools Code}
    {macros : ShimMacros}
    {slice : String}
    (fields : CoreFields)
    (core : BuiltCore sliceTools macros slice) : Prop where
  name : core.name.1 = fields.name
  made : ∃ tree, sourceTree upstream fields = .ok tree ∧
    core.made = upstream.make tree fields.dir fields.mkfile slice

/-- The files of a slice are those of built cores. -/
theorem exists_builtCores
    (compiled : ∀ tree dir mkfile slice,
      ∀ input ∈ (upstream.make tree dir mkfile slice).objects, Compiled input)
    {slice : String}
    {entries : List CoreFields}
    (plain : NotMacros macros (entries.map CoreFields.name))
    {files : List (String × ObjectFile Code)}
    (builds : List.Forall₂ (BuildsTo upstream tools macros slice) entries
      files) :
    ∃ built : List (BuiltCore (tools slice) macros slice),
      List.Forall₂ (BuiltFrom upstream) entries built ∧
        (built.map fun core => core.name.1) = entries.map CoreFields.name ∧
        built.map BuiltCore.object = files.map Prod.snd := by
  induction builds with
  | nil => exact ⟨[], .nil, rfl, rfl⟩
  | @cons fields file entries files here _ inductionHypothesis =>
      obtain ⟨built, origins, names, areObjects⟩ := inductionHypothesis
        fun name member => plain name (List.mem_cons_of_mem _ member)
      obtain ⟨identifier, tree, gets, links⟩ := here.links
      exact ⟨⟨⟨fields.name, identifier⟩, _, file.2,
          plain fields.name List.mem_cons_self, compiled _ _ _ _, links⟩ ::
            built,
        .cons ⟨rfl, tree, gets, rfl⟩ origins,
        congrArg (List.cons fields.name) names,
        congrArg (List.cons file.2) areObjects⟩

/-- The archive of a slice and the rest make a program of one built core for
each selected entry. -/
theorem exists_program
    (listed : Listed volume cores)
    (slicesNodup : slices.Nodup)
    (compiled : ∀ tree dir mkfile slice,
      ∀ input ∈ (upstream.make tree dir mkfile slice).objects, Compiled input)
    (plain : NotMacros macros (cores.map CoreEntry.name))
    (succeeds : buildCores upstream volume tools macros only slices
      (coresTsv cores) = .ok outputs)
    {slice : String}
    (isSlice : slice ∈ slices)
    {objects : List (ObjectFile Code)}
    (archived : archive volume outputs slice = .ok objects)
    (rest : List (ObjectFile Code)) :
    ∃ (entries : List CoreFields)
      (built : List (BuiltCore (tools slice) macros slice)),
      entries.Perm
        ((cores.filter fun c => Selected only c.name).map encodeFields) ∧
      List.Forall₂ (BuiltFrom upstream) entries built ∧
      (built.map fun core => core.name.1).Perm
        ((cores.filter fun c => Selected only c.name).map CoreEntry.name) ∧
      objects ++ rest = program built rest := by
  obtain ⟨entries, files, all, builds, holds⟩ :=
    archive_selected listed slicesNodup succeeds isSlice
  have names : (entries.map CoreFields.name).Perm
      ((cores.filter fun c => Selected only c.name).map CoreEntry.name) := by
    have inOrder := all.map CoreFields.name
    rw [List.map_map] at inOrder
    exact inOrder
  have plainKept : NotMacros macros (entries.map CoreFields.name) :=
    fun name member => plain name
      ((List.filter_sublist.map _).subset (names.mem_iff.mp member))
  obtain ⟨built, origins, builtNames, areObjects⟩ :=
    exists_builtCores compiled plainKept builds
  refine ⟨entries, built, all, origins, builtNames ▸ names, ?_⟩
  rw [holds] at archived
  split at archived
  · cases archived
  · cases archived
    rw [program, areObjects]

/-- What no listed core exports, no core built for an entry of the list does. -/
theorem apart_built
    {sliceTools : Tools Code}
    {slice : String}
    {built : List (BuiltCore sliceTools macros slice)}
    (names : (built.map fun core => core.name.1) ⊆ cores.map CoreEntry.name)
    {rest : List (ObjectFile Code)}
    (apart : ∀ definition ∈ visible rest, ∀ c ∈ cores,
      definition.name ∉ exported c.name) :
    ∀ definition ∈ visible rest, ∀ core ∈ built,
      definition.name ∉ exported core.name := by
  intro definition member core isBuilt
  obtain ⟨c, isCore, same⟩ := List.mem_map.mp
    (names (List.mem_map.mpr ⟨core, isBuilt, rfl⟩))
  rw [← same]
  exact apart definition member c isCore

/-- A slot of the vtable of a listed core is defined exactly if the core is
selected. -/
theorem resolve_slot_ne_none_iff
    (listed : Listed volume cores)
    (slicesNodup : slices.Nodup)
    (documented : ∀ slice, (tools slice).Documented)
    (compiled : ∀ tree dir mkfile slice,
      ∀ input ∈ (upstream.make tree dir mkfile slice).objects, Compiled input)
    (plain : NotMacros macros (cores.map CoreEntry.name))
    (succeeds : buildCores upstream volume tools macros only slices
      (coresTsv cores) = .ok outputs)
    {slice : String}
    (isSlice : slice ∈ slices)
    {objects : List (ObjectFile Code)}
    (archived : archive volume outputs slice = .ok objects)
    {rest : List (ObjectFile Code)}
    (restDistinct : DistinctDefinitions rest)
    (apart : ∀ definition ∈ visible rest, ∀ c ∈ cores,
      definition.name ∉ exported c.name)
    {c : CoreEntry}
    (isCore : c ∈ cores)
    (f : EntryPoint) :
    resolve (load 0 (objects ++ rest))
        (.symbol (linkerName ((Registry.coreVtable c.name).slot f))) ≠ none ↔
      Selected only c.name := by
  obtain ⟨_, built, _, _, names, isProgram⟩ := exists_program listed slicesNodup
    compiled plain succeeds isSlice archived rest
  have kept : ((cores.filter fun c => Selected only c.name).map
      CoreEntry.name).Sublist (cores.map CoreEntry.name) :=
    List.filter_sublist.map _
  rw [isProgram]
  constructor
  · intro defined
    by_contra skipped
    apply defined
    apply resolve_slot_of_absent (documented slice)
    · intro core isBuilt same
      have inNames : core.name.1 ∈ built.map fun core => core.name.1 :=
        List.mem_map_of_mem isBuilt
      rw [names.mem_iff, List.mem_map] at inNames
      obtain ⟨other, isKept, isName⟩ := inNames
      apply skipped
      rw [← same, ← isName]
      simpa using (List.mem_filter.mp isKept).2
    · exact fun definition member => apart definition member c isCore
  · intro selected
    have inNames : c.name ∈ built.map fun core => core.name.1 := by
      rw [names.mem_iff]
      exact List.mem_map_of_mem
        (List.mem_filter.mpr ⟨isCore, by simpa using selected⟩)
    obtain ⟨core, isBuilt, isName⟩ := List.mem_map.mp inNames
    obtain ⟨place, isBuilt⟩ := List.mem_iff_getElem?.mp isBuilt
    have distinct := distinctDefinitions_program (documented slice)
      (names.nodup_iff.mpr (listed.nodup.sublist kept)) restDistinct
      (apart_built (fun _ member => kept.subset (names.mem_iff.mp member))
        apart)
    obtain ⟨stages⟩ := stages_of_linkCore core.builds
    rw [← isName, resolve_slot (documented slice) distinct isBuilt stages f]
    exact Option.some_ne_none _

/-- **The registry and a subset of the cores.** The registry compiled from the
generated header links against the archive of a slice exactly if the filter
selects all cores. -/
theorem registry_links_iff
    (listed : Listed volume cores)
    (slicesNodup : slices.Nodup)
    (documented : ∀ slice, (tools slice).Documented)
    (compiled : ∀ tree dir mkfile slice,
      ∀ input ∈ (upstream.make tree dir mkfile slice).objects, Compiled input)
    (plain : NotMacros macros (cores.map CoreEntry.name))
    (succeeds : buildCores upstream volume tools macros only slices
      (coresTsv cores) = .ok outputs)
    {slice : String}
    (isSlice : slice ∈ slices)
    {objects : List (ObjectFile Code)}
    (archived : archive volume outputs slice = .ok objects)
    {rest : List (ObjectFile Code)}
    (restDistinct : DistinctDefinitions rest)
    (apart : ∀ definition ∈ visible rest, ∀ c ∈ cores,
      definition.name ∉ exported c.name) :
    ∃ registry, Registry.compileRegistry (Registry.header cores) =
        some registry ∧
      ((∀ entry ∈ registry, ∀ f,
          resolve (load 0 (objects ++ rest))
            (.symbol (linkerName (entry.slot f))) ≠ none) ↔
        only = "" ∨
          ∀ c ∈ cores, c.name.toList ∈ only.toList.splitOn ' ') := by
  refine ⟨Registry.gCores (cores.map CoreEntry.name), ?_, ?_⟩
  · rw [Registry.compileRegistry,
      Registry.includeCoresList_header cores listed.passes]
    rfl
  have slots := fun c (isCore : c ∈ cores) =>
    resolve_slot_ne_none_iff listed slicesNodup documented compiled plain
      succeeds isSlice archived restDistinct apart isCore
  constructor
  · intro linked
    by_cases all : only = ""
    · exact .inl all
    · refine .inr fun c isCore => ?_
      have isEntry : Registry.coreVtable c.name ∈
          Registry.gCores (cores.map CoreEntry.name) :=
        List.mem_map_of_mem (List.mem_map_of_mem isCore)
      have selected := (slots c isCore .retroRun).mp
        (linked _ isEntry .retroRun)
      exact ((selected_iff (listed.passes c isCore) only).mp
        selected).resolve_left all
  · intro selected entry isEntry f
    obtain ⟨name, isName, rfl⟩ := List.mem_map.mp isEntry
    obtain ⟨c, isCore, rfl⟩ := List.mem_map.mp isName
    apply (slots c isCore f).mpr
    rw [selected_iff (listed.passes c isCore)]
    exact selected.imp_right fun all => all c isCore

end Loop

/-- An archive of the sample run, if something is selected. -/
theorem exists_archive
    {only : String}
    {outputs : Outputs String}
    (succeeds : sampleRun only = .ok outputs)
    {c : CoreEntry}
    (isCore : c ∈ sampleCores)
    (selected : Selected only c.name) :
    ∃ objects, archive sampleVolume outputs "macos-arm64" = .ok objects := by
  obtain ⟨entries, files, all, _, archived⟩ := archive_selected
    listed_sampleCores (by decide) succeeds List.mem_cons_self
  have nonempty : entries ≠ [] := by
    refine List.ne_nil_of_mem (all.mem_iff.mpr (List.mem_map_of_mem
      (List.mem_filter.mpr ⟨isCore, ?_⟩)))
    simpa using selected
  rw [if_neg nonempty] at archived
  exact ⟨_, archived⟩

/-- The registry of both cores does not link against the archive of one. -/
theorem registry_links_iff_pce :
    ∃ outputs objects registry, sampleRun "pce" = .ok outputs ∧
      archive sampleVolume outputs "macos-arm64" = .ok objects ∧
      Registry.compileRegistry (Registry.header sampleCores) = some registry ∧
      ¬ ∀ entry ∈ registry, ∀ f,
        resolve (load 0 (objects ++ []))
          (.symbol (linkerName (entry.slot f))) ≠ none := by
  obtain ⟨outputs, succeeds⟩ := exists_outputs "pce"
  obtain ⟨objects, archived⟩ := exists_archive succeeds
    (List.mem_cons_of_mem _ List.mem_cons_self)
    (.inr (List.infix_refl (' ' :: ("pce".toList ++ [' ']))))
  have restDistinct : DistinctDefinitions ([] : List (ObjectFile String)) := by
    decide
  obtain ⟨registry, compiles, links⟩ := registry_links_iff listed_sampleCores
    (by decide) (fun _ => modelTools_documented)
    (fun tree _ _ _ => compiled_sampleMade tree) (by decide) succeeds
    List.mem_cons_self archived restDistinct (by simp [visible])
  exact ⟨outputs, objects, registry, succeeds, archived, compiles,
    links.not.mpr (by decide)⟩

end Build
end LibretroLab
