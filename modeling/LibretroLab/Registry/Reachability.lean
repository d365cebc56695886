import LibretroLab.Registry.Cores

/-!
# Every listed core is separately reachable

The registry compiled from a generated header counts, names and finds the
entries of `cores.json`, and `build-cores.sh` writes one object file for each,
exactly when the names are distinct file names on the build volume.
-/

namespace LibretroLab
namespace Registry

/-- Where the core loop of `build-cores.sh` writes the hidden object of a
core: `$WORK/out-$slice/$name.o`. -/
def objectFile (work slice name : String) : String :=
  work ++ "/out-" ++ slice ++ "/" ++ name ++ ".o"

/-- The file a volume stores at a path. A case-insensitive volume folds the
characters of paths; a case-sensitive one leaves them alone. -/
def volumeFile (fold : Char → Char) (path : String) : List Char :=
  path.toList.map fold

/-- Object files collide exactly when the folded names do. -/
theorem volumeFile_objectFile_inj
    (fold : Char → Char)
    (work slice left right : String) :
    volumeFile fold (objectFile work slice left) =
        volumeFile fold (objectFile work slice right) ↔
      left.toList.map fold = right.toList.map fold := by
  simp only [volumeFile, objectFile, String.toList_append, List.map_append,
    List.append_assoc, List.append_cancel_left_eq,
    List.append_cancel_right_eq]

/-- Each of `names` is an entry of its own in the registry `cores`: counted,
named, listed and found at its own index, with an object file of its own. -/
structure SeparatelyReachable
    (fold : Char → Char)
    (work slice : String)
    (repair : List UInt8 → String)
    (names : List String)
    (cores : List LibretroCoreT) : Prop where
  count : libretroCoreCount cores = names.length
  nameOf : ∀ index < libretroCoreCount cores,
    ∃ inNames : index < names.length,
      libretroCoreName cores index = some (CString.ofString names[index])
  pastEnd : ∀ index, libretroCoreCount cores ≤ index →
    libretroCoreName cores index = none
  linked : linkedCores repair cores = names
  lookup : ∀ index < libretroCoreCount cores,
    libretroCoreLookup cores (libretroCoreName cores index) = some index
  objects :
    (names.map fun name => volumeFile fold (objectFile work slice name)).Nodup
  absent : ∀ name : CString,
    libretroCoreLookup cores (some name) = none ↔
      ∀ listed ∈ names, CString.ofString listed ≠ name

/-- Distinct names make every entry the first of its name. -/
theorem libretroCoreLookup_gCores
    {names : List String}
    (noNul : ∀ name ∈ names, ∀ char ∈ name.toList, char ≠ Char.ofNat 0)
    (nodup : names.Nodup)
    (index : Nat)
    (bound : index < names.length) :
    libretroCoreLookup (gCores names) (some (CString.ofString names[index])) =
      some index := by
  rw [libretroCoreLookup_eq_some_iff]
  refine ⟨by simpa [gCores] using bound, by simp [gCores, coreVtable], ?_⟩
  intro earlier before sameName
  have earlierBound : earlier < names.length := before.trans bound
  have sameString : names[earlier] = names[index] := by
    rw [← CString.ofString_inj (noNul _ (List.getElem_mem earlierBound))
      (noNul _ (List.getElem_mem bound))]
    simpa [gCores, coreVtable] using sameName
  exact absurd ((List.Nodup.getElem_inj_iff nodup).mp sameString)
    (Nat.ne_of_lt before)

/-- Names whose foldings are distinct have distinct object files, and back. -/
theorem nodup_objectFiles_iff
    (fold : Char → Char)
    (work slice : String)
    (names : List String) :
    (names.map fun name =>
        volumeFile fold (objectFile work slice name)).Nodup ↔
      (names.map fun name => name.toList.map fold).Nodup := by
  simp only [List.Nodup, List.pairwise_map, ne_eq, volumeFile_objectFile_inj]

/-- Once the folded names are distinct, so is everything else. -/
theorem separatelyReachable_gCores_iff
    (fold : Char → Char)
    (work slice : String)
    (repair : List UInt8 → String)
    {names : List String}
    (noNul : ∀ name ∈ names, ∀ char ∈ name.toList, char ≠ Char.ofNat 0) :
    SeparatelyReachable fold work slice repair names (gCores names) ↔
      (names.map fun name => name.toList.map fold).Nodup := by
  rw [← nodup_objectFiles_iff fold work slice]
  refine ⟨SeparatelyReachable.objects, fun distinctFiles => ?_⟩
  have nodup : names.Nodup := List.Nodup.of_map _ distinctFiles
  have count : libretroCoreCount (gCores names) = names.length := by
    simp [libretroCoreCount, gCores]
  refine
    { count := count
      nameOf := fun index bound => ?_
      pastEnd := fun index outside => ?_
      linked := linkedCores_gCores repair names noNul
      lookup := fun index bound => ?_
      objects := distinctFiles
      absent := fun name => ?_ }
  · rw [count] at bound
    refine ⟨bound, ?_⟩
    rw [libretroCoreName_gCores, List.getElem?_eq_getElem bound]
    rfl
  · rw [count] at outside
    rw [libretroCoreName_gCores, List.getElem?_eq_none outside]
    rfl
  · rw [count] at bound
    rw [libretroCoreName_gCores, List.getElem?_eq_getElem bound]
    exact libretroCoreLookup_gCores noNul nodup index bound
  · rw [libretroCoreLookup_eq_none_iff]
    simp [gCores, coreVtable]

/-- **Separate reachability.** For a `cores.json` whose names all pass the
check, the generator writes a header, the header compiles to a registry, and
every entry is separately reachable exactly when the names are pairwise
distinct as file names of the build volume. -/
theorem cores_separatelyReachable_iff
    (cores : List CoreEntry)
    (pass : NamesPass cores)
    (fold : Char → Char)
    (work slice : String)
    (repair : List UInt8 → String) :
    ∃ coresList registry,
      genRegistry cores = .ok coresList ∧
      compileRegistry coresList = some registry ∧
      (SeparatelyReachable fold work slice repair
          (cores.map CoreEntry.name) registry ↔
        (cores.map fun core => core.name.toList.map fold).Nodup) := by
  refine ⟨header cores, gCores (cores.map CoreEntry.name),
    (genRegistry_eq_ok_iff cores).mpr pass, ?_, ?_⟩
  · rw [compileRegistry, includeCoresList_header cores pass]
    rfl
  · have noNul : ∀ name ∈ cores.map CoreEntry.name,
        ∀ char ∈ name.toList, char ≠ Char.ofNat 0 := by
      intro name member
      obtain ⟨core, coreMember, rfl⟩ := List.mem_map.mp member
      exact noNul_of_isIdentifier (pass core coreMember)
    rw [separatelyReachable_gCores_iff fold work slice repair noNul,
      List.map_map]
    rfl

/-- An entry of `tools/cores.json` with the given name. -/
def masterEntry (name : String) : CoreEntry where
  name := name
  repo := "https://github.com/libretro/" ++ name ++ ".git"
  ref := some "master"
  dir := none
  makefile := none
  prepatch := none

theorem cores_separatelyReachable_iff_two :
    ∃ coresList registry,
      genRegistry [masterEntry "pce", masterEntry "gambatte"] =
        .ok coresList ∧
      compileRegistry coresList = some registry ∧
      (SeparatelyReachable id "work" "macos-arm64" (fun _ => "")
          ["pce", "gambatte"] registry ↔
        ([masterEntry "pce", masterEntry "gambatte"].map fun core =>
          core.name.toList.map id).Nodup) :=
  cores_separatelyReachable_iff [masterEntry "pce", masterEntry "gambatte"]
    (by decide) id "work" "macos-arm64" fun _ => ""

/-- Two entries called `pce` pass the name check, yet the second one is found
at the index of the first. -/
theorem duplicate_not_separatelyReachable :
    NamesPass [masterEntry "pce", masterEntry "pce"] ∧
      genRegistry [masterEntry "pce", masterEntry "pce"] =
        .ok (header [masterEntry "pce", masterEntry "pce"]) ∧
      compileRegistry (header [masterEntry "pce", masterEntry "pce"]) =
        some (gCores ["pce", "pce"]) ∧
      ¬SeparatelyReachable id "work" "macos-arm64" (fun _ => "")
        ["pce", "pce"] (gCores ["pce", "pce"]) := by
  have pass : NamesPass [masterEntry "pce", masterEntry "pce"] := by decide
  refine ⟨pass, (genRegistry_eq_ok_iff _).mpr pass, ?_, ?_⟩
  · rw [compileRegistry, includeCoresList_header _ pass]
    rfl
  · intro reachable
    have found := reachable.lookup 1 (by decide)
    exact absurd found (by decide)

end Registry
end LibretroLab
