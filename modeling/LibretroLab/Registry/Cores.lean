import LibretroLab.Registry.CoresList
import LibretroLab.Registry.EntryPoint

/-!
# The vtable registry

`cores.c`: the two expansions of `CORE(p)` over the included core list, and the
three lookup functions of `libretro_registry.h`. A pointer into the static
table `g_cores` is the index of its entry.
-/

namespace LibretroLab
namespace Registry

/-- `libretro_core_t`: a name and one function symbol per entry point. -/
structure LibretroCoreT where
  name : CString
  slot : EntryPoint → String

/-- Pass 1 of `CORE(p)`: the symbols it declares prototypes for. -/
def corePrototypes (p : String) : List String :=
  [p ++ "_retro_set_environment",
    p ++ "_retro_set_video_refresh",
    p ++ "_retro_set_audio_sample",
    p ++ "_retro_set_audio_sample_batch",
    p ++ "_retro_set_input_poll",
    p ++ "_retro_set_input_state",
    p ++ "_retro_init",
    p ++ "_retro_deinit",
    p ++ "_retro_api_version",
    p ++ "_retro_get_system_info",
    p ++ "_retro_get_system_av_info",
    p ++ "_retro_set_controller_port_device",
    p ++ "_retro_reset",
    p ++ "_retro_run",
    p ++ "_retro_serialize_size",
    p ++ "_retro_serialize",
    p ++ "_retro_unserialize",
    p ++ "_retro_cheat_reset",
    p ++ "_retro_cheat_set",
    p ++ "_retro_load_game",
    p ++ "_retro_load_game_special",
    p ++ "_retro_unload_game",
    p ++ "_retro_get_region",
    p ++ "_retro_get_memory_data",
    p ++ "_retro_get_memory_size"]

/-- Pass 2 of `CORE(p)`: the designated initialisers of one vtable. `#p` is
the spelling of the name and `p##_retro_x` is textual pasting. -/
def coreVtable (p : String) : LibretroCoreT where
  name := CString.ofString p
  slot
    | .retroSetEnvironment => p ++ "_retro_set_environment"
    | .retroSetVideoRefresh => p ++ "_retro_set_video_refresh"
    | .retroSetAudioSample => p ++ "_retro_set_audio_sample"
    | .retroSetAudioSampleBatch => p ++ "_retro_set_audio_sample_batch"
    | .retroSetInputPoll => p ++ "_retro_set_input_poll"
    | .retroSetInputState => p ++ "_retro_set_input_state"
    | .retroInit => p ++ "_retro_init"
    | .retroDeinit => p ++ "_retro_deinit"
    | .retroApiVersion => p ++ "_retro_api_version"
    | .retroGetSystemInfo => p ++ "_retro_get_system_info"
    | .retroGetSystemAvInfo => p ++ "_retro_get_system_av_info"
    | .retroSetControllerPortDevice =>
        p ++ "_retro_set_controller_port_device"
    | .retroReset => p ++ "_retro_reset"
    | .retroRun => p ++ "_retro_run"
    | .retroSerializeSize => p ++ "_retro_serialize_size"
    | .retroSerialize => p ++ "_retro_serialize"
    | .retroUnserialize => p ++ "_retro_unserialize"
    | .retroCheatReset => p ++ "_retro_cheat_reset"
    | .retroCheatSet => p ++ "_retro_cheat_set"
    | .retroLoadGame => p ++ "_retro_load_game"
    | .retroLoadGameSpecial => p ++ "_retro_load_game_special"
    | .retroUnloadGame => p ++ "_retro_unload_game"
    | .retroGetRegion => p ++ "_retro_get_region"
    | .retroGetMemoryData => p ++ "_retro_get_memory_data"
    | .retroGetMemorySize => p ++ "_retro_get_memory_size"

/-- The static table over a core list. -/
def gCores (names : List String) : List LibretroCoreT := names.map coreVtable

/-- The table compiled from the text of `cores_list.h`, when it parses. -/
def compileRegistry (coresList : String) : Option (List LibretroCoreT) :=
  (includeCoresList coresList).map gCores

/-- The search loop of `libretro_core_lookup`, from index `i` on. -/
def lookupFrom (name : CString) : Nat → List LibretroCoreT → Option Nat
  | _, [] => none
  | i, entry :: rest =>
      if CString.strcmp entry.name name = 0 then some i
      else lookupFrom name (i + 1) rest

/-- `libretro_core_lookup`: the entry of the first equal name; `NULL` has no
entry. -/
def libretroCoreLookup
    (cores : List LibretroCoreT) : Option CString → Option Nat
  | none => none
  | some name => lookupFrom name 0 cores

/-- `libretro_core_count`. -/
def libretroCoreCount (cores : List LibretroCoreT) : Nat := cores.length

/-- `libretro_core_name`: `NULL` from the count on. -/
def libretroCoreName (cores : List LibretroCoreT) (index : Nat) :
    Option CString :=
  if bound : index < cores.length then some cores[index].name else none

/-- `LibretroHost.linkedCores`: the names at the indices below the count, read
back as Swift strings. -/
def linkedCores
    (repair : List UInt8 → String)
    (cores : List LibretroCoreT) : List String :=
  (List.range (libretroCoreCount cores)).filterMap fun index =>
    (libretroCoreName cores index).map (CString.readBack repair)

/-! ## What the lookups compute -/

theorem libretroCoreName_gCores (names : List String) (index : Nat) :
    libretroCoreName (gCores names) index =
      (names[index]?).map CString.ofString := by
  by_cases bound : index < names.length
  · simp [libretroCoreName, gCores, coreVtable, bound]
  · simp [libretroCoreName, gCores, bound]

/-- Reading a list at each of its indices gives the list. -/
private theorem filterMap_getElem?_range (names : List String) :
    ((List.range names.length).filterMap fun index => names[index]?) =
      names := by
  induction names with
  | nil => rfl
  | cons name names inductionHypothesis =>
      rw [List.length_cons, List.range_succ_eq_map, List.filterMap_cons,
        List.filterMap_map]
      simpa [Function.comp_def] using inductionHypothesis

/-- Names that reach C whole are listed as they are, in order. -/
theorem linkedCores_gCores
    (repair : List UInt8 → String)
    (names : List String)
    (noNul : ∀ name ∈ names, ∀ char ∈ name.toList, char ≠ Char.ofNat 0) :
    linkedCores repair (gCores names) = names := by
  unfold linkedCores libretroCoreCount
  have entryAt : ∀ index ∈ List.range (gCores names).length,
      (libretroCoreName (gCores names) index).map (CString.readBack repair) =
        names[index]? := by
    intro index member
    rw [libretroCoreName_gCores, Option.map_map]
    cases found : names[index]? with
    | none => rfl
    | some name =>
        have inNames : name ∈ names := List.mem_of_getElem? found
        simp [CString.readBack_ofString repair (noNul name inNames)]
  rw [List.filterMap_congr entryAt]
  simp only [gCores, List.length_map]
  exact filterMap_getElem?_range names

/-- The search answers the position of the first entry with the name, counted
from where it started. -/
theorem lookupFrom_eq_findIdx?
    (name : CString)
    (cores : List LibretroCoreT)
    (i : Nat) :
    lookupFrom name i cores =
      (cores.findIdx? fun entry => entry.name = name).map (· + i) := by
  induction cores generalizing i with
  | nil => rfl
  | cons entry rest inductionHypothesis =>
      rw [lookupFrom, List.findIdx?_cons]
      by_cases same : entry.name = name
      · simp [CString.strcmp_eq_zero_iff, same]
      · simp only [CString.strcmp_eq_zero_iff, same, if_false,
          decide_false, Bool.false_eq_true, inductionHypothesis,
          Option.map_map]
        congr 1
        funext position
        simp only [Function.comp_apply]
        omega

theorem libretroCoreLookup_some
    (cores : List LibretroCoreT)
    (name : CString) :
    libretroCoreLookup cores (some name) =
      cores.findIdx? fun entry => entry.name = name := by
  simp [libretroCoreLookup, lookupFrom_eq_findIdx?]

/-- A name is not found exactly when no entry carries it. -/
theorem libretroCoreLookup_eq_none_iff
    (cores : List LibretroCoreT)
    (name : CString) :
    libretroCoreLookup cores (some name) = none ↔
      ∀ entry ∈ cores, entry.name ≠ name := by
  rw [libretroCoreLookup_some, List.findIdx?_eq_none_iff]
  simp

/-- A found entry carries the name, and no earlier entry does. -/
theorem libretroCoreLookup_eq_some_iff
    (cores : List LibretroCoreT)
    (name : CString)
    (index : Nat) :
    libretroCoreLookup cores (some name) = some index ↔
      ∃ bound : index < cores.length, cores[index].name = name ∧
        ∀ earlier (before : earlier < index),
          cores[earlier].name ≠ name := by
  rw [libretroCoreLookup_some, List.findIdx?_eq_some_iff_getElem]
  simp

end Registry
end LibretroLab
