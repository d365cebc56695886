import LibretroLab.Registry.Cores

/-!
# The symbol-prefix shim

`tools/core-shim.c` wraps each entry point under a pasted name, and
`tools/build-cores.sh` lists the symbols that stay exported. Both lists are
transcribed here next to each other, with the macro expansion that the shim's
names go through.
-/

namespace LibretroLab
namespace Registry

/-- Object-like macros whose bodies are single tokens. -/
abbrev MacroTable := List (String × String)

/-- The table without one macro. -/
def undefine (macros : MacroTable) (token : String) : MacroTable :=
  macros.filter fun other => other.1 ≠ token

theorem length_undefine_lt
    {macros : MacroTable}
    {definition : String × String}
    (member : definition ∈ macros) :
    (undefine macros definition.1).length < macros.length :=
  List.length_filter_lt_length_iff_exists.mpr
    ⟨definition, member, by simp⟩

/-- Expand a token. A macro is not expanded again inside its own expansion, so
it leaves the table. -/
def expand (macros : MacroTable) (token : String) : String :=
  match _found : macros.find? (fun definition => definition.1 = token) with
  | none => token
  | some definition =>
      expand (undefine macros definition.1) definition.2
termination_by macros.length
decreasing_by exact length_undefine_lt (List.mem_of_find?_eq_some _found)

/-- A token that no macro is called stays as it is. -/
theorem expand_of_not_defined
    {macros : MacroTable}
    {token : String}
    (plain : token ∉ macros.map Prod.fst) :
    expand macros token = token := by
  have absent :
      macros.find? (fun definition => definition.1 = token) = none := by
    rw [List.find?_eq_none]
    intro definition member isToken
    apply plain
    rw [List.mem_map]
    exact ⟨definition, member, by simpa using isToken⟩
  rw [expand]
  split
  · rfl
  · simp_all

/-- A macro's body is expanded in turn, without the macro itself. -/
theorem expand_of_find?
    {macros : MacroTable}
    {token : String}
    {definition : String × String}
    (found : macros.find? (fun definition => definition.1 = token) =
      some definition) :
    expand macros token =
      expand (undefine macros definition.1) definition.2 := by
  rw [expand]
  split
  · simp_all
  · simp_all

/-- The macros in force where the shim is compiled, besides its own: those of
`libretro.h` and the compiler. `libretro.h` declares the entry points as
functions, so none of them is a macro. -/
structure ShimMacros where
  table : MacroTable
  entryPointsPlain : ∀ f : EntryPoint, f.cName ∉ table.map Prod.fst

namespace ShimMacros

/-- The table with `-DCORE_PREFIX=<name>` on the command line. -/
def withCorePrefix (macros : ShimMacros) (corePrefix : String) : MacroTable :=
  ("CORE_PREFIX", corePrefix) :: macros.table

end ShimMacros

/-- `#define CAT2(a, b) a##_##b` -/
def cat2 (a b : String) : String := a ++ "_" ++ b

/-- `#define CAT(a, b) CAT2(a, b)`: the arguments are expanded before they
are pasted. -/
def cat (macros : MacroTable) (a b : String) : String :=
  cat2 (expand macros a) (expand macros b)

/-- `#define W(f) CAT(CORE_PREFIX, f)` -/
def w (macros : MacroTable) (f : String) : String :=
  cat macros "CORE_PREFIX" (expand macros f)

/-- A wrapper function: the symbol it is defined under and the function its
body calls. -/
structure Wrapper where
  symbol : String
  calls : String
  deriving DecidableEq

/-- One line of the shim: the argument of `W` and the function called. -/
def wrapper (macros : MacroTable) (f body : String) : Wrapper where
  symbol := w macros f
  calls := expand macros body

/-- The wrappers `core-shim.c` defines, in file order. -/
def coreShim (macros : MacroTable) : List Wrapper :=
  [wrapper macros "retro_set_environment" "retro_set_environment",
    wrapper macros "retro_set_video_refresh" "retro_set_video_refresh",
    wrapper macros "retro_set_audio_sample" "retro_set_audio_sample",
    wrapper macros "retro_set_audio_sample_batch"
      "retro_set_audio_sample_batch",
    wrapper macros "retro_set_input_poll" "retro_set_input_poll",
    wrapper macros "retro_set_input_state" "retro_set_input_state",
    wrapper macros "retro_init" "retro_init",
    wrapper macros "retro_deinit" "retro_deinit",
    wrapper macros "retro_api_version" "retro_api_version",
    wrapper macros "retro_get_system_info" "retro_get_system_info",
    wrapper macros "retro_get_system_av_info" "retro_get_system_av_info",
    wrapper macros "retro_set_controller_port_device"
      "retro_set_controller_port_device",
    wrapper macros "retro_reset" "retro_reset",
    wrapper macros "retro_run" "retro_run",
    wrapper macros "retro_serialize_size" "retro_serialize_size",
    wrapper macros "retro_serialize" "retro_serialize",
    wrapper macros "retro_unserialize" "retro_unserialize",
    wrapper macros "retro_cheat_reset" "retro_cheat_reset",
    wrapper macros "retro_cheat_set" "retro_cheat_set",
    wrapper macros "retro_load_game" "retro_load_game",
    wrapper macros "retro_load_game_special" "retro_load_game_special",
    wrapper macros "retro_unload_game" "retro_unload_game",
    wrapper macros "retro_get_region" "retro_get_region",
    wrapper macros "retro_get_memory_data" "retro_get_memory_data",
    wrapper macros "retro_get_memory_size" "retro_get_memory_size"]

/-- The array `RETRO_API` of `build-cores.sh`. -/
def retroApi : List String :=
  ["retro_set_environment", "retro_set_video_refresh",
    "retro_set_audio_sample", "retro_set_audio_sample_batch",
    "retro_set_input_poll", "retro_set_input_state", "retro_init",
    "retro_deinit", "retro_api_version", "retro_get_system_info",
    "retro_get_system_av_info", "retro_set_controller_port_device",
    "retro_reset", "retro_run", "retro_serialize_size", "retro_serialize",
    "retro_unserialize", "retro_cheat_reset", "retro_cheat_set",
    "retro_load_game", "retro_load_game_special", "retro_unload_game",
    "retro_get_region", "retro_get_memory_data", "retro_get_memory_size"]

/-- `exported-<core>.txt`: one `_${name}_${f}` line per entry point. -/
def exported (name : String) : List String :=
  retroApi.map fun f => "_" ++ name ++ "_" ++ f

/-- The symbols `core-shim.c` defines when compiled for a core. -/
def shimSymbols (macros : ShimMacros) (p : String) : List String :=
  (coreShim (macros.withCorePrefix p)).map Wrapper.symbol

/-- The symbols `cores.c` references in the vtable of a core. -/
def vtableSymbols (p : String) : List String :=
  EntryPoint.all.map (coreVtable p).slot

/-! ## One name for each pair of a core and an entry point -/

/-- The symbol `<p>_<f>`. -/
def prefixedSymbol (p : String) (f : EntryPoint) : String :=
  p ++ "_" ++ f.cName

theorem toList_prefixedSymbol (p : String) (f : EntryPoint) :
    (prefixedSymbol p f).toList = p.toList ++ f.tail := by
  simp [prefixedSymbol, EntryPoint.tail, String.toList_append]

/-- The symbol determines the core and the entry point, whatever text the
names of the cores contain. -/
theorem prefixedSymbol_inj
    {p p' : String}
    {f f' : EntryPoint}
    (equal : prefixedSymbol p f = prefixedSymbol p' f') :
    p = p' ∧ f = f' := by
  have spelled := congrArg String.toList equal
  rw [toList_prefixedSymbol, toList_prefixedSymbol] at spelled
  have decoded : (p.toList, f) = (p'.toList, f') :=
    EntryPoint.tail_suffixFree.append_injective spelled
  rw [Prod.mk.injEq, String.toList_inj] at decoded
  exact decoded

theorem retroApi_eq : retroApi = EntryPoint.all.map EntryPoint.cName := by
  decide

/-- Each designated initialiser pastes the name of its own slot. -/
theorem coreVtable_slot (p : String) (f : EntryPoint) :
    (coreVtable p).slot f = prefixedSymbol p f := by
  cases f <;> simp [coreVtable, prefixedSymbol, EntryPoint.cName,
    String.append_assoc]

theorem vtableSymbols_eq (p : String) :
    vtableSymbols p = EntryPoint.all.map (prefixedSymbol p) :=
  List.map_congr_left fun f _ => coreVtable_slot p f

theorem corePrototypes_eq (p : String) :
    corePrototypes p = vtableSymbols p := rfl

theorem exported_eq (p : String) :
    exported p = EntryPoint.all.map fun f => "_" ++ prefixedSymbol p f := by
  rw [exported, retroApi_eq, List.map_map]
  apply List.map_congr_left
  intro f _
  simp [prefixedSymbol, String.append_assoc]

/-- A wrapper line for an entry point, under a core name that is no macro. -/
theorem wrapper_cName
    (macros : ShimMacros)
    {p : String}
    (plain : p ∉ (macros.withCorePrefix p).map Prod.fst)
    (f : EntryPoint) :
    wrapper (macros.withCorePrefix p) f.cName f.cName =
      ⟨prefixedSymbol p f, f.cName⟩ := by
  have differs : f.cName ≠ "CORE_PREFIX" := by
    cases f <;> decide
  have entryPlain : f.cName ∉ (macros.withCorePrefix p).map Prod.fst := by
    simp only [ShimMacros.withCorePrefix, List.map_cons, List.mem_cons, not_or]
    exact ⟨differs, macros.entryPointsPlain f⟩
  have prefixExpanded :
      expand (macros.withCorePrefix p) "CORE_PREFIX" = p := by
    have found : (macros.withCorePrefix p).find?
        (fun definition => definition.1 = "CORE_PREFIX") =
          some ("CORE_PREFIX", p) := by
      simp [ShimMacros.withCorePrefix]
    rw [expand_of_find? found]
    apply expand_of_not_defined
    intro member
    obtain ⟨definition, inTable, isName⟩ := List.mem_map.mp member
    exact plain (List.mem_map.mpr
      ⟨definition, List.mem_of_mem_filter inTable, isName⟩)
  simp only [wrapper, w, cat, cat2, expand_of_not_defined entryPlain,
    prefixExpanded, prefixedSymbol]

/-- The shim defines one wrapper per entry point, each calling the function it
is named after. -/
theorem coreShim_eq
    (macros : ShimMacros)
    {p : String}
    (plain : p ∉ (macros.withCorePrefix p).map Prod.fst) :
    coreShim (macros.withCorePrefix p) =
      EntryPoint.all.map fun f => ⟨prefixedSymbol p f, f.cName⟩ := by
  have perEntryPoint : coreShim (macros.withCorePrefix p) =
      EntryPoint.all.map fun f =>
        wrapper (macros.withCorePrefix p) f.cName f.cName := rfl
  rw [perEntryPoint]
  exact List.map_congr_left fun f _ => wrapper_cName macros plain f

end Registry
end LibretroLab
