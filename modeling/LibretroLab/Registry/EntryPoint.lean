import Mathlib.Data.Fintype.Defs
import LibretroLab.Library.SuffixCode

/-!
# The libretro entry points

The 25 functions every libretro core exports, which are also the function
fields of `libretro_core_t` in `libretro_registry.h`.
-/

namespace LibretroLab
namespace Registry

/-- The libretro entry points, in the order of the fields of
`libretro_core_t`. -/
inductive EntryPoint
  | retroSetEnvironment
  | retroSetVideoRefresh
  | retroSetAudioSample
  | retroSetAudioSampleBatch
  | retroSetInputPoll
  | retroSetInputState
  | retroInit
  | retroDeinit
  | retroApiVersion
  | retroGetSystemInfo
  | retroGetSystemAvInfo
  | retroSetControllerPortDevice
  | retroReset
  | retroRun
  | retroSerializeSize
  | retroSerialize
  | retroUnserialize
  | retroCheatReset
  | retroCheatSet
  | retroLoadGame
  | retroLoadGameSpecial
  | retroUnloadGame
  | retroGetRegion
  | retroGetMemoryData
  | retroGetMemorySize
  deriving DecidableEq

namespace EntryPoint

/-- The C name of an entry point, as declared in `libretro.h`. -/
def cName : EntryPoint → String
  | retroSetEnvironment => "retro_set_environment"
  | retroSetVideoRefresh => "retro_set_video_refresh"
  | retroSetAudioSample => "retro_set_audio_sample"
  | retroSetAudioSampleBatch => "retro_set_audio_sample_batch"
  | retroSetInputPoll => "retro_set_input_poll"
  | retroSetInputState => "retro_set_input_state"
  | retroInit => "retro_init"
  | retroDeinit => "retro_deinit"
  | retroApiVersion => "retro_api_version"
  | retroGetSystemInfo => "retro_get_system_info"
  | retroGetSystemAvInfo => "retro_get_system_av_info"
  | retroSetControllerPortDevice => "retro_set_controller_port_device"
  | retroReset => "retro_reset"
  | retroRun => "retro_run"
  | retroSerializeSize => "retro_serialize_size"
  | retroSerialize => "retro_serialize"
  | retroUnserialize => "retro_unserialize"
  | retroCheatReset => "retro_cheat_reset"
  | retroCheatSet => "retro_cheat_set"
  | retroLoadGame => "retro_load_game"
  | retroLoadGameSpecial => "retro_load_game_special"
  | retroUnloadGame => "retro_unload_game"
  | retroGetRegion => "retro_get_region"
  | retroGetMemoryData => "retro_get_memory_data"
  | retroGetMemorySize => "retro_get_memory_size"

/-- Every entry point once, in declaration order. -/
def all : List EntryPoint :=
  [retroSetEnvironment, retroSetVideoRefresh, retroSetAudioSample,
    retroSetAudioSampleBatch, retroSetInputPoll, retroSetInputState,
    retroInit, retroDeinit, retroApiVersion, retroGetSystemInfo,
    retroGetSystemAvInfo, retroSetControllerPortDevice, retroReset, retroRun,
    retroSerializeSize, retroSerialize, retroUnserialize, retroCheatReset,
    retroCheatSet, retroLoadGame, retroLoadGameSpecial, retroUnloadGame,
    retroGetRegion, retroGetMemoryData, retroGetMemorySize]

theorem mem_all (f : EntryPoint) : f ∈ all := by
  cases f <;> decide

theorem nodup_all : all.Nodup := by
  decide

instance : Fintype EntryPoint := ⟨⟨all, nodup_all⟩, mem_all⟩

/-- The part of a prefixed symbol that follows the core's name. -/
def tail (f : EntryPoint) : List Char := '_' :: f.cName.toList

/-- The tails form a suffix code: `_retro_` occurs in a tail only at its
start, so no tail ends in another one. -/
theorem tail_suffixFree : SuffixFree tail := by
  intro left right
  revert left right
  decide +kernel

end EntryPoint

end Registry
end LibretroLab
