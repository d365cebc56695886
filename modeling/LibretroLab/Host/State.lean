import Mathlib.Logic.Function.Basic
import LibretroLab.Library.Recorder
import LibretroLab.Registry.Cores

/-!
# The state of the host program

The stored properties of `LibretroHost`, the global that the C callbacks go
through, the heap of directory strings, and what each core has been told so
far. Objects are named by identifiers and are present in the heap while they
are alive.
-/

namespace LibretroLab
namespace Host

/-- The identity of a `LibretroHost` object. -/
abbrev HostId := Nat

/-- A pointer returned by `strdup`. -/
abbrev StringPtr := Nat

/-- A core, named by the index of its entry in the registry. -/
abbrev CoreId := Nat

/-- ROM bytes. -/
abbrev Data := List UInt8

/-- `enum PixelFormat: Int32`. -/
inductive PixelFormat
  | rgb1555
  | xrgb8888
  | rgb565
  deriving DecidableEq

/-- `PixelFormat(rawValue:)`. -/
def PixelFormat.ofRawValue (raw : Int32) : Option PixelFormat :=
  if raw = 0 then some .rgb1555
  else if raw = 1 then some .xrgb8888
  else if raw = 2 then some .rgb565
  else none

/-- `struct retro_game_geometry`, with the float as its bits. -/
structure RetroGameGeometry where
  baseWidth : UInt32
  baseHeight : UInt32
  maxWidth : UInt32
  maxHeight : UInt32
  aspectRatio : UInt32
  deriving DecidableEq

/-- `struct retro_system_timing`, with the doubles as their bits. -/
structure RetroSystemTiming where
  fps : UInt64
  sampleRate : UInt64
  deriving DecidableEq

/-- `struct retro_system_av_info`. -/
structure RetroSystemAvInfo where
  geometry : RetroGameGeometry
  timing : RetroSystemTiming
  deriving DecidableEq

/-- `retro_system_av_info()`: all bytes zero. -/
def RetroSystemAvInfo.zero : RetroSystemAvInfo where
  geometry := ⟨0, 0, 0, 0, 0⟩
  timing := ⟨0, 0⟩

/-- `struct retro_game_info` as `start` fills it in. -/
structure RetroGameInfo where
  path : String
  data : Data
  size : Nat
  metadata : Option String
  deriving DecidableEq

/-- `struct VideoFrame`. The pixel data is a pointer. -/
structure VideoFrame where
  data : UInt64
  width : Int
  height : Int
  pitch : Int
  format : PixelFormat
  deriving DecidableEq

/-- The stored properties of `LibretroHost` with their initial values. The
button array keeps its sixteen entries; `onVideo` and `onAudio` record whether
the closure is set. -/
structure LibretroHost where
  buttons : Vector Int16 16 := Vector.replicate 16 0
  coreName : String
  core : CoreId
  pixelFormat : PixelFormat := .xrgb8888
  avInfo : RetroSystemAvInfo := .zero
  loaded : Bool := false
  onVideo : Bool := false
  onAudio : Bool := false
  systemDir : String
  saveDir : String
  systemDirC : Option StringPtr
  saveDirC : Option StringPtr
  romData : Option Data := none

/-- The `retro_*` functions the host calls, with their arguments.
`retro_load_game` also carries the result the core returns. -/
inductive RetroCall
  | setEnvironment
  | setVideoRefresh
  | setAudioSample
  | setAudioSampleBatch
  | setInputPoll
  | setInputState
  | init
  | loadGame (info : RetroGameInfo) (accepted : Bool)
  | getSystemAvInfo
  | setControllerPortDevice (port device : UInt32)
  | run
  | unloadGame
  | deinit
  deriving DecidableEq

/-- Calls that change neither what a core knows of itself nor its session. -/
def RetroCall.quiet : RetroCall → Bool
  | .setEnvironment | .init | .unloadGame | .deinit => false
  | .loadGame _ accepted => !accepted
  | .setVideoRefresh | .setAudioSample | .setAudioSampleBatch
  | .setInputPoll | .setInputState | .getSystemAvInfo
  | .setControllerPortDevice _ _ | .run => true

/-- A game that a core holds: who loaded it, from which bytes. -/
structure Game where
  host : HostId
  romData : Data
  deriving DecidableEq

/-- What a core can rely on: whether it is initialised and the games it holds,
which are those it accepted since it was last told to let go of them. -/
structure CoreState where
  initialised : Bool := false
  games : List Game := []
  deriving DecidableEq

namespace CoreState

/-- The effect of entering a call. -/
def entered (call : RetroCall) (core : CoreState) : CoreState :=
  match call with
  | .init => { core with initialised := true }
  | .unloadGame => { core with games := [] }
  | .deinit => { core with initialised := false, games := [] }
  | _ => core

/-- The effect of a call that returns to `host`: an accepted game is held from
then on. -/
def left (host : HostId) (call : RetroCall) (core : CoreState) : CoreState :=
  match call with
  | .loadGame info true =>
      { core with games := core.games ++ [⟨host, info.data⟩] }
  | _ => core

@[simp] theorem entered_of_quiet
    {call : RetroCall}
    (quiet : call.quiet = true)
    (core : CoreState) :
    core.entered call = core := by
  cases call <;> first | rfl | contradiction

@[simp] theorem left_of_quiet
    {call : RetroCall}
    (quiet : call.quiet = true)
    (host : HostId)
    (core : CoreState) :
    core.left host call = core := by
  cases call with
  | loadGame info accepted =>
      cases accepted with
      | false => rfl
      | true => contradiction
  | _ => rfl

end CoreState

/-- The whole program: the live hosts, which of them have an owner, the heap of
directory strings, the global `gLibretroHost`, the cores, and the pixel format
each core was last granted since its callbacks were registered. -/
@[ext]
structure World where
  hosts : HostId → Option LibretroHost
  owned : HostId → Bool
  strings : StringPtr → Option String
  nextHost : HostId
  nextString : StringPtr
  gLibretroHost : Option HostId
  cores : CoreId → CoreState
  granted : CoreId → Option PixelFormat

namespace World

/-- Program start: no host, no string, no core touched. -/
def initial : World where
  hosts := fun _ => none
  owned := fun _ => false
  strings := fun _ => none
  nextHost := 0
  nextString := 0
  gLibretroHost := none
  cores := fun _ => {}
  granted := fun _ => none

/-- Write to a host object. -/
def modifyHost (h : HostId) (f : LibretroHost → LibretroHost) (w : World) :
    World :=
  { w with hosts := Function.update w.hosts h ((w.hosts h).map f) }

/-- A core enters a call. Registering the environment callback starts a new
session of the core, in which no format has been granted yet. -/
def enter (core : CoreId) (call : RetroCall) (w : World) : World :=
  { w with
    cores := Function.update w.cores core ((w.cores core).entered call)
    granted :=
      if call = .setEnvironment then Function.update w.granted core none
      else w.granted }

/-- A core returns from a call of `host`. -/
def leave
    (host : HostId) (core : CoreId) (call : RetroCall) (w : World) : World :=
  { w with
    cores := Function.update w.cores core ((w.cores core).left host call) }

/-- `free`, which ignores `NULL`. -/
def free (p : Option StringPtr) (w : World) : World :=
  match p with
  | none => w
  | some p => { w with strings := Function.update w.strings p none }

/-- `deinit`: the object goes away and its two directory strings are freed. -/
def deinitHost (h : HostId) (w : World) : World :=
  match w.hosts h with
  | none => w
  | some host =>
      { (w.free host.systemDirC).free host.saveDirC with
        hosts := Function.update w.hosts h none }

/-- Reference counting after a reference to `h` was dropped: the object is
deallocated when neither an owner nor the global refers to it. -/
def release (h : HostId) (w : World) : World :=
  if w.owned h = false ∧ w.gLibretroHost ≠ some h then w.deinitHost h else w

/-- `gLibretroHost = value`: the strong reference moves to the new value, and
the old one is released. -/
def assignGlobal (value : Option HostId) (w : World) : World :=
  match w.gLibretroHost with
  | none => { w with gLibretroHost := value }
  | some old => release old { w with gLibretroHost := value }

/-- The host that the C callbacks reach. -/
def activeHost (w : World) : Option (HostId × LibretroHost) :=
  w.gLibretroHost.bind fun h => (w.hosts h).map fun host => (h, host)

/-- The `loaded` flag of a live host. -/
def loaded (w : World) (h : HostId) : Bool :=
  (w.hosts h).any LibretroHost.loaded

theorem loaded_eq_true_iff (w : World) (h : HostId) :
    w.loaded h = true ↔
      ∃ host, w.hosts h = some host ∧ host.loaded = true := by
  unfold loaded
  rw [Option.any_eq_true_iff_get]
  cases w.hosts h <;> simp

theorem loaded_of
    {w : World}
    (alive : w.hosts h = some host) :
    w.loaded h = host.loaded := by
  simp [loaded, alive]

/-! ## What the heap operations leave -/

section ModifyHost

variable (h : HostId) (f : LibretroHost → LibretroHost) (w : World)

@[simp] theorem gLibretroHost_modifyHost :
    (w.modifyHost h f).gLibretroHost = w.gLibretroHost := rfl

@[simp] theorem owned_modifyHost :
    (w.modifyHost h f).owned = w.owned := rfl

@[simp] theorem strings_modifyHost :
    (w.modifyHost h f).strings = w.strings := rfl

@[simp] theorem nextHost_modifyHost :
    (w.modifyHost h f).nextHost = w.nextHost := rfl

@[simp] theorem nextString_modifyHost :
    (w.modifyHost h f).nextString = w.nextString := rfl

@[simp] theorem cores_modifyHost :
    (w.modifyHost h f).cores = w.cores := rfl

@[simp] theorem granted_modifyHost :
    (w.modifyHost h f).granted = w.granted := rfl

@[simp] theorem hosts_modifyHost :
    (w.modifyHost h f).hosts =
      Function.update w.hosts h ((w.hosts h).map f) := rfl

end ModifyHost

section Enter

variable (core : CoreId) (call : RetroCall) (w : World)

@[simp] theorem gLibretroHost_enter :
    (w.enter core call).gLibretroHost = w.gLibretroHost := rfl

@[simp] theorem hosts_enter : (w.enter core call).hosts = w.hosts := rfl

@[simp] theorem owned_enter : (w.enter core call).owned = w.owned := rfl

@[simp] theorem strings_enter :
    (w.enter core call).strings = w.strings := rfl

@[simp] theorem nextHost_enter :
    (w.enter core call).nextHost = w.nextHost := rfl

@[simp] theorem nextString_enter :
    (w.enter core call).nextString = w.nextString := rfl

@[simp] theorem cores_enter :
    (w.enter core call).cores =
      Function.update w.cores core ((w.cores core).entered call) := rfl

end Enter

theorem free_frame (p : Option StringPtr) (w : World) :
    w.free p = { w with strings := (w.free p).strings } := by
  cases p <;> rfl

theorem strings_free_of_ne
    {p : Option StringPtr}
    {q : StringPtr}
    (differs : p ≠ some q)
    (w : World) :
    (w.free p).strings q = w.strings q := by
  cases p with
  | none => rfl
  | some p =>
      have other : q ≠ p := fun equal => differs (congrArg some equal.symm)
      simp [free, other]

/-- `deinit` touches the heap and nothing else. -/
theorem deinitHost_frame (h : HostId) (w : World) :
    w.deinitHost h =
      { w with
        hosts := Function.update w.hosts h none
        strings := (w.deinitHost h).strings } := by
  unfold deinitHost
  split
  case h_1 dead => rw [← dead, Function.update_eq_self]
  case h_2 =>
    rw [free_frame _ (w.free _), free_frame _ w]

/-- Neither does `release`. -/
theorem release_frame (h : HostId) (w : World) :
    w.release h =
      { w with
        hosts := (w.release h).hosts
        strings := (w.release h).strings } := by
  unfold release
  split_ifs
  · rw [deinitHost_frame]
  · rfl

/-- A store to the global touches the heap and the global. -/
theorem assignGlobal_frame (value : Option HostId) (w : World) :
    w.assignGlobal value =
      { w with
        gLibretroHost := value
        hosts := (w.assignGlobal value).hosts
        strings := (w.assignGlobal value).strings } := by
  unfold assignGlobal
  split
  · rfl
  · rw [release_frame]

@[simp] theorem gLibretroHost_release (h : HostId) (w : World) :
    (w.release h).gLibretroHost = w.gLibretroHost := by
  rw [release_frame]

@[simp] theorem owned_release (h : HostId) (w : World) :
    (w.release h).owned = w.owned := by
  rw [release_frame]

@[simp] theorem cores_release (h : HostId) (w : World) :
    (w.release h).cores = w.cores := by
  rw [release_frame]

@[simp] theorem granted_release (h : HostId) (w : World) :
    (w.release h).granted = w.granted := by
  rw [release_frame]

@[simp] theorem nextHost_release (h : HostId) (w : World) :
    (w.release h).nextHost = w.nextHost := by
  rw [release_frame]

@[simp] theorem nextString_release (h : HostId) (w : World) :
    (w.release h).nextString = w.nextString := by
  rw [release_frame]

@[simp] theorem gLibretroHost_assignGlobal
    (value : Option HostId) (w : World) :
    (w.assignGlobal value).gLibretroHost = value := by
  rw [assignGlobal_frame]

@[simp] theorem owned_assignGlobal (value : Option HostId) (w : World) :
    (w.assignGlobal value).owned = w.owned := by
  rw [assignGlobal_frame]

@[simp] theorem cores_assignGlobal (value : Option HostId) (w : World) :
    (w.assignGlobal value).cores = w.cores := by
  rw [assignGlobal_frame]

@[simp] theorem granted_assignGlobal (value : Option HostId) (w : World) :
    (w.assignGlobal value).granted = w.granted := by
  rw [assignGlobal_frame]

@[simp] theorem nextHost_assignGlobal (value : Option HostId) (w : World) :
    (w.assignGlobal value).nextHost = w.nextHost := by
  rw [assignGlobal_frame]

@[simp] theorem nextString_assignGlobal (value : Option HostId) (w : World) :
    (w.assignGlobal value).nextString = w.nextString := by
  rw [assignGlobal_frame]

theorem hosts_release (h other : HostId) (w : World) :
    (w.release h).hosts other =
      if other = h ∧ w.owned h = false ∧ w.gLibretroHost ≠ some h then none
      else w.hosts other := by
  unfold release
  by_cases dead : w.owned h = false ∧ w.gLibretroHost ≠ some h
  · simp only [dead, ne_eq, not_false_eq_true, and_self, if_true, and_true]
    rw [deinitHost_frame]
    simp [Function.update_apply]
  · simp [dead]

theorem release_of_owned
    {h : HostId}
    {w : World}
    (owned : w.owned h = true) :
    w.release h = w := by
  simp [release, owned]

/-- A store to the global deallocates the host it held when that host has no
owner, and no other. -/
theorem hosts_assignGlobal
    (value : Option HostId)
    (w : World)
    (h : HostId) :
    (w.assignGlobal value).hosts h =
      if w.gLibretroHost = some h ∧ w.owned h = false ∧ value ≠ some h then
        none
      else w.hosts h := by
  unfold assignGlobal
  cases held : w.gLibretroHost with
  | none => simp
  | some old =>
      simp only [hosts_release, Option.some.injEq]
      by_cases same : h = old
      · subst same
        rfl
      · simp [same, Ne.symm same]

theorem hosts_assignGlobal_of_owned
    {w : World}
    (owned : w.owned h = true)
    (value : Option HostId) :
    (w.assignGlobal value).hosts h = w.hosts h := by
  simp [hosts_assignGlobal, owned]

/-- Clearing the global while its host is owned deallocates nothing. -/
theorem assignGlobal_of_owned
    {w : World}
    (held : w.gLibretroHost = some h)
    (owned : w.owned h = true)
    (value : Option HostId) :
    w.assignGlobal value = { w with gLibretroHost := value } := by
  unfold assignGlobal
  rw [held]
  exact release_of_owned (by simpa using owned)

end World

end Host
end LibretroLab
