import LibretroLab.Host.Callbacks

/-!
# Boot, frames and shutdown

`init`, `start`, `runFrame` and `shutdown` of `LibretroHost`, recorded step by
step: every call into a core is entered and left, and between the two the core
acts as it likes.
-/

namespace LibretroLab
namespace Host

open Recorder Registry

/-- What an atomic step of the program is. `assigned` is a store of the host
program itself. -/
inductive Event
  | call (host : HostId) (core : CoreId) (call : RetroCall)
  | returned (host : HostId) (core : CoreId) (call : RetroCall)
  | callback (core : CoreId) (callback : Callback) (response : Response)
  | buttonWritten (host : HostId) (id : Fin 16) (value : Int16)
  | assigned
  | methodReturned (host : HostId) (result : Option Bool)
  deriving DecidableEq

/-- Programs of the host side. -/
abbrev HostM := Recorder World Event

/-- One action of a running core. -/
def act (core : CoreId) : CoreAction → HostM Unit
  | .calls callback => step fun w =>
      let answered := w.respond callback
      (.callback core callback answered.1,
        answered.2.hear core callback answered.1)
  | .writeButton h id value =>
      emit (.buttonWritten h id value)
        (World.modifyHost h (LibretroHost.setButton id value))

/-- A call through the vtable of a core, which acts before it returns. -/
def call
    (self : HostId)
    (core : CoreId)
    (retroCall : RetroCall)
    (actions : List CoreAction) : HostM Unit := do
  emit (.call self core retroCall) (World.enter core retroCall)
  each (act core) actions
  emit (.returned self core retroCall) (World.leave self core retroCall)

/-- A store to a property of a host. -/
def assign (self : HostId) (f : LibretroHost → LibretroHost) : HostM Unit :=
  emit .assigned (World.modifyHost self f)

/-- The slot of the vtable that a call goes through. -/
def RetroCall.entryPoint : RetroCall → EntryPoint
  | .setEnvironment => .retroSetEnvironment
  | .setVideoRefresh => .retroSetVideoRefresh
  | .setAudioSample => .retroSetAudioSample
  | .setAudioSampleBatch => .retroSetAudioSampleBatch
  | .setInputPoll => .retroSetInputPoll
  | .setInputState => .retroSetInputState
  | .init => .retroInit
  | .loadGame _ _ => .retroLoadGame
  | .getSystemAvInfo => .retroGetSystemAvInfo
  | .setControllerPortDevice _ _ => .retroSetControllerPortDevice
  | .run => .retroRun
  | .unloadGame => .retroUnloadGame
  | .deinit => .retroDeinit

/-- What a core does while one method of a host runs: its actions inside each
entry point, its result of `retro_load_game`, and the information it fills
in. -/
structure CoreBehaviour where
  actions : EntryPoint → List CoreAction := fun _ => []
  loadGame : Bool := true
  avInfo : RetroSystemAvInfo := .zero

/-- The six `retro_set_*` calls of `start`, which register the callbacks. -/
def registerCallbacks
    (self : HostId)
    (core : CoreId)
    (behaviour : CoreBehaviour) : HostM Unit := do
  call self core .setEnvironment (behaviour.actions .retroSetEnvironment)
  call self core .setVideoRefresh (behaviour.actions .retroSetVideoRefresh)
  call self core .setAudioSample (behaviour.actions .retroSetAudioSample)
  call self core .setAudioSampleBatch
    (behaviour.actions .retroSetAudioSampleBatch)
  call self core .setInputPoll (behaviour.actions .retroSetInputPoll)
  call self core .setInputState (behaviour.actions .retroSetInputState)

/-- The `retro_game_info` that `start` passes to `retro_load_game`. -/
def gameInfo (data : Data) (romPath : String) : RetroGameInfo where
  path := romPath
  data := data
  size := data.length
  metadata := none

/-- `start(romData:romPath:)` on a host whose `core` is the given one. -/
def start
    (self : HostId)
    (core : CoreId)
    (behaviour : CoreBehaviour)
    (data : Data)
    (romPath : String) : HostM Bool := do
  emit .assigned (World.assignGlobal (some self))
  registerCallbacks self core behaviour
  call self core .init (behaviour.actions .retroInit)
  assign self fun host => { host with romData := some data }
  call self core (.loadGame (gameInfo data romPath) behaviour.loadGame)
    (behaviour.actions .retroLoadGame)
  if behaviour.loadGame then
    call self core .getSystemAvInfo (behaviour.actions .retroGetSystemAvInfo)
    assign self fun host => { host with avInfo := behaviour.avInfo }
    call self core (.setControllerPortDevice 0 1)
      (behaviour.actions .retroSetControllerPortDevice)
    assign self fun host => { host with loaded := true }
    pure true
  else
    call self core .deinit (behaviour.actions .retroDeinit)
    emit .assigned (World.assignGlobal none)
    pure false

/-- `runFrame()`. -/
def runFrame
    (self : HostId)
    (core : CoreId)
    (behaviour : CoreBehaviour) : HostM Unit := do
  let w ← get
  if w.loaded self then
    call self core .run (behaviour.actions .retroRun)

/-- `shutdown()`. -/
def shutdown
    (self : HostId)
    (core : CoreId)
    (behaviour : CoreBehaviour) : HostM Unit := do
  let w ← get
  if w.loaded self then
    assign self fun host => { host with loaded := false }
    call self core .unloadGame (behaviour.actions .retroUnloadGame)
    call self core .deinit (behaviour.actions .retroDeinit)
    assign self fun host => { host with romData := none }
    emit .assigned fun w =>
      if w.gLibretroHost = some self then w.assignGlobal none else w

/-- Where the program runs: the compiled registry and the two directories of
the sandbox. -/
structure Platform where
  registry : List LibretroCoreT
  systemDir : String
  saveDir : String

/-- Allocate a host of the given core with its two directory strings. The
caller owns it. -/
def World.allocateHost
    (platform : Platform)
    (name : String)
    (core : CoreId)
    (w : World) : World :=
  { w with
    hosts := Function.update w.hosts w.nextHost (some
      { coreName := name
        core := core
        systemDir := platform.systemDir
        saveDir := platform.saveDir
        systemDirC := some w.nextString
        saveDirC := some (w.nextString + 1) })
    owned := Function.update w.owned w.nextHost true
    strings := Function.update
      (Function.update w.strings w.nextString (some platform.systemDir))
      (w.nextString + 1) (some platform.saveDir)
    nextHost := w.nextHost + 1
    nextString := w.nextString + 2 }

theorem World.hosts_allocateHost_of_ne
    {h : HostId}
    {w : World}
    (differs : h ≠ w.nextHost)
    (platform : Platform)
    (name : String)
    (core : CoreId) :
    (w.allocateHost platform name core).hosts h = w.hosts h :=
  Function.update_of_ne differs _ _

/-- `init?(core:)`. -/
def initCore (platform : Platform) (name : String) : HostM Unit :=
  match libretroCoreLookup platform.registry
      (some (CString.ofString name)) with
  | none => pure ()
  | some entry => emit .assigned (World.allocateHost platform name entry)

/-- The owner drops its last reference. -/
def World.dropOwner (h : HostId) (w : World) : World :=
  World.release h { w with owned := Function.update w.owned h false }

/-- The call that an event sends to a core. -/
def Event.sent : Event → Option (CoreId × RetroCall)
  | .call _ core retroCall => some (core, retroCall)
  | _ => none

/-- The calls sent to cores, in order. -/
def sent (log : List (Moment World Event)) : List (CoreId × RetroCall) :=
  log.filterMap fun moment => moment.event.sent

/-! ## What one call leaves -/

@[simp] theorem state_act (core : CoreId) (action : CoreAction) (w : World) :
    (act core action).state w = w.played core [action] := by
  cases action with
  | calls callback => exact World.hear_respond core callback w
  | writeButton h id value =>
      exact (World.played_writeButton core h id value w).symm

theorem state_each_act
    (core : CoreId)
    (actions : List CoreAction)
    (w : World) :
    (each (act core) actions).state w = w.played core actions := by
  induction actions generalizing w with
  | nil => simp
  | cons action rest inductionHypothesis =>
      rw [state_each_cons, state_act, inductionHypothesis,
        ← World.played_append, List.singleton_append]

@[simp] theorem sent_nil : sent [] = [] := rfl

@[simp] theorem sent_append (first second : List (Moment World Event)) :
    sent (first ++ second) = sent first ++ sent second :=
  List.filterMap_append

/-- A core sends nothing. -/
theorem sent_each_act
    (core : CoreId)
    (actions : List CoreAction)
    (w : World) :
    sent ((each (act core) actions).log w) = [] := by
  induction actions generalizing w with
  | nil => rfl
  | cons action rest inductionHypothesis =>
      rw [log_each_cons, sent_append, inductionHypothesis, List.append_nil]
      cases action <;> rfl

/-- A call sends itself. -/
@[simp] theorem sent_call
    (self : HostId)
    (core : CoreId)
    (retroCall : RetroCall)
    (actions : List CoreAction)
    (w : World) :
    sent ((call self core retroCall actions).log w) =
      [(core, retroCall)] := by
  rw [call, log_bind, log_bind, sent_append, sent_append, sent_each_act]
  rfl

@[simp] theorem sent_assign
    (self : HostId) (f : LibretroHost → LibretroHost) (w : World) :
    sent ((assign self f).log w) = [] := rfl

@[simp] theorem sent_cons_assigned
    (before after : World) (rest : List (Moment World Event)) :
    sent (⟨before, .assigned, after⟩ :: rest) = sent rest := rfl

/-- What a call leaves. -/
def World.called
    (self : HostId)
    (core : CoreId)
    (retroCall : RetroCall)
    (actions : List CoreAction)
    (w : World) : World :=
  ((w.enter core retroCall).played core actions).leave self core retroCall

section Called

variable (self : HostId) (core : CoreId) (retroCall : RetroCall)
  (actions : List CoreAction) (w : World)

@[simp] theorem state_call :
    (call self core retroCall actions).state w =
      w.called self core retroCall actions := by
  simp only [call, state_bind, state_emit, state_each_act]
  rfl

/-- The moments of a call: it is entered, the core acts, it returns. -/
theorem throughout_call (good : Moment World Event → Prop) :
    Throughout good (call self core retroCall actions) w ↔
      good ⟨w, .call self core retroCall, w.enter core retroCall⟩ ∧
        Throughout good (each (act core) actions) (w.enter core retroCall) ∧
        good ⟨(w.enter core retroCall).played core actions,
          .returned self core retroCall,
          w.called self core retroCall actions⟩ := by
  simp only [call, throughout_bind, throughout_emit, state_emit,
    state_each_act]
  rfl

@[simp] theorem gLibretroHost_called :
    (w.called self core retroCall actions).gLibretroHost =
      w.gLibretroHost := rfl

@[simp] theorem owned_called :
    (w.called self core retroCall actions).owned = w.owned := rfl

@[simp] theorem strings_called :
    (w.called self core retroCall actions).strings = w.strings := rfl

@[simp] theorem nextHost_called :
    (w.called self core retroCall actions).nextHost = w.nextHost := rfl

@[simp] theorem nextString_called :
    (w.called self core retroCall actions).nextString = w.nextString := rfl

@[simp] theorem cores_called :
    (w.called self core retroCall actions).cores =
      Function.update w.cores core
        (((w.cores core).entered retroCall).left self retroCall) := by
  simp [World.called, World.enter, World.leave]

@[simp] theorem hosts_called :
    (w.called self core retroCall actions).hosts = fun h =>
      (w.hosts h).map
        (LibretroHost.played (w.gLibretroHost = some h) h actions) := rfl

/-- A quiet call leaves what the core's actions leave. -/
theorem called_of_quiet (quiet : retroCall.quiet = true) :
    w.called self core retroCall actions = w.played core actions := by
  have opens : retroCall ≠ .setEnvironment := by
    rintro rfl
    contradiction
  have entered : w.enter core retroCall = w := by
    simp [World.enter, opens, quiet]
  have left : (w.played core actions).leave self core retroCall =
      w.played core actions := by
    simp only [World.leave, CoreState.left_of_quiet quiet,
      Function.update_eq_self]
  rw [World.called, entered, left]

theorem called_setEnvironment :
    w.called self core .setEnvironment actions =
      (w.enter core .setEnvironment).played core actions := by
  rw [World.called, World.leave]
  simp only [CoreState.left, Function.update_eq_self]

end Called

/-! ## What the methods leave -/

namespace CoreBehaviour

/-- The actions of the core while its callbacks are registered. -/
def registerActions (behaviour : CoreBehaviour) : List CoreAction :=
  behaviour.actions .retroSetEnvironment ++
    behaviour.actions .retroSetVideoRefresh ++
    behaviour.actions .retroSetAudioSample ++
    behaviour.actions .retroSetAudioSampleBatch ++
    behaviour.actions .retroSetInputPoll ++
    behaviour.actions .retroSetInputState

/-- The actions of the core while `start` runs. -/
def startActions (behaviour : CoreBehaviour) : List CoreAction :=
  behaviour.registerActions ++
    behaviour.actions .retroInit ++
    behaviour.actions .retroLoadGame ++
    if behaviour.loadGame then
      behaviour.actions .retroGetSystemAvInfo ++
        behaviour.actions .retroSetControllerPortDevice
    else behaviour.actions .retroDeinit

/-- The actions of the core while `shutdown` runs. -/
def shutdownActions (behaviour : CoreBehaviour) : List CoreAction :=
  behaviour.actions .retroUnloadGame ++ behaviour.actions .retroDeinit

end CoreBehaviour

/-- The calls that `start` sends. -/
def startCalls
    (behaviour : CoreBehaviour)
    (data : Data)
    (romPath : String) : List RetroCall :=
  [.setEnvironment, .setVideoRefresh, .setAudioSample, .setAudioSampleBatch,
    .setInputPoll, .setInputState, .init,
    .loadGame (gameInfo data romPath) behaviour.loadGame] ++
    if behaviour.loadGame then
      [.getSystemAvInfo, .setControllerPortDevice 0 1]
    else [.deinit]

/-- What `start` leaves of the host it is called on. -/
def LibretroHost.started
    (h : HostId)
    (behaviour : CoreBehaviour)
    (data : Data)
    (host : LibretroHost) : LibretroHost :=
  let host := host.played true h behaviour.startActions
  if behaviour.loadGame then
    { host with
      romData := some data
      avInfo := behaviour.avInfo
      loaded := true }
  else { host with romData := some data }

/-- What `shutdown` leaves of the host it is called on. -/
def LibretroHost.shutDown
    (reached : Bool)
    (h : HostId)
    (behaviour : CoreBehaviour)
    (host : LibretroHost) : LibretroHost :=
  { host.played reached h behaviour.shutdownActions with
    loaded := false
    romData := none }

@[simp] theorem LibretroHost.core_started
    (h : HostId)
    (behaviour : CoreBehaviour)
    (data : Data)
    (host : LibretroHost) :
    (host.started h behaviour data).core = host.core := by
  unfold LibretroHost.started
  split_ifs <;> rfl

@[simp] theorem LibretroHost.loaded_started
    (h : HostId)
    (behaviour : CoreBehaviour)
    (data : Data)
    (host : LibretroHost) :
    (host.started h behaviour data).loaded =
      (behaviour.loadGame || host.loaded) := by
  unfold LibretroHost.started
  split_ifs with accepted <;> simp [accepted, LibretroHost.played]

@[simp] theorem LibretroHost.romData_started
    (h : HostId)
    (behaviour : CoreBehaviour)
    (data : Data)
    (host : LibretroHost) :
    (host.started h behaviour data).romData = some data := by
  unfold LibretroHost.started
  split_ifs <;> rfl

section Start

variable {self : HostId} {core : CoreId} {behaviour : CoreBehaviour}
  {data : Data} {romPath : String} {w : World}

/-- The registrations open a session of the core. -/
@[simp] theorem state_registerCallbacks :
    (registerCallbacks self core behaviour).state w =
      ((w.enter core .setEnvironment).played core
        behaviour.registerActions) := by
  simp only [registerCallbacks, state_bind, state_call]
  rw [called_setEnvironment,
    called_of_quiet _ _ .setVideoRefresh _ _ rfl,
    called_of_quiet _ _ .setAudioSample _ _ rfl,
    called_of_quiet _ _ .setAudioSampleBatch _ _ rfl,
    called_of_quiet _ _ .setInputPoll _ _ rfl,
    called_of_quiet _ _ .setInputState _ _ rfl]
  simp only [CoreBehaviour.registerActions, World.played_append]

/-- The state of `start` when the callbacks are registered. -/
def World.registered
    (self : HostId)
    (core : CoreId)
    (behaviour : CoreBehaviour)
    (w : World) : World :=
  ((w.assignGlobal (some self)).enter core .setEnvironment).played core
    behaviour.registerActions

/-- The state of `start` when `retro_load_game` is called. -/
def World.booted
    (self : HostId)
    (core : CoreId)
    (behaviour : CoreBehaviour)
    (data : Data)
    (w : World) : World :=
  ((w.registered self core behaviour).called self core .init
    (behaviour.actions .retroInit)).modifyHost self
      fun host => { host with romData := some data }

/-- The world after `start`, when the game is accepted. -/
theorem state_start_accepted (accepted : behaviour.loadGame = true) :
    (start self core behaviour data romPath).state w =
      (((((w.booted self core behaviour data).called self core
        (.loadGame (gameInfo data romPath) true)
          (behaviour.actions .retroLoadGame)).played core
            (behaviour.actions .retroGetSystemAvInfo)).modifyHost self
              fun host => { host with avInfo := behaviour.avInfo }).played core
                (behaviour.actions .retroSetControllerPortDevice)).modifyHost
                  self fun host => { host with loaded := true } := by
  simp only [start, accepted, assign, state_bind, state_emit, state_call,
    state_registerCallbacks, if_true, state_pure]
  rw [called_of_quiet _ _ .getSystemAvInfo _ _ rfl,
    called_of_quiet _ _ (.setControllerPortDevice _ _) _ _ rfl]
  rfl

/-- The world after `start`, when the game is rejected. -/
theorem state_start_rejected (rejected : behaviour.loadGame = false) :
    (start self core behaviour data romPath).state w =
      (((w.booted self core behaviour data).played core
        (behaviour.actions .retroLoadGame)).called self core .deinit
          (behaviour.actions .retroDeinit)).assignGlobal none := by
  simp only [start, rejected, assign, state_bind, state_emit, state_call,
    state_registerCallbacks, Bool.false_eq_true, if_false, state_pure]
  rw [called_of_quiet _ _ (.loadGame _ false) _ _ rfl]
  rfl

/-- The moments of `start` up to the offer of the game. -/
def Booting
    (good : Moment World Event → Prop)
    (self : HostId)
    (core : CoreId)
    (behaviour : CoreBehaviour)
    (data : Data)
    (w : World) : Prop :=
  good ⟨w, .assigned, w.assignGlobal (some self)⟩ ∧
    Throughout good (registerCallbacks self core behaviour)
      (w.assignGlobal (some self)) ∧
    Throughout good (call self core .init (behaviour.actions .retroInit))
      (w.registered self core behaviour) ∧
    good ⟨(w.registered self core behaviour).called self core .init
      (behaviour.actions .retroInit), .assigned,
        w.booted self core behaviour data⟩

/-- The moments of `start`, when the game is accepted. -/
theorem throughout_start_accepted
    (accepted : behaviour.loadGame = true)
    (good : Moment World Event → Prop) :
    Throughout good (start self core behaviour data romPath) w ↔
      Booting good self core behaviour data w ∧
        Throughout good (do
          call self core (.loadGame (gameInfo data romPath) true)
            (behaviour.actions .retroLoadGame)
          call self core .getSystemAvInfo
            (behaviour.actions .retroGetSystemAvInfo)
          assign self fun host => { host with avInfo := behaviour.avInfo }
          call self core (.setControllerPortDevice 0 1)
            (behaviour.actions .retroSetControllerPortDevice)
          assign self fun host => { host with loaded := true })
          (w.booted self core behaviour data) := by
  simp only [start, accepted, assign, Booting, throughout_bind,
    throughout_emit, state_emit, state_call, state_registerCallbacks, if_true,
    throughout_pure, and_true, and_assoc]
  rfl

/-- The moments of `start`, when the game is rejected. -/
theorem throughout_start_rejected
    (rejected : behaviour.loadGame = false)
    (good : Moment World Event → Prop) :
    Throughout good (start self core behaviour data romPath) w ↔
      Booting good self core behaviour data w ∧
        Throughout good (do
          call self core (.loadGame (gameInfo data romPath) false)
            (behaviour.actions .retroLoadGame)
          call self core .deinit (behaviour.actions .retroDeinit)
          emit .assigned (World.assignGlobal none))
          (w.booted self core behaviour data) := by
  simp only [start, rejected, assign, Booting, throughout_bind,
    throughout_emit, state_emit, state_call, state_registerCallbacks,
    Bool.false_eq_true, if_false, throughout_pure, and_true, and_assoc]
  rfl

theorem sent_start :
    sent ((start self core behaviour data romPath).log w) =
      (startCalls behaviour data romPath).map (Prod.mk core) := by
  cases accepted : behaviour.loadGame <;>
    simp [start, registerCallbacks, startCalls, accepted]

@[simp] theorem gLibretroHost_registered :
    (w.registered self core behaviour).gLibretroHost = some self := by
  simp [World.registered]

@[simp] theorem cores_registered :
    (w.registered self core behaviour).cores = w.cores := by
  simp [World.registered, CoreState.entered]

@[simp] theorem gLibretroHost_booted :
    (w.booted self core behaviour data).gLibretroHost = some self := by
  simp [World.booted, World.registered]

@[simp] theorem owned_booted :
    (w.booted self core behaviour data).owned = w.owned := by
  simp [World.booted, World.registered]

@[simp] theorem nextHost_booted :
    (w.booted self core behaviour data).nextHost = w.nextHost := by
  simp [World.booted, World.registered]

@[simp] theorem strings_booted :
    (w.booted self core behaviour data).strings =
      (w.assignGlobal (some self)).strings := by
  simp [World.booted, World.registered]

theorem cores_booted :
    (w.booted self core behaviour data).cores =
      Function.update w.cores core
        { initialised := true, games := (w.cores core).games } := by
  simp [World.booted, CoreState.entered, CoreState.left]

@[simp] theorem gLibretroHost_start :
    ((start self core behaviour data romPath).state w).gLibretroHost =
      if behaviour.loadGame then some self else none := by
  cases accepted : behaviour.loadGame with
  | true => simp [state_start_accepted accepted]
  | false => simp [state_start_rejected accepted]

@[simp] theorem owned_start :
    ((start self core behaviour data romPath).state w).owned = w.owned := by
  cases accepted : behaviour.loadGame with
  | true => simp [state_start_accepted accepted]
  | false => simp [state_start_rejected accepted]

@[simp] theorem nextHost_start :
    ((start self core behaviour data romPath).state w).nextHost =
      w.nextHost := by
  cases accepted : behaviour.loadGame with
  | true => simp [state_start_accepted accepted]
  | false => simp [state_start_rejected accepted]

theorem cores_start :
    ((start self core behaviour data romPath).state w).cores =
      Function.update w.cores core
        (if behaviour.loadGame then
          { initialised := true
            games := (w.cores core).games ++ [⟨self, data⟩] }
        else {}) := by
  cases accepted : behaviour.loadGame with
  | true =>
      simp [state_start_accepted accepted, cores_booted, CoreState.entered,
        CoreState.left, gameInfo]
  | false =>
      simp [state_start_rejected accepted, cores_booted, CoreState.entered,
        CoreState.left]

/-- An owned host stays in the heap while it boots. -/
theorem hosts_booted_self (owned : w.owned self = true) :
    (w.booted self core behaviour data).hosts self =
      (w.hosts self).map fun host =>
        { host.played true self (behaviour.registerActions ++
            behaviour.actions .retroInit) with
          romData := some data } := by
  have atGlobal := World.hosts_assignGlobal_of_owned owned (some self)
  simp [World.booted, World.registered, World.hosts_played, atGlobal,
    Option.map_map, LibretroHost.played_append]
  rfl

theorem hosts_booted_other
    {other : HostId}
    (differs : other ≠ self) :
    (w.booted self core behaviour data).hosts other =
      ((w.assignGlobal (some self)).hosts other).map
        (LibretroHost.played false other (behaviour.registerActions ++
          behaviour.actions .retroInit)) := by
  simp [World.booted, World.registered, World.hosts_played, differs,
    Ne.symm differs, LibretroHost.played_append]

/-- `start` leaves its host with the callbacks' effects, the ROM bytes, and on
success the rest of a loaded host. -/
theorem hosts_start_self (owned : w.owned self = true) :
    ((start self core behaviour data romPath).state w).hosts self =
      (w.hosts self).map (LibretroHost.started self behaviour data) := by
  cases accepted : behaviour.loadGame with
  | true =>
      simp only [state_start_accepted accepted, World.hosts_modifyHost,
        Function.update_self, World.hosts_played, hosts_called,
        hosts_booted_self owned, Option.map_map, gLibretroHost_called,
        gLibretroHost_booted, World.gLibretroHost_played,
        World.gLibretroHost_modifyHost, decide_true]
      congr 1
      funext host
      simp only [LibretroHost.started, accepted, if_true,
        CoreBehaviour.startActions, LibretroHost.played_append]
      rfl
  | false =>
      rw [state_start_rejected accepted,
        World.hosts_assignGlobal_of_owned (by simpa using owned)]
      simp only [World.hosts_played, hosts_called, hosts_booted_self owned,
        Option.map_map, gLibretroHost_booted, World.gLibretroHost_played,
        decide_true]
      congr 1
      funext host
      simp only [LibretroHost.started, accepted, Bool.false_eq_true, if_false,
        CoreBehaviour.startActions, LibretroHost.played_append]
      rfl

/-- `start` on another host leaves buttons written, and may deallocate. -/
theorem hosts_start_other
    {other : HostId}
    (differs : other ≠ self) :
    ((start self core behaviour data romPath).state w).hosts other =
      ((w.assignGlobal (some self)).hosts other).map
        (LibretroHost.played false other behaviour.startActions) := by
  have unreached : ¬some self = some other :=
    fun equal => differs (Option.some.inj equal).symm
  cases accepted : behaviour.loadGame with
  | true =>
      simp only [state_start_accepted accepted, World.hosts_modifyHost,
        Function.update_of_ne differs, World.hosts_played, hosts_called,
        hosts_booted_other differs, Option.map_map, gLibretroHost_called,
        gLibretroHost_booted, World.gLibretroHost_played,
        World.gLibretroHost_modifyHost, unreached, decide_false]
      simp only [accepted, if_true, CoreBehaviour.startActions,
        LibretroHost.played_append]
      rfl
  | false =>
      rw [state_start_rejected accepted, World.hosts_assignGlobal]
      simp only [World.hosts_played, hosts_called,
        hosts_booted_other differs, Option.map_map, gLibretroHost_called,
        gLibretroHost_booted, World.gLibretroHost_played,
        unreached, decide_false, false_and, if_false, accepted,
        Bool.false_eq_true, CoreBehaviour.startActions,
        LibretroHost.played_append]

end Start

section RunAndShutdown

variable {self : HostId} {core : CoreId} {behaviour : CoreBehaviour}
  {w : World}

/-- A frame is what the core does in `retro_run`, on a loaded host. -/
theorem state_runFrame_of_loaded (loaded : w.loaded self = true) :
    (runFrame self core behaviour).state w =
      w.played core (behaviour.actions .retroRun) := by
  rw [runFrame, state_get_bind, if_pos loaded, state_call,
    called_of_quiet _ _ .run _ _ rfl]

theorem throughout_runFrame (good : Moment World Event → Prop) :
    Throughout good (runFrame self core behaviour) w ↔
      (w.loaded self = true →
        Throughout good
          (call self core .run (behaviour.actions .retroRun)) w) := by
  rw [runFrame, throughout_get_bind, throughout_ite_pure]

theorem throughout_shutdown (good : Moment World Event → Prop) :
    Throughout good (shutdown self core behaviour) w ↔
      (w.loaded self = true →
        Throughout good (do
          assign self fun host => { host with loaded := false }
          call self core .unloadGame (behaviour.actions .retroUnloadGame)
          call self core .deinit (behaviour.actions .retroDeinit)
          assign self fun host => { host with romData := none }
          emit .assigned fun w =>
            if w.gLibretroHost = some self then w.assignGlobal none
            else w) w) := by
  rw [shutdown, throughout_get_bind, throughout_ite_pure]

theorem runFrame_of_idle (idle : w.loaded self = false) :
    (runFrame self core behaviour).state w = w ∧
      (runFrame self core behaviour).log w = [] := by
  rw [runFrame, state_get_bind, log_get_bind]
  simp [idle]

theorem shutdown_of_idle (idle : w.loaded self = false) :
    (shutdown self core behaviour).state w = w ∧
      (shutdown self core behaviour).log w = [] := by
  rw [shutdown, state_get_bind, log_get_bind]
  simp [idle]

theorem sent_runFrame_of_loaded (loaded : w.loaded self = true) :
    sent ((runFrame self core behaviour).log w) = [(core, .run)] := by
  rw [runFrame, log_get_bind, if_pos loaded, sent_call]

theorem sent_shutdown_of_loaded (loaded : w.loaded self = true) :
    sent ((shutdown self core behaviour).log w) =
      [(core, .unloadGame), (core, .deinit)] := by
  rw [shutdown, log_get_bind, if_pos loaded]
  simp

/-- The state of `shutdown` before it lets go of the global. -/
def World.ended
    (self : HostId)
    (core : CoreId)
    (behaviour : CoreBehaviour)
    (w : World) : World :=
  ((((w.modifyHost self fun host => { host with loaded := false }).called self
    core .unloadGame (behaviour.actions .retroUnloadGame)).called self core
      .deinit (behaviour.actions .retroDeinit)).modifyHost self
        fun host => { host with romData := none })

theorem state_shutdown_of_loaded (loaded : w.loaded self = true) :
    (shutdown self core behaviour).state w =
      if w.gLibretroHost = some self then
        (w.ended self core behaviour).assignGlobal none
      else w.ended self core behaviour := by
  rw [shutdown, state_get_bind, if_pos loaded]
  simp only [assign, state_bind, state_emit, state_call]
  rfl

@[simp] theorem gLibretroHost_ended :
    (w.ended self core behaviour).gLibretroHost = w.gLibretroHost := rfl

@[simp] theorem owned_ended :
    (w.ended self core behaviour).owned = w.owned := rfl

theorem cores_ended :
    (w.ended self core behaviour).cores = Function.update w.cores core {} := by
  simp [World.ended, CoreState.entered, CoreState.left]

theorem hosts_ended_self :
    (w.ended self core behaviour).hosts self =
      (w.hosts self).map (LibretroHost.shutDown
        (w.gLibretroHost = some self) self behaviour) := by
  simp only [World.ended, World.hosts_modifyHost, Function.update_self,
    hosts_called, Option.map_map, gLibretroHost_called,
    World.gLibretroHost_modifyHost]
  congr 1
  funext host
  simp only [LibretroHost.shutDown, CoreBehaviour.shutdownActions,
    LibretroHost.played_append]
  rfl

theorem hosts_ended_other
    {other : HostId}
    (differs : other ≠ self) :
    (w.ended self core behaviour).hosts other =
      (w.hosts other).map (LibretroHost.played
        (w.gLibretroHost = some other) other behaviour.shutdownActions) := by
  simp only [World.ended, World.hosts_modifyHost,
    Function.update_of_ne differs, hosts_called, Option.map_map,
    gLibretroHost_called, World.gLibretroHost_modifyHost,
    CoreBehaviour.shutdownActions, LibretroHost.played_append]
  rfl

/-- The world after `shutdown` of an owned host. -/
def World.afterShutdown
    (self : HostId)
    (core : CoreId)
    (behaviour : CoreBehaviour)
    (w : World) : World :=
  { w.ended self core behaviour with
    gLibretroHost :=
      if w.gLibretroHost = some self then none else w.gLibretroHost }

/-- `shutdown` of an owned host deallocates nothing. -/
theorem state_shutdown_of_owned
    (owned : w.owned self = true)
    (loaded : w.loaded self = true) :
    (shutdown self core behaviour).state w =
      w.afterShutdown self core behaviour := by
  rw [state_shutdown_of_loaded loaded, World.afterShutdown]
  split_ifs with held
  · have stillHeld : (w.ended self core behaviour).gLibretroHost =
        some self := held
    exact World.assignGlobal_of_owned stillHeld owned none
  · rfl

@[simp] theorem gLibretroHost_afterShutdown :
    (w.afterShutdown self core behaviour).gLibretroHost =
      if w.gLibretroHost = some self then none else w.gLibretroHost := rfl

@[simp] theorem hosts_afterShutdown :
    (w.afterShutdown self core behaviour).hosts =
      (w.ended self core behaviour).hosts := rfl

@[simp] theorem cores_afterShutdown :
    (w.afterShutdown self core behaviour).cores =
      Function.update w.cores core {} :=
  cores_ended

end RunAndShutdown

end Host
end LibretroLab
