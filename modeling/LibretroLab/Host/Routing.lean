import LibretroLab.Host.Solo

/-!
# Routing of callbacks

While one game runs at a time, every callback that a core makes inside a call
of a host is handled by that host alone.
-/

namespace LibretroLab
namespace Host

open Recorder Registry

/-- `RETRO_DEVICE_JOYPAD`. -/
def retroDeviceJoypad : UInt32 := 1

/-- The response that the host `h` owes to a callback, given its object and
the directory strings. -/
def Served
    (h : HostId)
    (host : LibretroHost)
    (strings : StringPtr → Option String)
    (response : Response) : Callback → Prop
  | .environment cmd data =>
      response.closures = [] ∧
        response.answer = .environment (host.handleEnvironment cmd data).1 ∧
        (data.isSome = true → cmd = Env.getSystemDirectory →
          ∃ p, response.answer = .environment ⟨true, some (.path (some p))⟩ ∧
            strings p = some host.systemDir) ∧
        (data.isSome = true → cmd = Env.getSaveDirectory →
          ∃ p, response.answer = .environment ⟨true, some (.path (some p))⟩ ∧
            strings p = some host.saveDir)
  | .videoRefresh none _ _ _ => response.closures = [.onVideo h none]
  | .videoRefresh (some data) width height pitch =>
      ∃ format, response.closures = [.onVideo h (some
        ⟨data, width.toNat, height.toNat, pitch, format⟩)]
  | .audioSample left right => response.closures = [.onAudio h [left, right] 1]
  | .audioSampleBatch none frames =>
      response.closures = [] ∧ response.answer = .audioSampleBatch frames
  | .audioSampleBatch (some data) frames =>
      response.closures = [.onAudio h data frames] ∧
        response.answer = .audioSampleBatch frames
  | .inputPoll => response.closures = []
  | .inputState port device _ id =>
      response.closures = [] ∧
        response.answer = .inputState
          (if valid : port = 0 ∧ device = retroDeviceJoypad ∧ id.toNat < 16
            then host.buttons.get ⟨id.toNat, valid.2.2⟩ else 0)

/-- A callback is handled by the host `h` and by no other: `h` serves it, and
nothing changes but the pixel format of `h`. -/
def HandledBy (h : HostId) (moment : Moment World Event) : Prop :=
  match moment.event with
  | .callback _ callback response =>
      ∃ host, moment.before.hosts h = some host ∧
        Served h host moment.before.strings response callback ∧
        moment.after =
          { moment.before with
            hosts := Function.update moment.before.hosts h (some
              { host with
                pixelFormat := callback.format.getD host.pixelFormat })
            granted := moment.after.granted }
  | _ => True

/-- The samples that a callback emits, two for each frame. -/
def Callback.emitted : Callback → List Int16
  | .audioSample left right => [left, right]
  | .audioSampleBatch (some data) frames => data.take (2 * frames.toNat)
  | _ => []

/-- The samples that a closure call hands to `onAudio` of `h`. -/
def ClosureCall.delivered (h : HostId) : ClosureCall → List Int16
  | .onAudio host samples frames =>
      if host = h then samples.take (2 * frames.toNat) else []
  | .onVideo _ _ => []

/-- The sample stream that the core emits in a log. -/
def emittedStream (log : List (Moment World Event)) : List Int16 :=
  log.flatMap fun moment =>
    match moment.event with
    | .callback _ callback _ => callback.emitted
    | _ => []

/-- The sample stream that `onAudio` of `h` receives in a log. -/
def deliveredStream (h : HostId) (log : List (Moment World Event)) :
    List Int16 :=
  log.flatMap fun moment =>
    match moment.event with
    | .callback _ _ response => response.closures.flatMap (·.delivered h)
    | _ => []

/-- The host receives callbacks, hands them to its closures, and its
directories are in place. -/
structure Serving (h : HostId) (w : World) : Prop where
  routed : w.gLibretroHost = some h
  ready : ∃ host, w.hosts h = some host ∧ host.onVideo = true ∧
    host.onAudio = true ∧ host.constants.Allocated w.strings w.nextString

/-! ## One callback -/

section Callbacks

variable {h : HostId} {host : LibretroHost} {w : World}

theorem handleEnvironment_getSystemDirectory
    (host : LibretroHost)
    (raw : Int32) :
    (host.handleEnvironment Env.getSystemDirectory (some raw)).1 =
      ⟨true, some (.path host.systemDirC)⟩ := rfl

theorem handleEnvironment_getSaveDirectory
    (host : LibretroHost)
    (raw : Int32) :
    (host.handleEnvironment Env.getSaveDirectory (some raw)).1 =
      ⟨true, some (.path host.saveDirC)⟩ := rfl

/-- The active host serves the callback. -/
theorem served_respond
    (active : w.activeHost = some (h, host))
    (onVideo : host.onVideo = true)
    (onAudio : host.onAudio = true)
    (allocated : host.constants.Allocated w.strings w.nextString)
    (callback : Callback) :
    Served h host w.strings (w.respond callback).1 callback := by
  cases callback with
  | environment cmd data =>
      simp only [World.respond, World.environmentCallback, active, Served,
        true_and]
      refine ⟨?_, ?_⟩
      · rintro hasData rfl
        obtain ⟨raw, rfl⟩ := Option.isSome_iff_exists.mp hasData
        obtain ⟨p, isPointer, holds⟩ := allocated.systemDir
        exact ⟨p, by
          rw [handleEnvironment_getSystemDirectory, ← isPointer]
          rfl, holds⟩
      · rintro hasData rfl
        obtain ⟨raw, rfl⟩ := Option.isSome_iff_exists.mp hasData
        obtain ⟨p, isPointer, holds⟩ := allocated.saveDir
        exact ⟨p, by
          rw [handleEnvironment_getSaveDirectory, ← isPointer]
          rfl, holds⟩
  | videoRefresh data width height pitch =>
      cases data with
      | none =>
          simp [World.respond, World.videoRefreshCallback, active, Served,
            LibretroHost.callOnVideo, onVideo]
      | some data =>
          refine ⟨host.pixelFormat, ?_⟩
          simp [World.respond, World.videoRefreshCallback, active,
            LibretroHost.callOnVideo, onVideo]
  | audioSample left right =>
      simp [World.respond, World.audioSampleCallback, active, Served,
        LibretroHost.callOnAudio, onAudio]
  | audioSampleBatch data frames =>
      cases data <;>
        simp [World.respond, World.audioSampleBatchCallback, active, Served,
          LibretroHost.callOnAudio, onAudio]
  | inputPoll => rfl
  | inputState port device index id =>
      simp only [World.respond, World.inputStateCallback, active, Served]
      by_cases valid : port = 0 ∧ device = 1 ∧ id < 16
      · have validNat : port = 0 ∧ device = retroDeviceJoypad ∧
            id.toNat < 16 :=
          ⟨valid.1, valid.2.1, UInt32.lt_iff_toNat_lt.mp valid.2.2⟩
        rw [dif_pos valid, dif_pos validNat]
        exact ⟨rfl, rfl⟩
      · have invalidNat : ¬(port = 0 ∧ device = retroDeviceJoypad ∧
            id.toNat < 16) := fun validNat => valid ⟨validNat.1, validNat.2.1,
            UInt32.lt_iff_toNat_lt.mpr validNat.2.2⟩
        rw [dif_neg valid, dif_neg invalidNat]
        exact ⟨rfl, rfl⟩

/-- A callback changes the active host's pixel format, if anything. -/
theorem played_calls
    (active : w.activeHost = some (h, host))
    (core : CoreId)
    (callback : Callback) :
    w.played core [.calls callback] =
      { w with
        hosts := Function.update w.hosts h (some
          { host with
            pixelFormat := callback.format.getD host.pixelFormat })
        granted := (w.played core [.calls callback]).granted } := by
  obtain ⟨_, alive⟩ := (World.activeHost_eq_some_iff w h host).mp active
  cases asked : callback.format with
  | none =>
      rw [World.played_of_unread core callback asked, Option.getD_none,
        ← alive, Function.update_eq_self]
  | some fmt =>
      rw [World.played_of_format core asked active, Option.getD_some]
      simp [World.modifyHost, alive]

/-- Samples reach `onAudio` of the host as the core emitted them, and no
closure of another host. -/
theorem Served.delivered
    {strings : StringPtr → Option String}
    {response : Response}
    {callback : Callback}
    (served : Served h host strings response callback)
    (receiver : HostId) :
    response.closures.flatMap (·.delivered receiver) =
      if h = receiver then callback.emitted else [] := by
  have nothing (closures : response.closures = [])
      (silent : callback.emitted = []) :
      response.closures.flatMap (·.delivered receiver) =
        if h = receiver then callback.emitted else [] := by
    rw [closures, silent, ite_self]
    rfl
  cases callback with
  | environment cmd data => exact nothing served.1 rfl
  | videoRefresh data width height pitch =>
      cases data with
      | none =>
          rw [served]
          simp [ClosureCall.delivered, Callback.emitted]
      | some data =>
          obtain ⟨format, closures⟩ := served
          rw [closures]
          simp [ClosureCall.delivered, Callback.emitted]
  | audioSample left right =>
      rw [served]
      simp [ClosureCall.delivered, Callback.emitted]
  | audioSampleBatch data frames =>
      cases data with
      | none => exact nothing served.1 rfl
      | some data =>
          rw [served.1]
          simp [ClosureCall.delivered, Callback.emitted]
  | inputPoll => exact nothing served rfl
  | inputState port device index id => exact nothing served.1 rfl

end Callbacks

/-! ## One call -/

section Calls

variable {h : HostId} {w : World}

theorem serving_played
    (serving : Serving h w)
    (core : CoreId)
    (actions : List CoreAction) :
    Serving h (w.played core actions) where
  routed := serving.routed
  ready := by
    obtain ⟨host, alive, onVideo, onAudio, allocated⟩ := serving.ready
    refine ⟨host.played (w.gLibretroHost = some h) h actions, ?_, onVideo,
      onAudio, allocated⟩
    rw [World.hosts_played, alive, Option.map_some]

theorem serving_modifyHost
    (serving : Serving h w)
    {f : LibretroHost → LibretroHost}
    (keepsConstants : ∀ host, (f host).constants = host.constants)
    (keepsOnVideo : ∀ host, (f host).onVideo = host.onVideo)
    (keepsOnAudio : ∀ host, (f host).onAudio = host.onAudio) :
    Serving h (w.modifyHost h f) where
  routed := serving.routed
  ready := by
    obtain ⟨host, alive, onVideo, onAudio, allocated⟩ := serving.ready
    refine ⟨f host, ?_, (keepsOnVideo host).trans onVideo,
      (keepsOnAudio host).trans onAudio, ?_⟩
    · rw [World.hosts_modifyHost, Function.update_self, alive,
        Option.map_some]
    · rw [keepsConstants]
      exact allocated

/-- An action of the core is handled by the serving host. -/
theorem keeps_act (core : CoreId) (action : CoreAction) :
    Keeps (Serving h) (HandledBy h) (act core action) := by
  intro w serving
  refine ⟨?_, ?_⟩
  · cases action with
    | calls callback =>
        obtain ⟨host, alive, onVideo, onAudio, allocated⟩ := serving.ready
        have active := World.activeHost_of serving.routed alive
        rw [act, throughout_step]
        refine ⟨host, alive,
          served_respond active onVideo onAudio allocated callback, ?_⟩
        simp only [World.hear_respond]
        exact played_calls active core callback
    | writeButton host id value =>
        rw [act, throughout_emit]
        trivial
  · rw [state_act]
    exact serving_played serving core [action]

/-- So is a whole call. -/
theorem keeps_call
    (core : CoreId)
    (retroCall : RetroCall)
    (actions : List CoreAction) :
    Keeps (Serving h) (HandledBy h) (call h core retroCall actions) := by
  refine Keeps.bind (Keeps.emit (fun _ _ => trivial) ?_) fun _ =>
    Keeps.bind (keeps_each (keeps_act core) actions) fun _ =>
      Keeps.emit (fun _ _ => trivial) ?_
  · exact fun w serving => ⟨serving.routed, serving.ready⟩
  · exact fun w serving => ⟨serving.routed, serving.ready⟩

/-- A store to properties other than the closures goes unnoticed. -/
theorem keeps_assign
    {f : LibretroHost → LibretroHost}
    (keepsConstants : ∀ host, (f host).constants = host.constants)
    (keepsOnVideo : ∀ host, (f host).onVideo = host.onVideo)
    (keepsOnAudio : ∀ host, (f host).onAudio = host.onAudio) :
    Keeps (Serving h) (HandledBy h) (assign h f) :=
  Keeps.emit (fun _ _ => trivial) fun _ serving =>
    serving_modifyHost serving keepsConstants keepsOnVideo keepsOnAudio

theorem keeps_registerCallbacks
    (core : CoreId)
    (behaviour : CoreBehaviour) :
    Keeps (Serving h) (HandledBy h) (registerCallbacks h core behaviour) :=
  Keeps.bind (keeps_call core _ _) fun _ =>
    Keeps.bind (keeps_call core _ _) fun _ =>
      Keeps.bind (keeps_call core _ _) fun _ =>
        Keeps.bind (keeps_call core _ _) fun _ =>
          Keeps.bind (keeps_call core _ _) fun _ => keeps_call core _ _

end Calls

/-! ## One method -/

section Methods

variable {h : HostId} {host : LibretroHost} {core : CoreId}
  {behaviour : CoreBehaviour} {data : Data} {romPath : String} {w : World}

/-- A host that starts serves callbacks from its first store on. -/
theorem serving_assignGlobal
    (heap : w.HeapOk)
    (owned : w.owned h = true)
    (alive : w.hosts h = some host)
    (onVideo : host.onVideo = true)
    (onAudio : host.onAudio = true) :
    Serving h (w.assignGlobal (some h)) where
  routed := by simp
  ready := by
    have stillAlive : (w.assignGlobal (some h)).hosts h = some host :=
      (World.hosts_assignGlobal_of_owned owned _).trans alive
    refine ⟨host, stillAlive, onVideo, onAudio, ?_⟩
    apply (heap.assignGlobal (some h)).allocated h
    rw [World.constants, stillAlive, Option.map_some]

theorem handled_booting
    (core : CoreId)
    (behaviour : CoreBehaviour)
    (data : Data)
    (serving : Serving h (w.assignGlobal (some h))) :
    Booting (HandledBy h) h core behaviour data w ∧
      Serving h (w.booted h core behaviour data) := by
  obtain ⟨registering, registered⟩ :=
    keeps_registerCallbacks core behaviour _ serving
  rw [state_registerCallbacks] at registered
  obtain ⟨initialising, initialised⟩ :=
    keeps_call core .init (behaviour.actions .retroInit) _ registered
  rw [state_call] at initialised
  exact ⟨⟨trivial, registering, initialising, trivial⟩,
    serving_modifyHost initialised (fun _ => rfl) (fun _ => rfl)
      fun _ => rfl⟩

theorem handled_start
    (heap : w.HeapOk)
    (owned : w.owned h = true)
    (alive : w.hosts h = some host)
    (onVideo : host.onVideo = true)
    (onAudio : host.onAudio = true) :
    Throughout (HandledBy h) (start h core behaviour data romPath) w := by
  obtain ⟨booting, booted⟩ := handled_booting core behaviour data
    (serving_assignGlobal heap owned alive onVideo onAudio)
  cases accepted : behaviour.loadGame with
  | true =>
      rw [throughout_start_accepted accepted]
      refine ⟨booting, (keeps_call core _ _).throughout_bind ?_ booted⟩
      intro _ _ loadedGame
      refine (keeps_call core _ _).throughout_bind ?_ loadedGame
      intro _ _ filled
      refine (keeps_assign ?_ ?_ ?_).throughout_bind ?_ filled
      iterate 3 exact fun _ => rfl
      intro _ _ stored
      refine (keeps_call core _ _).throughout_bind ?_ stored
      intro _ _ _
      rw [assign, throughout_emit]
      trivial
  | false =>
      rw [throughout_start_rejected accepted]
      refine ⟨booting, (keeps_call core _ _).throughout_bind ?_ booted⟩
      intro _ _ rejected
      refine (keeps_call core _ _).throughout_bind ?_ rejected
      intro _ _ _
      rw [throughout_emit]
      trivial

/-- An active host that is loaded serves. -/
theorem serving_of_loaded
    (solo : Solo w)
    (alive : w.hosts h = some host)
    (loaded : w.loaded h = true)
    (onVideo : host.onVideo = true)
    (onAudio : host.onAudio = true) :
    Serving h w where
  routed := solo.routed h loaded
  ready := ⟨host, alive, onVideo, onAudio,
    solo.wellFormed.heap.allocated h _ (by simp [World.constants, alive])⟩

theorem handled_runFrame
    (solo : Solo w)
    (alive : w.hosts h = some host)
    (onVideo : host.onVideo = true)
    (onAudio : host.onAudio = true) :
    Throughout (HandledBy h) (runFrame h core behaviour) w := by
  rw [throughout_runFrame]
  intro loaded
  exact (keeps_call core _ _ w
    (serving_of_loaded solo alive loaded onVideo onAudio)).1

theorem handled_shutdown
    (solo : Solo w)
    (alive : w.hosts h = some host)
    (onVideo : host.onVideo = true)
    (onAudio : host.onAudio = true) :
    Throughout (HandledBy h) (shutdown h core behaviour) w := by
  rw [throughout_shutdown]
  intro loaded
  refine (keeps_assign ?_ ?_ ?_).throughout_bind ?_
    (serving_of_loaded solo alive loaded onVideo onAudio)
  iterate 3 exact fun _ => rfl
  intro _ _ marked
  refine (keeps_call core _ _).throughout_bind ?_ marked
  intro _ _ unloaded
  refine (keeps_call core _ _).throughout_bind ?_ unloaded
  intro _ _ _
  rw [throughout_bind, assign, throughout_emit, throughout_emit]
  exact ⟨trivial, trivial⟩

end Methods

/-! ## The run -/

/-- The host on which an operation makes calls. -/
def Op.issuer : Op → Option HostId
  | .start h _ _ _ | .runFrame h _ | .shutdown h _ => some h
  | _ => none

/-- Both closures of the host are set. -/
def World.ClosuresSet (w : World) (h : HostId) : Prop :=
  ∀ host, w.hosts h = some host → host.onVideo = true ∧ host.onAudio = true

/-- Every callback in the log is handled by `h` and by no other host, and
`onAudio` of `h`, and of no other host, receives the sample stream that the
core emits. -/
structure RoutedTo (h : HostId) (log : List (Moment World Event)) : Prop where
  handled : ∀ moment ∈ log, HandledBy h moment
  audio : deliveredStream h log = emittedStream log
  noOther : ∀ other, h ≠ other → deliveredStream other log = []

/-- Handling callback by callback makes the streams agree. -/
theorem routedTo_of_handled
    {h : HostId}
    {log : List (Moment World Event)}
    (handled : ∀ moment ∈ log, HandledBy h moment) :
    RoutedTo h log where
  handled := handled
  audio := by
    unfold deliveredStream emittedStream
    apply List.flatMap_congr
    rintro ⟨before, event, after⟩ member
    cases event with
    | callback core callback response =>
        obtain ⟨host, alive, served, _⟩ := handled _ member
        exact (served.delivered h).trans (if_pos rfl)
    | _ => rfl
  noOther := by
    intro other differs
    unfold deliveredStream
    rw [List.flatMap_eq_nil_iff]
    rintro ⟨before, event, after⟩ member
    cases event with
    | callback core callback response =>
        obtain ⟨host, alive, served, _⟩ := handled _ member
        exact (served.delivered other).trans (if_neg differs)
    | _ => rfl

/-- An operation of `h` in a world with one game at a time. -/
theorem routedTo_perform
    (platform : Platform)
    {w : World}
    {op : Op}
    {h : HostId}
    (solo : Solo w)
    (issuer : op.issuer = some h)
    (closuresSet : w.ClosuresSet h) :
    RoutedTo h ((perform platform op).log w) := by
  apply routedTo_of_handled
  have byMethod (body : CoreId → HostM (Option Bool))
      (handled : ∀ host, w.owned h = true → w.hosts h = some host →
        host.onVideo = true → host.onAudio = true →
        Throughout (HandledBy h) (body host.core) w) :
      Throughout (HandledBy h) (method h body) w := by
    cases callable : w.callable h with
    | none =>
        rw [Throughout, (method_of_uncallable callable).2]
        simp
    | some host =>
        obtain ⟨owned, alive⟩ :=
          (World.callable_eq_some_iff w h host).mp callable
        obtain ⟨onVideo, onAudio⟩ := closuresSet host alive
        rw [throughout_method_of_callable callable]
        exact ⟨handled host owned alive onVideo onAudio, trivial⟩
  cases op with
  | start self behaviour data romPath =>
      obtain rfl : self = h := Option.some.inj issuer
      apply byMethod
      intro host owned alive onVideo onAudio
      rw [throughout_bind]
      exact ⟨handled_start solo.wellFormed.heap owned alive onVideo onAudio,
        throughout_pure _ _ _⟩
  | runFrame self behaviour =>
      obtain rfl : self = h := Option.some.inj issuer
      apply byMethod
      intro host owned alive onVideo onAudio
      rw [throughout_bind]
      exact ⟨handled_runFrame solo alive onVideo onAudio,
        throughout_pure _ _ _⟩
  | shutdown self behaviour =>
      obtain rfl : self = h := Option.some.inj issuer
      apply byMethod
      intro host owned alive onVideo onAudio
      rw [throughout_bind]
      exact ⟨handled_shutdown solo alive onVideo onAudio,
        throughout_pure _ _ _⟩
  | create | drop | setOnVideo | setOnAudio | writeButton => contradiction

/-- **Routing.** In every run that starts a host only when none is loaded, the
callbacks inside each operation of a host whose closures are set are routed to
that host. These are all that the cores make, see `made_perform`. -/
theorem callbacks_routed
    (platform : Platform)
    (ops : List Op)
    (alone : Along (perform platform) (fun w op => op.StartsAlone w)
      World.initial ops) :
    Along (perform platform)
      (fun w op => ∀ h, op.issuer = some h → w.ClosuresSet h →
        RoutedTo h ((perform platform op).log w))
      World.initial ops :=
  along_of_invariant Solo
    (fun _ _ solo _ _ issuer closuresSet =>
      routedTo_perform platform solo issuer closuresSet)
    (fun _ _ solo alone => solo.perform alone)
    ops World.initial solo_initial alone

/-- A core that draws a frame, plays a sample and reads a button. -/
def drawingCore : CoreBehaviour where
  actions
    | .retroRun =>
        [.calls (.videoRefresh (some 4096) 256 240 1024),
          .calls (.audioSample 1 2), .calls (.inputState 0 1 0 15)]
    | _ => []

/-- One session with that core. -/
def drawingRun : List Op :=
  [.create "pce", .setOnVideo 0 true, .setOnAudio 0 true,
    .start 0 drawingCore [1] "a.pce", .runFrame 0 drawingCore,
    .shutdown 0 drawingCore]

theorem startsAlone_drawingRun :
    Along (perform pcePlatform) (fun w op => op.StartsAlone w)
      World.initial drawingRun := by
  refine ⟨trivial, trivial, trivial, ?_, trivial, trivial, trivial⟩
  have solo := solo_performAll pcePlatform (drawingRun.take 3)
    ⟨trivial, trivial, trivial, trivial⟩
  exact solo.idle_of_inactive rfl

theorem callbacks_routed_drawingRun :
    Along (perform pcePlatform)
      (fun w op => ∀ h, op.issuer = some h → w.ClosuresSet h →
        RoutedTo h ((perform pcePlatform op).log w))
      World.initial drawingRun :=
  callbacks_routed pcePlatform drawingRun startsAlone_drawingRun

/-! ## The callbacks of an operation -/

/-- The callback that an event is. -/
def Event.made : Event → Option (CoreId × Callback)
  | .callback core request _ => some (core, request)
  | _ => none

/-- The callbacks that cores make, in order. -/
def made (log : List (Moment World Event)) : List (CoreId × Callback) :=
  log.filterMap fun moment => moment.event.made

/-- The callback that an action is. -/
def CoreAction.callback : CoreAction → Option Callback
  | .calls callback => some callback
  | .writeButton _ _ _ => none

/-- The callbacks that a core makes inside a call. -/
def CoreBehaviour.callbacks
    (behaviour : CoreBehaviour)
    (sent : CoreId × RetroCall) : List (CoreId × Callback) :=
  ((behaviour.actions sent.2.entryPoint).filterMap CoreAction.callback).map
    (Prod.mk sent.1)

/-- What the core does while an operation is performed. -/
def Op.behaviour : Op → CoreBehaviour
  | .start _ behaviour _ _ | .runFrame _ behaviour | .shutdown _ behaviour =>
      behaviour
  | _ => {}

/-- Inside the calls of a program, cores make the callbacks of a behaviour and
no others. -/
def Plays {α : Type} (behaviour : CoreBehaviour) (program : HostM α) : Prop :=
  ∀ w, made (program.log w) =
    (sent (program.log w)).flatMap behaviour.callbacks

namespace Plays

variable {behaviour : CoreBehaviour} {α β : Type}

theorem pure (value : α) : Plays behaviour (Pure.pure value) := fun _ => rfl

theorem emit (update : World → World) :
    Plays behaviour (Recorder.emit .assigned update) := fun _ => rfl

theorem bind
    {first : HostM α}
    {next : α → HostM β}
    (playsFirst : Plays behaviour first)
    (playsNext : ∀ value, Plays behaviour (next value)) :
    Plays behaviour (first >>= next) := by
  intro w
  have here := playsFirst w
  have later := playsNext (first.value w) (first.state w)
  rw [made] at here later
  rw [log_bind, made, List.filterMap_append, here, later, sent_append,
    List.flatMap_append]

theorem get_bind
    {next : World → HostM β}
    (playsNext : ∀ w, Plays behaviour (next w)) :
    Plays behaviour (get >>= next) := by
  intro w
  rw [log_get_bind]
  exact playsNext w w

/-- The actions of a core are in the log, in order. -/
theorem made_each_act
    (core : CoreId)
    (actions : List CoreAction)
    (w : World) :
    made ((each (act core) actions).log w) =
      (actions.filterMap CoreAction.callback).map (Prod.mk core) := by
  induction actions generalizing w with
  | nil => rfl
  | cons action rest inductionHypothesis =>
      have later := inductionHypothesis ((act core action).state w)
      rw [made] at later
      rw [log_each_cons, made, List.filterMap_append, later]
      cases action <;> rfl

theorem call
    (self : HostId)
    (core : CoreId)
    (retroCall : RetroCall) :
    Plays behaviour (Host.call self core retroCall
      (behaviour.actions retroCall.entryPoint)) := by
  intro w
  have inside := made_each_act core (behaviour.actions retroCall.entryPoint)
    (w.enter core retroCall)
  rw [made] at inside
  rw [sent_call, List.flatMap_singleton, CoreBehaviour.callbacks, ← inside,
    Host.call, log_bind, log_bind, log_emit, log_emit, made,
    List.filterMap_append, List.filterMap_append]
  exact (List.nil_append _).trans (List.append_nil _)

theorem start
    (self : HostId)
    (core : CoreId)
    (data : Data)
    (romPath : String) :
    Plays behaviour (Host.start self core behaviour data romPath) := by
  refine (emit _).bind fun _ => ?_
  refine bind ?_ fun _ => ?_
  · exact (call self core .setEnvironment).bind fun _ =>
      (call self core .setVideoRefresh).bind fun _ =>
      (call self core .setAudioSample).bind fun _ =>
      (call self core .setAudioSampleBatch).bind fun _ =>
      (call self core .setInputPoll).bind fun _ =>
      call self core .setInputState
  refine (call self core .init).bind fun _ => (emit _).bind fun _ => ?_
  refine (call self core (.loadGame _ _)).bind fun _ => ?_
  split
  · exact (call self core .getSystemAvInfo).bind fun _ => (emit _).bind
      fun _ => (call self core (.setControllerPortDevice 0 1)).bind fun _ =>
        (emit _).bind fun _ => pure true
  · exact (call self core .deinit).bind fun _ => (emit _).bind fun _ =>
      pure false

theorem runFrame (self : HostId) (core : CoreId) :
    Plays behaviour (Host.runFrame self core behaviour) := by
  refine get_bind fun w => ?_
  split
  · exact call self core .run
  · exact pure ()

theorem shutdown (self : HostId) (core : CoreId) :
    Plays behaviour (Host.shutdown self core behaviour) := by
  refine get_bind fun w => ?_
  split
  · exact (emit _).bind fun _ => (call self core .unloadGame).bind fun _ =>
      (call self core .deinit).bind fun _ => (emit _).bind fun _ => emit _
  · exact pure ()

theorem method
    {self : HostId}
    {body : CoreId → HostM (Option Bool)}
    (playsBody : ∀ core, Plays behaviour (body core)) :
    Plays behaviour (Host.method self body) := by
  refine get_bind fun w => ?_
  cases w.callable self with
  | none => exact pure ()
  | some host => exact (playsBody host.core).bind fun _ _ => rfl

theorem setProperty (self : HostId) (f : LibretroHost → LibretroHost) :
    Plays behaviour (Host.setProperty self f) := by
  refine get_bind fun w => ?_
  split
  · exact emit _
  · exact pure ()

end Plays

/-- **The log is complete.** The callbacks in the log of an operation are those
that its behaviour has for the calls it sends, in order. -/
theorem made_perform (platform : Platform) (op : Op) (w : World) :
    made ((perform platform op).log w) =
      (sent ((perform platform op).log w)).flatMap op.behaviour.callbacks := by
  suffices plays : Plays op.behaviour (perform platform op) from plays w
  cases op with
  | create name =>
      rw [perform, initCore]
      split
      · exact .pure ()
      · exact .emit _
  | start self behaviour data romPath =>
      exact .method fun core =>
        (Plays.start self core data romPath).bind fun ok => .pure (some ok)
  | runFrame self behaviour =>
      exact .method fun core =>
        (Plays.runFrame self core).bind fun _ => .pure none
  | shutdown self behaviour =>
      exact .method fun core =>
        (Plays.shutdown self core).bind fun _ => .pure none
  | drop self =>
      refine .get_bind fun w => ?_
      split
      · exact .emit _
      · exact .pure ()
  | setOnVideo self isSet => exact .setProperty self _
  | setOnAudio self isSet => exact .setProperty self _
  | writeButton self id value => exact .setProperty self _

end Host
end LibretroLab
