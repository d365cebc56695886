import LibretroLab.Host.Solo

/-!
# Pixel formats of frames

A frame carries the format that its core was granted in the session, and
0RGB1555 before any was. The host tags frames with a field of its own, which
starts as XRGB8888 and survives sessions, so the tag of a frame drawn before
the first granted request is right exactly by coincidence.
-/

namespace LibretroLab
namespace Host

open Recorder

/-- The format of frames in a session: the granted one, or the default. -/
def inForce (granted : Option PixelFormat) : PixelFormat :=
  granted.getD .rgb1555

/-- A moment treats pixel formats right: a frame handed to `onVideo` has the
format in force, a request for no valid format is answered false, and only a
valid request changes a format. -/
def FormatRight (moment : Moment World Event) : Prop :=
  match moment.event with
  | .callback core callback response =>
      (∀ h frame, .onVideo h (some frame) ∈ response.closures →
        frame.format = inForce (moment.before.granted core)) ∧
      (callback.format = none →
        (∀ data, callback = .environment Env.setPixelFormat data →
          response.answer = .environment ⟨false, none⟩) ∧
        moment.after.granted = moment.before.granted ∧
        ∀ h, (moment.after.hosts h).map LibretroHost.pixelFormat =
          (moment.before.hosts h).map LibretroHost.pixelFormat)
  | _ => True

/-- The action draws a frame. -/
def CoreAction.drawsFrame : CoreAction → Bool
  | .calls (.videoRefresh (some _) _ _ _) => true
  | _ => false

/-- A frame is drawn before the first valid request for a format. -/
def drawsUnasked : List CoreAction → Bool
  | [] => false
  | action :: rest =>
      action.drawsFrame || (action.format.isNone && drawsUnasked rest)

theorem lastFormat_cons (action : CoreAction) (rest : List CoreAction) :
    lastFormat (action :: rest) = (lastFormat rest).or action.format := by
  rw [← List.singleton_append, lastFormat_append]
  congr 1
  cases asked : action.format <;>
    simp [lastFormat, asked]

theorem drawsUnasked_append (first second : List CoreAction) :
    drawsUnasked (first ++ second) =
      (drawsUnasked first ||
        ((lastFormat first).isNone && drawsUnasked second)) := by
  induction first with
  | nil => simp [drawsUnasked]
  | cons action rest inductionHypothesis =>
      rw [List.cons_append, drawsUnasked, drawsUnasked, inductionHypothesis,
        lastFormat_cons]
      cases action.format <;> cases lastFormat rest <;>
        simp [Bool.or_assoc]

/-! ## The view of a session -/

/-- What decides the tags of frames: whether the closure is set, the host's
format, and the granted one. -/
structure View where
  onVideo : Bool
  pixelFormat : PixelFormat
  granted : Option PixelFormat

namespace View

/-- The view after some actions of the core. -/
def played (view : View) (actions : List CoreAction) : View where
  onVideo := view.onVideo
  pixelFormat := (lastFormat actions).getD view.pixelFormat
  granted := (lastFormat actions).or view.granted

/-- All frames among the actions are tagged right. -/
def Right (view : View) (actions : List CoreAction) : Prop :=
  view.onVideo = true →
    view.pixelFormat = inForce view.granted ∨ drawsUnasked actions = false

@[simp] theorem played_nil (view : View) : view.played [] = view := rfl

theorem played_append (view : View) (first second : List CoreAction) :
    view.played (first ++ second) = (view.played first).played second := by
  simp [played, lastFormat_append, Option.getD_or, Option.or_assoc]

@[simp] theorem right_nil (view : View) : view.Right [] :=
  fun _ => Or.inr rfl

/-- Once a format was granted, the tag is the granted format. -/
theorem right_append (view : View) (first second : List CoreAction) :
    view.Right (first ++ second) ↔
      view.Right first ∧ (view.played first).Right second := by
  unfold Right
  rw [drawsUnasked_append, played]
  cases asked : lastFormat first with
  | none => simp; tauto
  | some fmt => simp [inForce]

end View

/-- The host `h` is active, and its view is the given one. -/
structure Sees (h : HostId) (core : CoreId) (view : View) (w : World) :
    Prop where
  routed : w.gLibretroHost = some h
  host : ∃ host, w.hosts h = some host ∧ host.onVideo = view.onVideo ∧
    host.pixelFormat = view.pixelFormat
  granted : w.granted core = view.granted

/-- The program shows the host these actions of the core, in terms of formats:
it is right exactly if they are, and leaves the view that they leave. -/
def Shows
    (h : HostId)
    (core : CoreId)
    (actions : List CoreAction)
    (program : HostM α) : Prop :=
  ∀ view w, Sees h core view w →
    (Throughout FormatRight program w ↔ view.Right actions) ∧
      Sees h core (view.played actions) (program.state w)

theorem Shows.bind
    {first : HostM α}
    {next : α → HostM β}
    {firstActions nextActions : List CoreAction}
    (showsFirst : Shows h core firstActions first)
    (showsNext : ∀ value, Shows h core nextActions (next value)) :
    Shows h core (firstActions ++ nextActions) (first >>= next) := by
  intro view w sees
  obtain ⟨rightFirst, middle⟩ := showsFirst view w sees
  obtain ⟨rightNext, final⟩ := showsNext (first.value w) _ _ middle
  rw [throughout_bind, View.right_append, View.played_append, rightFirst,
    rightNext]
  exact ⟨Iff.rfl, final⟩

/-- A step without a callback that leaves the view alone shows nothing. -/
theorem shows_emit
    {event : Event}
    {update : World → World}
    (silent : ∀ before after, FormatRight ⟨before, event, after⟩)
    (unseen : ∀ view w, Sees h core view w → Sees h core view (update w)) :
    Shows h core [] (emit event update : HostM Unit) := by
  intro view w sees
  rw [throughout_emit]
  exact ⟨iff_of_true (silent _ _) view.right_nil, unseen view w sees⟩

section Shows

variable {h : HostId} {host : LibretroHost} {core : CoreId} {view : View}
  {w : World}

theorem sees_played
    (sees : Sees h core view w)
    (actions : List CoreAction) :
    Sees h core (view.played actions) (w.played core actions) := by
  obtain ⟨host, alive, onVideo, pixelFormat⟩ := sees.host
  refine ⟨sees.routed, ⟨host.played true h actions, ?_, onVideo, ?_⟩, ?_⟩
  · rw [World.hosts_played, alive, sees.routed]
    simp
  · rw [View.played, ← pixelFormat]
    rfl
  · rw [World.granted_played, World.activeHost_of sees.routed alive,
      Option.isSome_some, if_pos rfl, Function.update_self, sees.granted,
      View.played]

/-- The frames of a callback are those the active host hands over. -/
theorem frames_respond
    (active : w.activeHost = some (h, host))
    (callback : Callback)
    (fmt : PixelFormat) :
    (∀ other frame,
        .onVideo other (some frame) ∈ (w.respond callback).1.closures →
        frame.format = fmt) ↔
      (host.onVideo = true →
        (CoreAction.calls callback).drawsFrame = true →
        host.pixelFormat = fmt) := by
  cases callback with
  | environment cmd data =>
      simp [World.respond, World.environmentCallback, active,
        CoreAction.drawsFrame]
  | videoRefresh data width height pitch =>
      cases data with
      | none =>
          cases onVideo : host.onVideo <;>
            simp [World.respond, World.videoRefreshCallback, active,
              LibretroHost.callOnVideo, CoreAction.drawsFrame, onVideo]
      | some data =>
          cases onVideo : host.onVideo <;>
            simp [World.respond, World.videoRefreshCallback, active,
              LibretroHost.callOnVideo, CoreAction.drawsFrame, onVideo]
  | audioSample left right =>
      cases onAudio : host.onAudio <;>
        simp [World.respond, World.audioSampleCallback, active,
          LibretroHost.callOnAudio, CoreAction.drawsFrame, onAudio]
  | audioSampleBatch data frames =>
      cases data <;> cases onAudio : host.onAudio <;>
        simp [World.respond, World.audioSampleBatchCallback, active,
          LibretroHost.callOnAudio, CoreAction.drawsFrame, onAudio]
  | inputPoll =>
      simp [World.respond, World.inputPollCallback, CoreAction.drawsFrame]
  | inputState port device index id =>
      simp only [World.respond, World.inputStateCallback, active,
        CoreAction.drawsFrame]
      split_ifs <;> simp

/-- The active host answers an invalid request for a format false. -/
theorem answer_of_invalid
    (active : w.activeHost = some (h, host))
    {data : Option Int32}
    (invalid : (Callback.environment Env.setPixelFormat data).format = none) :
    (w.respond (.environment Env.setPixelFormat data)).1.answer =
      .environment ⟨false, none⟩ := by
  simp only [World.respond, World.environmentCallback, active]
  rw [handleEnvironment_setPixelFormat, invalid]
  rfl

/-- One action of the core is right exactly if its view makes it so. -/
theorem shows_act (action : CoreAction) :
    Shows h core [action] (act core action) := by
  intro view w sees
  rw [state_act]
  refine ⟨?_, sees_played sees [action]⟩
  obtain ⟨host, alive, onVideo, pixelFormat⟩ := sees.host
  have active := World.activeHost_of sees.routed alive
  cases action with
  | writeButton host id value =>
      rw [act, throughout_emit]
      exact iff_of_true trivial fun _ => Or.inr rfl
  | calls callback =>
      rw [act, throughout_step]
      simp only [World.hear_respond, FormatRight]
      rw [frames_respond active, onVideo, pixelFormat, sees.granted,
        View.Right]
      have unchanged (noFormat : callback.format = none) :
          (∀ data, callback = .environment Env.setPixelFormat data →
            (w.respond callback).1.answer = .environment ⟨false, none⟩) ∧
          (w.played core [.calls callback]).granted = w.granted ∧
          ∀ h, ((w.played core [.calls callback]).hosts h).map
              LibretroHost.pixelFormat =
            (w.hosts h).map LibretroHost.pixelFormat := by
        rw [World.played_of_unread core callback noFormat]
        refine ⟨?_, rfl, fun _ => rfl⟩
        rintro data rfl
        exact answer_of_invalid active noFormat
      rw [and_iff_left unchanged]
      refine imp_congr_right fun _ => ?_
      have drawn : drawsUnasked [.calls callback] =
          (CoreAction.calls callback).drawsFrame := by
        simp [drawsUnasked]
      rw [drawn, imp_iff_not_or, or_comm, Bool.not_eq_true]

theorem shows_each (actions : List CoreAction) :
    Shows h core actions (each (act core) actions) := by
  induction actions with
  | nil =>
      intro view w sees
      exact ⟨iff_of_true (throughout_each_nil _ _ _) view.right_nil, sees⟩
  | cons action rest inductionHypothesis =>
      exact (shows_act action).bind fun _ => inductionHypothesis

/-! ## Calls and methods -/

/-- A call that does not open a session shows what the core does in it. -/
theorem shows_call
    (retroCall : RetroCall)
    (actions : List CoreAction)
    (opens : retroCall ≠ .setEnvironment) :
    Shows h core actions (call h core retroCall actions) := by
  have entering : Shows h core []
      (emit (.call h core retroCall) (World.enter core retroCall)) :=
    shows_emit (fun _ _ => trivial) fun view w sees =>
      ⟨sees.routed, sees.host, by simpa [World.enter, opens] using
        sees.granted⟩
  have leaving : Shows h core []
      (emit (.returned h core retroCall) (World.leave h core retroCall)) :=
    shows_emit (fun _ _ => trivial) fun view w sees =>
      ⟨sees.routed, sees.host, sees.granted⟩
  have whole := entering.bind fun _ => (shows_each actions).bind fun _ =>
    leaving
  rw [List.nil_append, List.append_nil] at whole
  exact whole

/-- A store to other properties shows nothing. -/
theorem shows_assign
    {f : LibretroHost → LibretroHost}
    (keepsOnVideo : ∀ host, (f host).onVideo = host.onVideo)
    (keepsFormat : ∀ host, (f host).pixelFormat = host.pixelFormat) :
    Shows h core [] (assign h f) :=
  shows_emit (fun _ _ => trivial) fun view w sees => by
    obtain ⟨host, alive, onVideo, pixelFormat⟩ := sees.host
    refine ⟨sees.routed, ⟨f host, ?_, (keepsOnVideo host).trans onVideo,
      (keepsFormat host).trans pixelFormat⟩, sees.granted⟩
    rw [World.hosts_modifyHost, Function.update_self, alive,
      Option.map_some]

end Shows

/-- The view of a session that has just been opened. -/
def View.opened (view : View) : View := { view with granted := none }

/-- The program opens a session and then shows the host these actions. -/
def Opens
    (h : HostId)
    (core : CoreId)
    (actions : List CoreAction)
    (program : HostM α) : Prop :=
  ∀ view w, Sees h core view w →
    (Throughout FormatRight program w ↔ view.opened.Right actions) ∧
      Sees h core (view.opened.played actions) (program.state w)

theorem Opens.bind
    {first : HostM α}
    {next : α → HostM β}
    {firstActions nextActions : List CoreAction}
    (opensFirst : Opens h core firstActions first)
    (showsNext : ∀ value, Shows h core nextActions (next value)) :
    Opens h core (firstActions ++ nextActions) (first >>= next) := by
  intro view w sees
  obtain ⟨rightFirst, middle⟩ := opensFirst view w sees
  obtain ⟨rightNext, final⟩ := showsNext (first.value w) _ _ middle
  rw [throughout_bind, View.right_append, View.played_append, rightFirst,
    rightNext]
  exact ⟨Iff.rfl, final⟩

theorem opens_setEnvironment
    (h : HostId)
    (core : CoreId)
    (actions : List CoreAction) :
    Opens h core actions (call h core .setEnvironment actions) := by
  intro view w sees
  have opened : Sees h core view.opened (w.enter core .setEnvironment) :=
    ⟨sees.routed, sees.host, by simp [World.enter, View.opened]⟩
  obtain ⟨right, shown⟩ := shows_each actions view.opened _ opened
  rw [throughout_call, state_call, called_setEnvironment]
  rw [state_each_act] at shown
  refine ⟨?_, shown⟩
  rw [right]
  simp [FormatRight]

theorem opens_registerCallbacks
    (h : HostId)
    (core : CoreId)
    (behaviour : CoreBehaviour) :
    Opens h core behaviour.registerActions
      (registerCallbacks h core behaviour) := by
  simp only [CoreBehaviour.registerActions, List.append_assoc]
  refine (opens_setEnvironment h core _).bind fun _ => ?_
  refine (shows_call .setVideoRefresh _ (by simp)).bind fun _ => ?_
  refine (shows_call .setAudioSample _ (by simp)).bind fun _ => ?_
  refine (shows_call .setAudioSampleBatch _ (by simp)).bind fun _ => ?_
  refine (shows_call .setInputPoll _ (by simp)).bind fun _ => ?_
  exact shows_call .setInputState _ (by simp)

section Methods

variable {h : HostId} {core : CoreId} {behaviour : CoreBehaviour}
  {data : Data} {romPath : String} {view : View} {w : World}

/-- Booting shows the host the actions up to `retro_init`. -/
theorem right_booting
    (behaviour : CoreBehaviour)
    (data : Data)
    (sees : Sees h core view (w.assignGlobal (some h))) :
    (Booting FormatRight h core behaviour data w ↔
        view.opened.Right (behaviour.registerActions ++
          behaviour.actions .retroInit)) ∧
      Sees h core (view.opened.played (behaviour.registerActions ++
          behaviour.actions .retroInit))
        (w.booted h core behaviour data) := by
  obtain ⟨registering, registered⟩ :=
    opens_registerCallbacks h core behaviour view _ sees
  rw [state_registerCallbacks] at registered
  obtain ⟨initialising, initialised⟩ :=
    shows_call .init (behaviour.actions .retroInit) (by simp) _ _ registered
  rw [state_call] at initialised
  have stored : Shows h core []
      (assign h fun host => { host with romData := some data }) :=
    shows_assign (fun _ => rfl) fun _ => rfl
  obtain ⟨_, booted⟩ := stored _ _ initialised
  rw [View.right_append, View.played_append, Booting, registering]
  refine ⟨?_, booted⟩
  rw [← initialising]
  simp only [FormatRight, true_and, and_true]
  rfl

/-- `start` opens a session and shows the host the actions of the core. -/
theorem right_start_accepted
    (data : Data)
    (romPath : String)
    (accepted : behaviour.loadGame = true)
    (sees : Sees h core view (w.assignGlobal (some h))) :
    (Throughout FormatRight (start h core behaviour data romPath) w ↔
        view.opened.Right behaviour.startActions) ∧
      Sees h core (view.opened.played behaviour.startActions)
        ((start h core behaviour data romPath).state w) := by
  obtain ⟨booting, booted⟩ := right_booting behaviour data sees
  have finishing : Shows h core
      (behaviour.actions .retroLoadGame ++
        (behaviour.actions .retroGetSystemAvInfo ++
          ([] ++ (behaviour.actions .retroSetControllerPortDevice ++ []))))
      (do
        call h core (.loadGame (gameInfo data romPath) true)
          (behaviour.actions .retroLoadGame)
        call h core .getSystemAvInfo
          (behaviour.actions .retroGetSystemAvInfo)
        assign h fun host => { host with avInfo := behaviour.avInfo }
        call h core (.setControllerPortDevice 0 1)
          (behaviour.actions .retroSetControllerPortDevice)
        assign h fun host => { host with loaded := true }) := by
    refine (shows_call _ _ (by simp)).bind fun _ => ?_
    refine (shows_call _ _ (by simp)).bind fun _ => ?_
    refine (shows_assign ?_ ?_).bind fun _ => ?_
    iterate 2 exact fun _ => rfl
    refine (shows_call _ _ (by simp)).bind fun _ => ?_
    exact shows_assign (fun _ => rfl) fun _ => rfl
  have actions : behaviour.startActions =
      (behaviour.registerActions ++ behaviour.actions .retroInit) ++
        (behaviour.actions .retroLoadGame ++
          (behaviour.actions .retroGetSystemAvInfo ++
            ([] ++ (behaviour.actions .retroSetControllerPortDevice ++
              [])))) := by
    simp [CoreBehaviour.startActions, accepted]
  obtain ⟨right, final⟩ := finishing _ _ booted
  rw [throughout_start_accepted accepted, booting, right,
    ← View.right_append, actions, View.played_append,
    state_start_accepted accepted]
  refine ⟨Iff.rfl, ?_⟩
  simp only [assign, state_bind, state_emit, state_call] at final
  rw [called_of_quiet _ _ .getSystemAvInfo _ _ rfl,
    called_of_quiet _ _ (.setControllerPortDevice _ _) _ _ rfl] at final
  exact final

theorem right_start_rejected
    (rejected : behaviour.loadGame = false)
    (sees : Sees h core view (w.assignGlobal (some h))) :
    Throughout FormatRight (start h core behaviour data romPath) w ↔
      view.opened.Right behaviour.startActions := by
  obtain ⟨booting, booted⟩ := right_booting behaviour data sees
  have rejecting : Shows h core
      (behaviour.actions .retroLoadGame ++ behaviour.actions .retroDeinit)
      (do
        call h core (.loadGame (gameInfo data romPath) false)
          (behaviour.actions .retroLoadGame)
        call h core .deinit (behaviour.actions .retroDeinit)) :=
    (shows_call _ _ (by simp)).bind fun _ => shows_call _ _ (by simp)
  have actions : behaviour.startActions =
      (behaviour.registerActions ++ behaviour.actions .retroInit) ++
        (behaviour.actions .retroLoadGame ++
          behaviour.actions .retroDeinit) := by
    simp [CoreBehaviour.startActions, rejected]
  rw [throughout_start_rejected rejected, actions, View.right_append,
    booting, ← (rejecting _ _ booted).1]
  simp [FormatRight]

/-- `start` is right exactly if its view without a grant makes it so. -/
theorem right_start (sees : Sees h core view (w.assignGlobal (some h))) :
    Throughout FormatRight (start h core behaviour data romPath) w ↔
      view.opened.Right behaviour.startActions := by
  cases accepted : behaviour.loadGame with
  | true => exact (right_start_accepted data romPath accepted sees).1
  | false => exact right_start_rejected accepted sees

theorem right_runFrame
    (sees : w.loaded h = true → Sees h core view w) :
    Throughout FormatRight (runFrame h core behaviour) w ↔
      (w.loaded h = true → view.Right (behaviour.actions .retroRun)) := by
  rw [throughout_runFrame]
  refine imp_congr_right fun loaded => ?_
  exact (shows_call .run _ (by simp) _ _ (sees loaded)).1

theorem right_shutdown
    (sees : w.loaded h = true → Sees h core view w) :
    Throughout FormatRight (shutdown h core behaviour) w ↔
      (w.loaded h = true → view.Right behaviour.shutdownActions) := by
  rw [throughout_shutdown]
  refine imp_congr_right fun loaded => ?_
  have ending : Shows h core
      ([] ++ (behaviour.actions .retroUnloadGame ++
        behaviour.actions .retroDeinit))
      (do
        assign h fun host => { host with loaded := false }
        call h core .unloadGame (behaviour.actions .retroUnloadGame)
        call h core .deinit (behaviour.actions .retroDeinit)) := by
    refine (shows_assign ?_ ?_).bind fun _ => ?_
    iterate 2 exact fun _ => rfl
    exact (shows_call _ _ (by simp)).bind fun _ => shows_call _ _ (by simp)
  rw [CoreBehaviour.shutdownActions, ← List.nil_append (_ ++ _),
    ← (ending _ _ (sees loaded)).1]
  simp [FormatRight, assign]

end Methods

/-! ## Runs -/

/-- The view that a session with the given grant has of a host. -/
def LibretroHost.view
    (granted : Option PixelFormat)
    (host : LibretroHost) : View where
  onVideo := host.onVideo
  pixelFormat := host.pixelFormat
  granted := granted

/-- The tag is the granted format, if there is one. -/
def View.Tagged (view : View) : Prop :=
  ∀ fmt, view.granted = some fmt → view.pixelFormat = fmt

theorem View.tagged_opened (view : View) : view.opened.Tagged :=
  fun _ granted => by contradiction

theorem View.Tagged.played
    {view : View}
    (tagged : view.Tagged)
    (actions : List CoreAction) :
    (view.played actions).Tagged := by
  intro fmt granted
  unfold View.played at granted ⊢
  cases asked : lastFormat actions with
  | none =>
      rw [asked, Option.none_or] at granted
      exact tagged fmt granted
  | some last =>
      rw [asked, Option.some_or] at granted
      exact Option.some.inj granted

/-- What makes the tags right: the closure is not set, a format was granted
already, the host's format is the default, or no frame is drawn before the
first valid request. -/
def View.Known (view : View) (actions : List CoreAction) : Prop :=
  view.onVideo = true →
    view.granted.isSome = true ∨ view.pixelFormat = .rgb1555 ∨
      drawsUnasked actions = false

theorem View.Tagged.right_iff_known
    {view : View}
    (tagged : view.Tagged)
    (actions : List CoreAction) :
    view.Right actions ↔ view.Known actions := by
  unfold View.Right View.Known
  cases granted : view.granted with
  | none => simp [inForce]
  | some fmt => simp [inForce, tagged fmt granted]

/-- The condition on an operation, given the world it is performed in. -/
def Op.FormatKnown (w : World) : Op → Prop
  | .start h behaviour _ _ => ∀ host, w.callable h = some host →
      (host.view none).Known behaviour.startActions
  | .runFrame h behaviour => ∀ host, w.callable h = some host →
      host.loaded = true →
      (host.view (w.granted host.core)).Known (behaviour.actions .retroRun)
  | .shutdown h behaviour => ∀ host, w.callable h = some host →
      host.loaded = true →
      (host.view (w.granted host.core)).Known behaviour.shutdownActions
  | _ => True

/-- One game at a time, and the loaded host has the tag its core was
granted. -/
structure SoloTagged (w : World) : Prop where
  solo : Solo w
  tagged : ∀ h host, w.hosts h = some host → host.loaded = true →
    (host.view (w.granted host.core)).Tagged

section Perform

variable {h : HostId} {host : LibretroHost} {core : CoreId}
  {behaviour : CoreBehaviour} {data : Data} {romPath : String} {w : World}

/-- A host that starts is seen as it is. -/
theorem sees_assignGlobal
    (owned : w.owned h = true)
    (alive : w.hosts h = some host)
    (core : CoreId) :
    Sees h core (host.view (w.granted core)) (w.assignGlobal (some h)) where
  routed := by simp
  host := ⟨host, (World.hosts_assignGlobal_of_owned owned _).trans alive,
    rfl, rfl⟩
  granted := by simp [LibretroHost.view]

/-- So is a loaded one. -/
theorem sees_of_loaded
    (solo : Solo w)
    (alive : w.hosts h = some host)
    (loaded : w.loaded h = true)
    (core : CoreId) :
    Sees h core (host.view (w.granted core)) w where
  routed := solo.routed h loaded
  host := ⟨host, alive, rfl, rfl⟩
  granted := rfl

/-- What a host shows tells its tag. -/
theorem Sees.tagged
    {view : View}
    (sees : Sees h core view w)
    (tagged : view.Tagged)
    (alive : w.hosts h = some host) :
    (host.view (w.granted core)).Tagged := by
  obtain ⟨seen, seenAlive, _, pixelFormat⟩ := sees.host
  rw [alive, Option.some.injEq] at seenAlive
  subst seenAlive
  intro fmt granted
  rw [LibretroHost.view, sees.granted] at granted
  exact pixelFormat.trans (tagged fmt granted)

/-- A method is right exactly as its body. -/
theorem right_method
    (body : CoreId → HostM (Option Bool))
    (condition : LibretroHost → Prop)
    (right : ∀ host, w.owned h = true → w.hosts h = some host →
      (Throughout FormatRight (body host.core) w ↔ condition host)) :
    Throughout FormatRight (method h body) w ↔
      ∀ host, w.callable h = some host → condition host := by
  cases callable : w.callable h with
  | none => simp [Throughout, (method_of_uncallable callable).2]
  | some host =>
      obtain ⟨owned, alive⟩ :=
        (World.callable_eq_some_iff w h host).mp callable
      rw [throughout_method_of_callable callable, right host owned alive]
      simp [FormatRight]

theorem right_setProperty (f : LibretroHost → LibretroHost) :
    Throughout FormatRight (setProperty h f) w := by
  rw [setProperty, throughout_get_bind, throughout_ite_pure]
  intro _
  rw [assign, throughout_emit]
  trivial

end Perform

/-- An operation is right exactly under its condition. -/
theorem right_perform_iff
    (platform : Platform)
    {w : World}
    {op : Op}
    (tagged : SoloTagged w) :
    Throughout FormatRight (perform platform op) w ↔ op.FormatKnown w := by
  cases op with
  | start h behaviour data romPath =>
      apply right_method
      intro host owned alive
      rw [throughout_bind, right_start (sees_assignGlobal owned alive _),
        and_iff_left (throughout_pure _ _ _)]
      exact (View.tagged_opened _).right_iff_known _
  | runFrame h behaviour =>
      apply right_method
      intro host owned alive
      rw [throughout_bind, and_iff_left (throughout_pure _ _ _),
        right_runFrame fun loaded =>
          sees_of_loaded tagged.solo alive loaded host.core,
        World.loaded_of alive]
      exact imp_congr_right fun loaded =>
        (tagged.tagged h host alive loaded).right_iff_known _
  | shutdown h behaviour =>
      apply right_method
      intro host owned alive
      rw [throughout_bind, and_iff_left (throughout_pure _ _ _),
        right_shutdown fun loaded =>
          sees_of_loaded tagged.solo alive loaded host.core,
        World.loaded_of alive]
      exact imp_congr_right fun loaded =>
        (tagged.tagged h host alive loaded).right_iff_known _
  | create name =>
      rw [perform, initCore]
      refine iff_of_true ?_ trivial
      split
      · exact throughout_pure _ _ _
      · rw [throughout_emit]
        trivial
  | drop h =>
      rw [perform, throughout_get_bind, throughout_ite_pure, throughout_emit]
      exact iff_of_true (fun _ => trivial) trivial
  | setOnVideo h isSet => exact iff_of_true (right_setProperty _) trivial
  | setOnAudio h isSet => exact iff_of_true (right_setProperty _) trivial
  | writeButton h id value => exact iff_of_true (right_setProperty _) trivial

/-- Every operation keeps the tags, one game at a time. -/
theorem tagged_of_performed
    {platform : Platform}
    {w w' : World}
    {op : Op}
    {calls : List (CoreId × RetroCall)}
    (done : Performed platform w op calls w')
    (before : SoloTagged w)
    (alone : op.StartsAlone w)
    (h : HostId)
    (host : LibretroHost)
    (alive : w'.hosts h = some host)
    (loaded : host.loaded = true) :
    (host.view (w'.granted host.core)).Tagged := by
  have isLoaded : w'.loaded h = true := (World.loaded_of alive).trans loaded
  cases done with
  | idle => exact before.tagged h host alive loaded
  | @created name entry found =>
      have differs : h ≠ w.nextHost := by
        rintro rfl
        simp [World.loaded, World.allocateHost] at isLoaded
      rw [World.hosts_allocateHost_of_ne differs] at alive
      exact before.tagged h host alive loaded
  | @started self object behaviour data romPath owned selfAlive =>
      obtain ⟨rfl, accepted⟩ :=
        loaded_start owned selfAlive alone h isLoaded
      have sees := (right_start_accepted data romPath accepted
        (sees_assignGlobal owned selfAlive object.core)).2
      have sameCore : host.core = object.core := by
        rw [hosts_start_self owned, selfAlive, Option.map_some,
          Option.some.injEq] at alive
        rw [← alive, LibretroHost.core_started]
      rw [sameCore]
      exact sees.tagged ((View.tagged_opened _).played _) alive
  | @ranFrame self object behaviour owned selfAlive selfLoaded =>
      have selfIsLoaded := (World.loaded_of selfAlive).trans selfLoaded
      rw [loaded_played] at isLoaded
      have same := before.solo.unique isLoaded selfIsLoaded
      subst same
      have sees := sees_played
        (sees_of_loaded before.solo selfAlive selfIsLoaded object.core)
        (behaviour.actions .retroRun)
      have sameCore : host.core = object.core := by
        rw [World.hosts_played, selfAlive, Option.map_some,
          Option.some.injEq] at alive
        rw [← alive]
        rfl
      rw [sameCore]
      exact sees.tagged
        ((before.tagged h object selfAlive selfLoaded).played _) alive
  | @shutDown self object behaviour owned selfAlive selfLoaded =>
      have selfIsLoaded := (World.loaded_of selfAlive).trans selfLoaded
      have differs : h ≠ self := by
        rintro rfl
        rw [loaded_afterShutdown_self] at isLoaded
        contradiction
      rw [loaded_afterShutdown_other differs] at isLoaded
      exact absurd (before.solo.unique isLoaded selfIsLoaded) differs
  | @dropped self owned =>
      rw [World.dropOwner, World.hosts_release] at alive
      split_ifs at alive
      have same := before.tagged h host alive loaded
      simpa [World.dropOwner] using same
  | @assigned op self object f owned selfAlive inert =>
      rw [World.hosts_modifyHost] at alive
      by_cases same : h = self
      · subst same
        rw [Function.update_self, selfAlive, Option.map_some,
          Option.some.injEq] at alive
        subst alive
        have objectLoaded : object.loaded = true := by
          rw [inert object] at loaded
          exact loaded
        have objectTagged := before.tagged h object selfAlive objectLoaded
        rw [inert object]
        exact objectTagged
      · rw [Function.update_of_ne same] at alive
        exact before.tagged h host alive loaded

theorem SoloTagged.perform
    {platform : Platform}
    {w : World}
    {op : Op}
    (tagged : SoloTagged w)
    (alone : op.StartsAlone w) :
    SoloTagged ((perform platform op).state w) where
  solo := tagged.solo.perform alone
  tagged := tagged_of_performed (performed platform op w) tagged alone

theorem soloTagged_initial : SoloTagged World.initial where
  solo := solo_initial
  tagged := fun _ _ alive => by contradiction

/-- **Formats.** In a run with one game at a time, every frame carries the
format in force in its session, and only valid requests change it, exactly if
each operation meets its condition: whenever a session may hand a frame to the
closure before its first valid request, the host's format is 0RGB1555. -/
theorem formats_right_iff
    (platform : Platform)
    (ops : List Op)
    (alone : Along (perform platform) (fun w op => op.StartsAlone w)
      World.initial ops) :
    Throughout FormatRight (performAll platform ops) World.initial ↔
      Along (perform platform) (fun w op => op.FormatKnown w)
        World.initial ops :=
  throughout_each_iff_along SoloTagged
    (fun _ _ tagged _ => right_perform_iff platform tagged)
    (fun _ _ tagged alone _ => tagged.perform alone)
    ops World.initial soloTagged_initial alone

/-- A core that draws a frame without asking for a format. -/
def defaultFormatCore : CoreBehaviour where
  actions
    | .retroRun => [.calls (.videoRefresh (some 4096) 160 144 320)]
    | _ => []

/-- One frame of that core on a fresh host. -/
def defaultFormatRun : List Op :=
  [.create "pce", .setOnVideo 0 true, .start 0 defaultFormatCore [1] "a.pce",
    .runFrame 0 defaultFormatCore]

theorem startsAlone_defaultFormatRun :
    Along (perform pcePlatform) (fun w op => op.StartsAlone w)
      World.initial defaultFormatRun := by
  refine ⟨trivial, trivial, ?_, trivial, trivial⟩
  have solo := solo_performAll pcePlatform (defaultFormatRun.take 2)
    ⟨trivial, trivial, trivial⟩
  exact solo.idle_of_inactive rfl

theorem formats_right_iff_defaultFormatRun :
    Throughout FormatRight (performAll pcePlatform defaultFormatRun)
        World.initial ↔
      Along (perform pcePlatform) (fun w op => op.FormatKnown w)
        World.initial defaultFormatRun :=
  formats_right_iff pcePlatform defaultFormatRun startsAlone_defaultFormatRun

/-- Its frame is tagged XRGB8888, although the default is in force. -/
theorem defaultFormat_not_right :
    Along (perform pcePlatform) (fun w op => op.StartsAlone w)
        World.initial defaultFormatRun ∧
      ¬Throughout FormatRight (performAll pcePlatform defaultFormatRun)
        World.initial := by
  refine ⟨startsAlone_defaultFormatRun, ?_⟩
  intro right
  have framed := (throughout_each_cons _ _ _ _ _).mp
    (((throughout_each_cons _ _ _ _ _).mp
      (((throughout_each_cons _ _ _ _ _).mp
        (((throughout_each_cons _ _ _ _ _).mp right).2)).2)).2)
  have frame := framed.1 _ (List.mem_of_getElem? (i := 1) rfl)
  have tag := frame.1 0 _ List.mem_cons_self
  exact absurd tag (by decide)

end Host
end LibretroLab
