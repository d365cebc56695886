import LibretroLab.Host.State

/-!
# The libretro callbacks of the host

`handleEnvironment` and the six C callbacks, which reach the active host
through the global `gLibretroHost`. A callback takes the world to its answer,
the closure calls it makes, and the world it leaves.
-/

namespace LibretroLab
namespace Host

namespace Env

/-- `RETRO_ENVIRONMENT_GET_CAN_DUPE`. -/
def getCanDupe : UInt32 := 3

/-- `RETRO_ENVIRONMENT_GET_SYSTEM_DIRECTORY`. -/
def getSystemDirectory : UInt32 := 9

/-- `RETRO_ENVIRONMENT_SET_PIXEL_FORMAT`. -/
def setPixelFormat : UInt32 := 10

/-- `RETRO_ENVIRONMENT_GET_VARIABLE`. -/
def getVariable : UInt32 := 15

/-- `RETRO_ENVIRONMENT_SET_VARIABLES`. -/
def setVariables : UInt32 := 16

/-- `RETRO_ENVIRONMENT_GET_VARIABLE_UPDATE`. -/
def getVariableUpdate : UInt32 := 17

/-- `RETRO_ENVIRONMENT_SET_SUPPORT_NO_GAME`. -/
def setSupportNoGame : UInt32 := 18

/-- `RETRO_ENVIRONMENT_GET_SAVE_DIRECTORY`. -/
def getSaveDirectory : UInt32 := 31

/-- `RETRO_ENVIRONMENT_SET_CORE_OPTIONS`. -/
def setCoreOptions : UInt32 := 53

/-- `RETRO_ENVIRONMENT_SET_CORE_OPTIONS_INTL`. -/
def setCoreOptionsIntl : UInt32 := 54

/-- `RETRO_ENVIRONMENT_SET_CORE_OPTIONS_V2`. -/
def setCoreOptionsV2 : UInt32 := 67

/-- `RETRO_ENVIRONMENT_SET_CORE_OPTIONS_V2_INTL`. -/
def setCoreOptionsV2Intl : UInt32 := 68

end Env

/-- What the host stores through the data pointer of an environment request. -/
inductive Written
  | bool (value : Bool)
  | path (pointer : Option StringPtr)
  deriving DecidableEq

/-- The answer to an environment request. -/
structure EnvironmentReply where
  result : Bool
  written : Option Written := none
  deriving DecidableEq

/-- `LibretroHost.handleEnvironment`. The data pointer is `NULL` or points to
memory that holds the given 32-bit value. -/
def LibretroHost.handleEnvironment
    (self : LibretroHost)
    (cmd : UInt32)
    (data : Option Int32) :
    EnvironmentReply × LibretroHost :=
  if cmd = Env.getCanDupe then
    (⟨true, data.map fun _ => .bool true⟩, self)
  else if cmd = Env.setPixelFormat then
    match data with
    | none => (⟨false, none⟩, self)
    | some raw =>
        match PixelFormat.ofRawValue raw with
        | some fmt => (⟨true, none⟩, { self with pixelFormat := fmt })
        | none => (⟨false, none⟩, self)
  else if cmd = Env.getSystemDirectory then
    (⟨true, data.map fun _ => .path self.systemDirC⟩, self)
  else if cmd = Env.getSaveDirectory then
    (⟨true, data.map fun _ => .path self.saveDirC⟩, self)
  else if cmd = Env.getVariableUpdate then
    (⟨true, data.map fun _ => .bool false⟩, self)
  else if cmd = Env.getVariable then
    (⟨false, none⟩, self)
  else if cmd = Env.setVariables ∨ cmd = Env.setCoreOptions ∨
      cmd = Env.setCoreOptionsIntl ∨ cmd = Env.setCoreOptionsV2 ∨
      cmd = Env.setCoreOptionsV2Intl ∨ cmd = Env.setSupportNoGame then
    (⟨true, none⟩, self)
  else
    (⟨false, none⟩, self)

/-- A call that a core makes back, with its arguments. Samples behind a
pointer are the memory from there on. -/
inductive Callback
  | environment (cmd : UInt32) (data : Option Int32)
  | videoRefresh (data : Option UInt64) (width height : UInt32) (pitch : Int)
  | audioSample (left right : Int16)
  | audioSampleBatch (data : Option (List Int16)) (frames : Int)
  | inputPoll
  | inputState (port device index id : UInt32)
  deriving DecidableEq

/-- What a callback returns to the core. -/
inductive Answer
  | void
  | environment (reply : EnvironmentReply)
  | audioSampleBatch (frames : Int)
  | inputState (value : Int16)
  deriving DecidableEq

/-- A call of one of the two closures of a host. -/
inductive ClosureCall
  | onVideo (host : HostId) (frame : Option VideoFrame)
  | onAudio (host : HostId) (samples : List Int16) (frames : Int)
  deriving DecidableEq

/-- All that comes out of a callback. -/
structure Response where
  answer : Answer
  closures : List ClosureCall := []
  deriving DecidableEq

/-- `host.onVideo?(frame)`. -/
def LibretroHost.callOnVideo
    (host : LibretroHost)
    (h : HostId)
    (frame : Option VideoFrame) : List ClosureCall :=
  if host.onVideo then [.onVideo h frame] else []

/-- `host.onAudio?(samples, frames)`. -/
def LibretroHost.callOnAudio
    (host : LibretroHost)
    (h : HostId)
    (samples : List Int16)
    (frames : Int) : List ClosureCall :=
  if host.onAudio then [.onAudio h samples frames] else []

namespace World

/-- `environmentCallback`. -/
def environmentCallback (cmd : UInt32) (data : Option Int32) (w : World) :
    Response × World :=
  match w.activeHost with
  | none => (⟨.environment ⟨false, none⟩, []⟩, w)
  | some (h, host) =>
      let (reply, host') := host.handleEnvironment cmd data
      (⟨.environment reply, []⟩, w.modifyHost h fun _ => host')

/-- `videoRefreshCallback`. -/
def videoRefreshCallback
    (data : Option UInt64)
    (width height : UInt32)
    (pitch : Int)
    (w : World) : Response :=
  match w.activeHost with
  | none => ⟨.void, []⟩
  | some (h, host) =>
      match data with
      | none => ⟨.void, host.callOnVideo h none⟩
      | some data =>
          ⟨.void, host.callOnVideo h (some
            { data := data
              width := width.toNat
              height := height.toNat
              pitch := pitch
              format := host.pixelFormat })⟩

/-- `audioSampleCallback`. -/
def audioSampleCallback (left right : Int16) (w : World) : Response :=
  match w.activeHost with
  | none => ⟨.void, []⟩
  | some (h, host) => ⟨.void, host.callOnAudio h [left, right] 1⟩

/-- `audioSampleBatchCallback`. -/
def audioSampleBatchCallback
    (data : Option (List Int16))
    (frames : Int)
    (w : World) : Response :=
  match w.activeHost, data with
  | some (h, host), some data =>
      ⟨.audioSampleBatch frames, host.callOnAudio h data frames⟩
  | _, _ => ⟨.audioSampleBatch frames, []⟩

/-- `inputPollCallback`. -/
def inputPollCallback : Response := ⟨.void, []⟩

/-- `inputStateCallback`. -/
def inputStateCallback (port device _index id : UInt32) (w : World) :
    Response :=
  match w.activeHost with
  | none => ⟨.inputState 0, []⟩
  | some (_, host) =>
      if valid : port = 0 ∧ device = 1 ∧ id < 16 then
        ⟨.inputState (host.buttons.get
          ⟨id.toNat, UInt32.lt_iff_toNat_lt.mp valid.2.2⟩), []⟩
      else ⟨.inputState 0, []⟩

/-- The registered callback that a core's call runs. -/
def respond (callback : Callback) (w : World) : Response × World :=
  match callback with
  | .environment cmd data => w.environmentCallback cmd data
  | .videoRefresh data width height pitch =>
      (w.videoRefreshCallback data width height pitch, w)
  | .audioSample left right => (w.audioSampleCallback left right, w)
  | .audioSampleBatch data frames =>
      (w.audioSampleBatchCallback data frames, w)
  | .inputPoll => (inputPollCallback, w)
  | .inputState port device index id =>
      (w.inputStateCallback port device index id, w)

/-- What the core learns from an answer: the format of a request for a pixel
format that was answered true. -/
def hear
    (core : CoreId)
    (callback : Callback)
    (response : Response)
    (w : World) : World :=
  match callback, response.answer with
  | .environment cmd (some raw), .environment ⟨true, _⟩ =>
      if cmd = Env.setPixelFormat then
        { w with
          granted := Function.update w.granted core
            (PixelFormat.ofRawValue raw) }
      else w
  | _, _ => w

end World

/-- What happens while a core runs: it calls back, or the input layer writes
an element of a host's button array. -/
inductive CoreAction
  | calls (callback : Callback)
  | writeButton (host : HostId) (id : Fin 16) (value : Int16)
  deriving DecidableEq

/-- The format of a well-formed request for a pixel format. -/
def Callback.format : Callback → Option PixelFormat
  | .environment cmd (some raw) =>
      if cmd = Env.setPixelFormat then PixelFormat.ofRawValue raw else none
  | _ => none

/-- The format of an action that is a well-formed request for one. -/
def CoreAction.format : CoreAction → Option PixelFormat
  | .calls callback => callback.format
  | .writeButton _ _ _ => none

/-- The last format that the actions ask for. -/
def lastFormat (actions : List CoreAction) : Option PixelFormat :=
  (actions.filterMap CoreAction.format).getLast?

/-- `buttons[id] = value`. -/
def LibretroHost.setButton
    (id : Fin 16)
    (value : Int16)
    (host : LibretroHost) : LibretroHost :=
  { host with buttons := host.buttons.set id.val value id.isLt }

/-- One write to the button array of `h`. -/
def CoreAction.press
    (h : HostId)
    (buttons : Vector Int16 16) : CoreAction → Vector Int16 16
  | .calls _ => buttons
  | .writeButton host id value =>
      if host = h then buttons.set id.val value id.isLt else buttons

/-- The button array of `h` after the writes among the actions. -/
def pressed
    (h : HostId)
    (actions : List CoreAction)
    (buttons : Vector Int16 16) : Vector Int16 16 :=
  actions.foldl (CoreAction.press h) buttons

/-- What actions leave of the host `h`, when callbacks reach it or not. -/
def LibretroHost.played
    (reached : Bool)
    (h : HostId)
    (actions : List CoreAction)
    (host : LibretroHost) : LibretroHost :=
  { host with
    pixelFormat :=
      if reached then (lastFormat actions).getD host.pixelFormat
      else host.pixelFormat
    buttons := pressed h actions host.buttons }

/-! ## Spec lemmas of the callbacks -/

@[simp] theorem lastFormat_nil : lastFormat [] = none := rfl

theorem lastFormat_append (first second : List CoreAction) :
    lastFormat (first ++ second) =
      (lastFormat second).or (lastFormat first) := by
  unfold lastFormat
  rw [List.filterMap_append, List.getLast?_append]

@[simp] theorem pressed_nil (h : HostId) (buttons : Vector Int16 16) :
    pressed h [] buttons = buttons := rfl

theorem pressed_append
    (h : HostId)
    (first second : List CoreAction)
    (buttons : Vector Int16 16) :
    pressed h (first ++ second) buttons =
      pressed h second (pressed h first buttons) :=
  List.foldl_append

@[simp] theorem pressed_calls
    (h : HostId) (callback : Callback) (buttons : Vector Int16 16) :
    pressed h [.calls callback] buttons = buttons := rfl

@[simp] theorem LibretroHost.played_nil (reached : Bool) (h : HostId) :
    LibretroHost.played reached h [] = id := by
  cases reached <;> rfl

theorem LibretroHost.played_of_unread
    (reached : Bool)
    (h : HostId)
    {callback : Callback}
    (noFormat : callback.format = none) :
    LibretroHost.played reached h [.calls callback] = id := by
  funext host
  cases reached <;>
    simp [LibretroHost.played, lastFormat, CoreAction.format, noFormat]

theorem LibretroHost.played_of_format
    (h : HostId)
    {callback : Callback}
    {fmt : PixelFormat}
    (asked : callback.format = some fmt) :
    LibretroHost.played true h [.calls callback] =
      fun host => { host with pixelFormat := fmt } := by
  funext host
  simp [LibretroHost.played, lastFormat, CoreAction.format, asked]

@[simp] theorem LibretroHost.played_unreached
    (h : HostId) (callback : Callback) :
    LibretroHost.played false h [.calls callback] = id := rfl

theorem LibretroHost.played_writeButton
    (reached : Bool)
    (h : HostId)
    (button : Fin 16)
    (value : Int16) :
    LibretroHost.played reached h [.writeButton h button value] =
      LibretroHost.setButton button value := by
  funext host
  cases reached <;>
    simp [LibretroHost.played, LibretroHost.setButton, lastFormat,
      CoreAction.format, pressed, CoreAction.press]

theorem LibretroHost.played_writeButton_other
    {h other : HostId}
    (differs : h ≠ other)
    (reached : Bool)
    (button : Fin 16)
    (value : Int16) :
    LibretroHost.played reached other [.writeButton h button value] = id := by
  funext host
  cases reached <;>
    simp [LibretroHost.played, lastFormat, CoreAction.format, pressed,
      CoreAction.press, differs]

theorem LibretroHost.played_append
    (reached : Bool)
    (h : HostId)
    (first second : List CoreAction) :
    LibretroHost.played reached h (first ++ second) =
      LibretroHost.played reached h second ∘
        LibretroHost.played reached h first := by
  funext host
  cases reached with
  | false => simp [LibretroHost.played, pressed_append]
  | true =>
      simp [LibretroHost.played, pressed_append, lastFormat_append,
        Option.getD_or]

theorem Callback.format_environment_eq_some_iff
    (cmd : UInt32)
    (data : Option Int32)
    (fmt : PixelFormat) :
    (Callback.environment cmd data).format = some fmt ↔
      cmd = Env.setPixelFormat ∧
        ∃ raw, data = some raw ∧ PixelFormat.ofRawValue raw = some fmt := by
  cases data with
  | none => simp [Callback.format]
  | some raw => simp [Callback.format]

/-- An environment request changes the pixel format of the host and nothing
else, and only when it is a well-formed request for one. -/
theorem handleEnvironment_snd
    (self : LibretroHost)
    (cmd : UInt32)
    (data : Option Int32) :
    (self.handleEnvironment cmd data).2 =
      { self with
        pixelFormat := ((Callback.environment cmd data).format).getD
          self.pixelFormat } := by
  unfold LibretroHost.handleEnvironment
  by_cases isDupe : cmd = Env.getCanDupe
  · subst isDupe
    cases data <;> rfl
  · by_cases isFormat : cmd = Env.setPixelFormat
    · subst isFormat
      cases data with
      | none => rfl
      | some raw =>
          cases found : PixelFormat.ofRawValue raw <;>
            simp [Env.setPixelFormat, Env.getCanDupe, Callback.format, found]
    · have noFormat : (Callback.environment cmd data).format = none := by
        cases data <;> simp [Callback.format, isFormat]
      simp only [isDupe, isFormat, if_false, noFormat, Option.getD_none]
      split_ifs <;> rfl

/-- A request for a pixel format is answered true exactly when it is
well-formed. -/
theorem handleEnvironment_setPixelFormat
    (self : LibretroHost)
    (data : Option Int32) :
    (self.handleEnvironment Env.setPixelFormat data).1 =
      ⟨(Callback.environment Env.setPixelFormat data).format.isSome,
        none⟩ := by
  cases data with
  | none => rfl
  | some raw =>
      cases found : PixelFormat.ofRawValue raw <;>
        simp [LibretroHost.handleEnvironment, Env.setPixelFormat,
          Env.getCanDupe, Callback.format, found]

namespace World

theorem activeHost_eq_some_iff
    (w : World)
    (h : HostId)
    (host : LibretroHost) :
    w.activeHost = some (h, host) ↔
      w.gLibretroHost = some h ∧ w.hosts h = some host := by
  unfold activeHost
  cases found : w.gLibretroHost with
  | none => simp
  | some active =>
      simp only [Option.bind_some, Option.map_eq_some_iff, Prod.mk.injEq,
        Option.some.injEq]
      constructor
      · rintro ⟨value, alive, rfl, rfl⟩
        exact ⟨rfl, alive⟩
      · rintro ⟨rfl, alive⟩
        exact ⟨host, alive, rfl, rfl⟩

theorem activeHost_of
    {w : World}
    (routed : w.gLibretroHost = some h)
    (alive : w.hosts h = some host) :
    w.activeHost = some (h, host) :=
  (activeHost_eq_some_iff w h host).mpr ⟨routed, alive⟩

/-- What actions of `core` leave of the world: the active host has the last
format asked for, which the core was granted, and the buttons are written. -/
def played (core : CoreId) (actions : List CoreAction) (w : World) : World :=
  { w with
    hosts := fun h => (w.hosts h).map
      (LibretroHost.played (w.gLibretroHost = some h) h actions)
    granted :=
      if w.activeHost.isSome then
        Function.update w.granted core
          ((lastFormat actions).or (w.granted core))
      else w.granted }

@[simp] theorem gLibretroHost_played
    (core : CoreId) (actions : List CoreAction) (w : World) :
    (w.played core actions).gLibretroHost = w.gLibretroHost := rfl

@[simp] theorem owned_played
    (core : CoreId) (actions : List CoreAction) (w : World) :
    (w.played core actions).owned = w.owned := rfl

@[simp] theorem strings_played
    (core : CoreId) (actions : List CoreAction) (w : World) :
    (w.played core actions).strings = w.strings := rfl

@[simp] theorem nextHost_played
    (core : CoreId) (actions : List CoreAction) (w : World) :
    (w.played core actions).nextHost = w.nextHost := rfl

@[simp] theorem nextString_played
    (core : CoreId) (actions : List CoreAction) (w : World) :
    (w.played core actions).nextString = w.nextString := rfl

@[simp] theorem cores_played
    (core : CoreId) (actions : List CoreAction) (w : World) :
    (w.played core actions).cores = w.cores := rfl

theorem hosts_played
    (core : CoreId)
    (actions : List CoreAction)
    (w : World)
    (h : HostId) :
    (w.played core actions).hosts h =
      (w.hosts h).map
        (LibretroHost.played (w.gLibretroHost = some h) h actions) := rfl

theorem granted_played (core : CoreId) (actions : List CoreAction) (w : World) :
    (w.played core actions).granted =
      if w.activeHost.isSome then
        Function.update w.granted core
          ((lastFormat actions).or (w.granted core))
      else w.granted := rfl

@[simp] theorem isSome_activeHost_played
    (core : CoreId)
    (actions : List CoreAction)
    (w : World) :
    (w.played core actions).activeHost.isSome = w.activeHost.isSome := by
  unfold activeHost
  cases routed : w.gLibretroHost with
  | none => simp [routed]
  | some active => simp [routed, hosts_played]

@[simp] theorem played_nil (core : CoreId) (w : World) :
    w.played core [] = w := by
  apply World.ext <;> simp [played]

theorem played_append
    (core : CoreId)
    (first second : List CoreAction)
    (w : World) :
    w.played core (first ++ second) =
      (w.played core first).played core second := by
  apply World.ext
  case hosts =>
    funext h
    rw [hosts_played, hosts_played, hosts_played, Option.map_map,
      gLibretroHost_played, LibretroHost.played_append]
  case granted =>
    rw [granted_played, granted_played, granted_played,
      isSome_activeHost_played]
    by_cases active : w.activeHost.isSome
    · simp [active, lastFormat_append, Option.or_assoc]
    · simp [active]
  all_goals rfl

/-- Actions that ask for no format and write no button leave nothing. -/
theorem played_of_unread
    (core : CoreId)
    (callback : Callback)
    (noFormat : callback.format = none)
    (w : World) :
    w.played core [.calls callback] = w := by
  apply World.ext <;>
    simp [played, LibretroHost.played_of_unread _ _ noFormat, lastFormat,
      CoreAction.format, noFormat]

/-- Nothing is granted while no host is active. -/
theorem played_of_inactive
    (core : CoreId)
    (callback : Callback)
    {w : World}
    (inactive : w.activeHost = none) :
    w.played core [.calls callback] = w := by
  apply World.ext
  case hosts =>
    funext h
    rw [hosts_played]
    cases alive : w.hosts h with
    | none => rfl
    | some host =>
        have notRouted : w.gLibretroHost ≠ some h := by
          intro routed
          rw [activeHost_of routed alive] at inactive
          contradiction
        simp [notRouted]
  case granted => simp [granted_played, inactive]
  all_goals rfl

/-- A well-formed request for a format, as the world sees it. -/
theorem played_of_format
    (core : CoreId)
    {callback : Callback}
    {fmt : PixelFormat}
    (asked : callback.format = some fmt)
    {w : World}
    (active : w.activeHost = some (h, host)) :
    w.played core [.calls callback] =
      { w.modifyHost h fun host => { host with pixelFormat := fmt } with
        granted := Function.update w.granted core (some fmt) } := by
  obtain ⟨routed, alive⟩ := (activeHost_eq_some_iff w h host).mp active
  apply World.ext
  case hosts =>
    funext other
    rw [hosts_played]
    by_cases same : other = h
    · subst same
      simp [modifyHost, routed, LibretroHost.played_of_format _ asked]
    · have notRouted : w.gLibretroHost ≠ some other := by
        rw [routed]
        exact fun equal => same (Option.some.inj equal).symm
      simp [modifyHost, same, notRouted]
  case granted =>
    simp [granted_played, active, lastFormat, CoreAction.format, asked]
  all_goals rfl

/-- A write to a button array, as the world sees it. -/
theorem played_writeButton
    (core : CoreId)
    (h : HostId)
    (button : Fin 16)
    (value : Int16)
    (w : World) :
    w.played core [.writeButton h button value] =
      w.modifyHost h (LibretroHost.setButton button value) := by
  apply World.ext
  case hosts =>
    funext other
    rw [hosts_played]
    by_cases same : other = h
    · subst same
      simp [modifyHost, LibretroHost.played_writeButton]
    · simp [modifyHost, same,
        LibretroHost.played_writeButton_other (Ne.symm same)]
  case granted =>
    simp [granted_played, lastFormat, CoreAction.format, modifyHost]
  all_goals rfl

/-- A core that gets no well-formed request through learns nothing. -/
theorem hear_of_unread
    (core : CoreId)
    {cmd : UInt32}
    {data : Option Int32}
    (noFormat : (Callback.environment cmd data).format = none)
    (host : LibretroHost)
    (closures : List ClosureCall)
    (w : World) :
    w.hear core (.environment cmd data)
      ⟨.environment (host.handleEnvironment cmd data).1, closures⟩ = w := by
  by_cases isFormat : cmd = Env.setPixelFormat
  · subst isFormat
    rw [handleEnvironment_setPixelFormat, noFormat]
    cases data <;> rfl
  · cases data with
    | none => rfl
    | some raw =>
        obtain ⟨result, written⟩ := (host.handleEnvironment cmd (some raw)).1
        cases result <;> simp [hear, isFormat]

/-- A callback of a core leaves in the world just what it asked for. -/
theorem hear_respond
    (core : CoreId)
    (callback : Callback)
    (w : World) :
    (w.respond callback).2.hear core callback (w.respond callback).1 =
      w.played core [.calls callback] := by
  cases callback with
  | environment cmd data =>
      cases active : w.activeHost with
      | none =>
          rw [played_of_inactive core _ active]
          simp only [respond, environmentCallback, active]
          cases data <;> rfl
      | some found =>
          obtain ⟨h, host⟩ := found
          obtain ⟨_, alive⟩ := (activeHost_eq_some_iff w h host).mp active
          simp only [respond, environmentCallback, active]
          rw [handleEnvironment_snd]
          cases asked : (Callback.environment cmd data).format with
          | none =>
              rw [played_of_unread core _ asked,
                hear_of_unread core asked]
              simp only [modifyHost, alive, Option.map_some,
                Option.getD_none]
              rw [← alive, Function.update_eq_self]
          | some fmt =>
              rw [played_of_format core asked active]
              obtain ⟨rfl, raw, rfl, found⟩ :=
                (Callback.format_environment_eq_some_iff _ _ _).mp asked
              rw [handleEnvironment_setPixelFormat, asked]
              simp [hear, found, modifyHost, alive]
  | videoRefresh data width height pitch =>
      exact (played_of_unread core _ rfl w).symm
  | audioSample left right => exact (played_of_unread core _ rfl w).symm
  | audioSampleBatch data frames =>
      exact (played_of_unread core _ rfl w).symm
  | inputPoll => exact (played_of_unread core _ rfl w).symm
  | inputState port device index id =>
      exact (played_of_unread core _ rfl w).symm

end World

end Host
end LibretroLab
