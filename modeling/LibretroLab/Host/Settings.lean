import LibretroLab.Host.LastStart

/-!
# What was set decides what callbacks do

The buttons, the pixel format and the closures of a host are what the changes
made to them, in order, leave: stores of the program, writes of the input layer
while a core runs, and granted requests of cores. Together with the last
`start` this history decides what every callback delivers and reads.
-/

namespace LibretroLab
namespace Host

open Recorder Registry

/-- The part of a host that callbacks read, besides its directories. -/
structure Settings where
  buttons : Vector Int16 16 := Vector.replicate 16 0
  pixelFormat : PixelFormat := .xrgb8888
  onVideo : Bool := false
  onAudio : Bool := false
  deriving DecidableEq

/-- The settings of a host. -/
def LibretroHost.settings (host : LibretroHost) : Settings where
  buttons := host.buttons
  pixelFormat := host.pixelFormat
  onVideo := host.onVideo
  onAudio := host.onAudio

/-- A change of one setting. -/
inductive Change
  | button (id : Fin 16) (value : Int16)
  | format (format : PixelFormat)
  | onVideo (isSet : Bool)
  | onAudio (isSet : Bool)
  deriving DecidableEq

namespace Settings

/-- Settings after a change. -/
def change (settings : Settings) : Change → Settings
  | .button id value =>
      { settings with
        buttons := settings.buttons.setIfInBounds id value }
  | .format format => { settings with pixelFormat := format }
  | .onVideo isSet => { settings with onVideo := isSet }
  | .onAudio isSet => { settings with onAudio := isSet }

/-- The closures of `h` that a callback is to call. -/
def delivers (settings : Settings) (h : HostId) : Callback → List ClosureCall
  | .videoRefresh data width height pitch =>
      if settings.onVideo then
        [.onVideo h (data.map fun data =>
          { data := data
            width := width.toNat
            height := height.toNat
            pitch := pitch
            format := settings.pixelFormat })]
      else []
  | .audioSample left right =>
      if settings.onAudio then [.onAudio h [left, right] 1] else []
  | .audioSampleBatch (some data) frames =>
      if settings.onAudio then [.onAudio h data frames] else []
  | _ => []

/-- What a query is to read: a button of the joypad on the first port, or zero
where there is none. -/
def reads (settings : Settings) (port device id : UInt32) : Int16 :=
  if port = 0 ∧ device = 1 then (settings.buttons[id.toNat]?).getD 0 else 0

end Settings

/-- The settings of a host after changes of all hosts. -/
def replay (changes : List (HostId × Change)) (h : HostId) : Settings :=
  (changes.filter (·.1 = h)).foldl
    (fun settings change => settings.change change.2) {}

/-- The changes that a step inside an operation makes: a button of a live host
is written, or the host that callbacks reach is asked for a format. -/
def changes (moment : Moment World Event) : List (HostId × Change) :=
  match moment.event with
  | .buttonWritten h id value =>
      if (moment.before.hosts h).isSome then [(h, .button id value)] else []
  | .callback _ callback _ =>
      match moment.before.reached, callback.format with
      | some h, some format => [(h, .format format)]
      | _, _ => []
  | _ => []

namespace Op

/-- The change that an operation stores itself. -/
def stores : Op → List (HostId × Change)
  | .setOnVideo h isSet => [(h, .onVideo isSet)]
  | .setOnAudio h isSet => [(h, .onAudio isSet)]
  | .writeButton h id value => [(h, .button id value)]
  | _ => []

/-- The changes that an operation makes. A store needs a reference to the
host. -/
def changes (platform : Platform) (w : World) (op : Op) :
    List (HostId × Change) :=
  (op.stores.filter fun change => (w.callable change.1).isSome) ++
    ((perform platform op).log w).flatMap Host.changes

end Op

/-- The changes that a run makes, in order. -/
def history (platform : Platform) : World → List Op → List (HostId × Change)
  | _, [] => []
  | w, op :: rest =>
      op.changes platform w ++
        history platform ((perform platform op).state w) rest

/-- A callback that reaches the given host calls its closures and reads its
buttons as its settings say, and without a host it does nothing. -/
structure Decided
    (target : Option HostId)
    (settings : HostId → Settings)
    (moment : Moment World Event) : Prop where
  delivers : ∀ core callback response,
    moment.event = .callback core callback response →
      response.closures =
        target.elim [] fun h => (settings h).delivers h callback
  reads : ∀ core port device index id response,
    moment.event =
        .callback core (.inputState port device index id) response →
      response.answer = .inputState
        (target.elim 0 fun h => (settings h).reads port device id)

/-! ## Replaying -/

@[simp] theorem replay_nil (h : HostId) : replay [] h = {} := rfl

theorem replay_append_self
    (past : List (HostId × Change))
    (h : HostId)
    (change : Change) :
    replay (past ++ [(h, change)]) h = (replay past h).change change := by
  simp [replay, List.filter_append]

theorem replay_append_other
    {h other : HostId}
    (differs : other ≠ h)
    (past : List (HostId × Change))
    (change : Change) :
    replay (past ++ [(h, change)]) other = replay past other := by
  simp [replay, List.filter_append, Ne.symm differs]

/-- A host that nothing happened to has the initial settings. -/
theorem replay_of_absent
    {past : List (HostId × Change)}
    {h : HostId}
    (absent : ∀ change ∈ past, change.1 ≠ h) :
    replay past h = {} := by
  have none_left : past.filter (·.1 = h) = [] := by
    rw [List.filter_eq_nil_iff]
    exact fun change member => by simpa using absent change member
  rw [replay, none_left, List.foldl_nil]

/-! ## What one callback does -/

/-- The closures that a callback calls are those of the active host. -/
theorem closures_respond (callback : Callback) (w : World) :
    (w.respond callback).1.closures =
      w.activeHost.elim [] fun active =>
        active.2.settings.delivers active.1 callback := by
  cases active : w.activeHost with
  | none =>
      cases callback with
      | environment cmd data =>
          simp [World.respond, World.environmentCallback, active]
      | videoRefresh data width height pitch =>
          simp [World.respond, World.videoRefreshCallback, active]
      | audioSample left right =>
          simp [World.respond, World.audioSampleCallback, active]
      | audioSampleBatch data frames =>
          simp [World.respond, World.audioSampleBatchCallback, active]
      | inputPoll => rfl
      | inputState port device index id =>
          simp [World.respond, World.inputStateCallback, active]
  | some found =>
      obtain ⟨h, host⟩ := found
      cases callback with
      | environment cmd data =>
          simp [World.respond, World.environmentCallback, active,
            Settings.delivers]
      | videoRefresh data width height pitch =>
          simp only [World.respond, World.videoRefreshCallback, active]
          cases data <;> rfl
      | audioSample left right =>
          simp only [World.respond, World.audioSampleCallback, active]
          rfl
      | audioSampleBatch data frames =>
          simp only [World.respond, World.audioSampleBatchCallback, active]
          cases data <;> rfl
      | inputPoll => rfl
      | inputState port device index id =>
          simp only [World.respond, World.inputStateCallback, active]
          split_ifs <;> rfl

/-- An input query reads the active host. -/
theorem answer_inputState
    (port device index id : UInt32)
    (w : World) :
    (w.respond (.inputState port device index id)).1.answer = .inputState
      (w.activeHost.elim 0 fun active =>
        active.2.settings.reads port device id) := by
  cases active : w.activeHost with
  | none => simp [World.respond, World.inputStateCallback, active]
  | some found =>
      simp only [World.respond, World.inputStateCallback, active,
        Option.elim_some, Settings.reads]
      by_cases inRange : id < 16
      · have bound : id.toNat < 16 := UInt32.lt_iff_toNat_lt.mp inRange
        simp only [inRange, and_true, Vector.getElem?_eq_getElem bound,
          Option.getD_some]
        split_ifs <;> rfl
      · have beyond : 16 ≤ id.toNat :=
          not_lt.mp fun below => inRange (UInt32.lt_iff_toNat_lt.mpr below)
        simp [inRange, Vector.getElem?_eq_none beyond]

/-! ## The settings follow the history -/

/-- The settings of every live host are what the history leaves, which knows
only hosts that have been created. -/
structure Recorded (past : List (HostId × Change)) (w : World) : Prop where
  bounded : w.Bounded
  born : ∀ change ∈ past, change.1 < w.nextHost
  settings : ∀ h host, w.hosts h = some host →
    host.settings = replay past h

/-- The live hosts were alive before, with the same settings. -/
structure SettingsKept (w w' : World) : Prop where
  next : w'.nextHost = w.nextHost
  hosts : ∀ h, w'.hosts h = none ∨
    (w'.hosts h).map LibretroHost.settings =
      (w.hosts h).map LibretroHost.settings

theorem recorded_initial : Recorded [] World.initial where
  bounded := bounded_initial
  born := fun _ member => by contradiction
  settings := fun _ _ alive => by contradiction

section Recorded

variable {past : List (HostId × Change)} {w w' : World} {self : HostId}

theorem Recorded.map_settings
    (recorded : Recorded past w)
    (h : HostId) :
    (w.hosts h).map LibretroHost.settings =
      (w.hosts h).map fun _ => replay past h :=
  Option.map_congr fun host alive => recorded.settings h host alive

/-- Hosts with the settings that the history leaves. -/
theorem Recorded.of_map_settings
    (bounded : w.Bounded)
    (born : ∀ change ∈ past, change.1 < w.nextHost)
    (settings : ∀ h, w.hosts h = none ∨
      ∃ host : Option LibretroHost, (w.hosts h).map LibretroHost.settings =
        host.map fun _ => replay past h) :
    Recorded past w where
  bounded := bounded
  born := born
  settings := by
    intro h host alive
    rcases settings h with dead | ⟨before, same⟩
    · rw [alive] at dead
      contradiction
    · rw [alive, Option.map_some, eq_comm, Option.map_eq_some_iff] at same
      obtain ⟨_, _, same⟩ := same
      exact same.symm

theorem Recorded.kept
    (recorded : Recorded past w)
    (kept : SettingsKept w w') :
    Recorded past w' := by
  apply Recorded.of_map_settings
  · refine recorded.bounded.of_alive kept.next fun h dead => ?_
    rcases kept.hosts h with gone | same
    · exact gone
    · rw [dead] at same
      exact Option.map_eq_none_iff.mp same
  · rw [kept.next]
    exact recorded.born
  · intro h
    refine (kept.hosts h).imp_right fun same => ⟨w.hosts h, ?_⟩
    rw [same, recorded.map_settings]

/-- One setting of one live host changes. -/
theorem Recorded.changed
    {change : Change}
    (recorded : Recorded past w)
    (alive : w.hosts self ≠ none)
    (next : w'.nextHost = w.nextHost)
    (own : (w'.hosts self).map LibretroHost.settings =
      (w.hosts self).map fun host => host.settings.change change)
    (others : ∀ h, h ≠ self → (w'.hosts h).map LibretroHost.settings =
      (w.hosts h).map LibretroHost.settings) :
    Recorded (past ++ [(self, change)]) w' := by
  have same (h : HostId) : (w'.hosts h).map LibretroHost.settings =
      (w.hosts h).map fun _ => replay (past ++ [(self, change)]) h := by
    by_cases isSelf : h = self
    · subst isSelf
      rw [own, replay_append_self]
      exact Option.map_congr fun host found => by
        rw [recorded.settings h host found]
    · rw [others h isSelf, replay_append_other isSelf, recorded.map_settings]
  apply Recorded.of_map_settings
  · refine recorded.bounded.of_alive next fun h dead => ?_
    have gone := same h
    rw [dead] at gone
    exact Option.map_eq_none_iff.mp gone
  · intro earlier member
    rw [next]
    rcases List.mem_append.mp member with before | now
    · exact recorded.born earlier before
    · obtain rfl := List.mem_singleton.mp now
      obtain ⟨host, found⟩ := Option.ne_none_iff_exists'.mp alive
      exact recorded.bounded self host found
  · exact fun h => Or.inr ⟨w.hosts h, same h⟩

/-- A new host has the initial settings. -/
theorem Recorded.allocateHost
    (recorded : Recorded past w)
    (platform : Platform)
    (name : String)
    (entry : CoreId) :
    Recorded past (w.allocateHost platform name entry) where
  bounded := bounded_allocateHost recorded.bounded platform name entry
  born := fun change member =>
    (recorded.born change member).trans (Nat.lt_succ_self _)
  settings := by
    intro h host alive
    by_cases isNew : h = w.nextHost
    · subst isNew
      have unborn : replay past w.nextHost = {} :=
        replay_of_absent fun change member =>
          (recorded.born change member).ne
      simp only [World.allocateHost, Function.update_self,
        Option.some.injEq] at alive
      rw [unborn, ← alive]
      rfl
    · rw [World.hosts_allocateHost_of_ne isNew] at alive
      exact recorded.settings h host alive

end Recorded

section Kept

variable (w : World)

theorem settingsKept_of_hosts_eq
    {w' : World}
    (next : w'.nextHost = w.nextHost)
    (same : w'.hosts = w.hosts) :
    SettingsKept w w' :=
  ⟨next, fun h => Or.inr (by rw [same])⟩

theorem settingsKept_modifyHost
    {f : LibretroHost → LibretroHost}
    (same : ∀ host, (f host).settings = host.settings)
    (self : HostId) :
    SettingsKept w (w.modifyHost self f) := by
  refine ⟨rfl, fun h => Or.inr ?_⟩
  rw [World.hosts_modifyHost]
  by_cases isSelf : h = self
  · subst isSelf
    rw [Function.update_self, Option.map_map]
    exact Option.map_congr fun host _ => same host
  · rw [Function.update_of_ne isSelf]

theorem settingsKept_assignGlobal (value : Option HostId) :
    SettingsKept w (w.assignGlobal value) := by
  refine ⟨by simp, fun h => ?_⟩
  rw [World.hosts_assignGlobal]
  split_ifs
  · exact Or.inl rfl
  · exact Or.inr rfl

theorem settingsKept_dropOwner (self : HostId) :
    SettingsKept w (w.dropOwner self) := by
  refine ⟨by simp [World.dropOwner], fun h => ?_⟩
  rw [World.dropOwner, World.hosts_release]
  split_ifs
  · exact Or.inl rfl
  · exact Or.inr rfl

end Kept

/-! ## Step by step -/

/-- A callback is decided by the host it reaches and what was set before. -/
abbrev DecidedHere
    (past : List (HostId × Change))
    (moment : Moment World Event) : Prop :=
  Decided moment.before.reached (replay past) moment

/-- Steps that are neither callbacks nor writes of the input layer. -/
def Event.Silent : Event → Prop
  | .callback _ _ _ | .buttonWritten _ _ _ => False
  | _ => True

theorem decided_of_no_callback
    {target : Option HostId}
    {settings : HostId → Settings}
    {moment : Moment World Event}
    (noCallback : ∀ core callback response,
      moment.event ≠ .callback core callback response) :
    Decided target settings moment where
  delivers := fun core callback response isCallback =>
    absurd isCallback (noCallback core callback response)
  reads := fun core _ _ _ _ response isCallback =>
    absurd isCallback (noCallback core _ response)

theorem Event.Silent.changes_eq
    {event : Event}
    (silent : event.Silent)
    (before after : World) :
    changes ⟨before, event, after⟩ = [] := by
  cases event <;> first | rfl | exact absurd silent id

theorem Event.Silent.ne_callback
    {event : Event}
    (silent : event.Silent)
    (core : CoreId)
    (callback : Callback)
    (response : Response) :
    event ≠ .callback core callback response := by
  rintro rfl
  exact silent

theorem recalls_emit
    {event : Event}
    {update : World → World}
    (silent : event.Silent)
    (kept : ∀ w, SettingsKept w (update w)) :
    Recalls changes DecidedHere Recorded (emit event update) := by
  apply Recalls.emit
  · exact fun _ _ _ => decided_of_no_callback silent.ne_callback
  · intro past w recorded
    rw [silent.changes_eq, List.append_nil]
    exact recorded.kept (kept w)

theorem recalls_assigned
    {update : World → World}
    (kept : ∀ w, SettingsKept w (update w)) :
    Recalls changes DecidedHere Recorded (emit .assigned update) :=
  recalls_emit True.intro kept

/-- A callback does what the history says. -/
theorem Recorded.decided
    {past : List (HostId × Change)}
    {w : World}
    (recorded : Recorded past w)
    (core : CoreId)
    (callback : Callback)
    (after : World) :
    DecidedHere past
      ⟨w, .callback core callback (w.respond callback).1, after⟩ := by
  constructor
  · rintro _ _ _ ⟨⟩
    rw [closures_respond]
    cases active : w.activeHost with
    | none => simp [World.reached, active]
    | some found =>
        obtain ⟨h, host⟩ := found
        obtain ⟨_, alive⟩ := (World.activeHost_eq_some_iff w h host).mp active
        simp [World.reached, active, recorded.settings h host alive]
  · rintro _ _ _ _ _ _ ⟨⟩
    rw [answer_inputState]
    cases active : w.activeHost with
    | none => simp [World.reached, active]
    | some found =>
        obtain ⟨h, host⟩ := found
        obtain ⟨_, alive⟩ := (World.activeHost_eq_some_iff w h host).mp active
        simp [World.reached, active, recorded.settings h host alive]

/-- What a callback leaves of the settings of a host. -/
theorem settings_played_calls
    (reached : Bool)
    (h : HostId)
    (callback : Callback)
    (host : LibretroHost) :
    (host.played reached h [.calls callback]).settings =
      if reached then
        (callback.format.elim host.settings fun format =>
          host.settings.change (.format format))
      else host.settings := by
  cases reached <;> cases asked : callback.format <;>
    simp [LibretroHost.played, LibretroHost.settings, lastFormat,
      CoreAction.format, Settings.change, asked]

/-- A callback that asks for a format changes the settings of the host it
reaches, and no other callback changes any. -/
theorem Recorded.calls
    {past : List (HostId × Change)}
    {w : World}
    (recorded : Recorded past w)
    (core : CoreId)
    (callback : Callback)
    (response : Response)
    (after : World) :
    Recorded (past ++ changes ⟨w, .callback core callback response, after⟩)
      (w.played core [.calls callback]) := by
  have unchanged (noChange : ∀ h, w.gLibretroHost = some h →
      w.hosts h ≠ none → callback.format = none) :
      Recorded past (w.played core [.calls callback]) := by
    refine recorded.kept ⟨rfl, fun h => Or.inr ?_⟩
    rw [World.hosts_played, Option.map_map]
    refine Option.map_congr fun host alive => ?_
    rw [Function.comp_apply, settings_played_calls]
    split_ifs with routed
    · rw [noChange h (by simpa using routed) (by simp [alive])]
      rfl
    · rfl
  cases active : w.activeHost with
  | none =>
      have noChanges : changes ⟨w, .callback core callback response, after⟩ =
          [] := by
        simp [changes, World.reached, active]
      rw [noChanges, List.append_nil]
      refine unchanged fun h routed alive => ?_
      obtain ⟨host, isHost⟩ := Option.ne_none_iff_exists'.mp alive
      rw [World.activeHost_of routed isHost] at active
      contradiction
  | some found =>
      obtain ⟨self, host⟩ := found
      obtain ⟨routed, alive⟩ :=
        (World.activeHost_eq_some_iff w self host).mp active
      cases asked : callback.format with
      | none =>
          have noChanges :
              changes ⟨w, .callback core callback response, after⟩ = [] := by
            simp [changes, World.reached, active, asked]
          rw [noChanges, List.append_nil]
          exact unchanged fun _ _ _ => asked
      | some format =>
          have oneChange :
              changes ⟨w, .callback core callback response, after⟩ =
                [(self, .format format)] := by
            simp [changes, World.reached, active, asked]
          rw [oneChange]
          apply recorded.changed
          · simp [alive]
          · rfl
          · rw [World.hosts_played, Option.map_map]
            refine Option.map_congr fun host _ => ?_
            rw [Function.comp_apply, settings_played_calls, asked]
            simp [routed]
          · intro h differs
            rw [World.hosts_played, Option.map_map]
            refine Option.map_congr fun host _ => ?_
            rw [Function.comp_apply, settings_played_calls]
            simp [routed, Ne.symm differs]

/-- A store to an element of the button array. -/
theorem settings_setButton
    (id : Fin 16)
    (value : Int16)
    (host : LibretroHost) :
    (host.setButton id value).settings =
      host.settings.change (.button id value) := by
  have same : host.buttons.set id.val value id.isLt =
      host.buttons.setIfInBounds id value := by
    ext i bound
    rw [Vector.getElem_set, Vector.getElem_setIfInBounds]
  simp only [LibretroHost.setButton, LibretroHost.settings, Settings.change,
    same]

/-- A write of the input layer changes a live host and no other. -/
theorem Recorded.written
    {past : List (HostId × Change)}
    {w : World}
    (recorded : Recorded past w)
    (self : HostId)
    (id : Fin 16)
    (value : Int16)
    (after : World) :
    Recorded (past ++ changes ⟨w, .buttonWritten self id value, after⟩)
      (w.modifyHost self (LibretroHost.setButton id value)) := by
  change Recorded (past ++ if (w.hosts self).isSome then _ else _) _
  split_ifs with alive
  · apply recorded.changed
    · exact Option.isSome_iff_ne_none.mp alive
    · rfl
    · rw [World.hosts_modifyHost, Function.update_self, Option.map_map]
      exact Option.map_congr fun host _ => settings_setButton id value host
    · intro h differs
      rw [World.hosts_modifyHost, Function.update_of_ne differs]
  · rw [List.append_nil]
    refine recorded.kept ⟨rfl, fun h => Or.inr ?_⟩
    rw [World.hosts_modifyHost]
    by_cases isSelf : h = self
    · subst isSelf
      rw [Function.update_self, Option.not_isSome_iff_eq_none.mp alive]
      rfl
    · rw [Function.update_of_ne isSelf]

theorem recalls_act (core : CoreId) (action : CoreAction) :
    Recalls changes DecidedHere Recorded (act core action) := by
  cases action with
  | calls callback =>
      apply Recalls.step
      · exact fun past w recorded => recorded.decided core callback _
      · intro past w recorded
        have calls := recorded.calls core callback (w.respond callback).1
          ((w.respond callback).2.hear core callback (w.respond callback).1)
        rwa [← World.hear_respond] at calls
  | writeButton h id value =>
      apply Recalls.emit
      · exact fun _ _ _ => decided_of_no_callback (by simp)
      · exact fun past w recorded => recorded.written h id value _

section Programs

variable (self : HostId) (core : CoreId) (behaviour : CoreBehaviour)

theorem recalls_call
    (retroCall : RetroCall)
    (actions : List CoreAction) :
    Recalls changes DecidedHere Recorded
      (call self core retroCall actions) := by
  have entered : Recalls changes DecidedHere Recorded
      (emit (.call self core retroCall) (World.enter core retroCall)) :=
    recalls_emit True.intro fun w => settingsKept_of_hosts_eq w rfl rfl
  have left : Recalls changes DecidedHere Recorded
      (emit (.returned self core retroCall)
        (World.leave self core retroCall)) :=
    recalls_emit True.intro fun w => settingsKept_of_hosts_eq w rfl rfl
  exact entered.bind fun _ =>
    (Recalls.each (recalls_act core) actions).bind fun _ => left

theorem recalls_assign
    {f : LibretroHost → LibretroHost}
    (same : ∀ host, (f host).settings = host.settings) :
    Recalls changes DecidedHere Recorded (assign self f) :=
  recalls_assigned fun w => settingsKept_modifyHost w same self

theorem recalls_registerCallbacks :
    Recalls changes DecidedHere Recorded
      (registerCallbacks self core behaviour) :=
  Recalls.bind (recalls_call self core _ _) fun _ =>
    Recalls.bind (recalls_call self core _ _) fun _ =>
    Recalls.bind (recalls_call self core _ _) fun _ =>
    Recalls.bind (recalls_call self core _ _) fun _ =>
    Recalls.bind (recalls_call self core _ _) fun _ =>
    recalls_call self core _ _

theorem recalls_start (data : Data) (romPath : String) :
    Recalls changes DecidedHere Recorded
      (start self core behaviour data romPath) := by
  unfold start
  refine Recalls.bind (recalls_assigned fun w =>
      settingsKept_assignGlobal w (some self)) fun _ =>
    Recalls.bind (recalls_registerCallbacks self core behaviour) fun _ =>
    Recalls.bind (recalls_call self core _ _) fun _ =>
    Recalls.bind (recalls_assign self fun _ => rfl) fun _ =>
    Recalls.bind (recalls_call self core _ _) fun _ => ?_
  cases behaviour.loadGame with
  | true =>
      exact Recalls.bind (recalls_call self core _ _) fun _ =>
        Recalls.bind (recalls_assign self fun _ => rfl) fun _ =>
        Recalls.bind (recalls_call self core _ _) fun _ =>
        Recalls.bind (recalls_assign self fun _ => rfl) fun _ =>
        Recalls.pure true
  | false =>
      exact Recalls.bind (recalls_call self core _ _) fun _ =>
        Recalls.bind (recalls_assigned fun w =>
          settingsKept_assignGlobal w none) fun _ =>
        Recalls.pure false

theorem recalls_runFrame :
    Recalls changes DecidedHere Recorded (runFrame self core behaviour) := by
  refine Recalls.get_bind fun w => ?_
  split_ifs
  · exact recalls_call self core _ _
  · exact Recalls.pure ()

theorem recalls_shutdown :
    Recalls changes DecidedHere Recorded (shutdown self core behaviour) := by
  refine Recalls.get_bind fun w => ?_
  split_ifs
  · refine Recalls.bind (recalls_assign self fun _ => rfl) fun _ =>
      Recalls.bind (recalls_call self core _ _) fun _ =>
      Recalls.bind (recalls_call self core _ _) fun _ =>
      Recalls.bind (recalls_assign self fun _ => rfl) fun _ =>
      recalls_assigned fun w => ?_
    split_ifs
    · exact settingsKept_assignGlobal w none
    · exact settingsKept_of_hosts_eq w rfl rfl
  · exact Recalls.pure ()

theorem recalls_method
    {body : CoreId → HostM (Option Bool)}
    (recalls : ∀ core, Recalls changes DecidedHere Recorded (body core)) :
    Recalls changes DecidedHere Recorded (method self body) := by
  refine Recalls.get_bind fun w => ?_
  cases w.callable self with
  | none => exact Recalls.pure ()
  | some host =>
      have reported (result : Option Bool) :
          Recalls changes DecidedHere Recorded
            (emit (.methodReturned self result) fun w => w) :=
        recalls_emit True.intro fun w => settingsKept_of_hosts_eq w rfl rfl
      exact (recalls host.core).bind reported

end Programs

/-- Every operation that does not itself set a setting. -/
theorem recalls_perform
    (platform : Platform)
    {op : Op}
    (setsNothing : op.stores = []) :
    Recalls changes DecidedHere Recorded (perform platform op) := by
  cases op with
  | create name =>
      rw [perform, initCore]
      split
      · exact Recalls.pure ()
      · apply Recalls.emit
        · exact fun _ _ _ => decided_of_no_callback (by simp)
        · intro past w recorded
          rw [changes, List.append_nil]
          exact recorded.allocateHost platform name _
  | start self behaviour data romPath =>
      exact recalls_method self fun core =>
        (recalls_start self core behaviour data romPath).bind
          fun _ => Recalls.pure _
  | runFrame self behaviour =>
      exact recalls_method self fun core =>
        (recalls_runFrame self core behaviour).bind fun _ => Recalls.pure _
  | shutdown self behaviour =>
      exact recalls_method self fun core =>
        (recalls_shutdown self core behaviour).bind fun _ => Recalls.pure _
  | drop self =>
      refine Recalls.get_bind fun w => ?_
      split_ifs
      · exact recalls_assigned fun w => settingsKept_dropOwner w self
      · exact Recalls.pure ()
  | setOnVideo self isSet => contradiction
  | setOnAudio self isSet => contradiction
  | writeButton self id value => contradiction

/-- A store to a setting of a host that can be called. -/
theorem Recorded.setProperty
    {past : List (HostId × Change)}
    {w : World}
    (recorded : Recorded past w)
    (self : HostId)
    {change : Change}
    {f : LibretroHost → LibretroHost}
    (sets : ∀ host, (f host).settings = host.settings.change change) :
    Remembering changes DecidedHere past ((setProperty self f).log w) ∧
      ((setProperty self f).log w).flatMap changes = [] ∧
      Recorded (past ++ [(self, change)].filter fun change =>
        (w.callable change.1).isSome) ((setProperty self f).state w) := by
  rw [Host.setProperty, log_get_bind, state_get_bind]
  split_ifs with callable
  · refine ⟨⟨decided_of_no_callback (by simp), trivial⟩, rfl, ?_⟩
    obtain ⟨host, isHost⟩ := Option.isSome_iff_exists.mp callable
    obtain ⟨_, alive⟩ := (World.callable_eq_some_iff w self host).mp isHost
    rw [List.filter_singleton, callable]
    apply recorded.changed
    · simp [alive]
    · rfl
    · rw [assign, state_emit, World.hosts_modifyHost, Function.update_self,
        Option.map_map]
      exact Option.map_congr fun host _ => sets host
    · intro h differs
      rw [assign, state_emit, World.hosts_modifyHost,
        Function.update_of_ne differs]
  · refine ⟨trivial, rfl, ?_⟩
    rw [List.filter_singleton, Bool.not_eq_true _ |>.mp callable]
    simpa using recorded

/-- Every operation is decided by the history, and adds its changes to it. -/
theorem Recorded.perform
    {past : List (HostId × Change)}
    {w : World}
    (recorded : Recorded past w)
    (platform : Platform)
    (op : Op) :
    Remembering changes DecidedHere past
        ((Host.perform platform op).log w) ∧
      Recorded (past ++ op.changes platform w)
        ((Host.perform platform op).state w) := by
  have stored
      {self : HostId}
      {change : Change}
      {f : LibretroHost → LibretroHost}
      (sets : ∀ host, (f host).settings = host.settings.change change)
      (stores : op.stores = [(self, change)])
      (does : Host.perform platform op = Host.setProperty self f) :
      Remembering changes DecidedHere past
          ((Host.perform platform op).log w) ∧
        Recorded (past ++ op.changes platform w)
          ((Host.perform platform op).state w) := by
    obtain ⟨decided, silent, set⟩ := recorded.setProperty self sets
    rw [Op.changes, stores, does, silent, List.append_nil]
    exact ⟨decided, set⟩
  have recalled (setsNothing : op.stores = []) :
      Remembering changes DecidedHere past
          ((Host.perform platform op).log w) ∧
        Recorded (past ++ op.changes platform w)
          ((Host.perform platform op).state w) := by
    rw [Op.changes, setsNothing, List.filter_nil, List.nil_append]
    exact recalls_perform platform setsNothing past w recorded
  cases op with
  | setOnVideo self isSet => exact stored (fun _ => rfl) rfl rfl
  | setOnAudio self isSet => exact stored (fun _ => rfl) rfl rfl
  | writeButton self id value =>
      exact stored (settings_setButton id value) rfl rfl
  | _ => exact recalled rfl

theorem Recorded.performAll
    {past : List (HostId × Change)}
    {w : World}
    (recorded : Recorded past w)
    (platform : Platform)
    (ops : List Op) :
    Recorded (past ++ history platform w ops)
      ((Host.performAll platform ops).state w) := by
  induction ops generalizing past w with
  | nil =>
      rw [history, List.append_nil]
      exact recorded
  | cons op rest inductionHypothesis =>
      rw [history, ← List.append_assoc]
      exact inductionHypothesis (recorded.perform platform op).2

/-- **The history decides.** In every run of any number of hosts: the settings
of each live host are what the changes that the run made to it leave; and every
callback of the next operation calls the closures and reads the buttons as the
changes before it say, of the host that this operation starts or else of the
host of the last `start` that returned, if it was accepted and the host is still
loaded. -/
theorem callbacks_decided_by_history
    (platform : Platform)
    (ops : List Op)
    (op : Op) :
    let log := (performAll platform ops).log World.initial
    let w := (performAll platform ops).state World.initial
    let past := history platform World.initial ops
    (∀ h, (w.hosts h).map LibretroHost.settings =
        (w.hosts h).map fun _ => replay past h) ∧
      Remembering changes
        (fun past => Decided (op.reaches (w.player log)) (replay past))
        past ((perform platform op).log w) := by
  intro log w past
  have recorded : Recorded past w :=
    recorded_initial.performAll platform ops
  have follows : FollowsStarts log w := followsStarts_performAll platform ops
  refine ⟨recorded.map_settings, ?_⟩
  have reaches := throughout_perform_reached platform op follows.wellFormed
  rw [follows.routed] at reaches
  refine (recorded.perform platform op).1.mono ?_ reaches
  intro past moment decided reached
  constructor
  · intro core callback response isCallback
    rw [← reached core callback response isCallback]
    exact decided.delivers core callback response isCallback
  · intro core port device index id response isCallback
    rw [← reached core _ response isCallback]
    exact decided.reads core port device index id response isCallback

end Host
end LibretroLab
