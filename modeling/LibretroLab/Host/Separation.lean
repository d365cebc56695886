import LibretroLab.Host.Run

/-!
# What only its own operations change

Callbacks go through a global and may reach any host, but the flag, the bytes,
the audio and video information, the closures and the constants of a host are
out of their reach. In every run they follow the operations on that host alone,
whatever happens to the other hosts and whatever the cores do.
-/

namespace LibretroLab
namespace Host

open Recorder

/-- The part of a host that callbacks do not touch. -/
structure Ledger where
  coreName : String
  core : CoreId
  avInfo : RetroSystemAvInfo
  loaded : Bool
  onVideo : Bool
  onAudio : Bool
  systemDir : String
  saveDir : String
  systemDirC : Option StringPtr
  saveDirC : Option StringPtr
  romData : Option Data
  deriving DecidableEq

/-- The ledger of a host. -/
def LibretroHost.ledger (host : LibretroHost) : Ledger where
  coreName := host.coreName
  core := host.core
  avInfo := host.avInfo
  loaded := host.loaded
  onVideo := host.onVideo
  onAudio := host.onAudio
  systemDir := host.systemDir
  saveDir := host.saveDir
  systemDirC := host.systemDirC
  saveDirC := host.saveDirC
  romData := host.romData

/-- The ledger of a host whose methods somebody can call. -/
def World.ledger (w : World) (h : HostId) : Option Ledger :=
  (w.callable h).map LibretroHost.ledger

/-- The host that an operation is about. -/
def Op.addressee : Op → Option HostId
  | .create _ => none
  | .start h _ _ _ | .runFrame h _ | .shutdown h _ | .drop h
  | .setOnVideo h _ | .setOnAudio h _ | .writeButton h _ _ => some h

/-- What an operation on a host makes of its ledger. Nobody can call the host
once its owner has dropped it. -/
def Ledger.after (ledger : Ledger) : Op → Option Ledger
  | .start _ behaviour data _ =>
      if behaviour.loadGame then
        some { ledger with
          romData := some data
          avInfo := behaviour.avInfo
          loaded := true }
      else some { ledger with romData := some data }
  | .shutdown _ _ =>
      if ledger.loaded then
        some { ledger with loaded := false, romData := none }
      else some ledger
  | .drop _ => none
  | .setOnVideo _ isSet => some { ledger with onVideo := isSet }
  | .setOnAudio _ isSet => some { ledger with onAudio := isSet }
  | .create _ | .runFrame _ _ | .writeButton _ _ _ => some ledger

/-- What an operation makes of the ledger of `h`. -/
def Ledger.follow (h : HostId) (ledger : Option Ledger) (op : Op) :
    Option Ledger :=
  if op.addressee = some h then ledger.bind (·.after op) else ledger

/-! ## One step -/

theorem ledger_played
    (reached : Bool)
    (h : HostId)
    (actions : List CoreAction)
    (host : LibretroHost) :
    (host.played reached h actions).ledger = host.ledger := rfl

theorem map_ledger_played (host : Option LibretroHost) :
    (host.map (LibretroHost.played reached h actions)).map
        LibretroHost.ledger =
      host.map LibretroHost.ledger := by
  rw [Option.map_map]
  exact congrArg (host.map ·) (funext (ledger_played reached h actions))

section Step

variable {w w' : World} {h self : HostId} {host : LibretroHost}

theorem ledger_of_unowned (unowned : w.owned h = false) :
    w.ledger h = none := by
  simp [World.ledger, World.callable, unowned]

theorem ledger_of_owned (owned : w.owned h = true) :
    w.ledger h = (w.hosts h).map LibretroHost.ledger := by
  simp [World.ledger, World.callable, owned]

/-- The ledger of an owned host depends on the host. -/
theorem ledger_congr
    (sameOwner : w'.owned h = w.owned h)
    (same : w.owned h = true → (w'.hosts h).map LibretroHost.ledger =
      (w.hosts h).map LibretroHost.ledger) :
    w'.ledger h = w.ledger h := by
  cases owned : w.owned h with
  | false =>
      rw [ledger_of_unowned owned,
        ledger_of_unowned (sameOwner.trans owned)]
  | true =>
      rw [ledger_of_owned owned, ledger_of_owned (sameOwner.trans owned),
        same owned]

theorem ledger_modifyHost_other
    (differs : h ≠ self)
    (f : LibretroHost → LibretroHost)
    (w : World) :
    (w.modifyHost self f).ledger h = w.ledger h := by
  apply ledger_congr
  · rfl
  · intro _
    rw [World.hosts_modifyHost, Function.update_of_ne differs]

/-- A method that cannot be called changes nothing. -/
theorem ledger_method
    {op : Op}
    {body : CoreId → HostM (Option Bool)}
    (addressed : op.addressee = some self)
    (own : ∀ host, w.owned self = true → w.hosts self = some host →
      ((body host.core).state w).ledger self = host.ledger.after op)
    (other : ∀ host h, w.owned self = true → w.hosts self = some host →
      h ≠ self → ((body host.core).state w).ledger h = w.ledger h)
    (h : HostId) :
    ((method self body).state w).ledger h =
      Ledger.follow h (w.ledger h) op := by
  rw [Ledger.follow, addressed]
  cases callable : w.callable self with
  | none =>
      rw [(method_of_uncallable callable).1]
      split_ifs with same
      · obtain rfl := Option.some.inj same
        simp [World.ledger, callable]
      · rfl
  | some host =>
      obtain ⟨owned, alive⟩ :=
        (World.callable_eq_some_iff w self host).mp callable
      rw [state_method_of_callable callable]
      split_ifs with same
      · obtain rfl := Option.some.inj same
        rw [own host owned alive, World.ledger, callable]
        rfl
      · exact other host h owned alive
          fun equal => same (congrArg some equal.symm)

/-- So does a store to a property of such a host. -/
theorem ledger_setProperty
    {op : Op}
    {f : LibretroHost → LibretroHost}
    (addressed : op.addressee = some self)
    (own : ∀ host, some (f host).ledger = host.ledger.after op)
    (w : World)
    (h : HostId) :
    ((setProperty self f).state w).ledger h =
      Ledger.follow h (w.ledger h) op := by
  rw [setProperty, state_get_bind, Ledger.follow, addressed]
  cases callable : w.callable self with
  | none =>
      rw [if_neg (by simp), state_pure]
      split_ifs with same
      · obtain rfl := Option.some.inj same
        simp [World.ledger, callable]
      · rfl
  | some host =>
      obtain ⟨owned, alive⟩ :=
        (World.callable_eq_some_iff w self host).mp callable
      rw [if_pos (by simp), assign, state_emit]
      split_ifs with same
      · obtain rfl := Option.some.inj same
        have stillOwned : (w.modifyHost self f).owned self = true := owned
        rw [ledger_of_owned stillOwned, ledger_of_owned owned,
          World.hosts_modifyHost, Function.update_self, alive]
        exact own host
      · exact ledger_modifyHost_other
          (fun equal => same (congrArg some equal.symm)) f w

theorem ledger_start_self
    (owned : w.owned self = true)
    (alive : w.hosts self = some host)
    (core : CoreId)
    (behaviour : CoreBehaviour)
    (data : Data)
    (romPath : String) :
    ((start self core behaviour data romPath).state w).ledger self =
      host.ledger.after (.start self behaviour data romPath) := by
  have stillOwned : ((start self core behaviour data romPath).state w).owned
      self = true := by
    rw [owned_start, owned]
  rw [ledger_of_owned stillOwned, hosts_start_self owned, alive,
    Option.map_some, Option.map_some, LibretroHost.started, Ledger.after]
  split_ifs <;> rfl

theorem ledger_start_other
    (differs : h ≠ self)
    (w : World)
    (core : CoreId)
    (behaviour : CoreBehaviour)
    (data : Data)
    (romPath : String) :
    ((start self core behaviour data romPath).state w).ledger h =
      w.ledger h := by
  refine ledger_congr (by rw [owned_start]) fun owned => ?_
  rw [hosts_start_other differs, map_ledger_played,
    World.hosts_assignGlobal_of_owned owned]

theorem ledger_runFrame
    (self : HostId)
    (core : CoreId)
    (behaviour : CoreBehaviour)
    (w : World)
    (h : HostId) :
    ((runFrame self core behaviour).state w).ledger h = w.ledger h := by
  cases loaded : w.loaded self with
  | false => rw [(runFrame_of_idle loaded).1]
  | true =>
      rw [state_runFrame_of_loaded loaded]
      apply ledger_congr
      · rfl
      · intro _
        rw [World.hosts_played, map_ledger_played]

theorem ledger_shutdown_self
    (owned : w.owned self = true)
    (alive : w.hosts self = some host)
    (core : CoreId)
    (behaviour : CoreBehaviour) :
    ((shutdown self core behaviour).state w).ledger self =
      host.ledger.after (.shutdown self behaviour) := by
  have sameFlag := World.loaded_of alive
  rw [Ledger.after]
  cases loaded : host.loaded with
  | false =>
      rw [(shutdown_of_idle (sameFlag.trans loaded)).1, ledger_of_owned owned,
        alive]
      simp [LibretroHost.ledger, loaded]
  | true =>
      rw [state_shutdown_of_owned owned (sameFlag.trans loaded)]
      have stillOwned : (w.afterShutdown self core behaviour).owned self =
          true := owned
      rw [ledger_of_owned stillOwned, hosts_afterShutdown, hosts_ended_self,
        alive]
      simp only [LibretroHost.ledger, loaded, if_true]
      rfl

theorem ledger_shutdown_other
    (owned : w.owned self = true)
    (differs : h ≠ self)
    (core : CoreId)
    (behaviour : CoreBehaviour) :
    ((shutdown self core behaviour).state w).ledger h = w.ledger h := by
  cases loaded : w.loaded self with
  | false => rw [(shutdown_of_idle loaded).1]
  | true =>
      rw [state_shutdown_of_owned owned loaded]
      apply ledger_congr
      · rfl
      · intro _
        rw [hosts_afterShutdown, hosts_ended_other differs, map_ledger_played]

theorem ledger_dropOwner
    (owned : w.owned self = true)
    (h : HostId) :
    (w.dropOwner self).ledger h =
      if h = self then none else w.ledger h := by
  split_ifs with same
  · subst same
    apply ledger_of_unowned
    simp [World.dropOwner]
  · apply ledger_congr
    · simp [World.dropOwner, same]
    · intro _
      rw [World.dropOwner, World.hosts_release, if_neg fun gone => same gone.1]

/-- A created host is new. -/
theorem ledger_allocateHost
    (created : h < w.nextHost)
    (platform : Platform)
    (name : String)
    (entry : CoreId) :
    (w.allocateHost platform name entry).ledger h = w.ledger h := by
  have isOld : h ≠ w.nextHost := Nat.ne_of_lt created
  apply ledger_congr
  · simp [World.allocateHost, isOld]
  · intro _
    rw [World.hosts_allocateHost_of_ne isOld]

end Step

/-- Every operation moves the ledger of a host by what it does to that host. -/
theorem ledger_perform
    (platform : Platform)
    (op : Op)
    {w : World}
    {h : HostId}
    (created : h < w.nextHost) :
    ((perform platform op).state w).ledger h =
      Ledger.follow h (w.ledger h) op := by
  cases op with
  | create name =>
      rw [perform, initCore, Ledger.follow, if_neg (by simp [Op.addressee])]
      split
      · rfl
      · exact ledger_allocateHost created platform name _
  | start self behaviour data romPath =>
      rw [perform]
      exact ledger_method rfl
        (fun host owned alive => ledger_start_self owned alive _ _ _ _)
        (fun host other _ _ differs => ledger_start_other differs w _ _ _ _) h
  | runFrame self behaviour =>
      rw [perform]
      refine ledger_method rfl (fun host owned alive => ?_)
        (fun host other _ _ _ => ledger_runFrame self _ _ w other) h
      refine (ledger_runFrame self _ behaviour w self).trans ?_
      rw [ledger_of_owned owned, alive]
      rfl
  | shutdown self behaviour =>
      rw [perform]
      exact ledger_method rfl
        (fun host owned alive => ledger_shutdown_self owned alive _ _)
        (fun host other owned _ differs =>
          ledger_shutdown_other owned differs _ _) h
  | drop self =>
      rw [perform, state_get_bind, Ledger.follow, Op.addressee]
      cases owned : w.owned self with
      | false =>
          rw [if_neg (by simp), state_pure]
          split_ifs with same
          · obtain rfl := Option.some.inj same
            rw [ledger_of_unowned owned]
            rfl
          · rfl
      | true =>
          rw [if_pos rfl, state_emit, ledger_dropOwner owned]
          by_cases same : h = self
          · subst same
            rw [if_pos rfl, if_pos rfl]
            cases w.ledger h <;> rfl
          · rw [if_neg same,
              if_neg fun equal => same (Option.some.inj equal).symm]
  | setOnVideo self isSet =>
      exact ledger_setProperty rfl (fun _ => rfl) w h
  | setOnAudio self isSet =>
      exact ledger_setProperty rfl (fun _ => rfl) w h
  | writeButton self id value =>
      exact ledger_setProperty rfl (fun _ => rfl) w h

/-- No operation takes an identity back. -/
theorem nextHost_le_of_performed
    {platform : Platform}
    {w w' : World}
    {op : Op}
    {calls : List (CoreId × RetroCall)}
    (done : Performed platform w op calls w') :
    w.nextHost ≤ w'.nextHost := by
  cases done with
  | idle => exact le_rfl
  | created => exact Nat.le_succ _
  | started => exact le_of_eq nextHost_start.symm
  | ranFrame => exact le_rfl
  | shutDown => exact le_rfl
  | dropped => simp [World.dropOwner]
  | assigned => exact le_rfl

/-- Operations on other hosts can be left out. -/
theorem foldl_follow_filter
    (h : HostId)
    (ops : List Op)
    (ledger : Option Ledger) :
    ops.foldl (Ledger.follow h) ledger =
      (ops.filter (·.addressee = some h)).foldl
        (fun ledger op => ledger.bind (·.after op)) ledger := by
  rw [List.foldl_filter]
  congr 1
  funext ledger op
  simp [Ledger.follow]

/-- **Separation.** In every run, from any world, whatever the operations on
other hosts and the actions of their cores: the flag, the ROM bytes, the audio
and video information, the closures and the constants of a created host are
what the operations on that host, in order, make of them, until its owner drops
it. -/
theorem ledger_follows_own_operations
    (platform : Platform)
    (ops : List Op)
    (w : World)
    (h : HostId)
    (created : h < w.nextHost) :
    ((performAll platform ops).state w).ledger h =
      (ops.filter (·.addressee = some h)).foldl
        (fun ledger op => ledger.bind (·.after op)) (w.ledger h) := by
  rw [← foldl_follow_filter]
  exact view_each (fun w => w.ledger h) (fun w => h < w.nextHost)
    (fun w op created => created.trans_le
      (nextHost_le_of_performed (performed platform op w)))
    (fun w op created => ledger_perform platform op created) ops w created

/-- Two hosts of one core: the second is rejected while the first plays. -/
def rejectedBeside : List Op :=
  [.create "pce", .start 0 {} [1] "a.pce",
    .start 1 { loadGame := false } [2] "b.pce", .runFrame 0 {}, .drop 1]

theorem ledger_follows_own_operations_beside :
    ((performAll pcePlatform rejectedBeside).state oneHost).ledger 0 =
      (rejectedBeside.filter (·.addressee = some 0)).foldl
        (fun ledger op => ledger.bind (·.after op)) (oneHost.ledger 0) :=
  ledger_follows_own_operations pcePlatform rejectedBeside oneHost 0
    (by decide)

end Host
end LibretroLab
