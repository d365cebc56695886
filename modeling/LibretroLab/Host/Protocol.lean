import LibretroLab.Host.Run

/-!
# The call protocol of the cores

Whatever the program does with any number of hosts, as long as it starts a host
only while nobody plays on its core and lets no loaded host go, every core sees
one session after another.
-/

namespace LibretroLab
namespace Host

open Recorder

/-- The six registrations that open a session. -/
def registrations : List RetroCall :=
  [.setEnvironment, .setVideoRefresh, .setAudioSample, .setAudioSampleBatch,
    .setInputPoll, .setInputState]

/-- One session of a core: its game is rejected, or played for some frames. -/
inductive Session
  | rejected (info : RetroGameInfo)
  | played (info : RetroGameInfo) (frames : Nat)

namespace Session

/-- A session whose game was accepted, so far. -/
def opened (info : RetroGameInfo) (frames : Nat) : List RetroCall :=
  registrations ++
    [.init, .loadGame info true, .getSystemAvInfo,
      .setControllerPortDevice 0 1] ++
    List.replicate frames .run

/-- All calls of a session. -/
def calls : Session → List RetroCall
  | rejected info =>
      registrations ++ [.init, .loadGame info false, .deinit]
  | played info frames => opened info frames ++ [.unloadGame, .deinit]

theorem opened_succ (info : RetroGameInfo) (frames : Nat) :
    opened info frames ++ [.run] = opened info (frames + 1) := by
  rw [opened, opened, List.append_assoc, ← List.replicate_succ']

end Session

/-- The calls that one core receives. -/
def received (core : CoreId) (calls : List (CoreId × RetroCall)) :
    List RetroCall :=
  calls.filterMap fun call => if call.1 = core then some call.2 else none

@[simp] theorem received_append
    (core : CoreId) (first second : List (CoreId × RetroCall)) :
    received core (first ++ second) =
      received core first ++ received core second :=
  List.filterMap_append

theorem received_map_self (core : CoreId) (calls : List RetroCall) :
    received core (calls.map (Prod.mk core)) = calls := by
  unfold received
  rw [List.filterMap_map]
  simp

theorem received_map_of_ne
    {core callee : CoreId}
    (differs : callee ≠ core)
    (calls : List RetroCall) :
    received core (calls.map (Prod.mk callee)) = [] := by
  unfold received
  rw [List.filterMap_map]
  simp [differs]

/-- The host plays a game on the core. -/
def World.Plays (w : World) (h : HostId) (core : CoreId) : Prop :=
  ∃ host, w.hosts h = some host ∧ host.loaded = true ∧ host.core = core

/-- `start` is called only on a host that is not loaded and whose core no
loaded host holds. -/
def Op.StartsOnFreeCore (w : World) : Op → Prop
  | .start h _ _ _ => ∀ host, w.hosts h = some host →
      host.loaded = false ∧ ∀ other, ¬w.Plays other host.core
  | _ => True

/-- An operation keeps to the discipline: it starts on a free core, and no
loaded host is deallocated. -/
def Orderly (platform : Platform) (w : World) (op : Op) : Prop :=
  op.StartsOnFreeCore w ∧
    ∀ h, w.loaded h = true → ((perform platform op).state w).hosts h ≠ none

/-- Where a core stands, given the calls it has received: between sessions
while nobody plays on it, and inside one while a single host does. -/
inductive Phase (core : CoreId) (w : World) (calls : List RetroCall) : Prop
  | between
      (sessions : List Session)
      (free : ∀ h, ¬w.Plays h core)
      (soFar : calls = sessions.flatMap Session.calls)
  | inside
      (sessions : List Session)
      (info : RetroGameInfo)
      (frames : Nat)
      (player : HostId)
      (sole : ∀ h, w.Plays h core ↔ h = player)
      (soFar : calls =
        sessions.flatMap Session.calls ++ Session.opened info frames)

/-- Either way the calls are a beginning of a repetition of sessions. -/
theorem Phase.isPrefix
    {core : CoreId}
    {w : World}
    {calls : List RetroCall}
    (phase : Phase core w calls) :
    ∃ sessions : List Session, calls <+: sessions.flatMap Session.calls := by
  cases phase with
  | between sessions free soFar =>
      exact ⟨sessions, soFar ▸ List.prefix_rfl⟩
  | inside sessions info frames player sole soFar =>
      refine ⟨sessions ++ [.played info frames], ?_⟩
      rw [soFar, List.flatMap_append, List.flatMap_singleton, Session.calls]
      exact List.prefix_append_right_inj _ |>.mpr (List.prefix_append _ _)

/-- While nobody plays on the core, its sessions are complete. -/
theorem Phase.complete
    {core : CoreId}
    {w : World}
    {calls : List RetroCall}
    (phase : Phase core w calls)
    (free : ∀ h, ¬w.Plays h core) :
    ∃ sessions : List Session, calls = sessions.flatMap Session.calls := by
  cases phase with
  | between sessions _ soFar => exact ⟨sessions, soFar⟩
  | inside sessions info frames player sole soFar =>
      exact absurd ((sole player).mpr rfl) (free player)

/-- A phase depends on who plays. -/
theorem Phase.congr
    {core : CoreId}
    {w w' : World}
    {calls : List RetroCall}
    (phase : Phase core w calls)
    (same : ∀ h, w'.Plays h core ↔ w.Plays h core) :
    Phase core w' calls := by
  cases phase with
  | between sessions free soFar =>
      exact .between sessions (fun h plays => free h ((same h).mp plays)) soFar
  | inside sessions info frames player sole soFar =>
      exact .inside sessions info frames player
        (fun h => (same h).trans (sole h)) soFar

/-! ## Who plays after an operation -/

/-- The flag and the core of a host decide what it plays on. -/
def LibretroHost.status (host : LibretroHost) : Bool × CoreId :=
  (host.loaded, host.core)

theorem plays_congr
    {w w' : World}
    {h : HostId}
    (same : (w'.hosts h).map LibretroHost.status =
      (w.hosts h).map LibretroHost.status)
    (core : CoreId) :
    w'.Plays h core ↔ w.Plays h core := by
  have plays_iff (v : World) : v.Plays h core ↔
      (v.hosts h).map LibretroHost.status = some (true, core) := by
    simp only [World.Plays, Option.map_eq_some_iff, LibretroHost.status,
      Prod.mk.injEq]
  rw [plays_iff, plays_iff, same]

theorem not_plays_of_dead
    {w : World}
    {h : HostId}
    (dead : w.hosts h = none)
    (core : CoreId) :
    ¬w.Plays h core := by
  rintro ⟨host, alive, _⟩
  rw [dead] at alive
  contradiction

theorem not_plays_of_idle
    {w : World}
    {h : HostId}
    (idle : w.loaded h = false)
    (core : CoreId) :
    ¬w.Plays h core := by
  rintro ⟨host, alive, loaded, _⟩
  rw [World.loaded_of alive, loaded] at idle
  contradiction

/-- A host that went away did not play, and one that stayed plays on. -/
theorem plays_of_released
    {w w' : World}
    {h : HostId}
    (heap : w'.hosts h = none ∨
      (w'.hosts h).map LibretroHost.status =
        (w.hosts h).map LibretroHost.status)
    (noneLost : w.loaded h = true → w'.hosts h ≠ none)
    (core : CoreId) :
    w'.Plays h core ↔ w.Plays h core := by
  rcases heap with dead | same
  · refine iff_of_false (not_plays_of_dead dead core) ?_
    apply not_plays_of_idle
    cases loaded : w.loaded h with
    | true => exact absurd dead (noneLost loaded)
    | false => rfl
  · exact plays_congr same core

theorem map_status_played (host : Option LibretroHost) :
    (host.map (LibretroHost.played reached h actions)).map
        LibretroHost.status =
      host.map LibretroHost.status := by
  rw [Option.map_map]
  rfl

theorem plays_played
    (core : CoreId)
    (actions : List CoreAction)
    (w : World)
    (h : HostId)
    (callee : CoreId) :
    (w.played core actions).Plays h callee ↔ w.Plays h callee :=
  plays_congr (map_status_played _) callee

theorem plays_modifyHost
    {f : LibretroHost → LibretroHost}
    (inert : Inert f)
    (self : HostId)
    (w : World)
    (h : HostId)
    (core : CoreId) :
    (w.modifyHost self f).Plays h core ↔ w.Plays h core := by
  apply plays_congr
  by_cases same : h = self
  · subst same
    rw [World.hosts_modifyHost, Function.update_self, Option.map_map]
    congr 1
    funext host
    rw [Function.comp_apply, inert host]
    rfl
  · rw [World.hosts_modifyHost, Function.update_of_ne same]

/-- A created host does not play. -/
theorem plays_allocateHost
    {w : World}
    (bounded : w.Bounded)
    (platform : Platform)
    (name : String)
    (entry : CoreId)
    (h : HostId)
    (core : CoreId) :
    (w.allocateHost platform name entry).Plays h core ↔ w.Plays h core := by
  by_cases created : h = w.nextHost
  · subst created
    refine iff_of_false ?_ ?_
    · apply not_plays_of_idle
      simp [World.loaded, World.allocateHost]
    · apply not_plays_of_dead
      cases alive : w.hosts w.nextHost with
      | none => rfl
      | some host => exact absurd (bounded _ _ alive) (lt_irrefl _)
  · apply plays_congr
    simp [World.allocateHost, created]

theorem plays_dropOwner
    {w : World}
    (self : HostId)
    (noneLost : ∀ h, w.loaded h = true → (w.dropOwner self).hosts h ≠ none)
    (h : HostId)
    (core : CoreId) :
    (w.dropOwner self).Plays h core ↔ w.Plays h core := by
  refine plays_of_released ?_ (noneLost h) core
  rw [World.dropOwner, World.hosts_release]
  split_ifs
  · exact Or.inl rfl
  · exact Or.inr rfl

section Start

variable {self : HostId} {host : LibretroHost} {behaviour : CoreBehaviour}
  {data : Data} {romPath : String} {w : World}

/-- `start` changes what its own host plays on, and nothing for others. -/
theorem plays_start_other
    {h : HostId}
    (differs : h ≠ self)
    (noneLost : w.loaded h = true →
      ((start self host.core behaviour data romPath).state w).hosts h ≠ none)
    (core : CoreId) :
    ((start self host.core behaviour data romPath).state w).Plays h core ↔
      w.Plays h core := by
  refine plays_of_released ?_ noneLost core
  rw [hosts_start_other differs, World.hosts_assignGlobal]
  split_ifs
  · exact Or.inl rfl
  · exact Or.inr (map_status_played _)

theorem plays_start_self
    (owned : w.owned self = true)
    (alive : w.hosts self = some host)
    (idle : host.loaded = false)
    (core : CoreId) :
    ((start self host.core behaviour data romPath).state w).Plays self core ↔
      behaviour.loadGame = true ∧ host.core = core := by
  unfold World.Plays
  rw [hosts_start_self owned, alive]
  simp [idle]

end Start

/-- `shutdown` ends the play of its own host. -/
theorem plays_afterShutdown
    (self : HostId)
    (callee : CoreId)
    (behaviour : CoreBehaviour)
    (w : World)
    (h : HostId)
    (core : CoreId) :
    (w.afterShutdown self callee behaviour).Plays h core ↔
      w.Plays h core ∧ h ≠ self := by
  by_cases same : h = self
  · subst same
    refine iff_of_false ?_ (fun both => both.2 rfl)
    rintro ⟨host, alive, loaded, _⟩
    rw [hosts_afterShutdown, hosts_ended_self, Option.map_eq_some_iff] at alive
    obtain ⟨before, _, rfl⟩ := alive
    simp [LibretroHost.shutDown] at loaded
  · rw [and_iff_left same]
    apply plays_congr
    rw [hosts_afterShutdown, hosts_ended_other same, map_status_played]

/-! ## The step and the run -/

theorem startCalls_accepted
    (accepted : behaviour.loadGame = true)
    (data : Data)
    (romPath : String) :
    startCalls behaviour data romPath =
      Session.opened (gameInfo data romPath) 0 := by
  simp [startCalls, accepted, Session.opened, registrations]

theorem startCalls_rejected
    (rejected : behaviour.loadGame = false)
    (data : Data)
    (romPath : String) :
    startCalls behaviour data romPath =
      (Session.rejected (gameInfo data romPath)).calls := by
  simp [startCalls, rejected, Session.calls, registrations]

/-- A `start` on a free core opens a session there, or plays a rejected one. -/
theorem phase_start
    {self : HostId}
    {host : LibretroHost}
    {w : World}
    {calls : List RetroCall}
    (behaviour : CoreBehaviour)
    (data : Data)
    (romPath : String)
    (owned : w.owned self = true)
    (alive : w.hosts self = some host)
    (idle : host.loaded = false)
    (free : ∀ h, ¬w.Plays h host.core)
    (noneLost : ∀ h, w.loaded h = true →
      ((start self host.core behaviour data romPath).state w).hosts h ≠ none)
    (phase : Phase host.core w calls) :
    Phase host.core ((start self host.core behaviour data romPath).state w)
      (calls ++ startCalls behaviour data romPath) := by
  obtain ⟨sessions, soFar⟩ := phase.complete free
  have others (h : HostId) (differs : h ≠ self) :
      ¬((start self host.core behaviour data romPath).state w).Plays h
        host.core := by
    rw [plays_start_other differs (noneLost h)]
    exact free h
  cases accepted : behaviour.loadGame with
  | true =>
      refine .inside sessions (gameInfo data romPath) 0 self ?_ ?_
      · intro h
        by_cases same : h = self
        · subst same
          simp [plays_start_self owned alive idle, accepted]
        · exact iff_of_false (others h same) same
      · rw [soFar, startCalls_accepted accepted]
  | false =>
      refine .between (sessions ++ [.rejected (gameInfo data romPath)]) ?_ ?_
      · intro h
        by_cases same : h = self
        · subst same
          simp [plays_start_self owned alive idle, accepted]
        · exact others h same
      · rw [soFar, startCalls_rejected accepted, List.flatMap_append,
          List.flatMap_singleton]

/-- On other cores nothing happens. -/
theorem phase_start_other
    {self : HostId}
    {host : LibretroHost}
    {w : World}
    {calls : List RetroCall}
    {core : CoreId}
    (differs : host.core ≠ core)
    (behaviour : CoreBehaviour)
    (data : Data)
    (romPath : String)
    (owned : w.owned self = true)
    (alive : w.hosts self = some host)
    (idle : host.loaded = false)
    (noneLost : ∀ h, w.loaded h = true →
      ((start self host.core behaviour data romPath).state w).hosts h ≠ none)
    (phase : Phase core w calls) :
    Phase core ((start self host.core behaviour data romPath).state w)
      calls := by
  refine phase.congr fun h => ?_
  by_cases same : h = self
  · subst same
    refine iff_of_false ?_ ?_
    · simp [plays_start_self owned alive idle, differs]
    · exact not_plays_of_idle ((World.loaded_of alive).trans idle) core
  · exact plays_start_other same (noneLost h) core

/-- Every operation that keeps to the discipline moves each core from phase to
phase by the calls it sends. -/
theorem phase_of_performed
    {platform : Platform}
    {w w' : World}
    {op : Op}
    {sentCalls : List (CoreId × RetroCall)}
    (done : Performed platform w op sentCalls w')
    (bounded : w.Bounded)
    (starts : op.StartsOnFreeCore w)
    (noneLost : ∀ h, w.loaded h = true → w'.hosts h ≠ none)
    {core : CoreId}
    {calls : List RetroCall}
    (phase : Phase core w calls) :
    Phase core w' (calls ++ received core sentCalls) := by
  cases done with
  | idle => simpa [received] using phase
  | created found =>
      rw [received, List.filterMap_nil, List.append_nil]
      exact phase.congr fun h =>
        plays_allocateHost bounded platform _ _ h core
  | @started self host behaviour data romPath owned alive =>
      obtain ⟨idle, free⟩ := starts host alive
      by_cases same : host.core = core
      · subst same
        rw [received_map_self]
        exact phase_start behaviour data romPath owned alive idle free
          noneLost phase
      · rw [received_map_of_ne same, List.append_nil]
        exact phase_start_other same behaviour data romPath owned alive idle
          noneLost phase
  | @ranFrame self host behaviour owned alive loaded =>
      have plays : w.Plays self host.core := ⟨host, alive, loaded, rfl⟩
      have same := plays_played host.core (behaviour.actions .retroRun) w
      by_cases onCore : host.core = core
      · subst onCore
        cases phase with
        | between sessions free soFar => exact absurd plays (free self)
        | inside sessions info frames player sole soFar =>
            refine .inside sessions info (frames + 1) player
              (fun h => (same h _).trans (sole h)) ?_
            rw [soFar, ← Session.opened_succ, List.append_assoc]
            simp [received]
      · simpa [received, onCore] using phase.congr fun h => same h core
  | @shutDown self host behaviour owned alive loaded =>
      have plays : w.Plays self host.core := ⟨host, alive, loaded, rfl⟩
      have afterwards := plays_afterShutdown self host.core behaviour w
      by_cases onCore : host.core = core
      · subst onCore
        cases phase with
        | between sessions free soFar => exact absurd plays (free self)
        | inside sessions info frames player sole soFar =>
            have isPlayer := (sole self).mp plays
            refine .between (sessions ++ [.played info frames]) ?_ ?_
            · intro h playsOn
              obtain ⟨before, differs⟩ := (afterwards h _).mp playsOn
              exact differs (((sole h).mp before).trans isPlayer.symm)
            · rw [soFar, List.flatMap_append, List.flatMap_singleton,
                Session.calls, List.append_assoc]
              simp [received]
      · have same (h : HostId) :
            (w.afterShutdown self host.core behaviour).Plays h core ↔
              w.Plays h core := by
          rw [afterwards h core, and_iff_left_of_imp]
          rintro ⟨player, playerAlive, _, playerCore⟩ rfl
          rw [alive, Option.some.injEq] at playerAlive
          subst playerAlive
          exact onCore playerCore
        simpa [received, onCore] using phase.congr same
  | dropped owned =>
      rw [received, List.filterMap_nil, List.append_nil]
      exact phase.congr fun h => plays_dropOwner _ noneLost h core
  | assigned owned alive inert =>
      rw [received, List.filterMap_nil, List.append_nil]
      exact phase.congr fun h => plays_modifyHost inert _ w h core

/-- What holds after any log of a disciplined run. -/
structure Conforms (log : List (Moment World Event)) (w : World) : Prop where
  bounded : w.Bounded
  phase : ∀ core, Phase core w (received core (sent log))

theorem conforms_initial : Conforms [] World.initial where
  bounded := bounded_initial
  phase core := .between [] (fun _ => not_plays_of_dead rfl core) rfl

theorem Conforms.perform
    {platform : Platform}
    {log : List (Moment World Event)}
    {w : World}
    {op : Op}
    (conforms : Conforms log w)
    (orderly : Orderly platform w op) :
    Conforms (log ++ (perform platform op).log w)
      ((perform platform op).state w) where
  bounded := bounded_of_performed (performed platform op w) conforms.bounded
  phase core := by
    rw [sent_append, received_append]
    exact phase_of_performed (performed platform op w) conforms.bounded
      orderly.1 orderly.2 (conforms.phase core)

/-- A frame or a shutdown on a host that is not loaded sends nothing. -/
theorem sent_of_idle
    (platform : Platform)
    {w : World}
    {h : HostId}
    (idle : w.loaded h = false)
    (behaviour : CoreBehaviour) :
    sent ((perform platform (.runFrame h behaviour)).log w) = [] ∧
      sent ((perform platform (.shutdown h behaviour)).log w) = [] := by
  cases callable : w.callable h with
  | none =>
      rw [perform, perform, (method_of_uncallable callable).2,
        (method_of_uncallable callable).2]
      exact ⟨rfl, rfl⟩
  | some host =>
      rw [perform, perform, log_method_of_callable callable,
        log_method_of_callable callable, log_bind, log_bind,
        (runFrame_of_idle idle).2, (shutdown_of_idle idle).2]
      exact ⟨rfl, rfl⟩

/-- **The call protocol.** In every disciplined run of any number of hosts,
the calls that a core receives are a beginning of a repetition of sessions,
and complete sessions while nobody plays on it; frames and shutdowns on hosts
that are not loaded send nothing. -/
theorem calls_follow_sessions
    (platform : Platform)
    (ops : List Op)
    (orderly : Along (perform platform) (Orderly platform)
      World.initial ops) :
    let log := (performAll platform ops).log World.initial
    let final := (performAll platform ops).state World.initial
    (∀ core,
      (∃ sessions : List Session,
        received core (sent log) <+: sessions.flatMap Session.calls) ∧
      ((∀ h, ¬final.Plays h core) → ∃ sessions : List Session,
        received core (sent log) = sessions.flatMap Session.calls)) ∧
    ∀ (w : World) (h : HostId) (behaviour : CoreBehaviour),
      w.loaded h = false →
      sent ((perform platform (.runFrame h behaviour)).log w) = [] ∧
        sent ((perform platform (.shutdown h behaviour)).log w) = [] := by
  intro log final
  have conforms : Conforms log final :=
    history_each_invariant Conforms
      (fun _ _ _ conforms orderly => conforms.perform orderly)
      ops [] World.initial conforms_initial orderly
  refine ⟨fun core => ⟨(conforms.phase core).isPrefix,
    (conforms.phase core).complete⟩, ?_⟩
  intro w h behaviour idle
  exact sent_of_idle platform idle behaviour

/-- With a single host the discipline is not to start it while it is loaded
and not to lose it then. -/
theorem orderly_of_single
    {platform : Platform}
    {w : World}
    {op : Op}
    (bounded : w.Bounded)
    (single : w.nextHost ≤ 1)
    (idle : ∀ h behaviour data romPath,
      op = .start h behaviour data romPath → w.loaded 0 = false)
    (kept : w.loaded 0 = true →
      ((perform platform op).state w).hosts 0 ≠ none) :
    Orderly platform w op := by
  have isZero (h : HostId) (host : LibretroHost)
      (alive : w.hosts h = some host) : h = 0 := by
    exact Nat.lt_one_iff.mp ((bounded h host alive).trans_le single)
  constructor
  · cases op with
    | start h behaviour data romPath =>
        intro host alive
        have notLoaded := idle h behaviour data romPath rfl
        obtain rfl := isZero h host alive
        refine ⟨(World.loaded_of alive).symm.trans notLoaded, ?_⟩
        rintro other ⟨player, playerAlive, loaded, _⟩
        obtain rfl := isZero other player playerAlive
        rw [World.loaded_of playerAlive, loaded] at notLoaded
        contradiction
    | _ => trivial
  · intro h loaded
    obtain ⟨host, alive, _⟩ := (World.loaded_eq_true_iff w h).mp loaded
    obtain rfl := isZero h host alive
    exact kept loaded

/-- A session that is played, and one that is rejected. -/
def twoSessions : List Op :=
  [.create "pce", .start 0 {} [1] "a.pce", .runFrame 0 {}, .shutdown 0 {},
    .start 0 { loadGame := false } [2] "b.pce"]

theorem orderly_twoSessions :
    Along (perform pcePlatform) (Orderly pcePlatform) World.initial
      twoSessions := by
  have bounded := bounded_performAll pcePlatform
  refine ⟨?_, ?_, ?_, ?_, ?_, trivial⟩
  · exact orderly_of_single (bounded []) (by decide) (by simp) (by decide)
  · exact orderly_of_single (bounded (twoSessions.take 1)) (by decide)
      (fun _ _ _ _ _ => by decide) (by decide)
  · exact orderly_of_single (bounded (twoSessions.take 2)) (by decide)
      (by simp) (by decide)
  · exact orderly_of_single (bounded (twoSessions.take 3)) (by decide)
      (by simp) (by decide)
  · exact orderly_of_single (bounded (twoSessions.take 4)) (by decide)
      (fun _ _ _ _ _ => by decide) (by decide)

theorem calls_follow_sessions_two :
    let log := (performAll pcePlatform twoSessions).log World.initial
    let final := (performAll pcePlatform twoSessions).state World.initial
    (∀ core,
      (∃ sessions : List Session,
        received core (sent log) <+: sessions.flatMap Session.calls) ∧
      ((∀ h, ¬final.Plays h core) → ∃ sessions : List Session,
        received core (sent log) = sessions.flatMap Session.calls)) ∧
    ∀ (w : World) (h : HostId) (behaviour : CoreBehaviour),
      w.loaded h = false →
      sent ((perform pcePlatform (.runFrame h behaviour)).log w) = [] ∧
        sent ((perform pcePlatform (.shutdown h behaviour)).log w) = [] :=
  calls_follow_sessions pcePlatform twoSessions orderly_twoSessions

end Host
end LibretroLab
