import LibretroLab.Host.Protocol

/-!
# When the call protocol is kept

A core sees one session after another exactly as long as no host is started
whose core is still initialised. Whether hosts are lost on the way, and who is
loaded, does not matter.
-/

namespace LibretroLab
namespace Host

open Recorder

/-- `start` is performed only on a host whose core is not initialised. -/
def Op.FindsCoreDown (w : World) : Op → Prop
  | .start h _ _ _ => ∀ host, w.callable h = some host →
      (w.cores host.core).initialised = false
  | _ => True

/-- The calls begin a repetition of sessions. -/
def FollowsProtocol (calls : List RetroCall) : Prop :=
  ∃ sessions : List Session, calls <+: sessions.flatMap Session.calls

/-- Where a core stands, given the calls it has received: down after complete
sessions while nobody plays on it, or up inside a session that at most one host
plays. -/
inductive Standing (core : CoreId) (w : World) (calls : List RetroCall) : Prop
  | down
      (sessions : List Session)
      (off : (w.cores core).initialised = false)
      (free : ∀ h, ¬w.Plays h core)
      (soFar : calls = sessions.flatMap Session.calls)
  | up
      (sessions : List Session)
      (info : RetroGameInfo)
      (frames : Nat)
      (on : (w.cores core).initialised = true)
      (sole : ∀ h h', w.Plays h core → w.Plays h' core → h = h')
      (soFar : calls =
        sessions.flatMap Session.calls ++ Session.opened info frames)

namespace Standing

variable {core : CoreId} {w w' : World} {calls : List RetroCall}

theorem followsProtocol (standing : Standing core w calls) :
    FollowsProtocol calls := by
  cases standing with
  | down sessions off free soFar => exact ⟨sessions, soFar ▸ List.prefix_rfl⟩
  | up sessions info frames on sole soFar =>
      refine ⟨sessions ++ [.played info frames], ?_⟩
      rw [soFar, List.flatMap_append, List.flatMap_singleton, Session.calls]
      exact (List.prefix_append_right_inj _).mpr (List.prefix_append _ _)

/-- A core stays where it stands while nobody starts to play on it. -/
theorem mono
    (standing : Standing core w calls)
    (sameCore : w'.cores core = w.cores core)
    (fewer : ∀ h, w'.Plays h core → w.Plays h core) :
    Standing core w' calls := by
  cases standing with
  | down sessions off free soFar =>
      exact .down sessions (sameCore ▸ off)
        (fun h plays => free h (fewer h plays)) soFar
  | up sessions info frames on sole soFar =>
      exact .up sessions info frames (sameCore ▸ on)
        (fun h h' plays plays' =>
          sole h h' (fewer h plays) (fewer h' plays')) soFar

end Standing

/-- A host that is left as it was, or goes away, does not start to play. -/
theorem plays_of_plays_released
    {w w' : World}
    {h : HostId}
    {core : CoreId}
    (heap : w'.hosts h = none ∨
      (w'.hosts h).map LibretroHost.status =
        (w.hosts h).map LibretroHost.status)
    (plays : w'.Plays h core) :
    w.Plays h core := by
  rcases heap with dead | same
  · exact absurd plays (not_plays_of_dead dead core)
  · exact (plays_congr same core).mp plays

section Start

variable {self : HostId} {host : LibretroHost} {w : World} {core : CoreId}
  {calls : List RetroCall} {behaviour : CoreBehaviour} {data : Data}
  {romPath : String}

theorem plays_of_plays_start_other
    {h : HostId}
    (differs : h ≠ self)
    (plays : ((start self host.core behaviour data romPath).state w).Plays h
      core) :
    w.Plays h core := by
  refine plays_of_plays_released ?_ plays
  rw [hosts_start_other differs, World.hosts_assignGlobal]
  split_ifs
  · exact Or.inl rfl
  · exact Or.inr (map_status_played _)

/-- A start on a core that is down leaves it up in a new session, or down after
one more. -/
theorem standing_start_self
    (owned : w.owned self = true)
    (alive : w.hosts self = some host)
    (off : (w.cores host.core).initialised = false)
    (standing : Standing host.core w calls) :
    Standing host.core ((start self host.core behaviour data romPath).state w)
      (calls ++ startCalls behaviour data romPath) := by
  cases standing with
  | up sessions info frames on sole soFar =>
      rw [on] at off
      contradiction
  | down sessions _ free soFar =>
      have isSelf (h : HostId)
          (plays : ((start self host.core behaviour data romPath).state
            w).Plays h host.core) : h = self := by
        by_contra differs
        exact free h (plays_of_plays_start_other differs plays)
      cases accepted : behaviour.loadGame with
      | true =>
          refine .up sessions (gameInfo data romPath) 0 ?_ ?_ ?_
          · simp [cores_start, accepted]
          · intro h h' plays plays'
            rw [isSelf h plays, isSelf h' plays']
          · rw [soFar, startCalls_accepted accepted]
      | false =>
          refine .down (sessions ++ [.rejected (gameInfo data romPath)]) ?_ ?_
            ?_
          · simp [cores_start, accepted]
          · intro h plays
            obtain rfl := isSelf h plays
            have idle : host.loaded = false := by
              cases loaded : host.loaded with
              | false => rfl
              | true => exact absurd ⟨host, alive, loaded, rfl⟩ (free h)
            rw [plays_start_self owned alive idle, accepted] at plays
            exact absurd plays.1 (by simp)
          · rw [soFar, startCalls_rejected accepted, List.flatMap_append,
              List.flatMap_singleton]

/-- It does not concern other cores. -/
theorem standing_start_other
    (owned : w.owned self = true)
    (alive : w.hosts self = some host)
    (differs : host.core ≠ core)
    (standing : Standing core w calls) :
    Standing core ((start self host.core behaviour data romPath).state w)
      calls := by
  refine standing.mono ?_ fun h plays => ?_
  · rw [cores_start, Function.update_of_ne (Ne.symm differs)]
  · by_cases same : h = self
    · subst same
      obtain ⟨after, isAfter, _, onCore⟩ := plays
      rw [hosts_start_self owned, alive, Option.map_some,
        Option.some.injEq] at isAfter
      rw [← isAfter, LibretroHost.core_started] at onCore
      exact absurd onCore differs
    · exact plays_of_plays_start_other same plays

end Start

/-- A frame is one more call of the open session of the core. -/
theorem standing_runFrame_self
    {self : HostId}
    {host : LibretroHost}
    {w : World}
    {calls : List RetroCall}
    (behaviour : CoreBehaviour)
    (plays : w.Plays self host.core)
    (standing : Standing host.core w calls) :
    Standing host.core (w.played host.core (behaviour.actions .retroRun))
      (calls ++ [.run]) := by
  have same := plays_played host.core (behaviour.actions .retroRun) w
  cases standing with
  | down sessions off free soFar => exact absurd plays (free self)
  | up sessions info frames on sole soFar =>
      refine .up sessions info (frames + 1) on ?_ ?_
      · intro h h' playsOn playsOn'
        exact sole h h' ((same h _).mp playsOn) ((same h' _).mp playsOn')
      · rw [soFar, ← Session.opened_succ, List.append_assoc]

/-- `shutdown` completes the open session of the core. -/
theorem standing_shutdown_self
    {self : HostId}
    {host : LibretroHost}
    {w : World}
    {calls : List RetroCall}
    (behaviour : CoreBehaviour)
    (plays : w.Plays self host.core)
    (standing : Standing host.core w calls) :
    Standing host.core (w.afterShutdown self host.core behaviour)
      (calls ++ [.unloadGame, .deinit]) := by
  cases standing with
  | down sessions off free soFar => exact absurd plays (free self)
  | up sessions info frames on sole soFar =>
      refine .down (sessions ++ [.played info frames]) ?_ ?_ ?_
      · rw [cores_afterShutdown, Function.update_self]
      · intro h playsOn
        obtain ⟨before, differs⟩ :=
          (plays_afterShutdown self host.core behaviour w h _).mp playsOn
        exact differs (sole h self before plays)
      · rw [soFar, List.flatMap_append, List.flatMap_singleton,
          Session.calls, List.append_assoc]

/-- Every operation moves each core from standing to standing by the calls it
sends, if it starts only cores that are down. -/
theorem standing_of_performed
    {platform : Platform}
    {w w' : World}
    {op : Op}
    {sentCalls : List (CoreId × RetroCall)}
    (done : Performed platform w op sentCalls w')
    (bounded : w.Bounded)
    (finds : op.FindsCoreDown w)
    {core : CoreId}
    {calls : List RetroCall}
    (standing : Standing core w calls) :
    Standing core w' (calls ++ received core sentCalls) := by
  cases done with
  | idle => simpa [received] using standing
  | created found =>
      rw [received, List.filterMap_nil, List.append_nil]
      exact standing.mono rfl fun h =>
        (plays_allocateHost bounded platform _ _ h core).mp
  | @started self host behaviour data romPath owned alive =>
      have off := finds host
        ((World.callable_eq_some_iff w self host).mpr ⟨owned, alive⟩)
      by_cases same : host.core = core
      · subst same
        rw [received_map_self]
        exact standing_start_self owned alive off standing
      · rw [received_map_of_ne same, List.append_nil]
        exact standing_start_other owned alive same standing
  | @ranFrame self host behaviour owned alive loaded =>
      by_cases onCore : host.core = core
      · subst onCore
        simpa [received] using
          standing_runFrame_self behaviour ⟨host, alive, loaded, rfl⟩ standing
      · have moved : Standing core
            (w.played host.core (behaviour.actions .retroRun)) calls :=
          standing.mono rfl fun h =>
            (plays_played host.core (behaviour.actions .retroRun) w h core).mp
        simpa [received, onCore] using moved
  | @shutDown self host behaviour owned alive loaded =>
      by_cases onCore : host.core = core
      · subst onCore
        simpa [received] using
          standing_shutdown_self behaviour ⟨host, alive, loaded, rfl⟩ standing
      · have sameCore : (w.afterShutdown self host.core behaviour).cores core
            = w.cores core := by
          rw [cores_afterShutdown, Function.update_of_ne (Ne.symm onCore)]
        simpa [received, onCore] using standing.mono sameCore fun h playsOn =>
          ((plays_afterShutdown self host.core behaviour w h core).mp playsOn).1
  | @dropped self owned =>
      rw [received, List.filterMap_nil, List.append_nil]
      refine standing.mono (by simp [World.dropOwner]) fun h plays => ?_
      refine plays_of_plays_released ?_ plays
      rw [World.dropOwner, World.hosts_release]
      split_ifs
      · exact Or.inl rfl
      · exact Or.inr rfl
  | assigned owned alive inert =>
      rw [received, List.filterMap_nil, List.append_nil]
      exact standing.mono rfl fun h => (plays_modifyHost inert _ w h core).mp

/-- What holds after any log of a run that starts only cores that are down. -/
structure Stands (log : List (Moment World Event)) (w : World) : Prop where
  bounded : w.Bounded
  standing : ∀ core, Standing core w (received core (sent log))

theorem stands_initial : Stands [] World.initial where
  bounded := bounded_initial
  standing core := .down [] rfl (fun _ => not_plays_of_dead rfl core) rfl

theorem Stands.perform
    {platform : Platform}
    {log : List (Moment World Event)}
    {w : World}
    {op : Op}
    (stands : Stands log w)
    (finds : op.FindsCoreDown w) :
    Stands (log ++ (perform platform op).log w)
      ((perform platform op).state w) where
  bounded := bounded_of_performed (performed platform op w) stands.bounded
  standing core := by
    rw [sent_append, received_append]
    exact standing_of_performed (performed platform op w) stands.bounded finds
      (stands.standing core)

/-! ## A core that is still up -/

theorem count_setEnvironment_calls (session : Session) :
    session.calls.count .setEnvironment = 1 := by
  cases session <;>
    simp [Session.calls, Session.opened, registrations, List.count_replicate]

theorem count_deinit_calls (session : Session) :
    session.calls.count .deinit = 1 := by
  cases session <;>
    simp [Session.calls, Session.opened, registrations, List.count_replicate]

/-- In a beginning of a repetition of sessions, at most one session has been
opened and not been ended. -/
theorem count_setEnvironment_le
    {calls : List RetroCall}
    {sessions : List Session}
    (begins : calls <+: sessions.flatMap Session.calls) :
    calls.count .setEnvironment ≤ calls.count .deinit + 1 := by
  induction sessions generalizing calls with
  | nil =>
      rw [List.prefix_nil.mp begins]
      exact Nat.zero_le _
  | cons session rest inductionHypothesis =>
      rw [List.flatMap_cons] at begins
      rcases List.prefix_or_prefix_of_prefix begins
        (List.prefix_append session.calls _) with inside | ⟨more, rfl⟩
      · have fewer := inside.sublist.count_le RetroCall.setEnvironment
        rw [count_setEnvironment_calls] at fewer
        omega
      · have later := inductionHypothesis
          ((List.prefix_append_right_inj _).mp begins)
        rw [List.count_append, List.count_append, count_setEnvironment_calls,
          count_deinit_calls]
        omega

/-- A session cannot be opened inside another one. -/
theorem not_followsProtocol_reopened
    (sessions : List Session)
    (info : RetroGameInfo)
    (frames : Nat)
    (more : List RetroCall) :
    ¬FollowsProtocol (sessions.flatMap Session.calls ++
      Session.opened info frames ++ .setEnvironment :: more) := by
  rintro ⟨others, begins⟩
  have beginning : sessions.flatMap Session.calls ++
      Session.opened info frames ++ [.setEnvironment] <+:
      others.flatMap Session.calls := by
    refine List.IsPrefix.trans ?_ begins
    exact (List.prefix_append_right_inj _).mpr ⟨more, rfl⟩
  have bound := count_setEnvironment_le beginning
  have balanced : (sessions.flatMap Session.calls).count .setEnvironment =
      (sessions.flatMap Session.calls).count .deinit := by
    simp [List.count_flatMap, Function.comp_def, count_setEnvironment_calls,
      count_deinit_calls]
  have opens : (Session.opened info frames).count .setEnvironment = 1 := by
    simp [Session.opened, registrations, List.count_replicate]
  have ends : (Session.opened info frames).count .deinit = 0 := by
    simp [Session.opened, registrations, List.count_replicate]
  simp [balanced, opens, ends] at bound

/-- The calls of a `start` that is performed. -/
theorem sent_perform_start
    {platform : Platform}
    {w : World}
    {h : HostId}
    {host : LibretroHost}
    (callable : w.callable h = some host)
    (behaviour : CoreBehaviour)
    (data : Data)
    (romPath : String) :
    sent ((perform platform (.start h behaviour data romPath)).log w) =
      (startCalls behaviour data romPath).map (Prod.mk host.core) := by
  rw [perform, log_method_of_callable callable, sent_append, log_bind,
    log_pure, List.append_nil, sent_start]
  simp [sent, Event.sent]

/-- If the calls of a run follow the protocol, its next operation starts only a
core that is down. -/
theorem findsCoreDown_of_followsProtocol
    {platform : Platform}
    {op : Op}
    {past more : List (Moment World Event)}
    {w : World}
    (stands : Stands past w)
    (follows : ∀ core, FollowsProtocol (received core
      (sent (past ++ ((perform platform op).log w ++ more))))) :
    op.FindsCoreDown w := by
  cases op with
  | start h behaviour data romPath =>
      intro host callable
      have standing := stands.standing host.core
      have followed := follows host.core
      rw [sent_append, sent_append, received_append, received_append,
        sent_perform_start callable, received_map_self] at followed
      cases standing with
      | down sessions off free soFar => exact off
      | up sessions info frames on sole soFar =>
          rw [soFar] at followed
          exact absurd followed
            (not_followsProtocol_reopened sessions info frames _)
  | _ => trivial

/-- A run whose calls follow the protocol starts only cores that are down. -/
theorem along_of_followsProtocol
    {platform : Platform}
    {past : List (Moment World Event)}
    {w : World}
    (ops : List Op)
    (stands : Stands past w)
    (follows : ∀ core, FollowsProtocol (received core
      (sent (past ++ (performAll platform ops).log w)))) :
    Along (perform platform) (fun w op => op.FindsCoreDown w) w ops := by
  induction ops generalizing past w with
  | nil => trivial
  | cons op rest inductionHypothesis =>
      have finds := findsCoreDown_of_followsProtocol stands follows
      refine ⟨finds, inductionHypothesis (stands.perform finds) fun core => ?_⟩
      rw [List.append_assoc]
      exact follows core

/-- **The protocol, exactly.** In every run of any number of hosts, whoever is
loaded, started again, dropped or lost: every core receives a beginning of a
repetition of sessions if and only if each `start` that is performed finds its
core not initialised. -/
theorem protocol_followed_iff (platform : Platform) (ops : List Op) :
    (∀ core, FollowsProtocol (received core
      (sent ((performAll platform ops).log World.initial)))) ↔
      Along (perform platform) (fun w op => op.FindsCoreDown w)
        World.initial ops := by
  constructor
  · intro follows
    exact along_of_followsProtocol ops stands_initial follows
  · intro along core
    have stands : Stands ((performAll platform ops).log World.initial)
        ((performAll platform ops).state World.initial) :=
      history_each_invariant Stands
        (fun _ _ _ stands finds => stands.perform finds)
        ops [] World.initial stands_initial along
    exact (stands.standing core).followsProtocol

end Host
end LibretroLab
