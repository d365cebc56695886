import LibretroLab.Host.Alike

/-!
# A host after its session

A host that has been through a session and was shut down goes on like a newly
created one exactly if the session left the pixel format and the information
about the core at their initial values, because `shutdown` resets neither.
-/

namespace LibretroLab
namespace Host

open Recorder Registry

/-- The owner of `h` sets one of its properties. -/
def Op.Sets (h : HostId) : Op → Prop
  | .setOnVideo host _ | .setOnAudio host _ | .writeButton host _ _ =>
      host = h
  | _ => False

/-- What is done with `h` between its `start` and its `shutdown`. -/
def Op.DuringSession (h : HostId) : Op → Prop
  | .runFrame host _ => host = h
  | op => op.Sets h

/-- The actions of the core in a frame. -/
def Op.frameActions : Op → List CoreAction
  | .runFrame _ behaviour => behaviour.actions .retroRun
  | _ => []

/-- The operations of a session. -/
def session
    (h : HostId)
    (behaviour : CoreBehaviour)
    (data : Data)
    (romPath : String)
    (body : List Op)
    (ending : CoreBehaviour) : List Op :=
  .start h behaviour data romPath :: (body ++ [.shutdown h ending])

/-- The actions of the core in a session whose game is accepted. -/
def sessionActions
    (behaviour : CoreBehaviour)
    (body : List Op)
    (ending : CoreBehaviour) : List CoreAction :=
  behaviour.startActions ++ body.flatMap Op.frameActions ++
    ending.shutdownActions

/-- The same is read of `h` now, and further calls of its methods are observed
alike. -/
def ObservedAlike
    (platform : Platform)
    (h : HostId)
    (further : List Op)
    (s t : World) : Prop :=
  s.reading h = t.reading h ∧
    ((performAll platform further).log s).flatMap observe =
      ((performAll platform further).log t).flatMap observe

/-! ## What is read of a host -/

/-- The host is owned, alive and of the given core, and reads as given. -/
structure Reads
    (h : HostId)
    (core : CoreId)
    (reading : Reading)
    (w : World) : Prop where
  owned : w.owned h = true
  alive : ∃ host, w.hosts h = some host ∧ host.core = core ∧
    host.reading = reading

/-- The host shows the reading of a loaded host and receives the callbacks. -/
structure Playing
    (h : HostId)
    (core : CoreId)
    (reading : Reading)
    (w : World) : Prop extends Reads h core reading w where
  routed : w.gLibretroHost = some h
  loaded : reading.loaded = true

section Reads

variable {h : HostId} {core : CoreId} {reading : Reading} {w : World}

theorem Reads.reading_eq (known : Reads h core reading w) :
    w.reading h = some reading := by
  obtain ⟨host, alive, _, same⟩ := known.alive
  rw [World.reading, alive, Option.map_some, same]

theorem reads_modifyHost
    {f : LibretroHost → LibretroHost}
    {reading' : Reading}
    (known : Reads h core reading w)
    (sameCore : ∀ host, (f host).core = host.core)
    (changed : ∀ host, host.reading = reading → (f host).reading = reading') :
    Reads h core reading' (w.modifyHost h f) := by
  obtain ⟨host, alive, isCore, same⟩ := known.alive
  refine ⟨known.owned, f host, ?_, ?_, changed host same⟩
  · rw [World.hosts_modifyHost, Function.update_self, alive, Option.map_some]
  · rw [sameCore, isCore]

/-- Setting a property changes neither what is read nor the routing. -/
theorem Reads.setProperty
    {f : LibretroHost → LibretroHost}
    (known : Reads h core reading w)
    (inert : Inert f) :
    Reads h core reading ((Host.setProperty h f).state w) ∧
      ((Host.setProperty h f).state w).gLibretroHost = w.gLibretroHost := by
  rw [Host.setProperty, state_get_bind]
  split_ifs
  · refine ⟨?_, rfl⟩
    refine reads_modifyHost known (fun host => ?_) fun host same => ?_
    · rw [inert host]
    · rw [inert host]
      exact same
  · exact ⟨known, rfl⟩

theorem Reads.sets
    (platform : Platform)
    {op : Op}
    (known : Reads h core reading w)
    (sets : op.Sets h) :
    Reads h core reading ((perform platform op).state w) ∧
      ((perform platform op).state w).gLibretroHost = w.gLibretroHost := by
  cases op with
  | setOnVideo self isSet =>
      obtain rfl : self = h := sets
      exact known.setProperty fun _ => rfl
  | setOnAudio self isSet =>
      obtain rfl : self = h := sets
      exact known.setProperty fun _ => rfl
  | writeButton self id value =>
      obtain rfl : self = h := sets
      exact known.setProperty fun _ => rfl
  | create | start | runFrame | shutdown | drop => exact sets.elim

/-- Setting properties does not change what is read. -/
theorem Reads.setUp
    (platform : Platform)
    {setUp : List Op}
    (known : Reads h core reading w)
    (sets : ∀ op ∈ setUp, op.Sets h) :
    Reads h core reading ((performAll platform setUp).state w) := by
  have preserved (v : World) (op : Op) (known : Reads h core reading v)
      (sets : op.Sets h) :
      Reads h core reading ((perform platform op).state v) :=
    (known.sets platform sets).1
  exact state_each_invariant _ preserved setUp w known
    (along_of_forall sets w)

/-- A newly created host reads as in its declaration. -/
theorem reads_allocateHost
    (platform : Platform)
    (name : String)
    (entry : CoreId)
    (w : World) :
    Reads w.nextHost entry ⟨false, .xrgb8888, .zero⟩
      (w.allocateHost platform name entry) := by
  refine ⟨Function.update_self _ _ _, _, Function.update_self _ _ _, rfl, rfl⟩

end Reads

/-! ## A session -/

section Session

variable {h : HostId} {core : CoreId} {reading : Reading} {w : World}
  {behaviour : CoreBehaviour}

/-- An accepted game sets the host up. -/
theorem playing_start
    (platform : Platform)
    {host : LibretroHost}
    (callable : w.callable h = some host)
    (accepted : behaviour.loadGame = true)
    (data : Data)
    (romPath : String) :
    Playing h host.core
      ⟨true, (lastFormat behaviour.startActions).getD host.pixelFormat,
        behaviour.avInfo⟩
      ((perform platform (.start h behaviour data romPath)).state w) := by
  obtain ⟨owned, alive⟩ :=
    (World.callable_eq_some_iff w h host).mp callable
  rw [perform, state_method_of_callable callable, state_bind, state_pure]
  refine ⟨⟨?_, host.started h behaviour data, ?_, ?_, ?_⟩, ?_, rfl⟩
  · rw [owned_start, owned]
  · rw [hosts_start_self owned, alive, Option.map_some]
  · rw [LibretroHost.core_started]
  · rw [LibretroHost.started, if_pos accepted]
    rfl
  · rw [gLibretroHost_start, if_pos accepted]

/-- A host that plays can be called and is loaded. -/
theorem Playing.callable
    (playing : Playing h core reading w) :
    ∃ host, w.callable h = some host ∧ w.hosts h = some host ∧
      host.core = core ∧ host.reading = reading ∧ w.loaded h = true := by
  obtain ⟨host, alive, isCore, same⟩ := playing.alive
  refine ⟨host, ?_, alive, isCore, same, ?_⟩
  · exact (World.callable_eq_some_iff w h host).mpr ⟨playing.owned, alive⟩
  · rw [World.loaded_of alive]
    exact (congrArg Reading.loaded same).trans playing.loaded

theorem Playing.sets
    (platform : Platform)
    {op : Op}
    (playing : Playing h core reading w)
    (sets : op.Sets h) :
    Playing h core reading ((perform platform op).state w) := by
  obtain ⟨known, routed⟩ := playing.toReads.sets platform sets
  exact ⟨known, routed.trans playing.routed, playing.loaded⟩

/-- The formats that the core asks for in a frame. -/
theorem Playing.duringSession
    (platform : Platform)
    {op : Op}
    (playing : Playing h core reading w)
    (during : op.DuringSession h) :
    Playing h core
      { reading with
        pixelFormat :=
          (lastFormat op.frameActions).getD reading.pixelFormat }
      ((perform platform op).state w) := by
  cases op with
  | runFrame self behaviour =>
      obtain rfl : self = h := during
      obtain ⟨host, callable, alive, isCore, same, loaded⟩ :=
        playing.callable
      rw [perform, state_method_of_callable callable, state_bind, state_pure,
        state_runFrame_of_loaded loaded]
      refine ⟨⟨playing.owned, host.played true self
        (behaviour.actions .retroRun), ?_, isCore, ?_⟩, playing.routed,
        playing.loaded⟩
      · rw [World.hosts_played, alive, playing.routed]
        simp
      · subst same
        rfl
  | setOnVideo | setOnAudio | writeButton =>
      refine playing.sets platform ?_
      exact during
  | create | start | shutdown | drop => exact during.elim

/-- The formats that the core asks for between `start` and `shutdown`. -/
theorem Playing.body
    (platform : Platform)
    {body : List Op}
    (playing : Playing h core reading w)
    (during : ∀ op ∈ body, op.DuringSession h) :
    Playing h core
      { reading with
        pixelFormat := (lastFormat (body.flatMap Op.frameActions)).getD
          reading.pixelFormat }
      ((performAll platform body).state w) := by
  induction body generalizing reading w with
  | nil => exact playing
  | cons op rest inductionHypothesis =>
      have first := playing.duringSession platform
        (during op List.mem_cons_self)
      have later := inductionHypothesis first fun next member =>
        during next (List.mem_cons_of_mem op member)
      rw [List.flatMap_cons, lastFormat_append, Option.getD_or]
      exact later

/-- `shutdown` marks the host as not loaded, and nothing more shows. -/
theorem Playing.shutdown
    (platform : Platform)
    (playing : Playing h core reading w)
    (ending : CoreBehaviour) :
    Reads h core
      { reading with
        loaded := false
        pixelFormat := (lastFormat ending.shutdownActions).getD
          reading.pixelFormat }
      ((perform platform (.shutdown h ending)).state w) := by
  obtain ⟨host, callable, alive, isCore, same, loaded⟩ := playing.callable
  rw [perform, state_method_of_callable callable, state_bind, state_pure,
    state_shutdown_of_owned playing.owned loaded]
  refine ⟨playing.owned, host.shutDown true h ending, ?_, isCore, ?_⟩
  · rw [hosts_afterShutdown, hosts_ended_self, alive, playing.routed]
    simp
  · subst same
    rfl

/-- A session leaves the last format its core asked for and the information
its core filled in. -/
theorem reads_session
    (platform : Platform)
    {host : LibretroHost}
    (callable : w.callable h = some host)
    (accepted : behaviour.loadGame = true)
    (data : Data)
    (romPath : String)
    {body : List Op}
    (during : ∀ op ∈ body, op.DuringSession h)
    (ending : CoreBehaviour) :
    Reads h host.core
      ⟨false, (lastFormat (sessionActions behaviour body ending)).getD
        host.pixelFormat, behaviour.avInfo⟩
      ((performAll platform
        (session h behaviour data romPath body ending)).state w) := by
  have started := playing_start platform callable accepted data romPath
  have ended := (started.body platform during).shutdown platform ending
  rw [session, state_each_cons, state_each_append, state_each_cons,
    state_each_nil, sessionActions, lastFormat_append, lastFormat_append,
    Option.getD_or, Option.getD_or]
  exact ended

end Session

/-! ## The two runs -/

/-- Every reachable world has its heap in order. -/
theorem heapOk_performAll (platform : Platform) (ops : List Op) :
    ((performAll platform ops).state World.initial).HeapOk :=
  (state_each_of_preserved World.WellFormed
    (fun _ op wellFormed => wellFormed_perform platform op wellFormed)
    ops World.initial wellFormed_initial).heap

/-- Two idle hosts of the same core with the same properties are observed alike
exactly if they read the same. -/
theorem observedAlike_iff
    (platform : Platform)
    {s t : World}
    {further : List Op}
    (heap : s.HeapOk)
    (heap' : t.HeapOk)
    (known : Reads h core reading s)
    (known' : Reads h core reading' t)
    (idle : reading.loaded = false)
    (sameProperties : s.properties h = t.properties h)
    (methods : ∀ op ∈ further, op.IsMethodOf h) :
    ObservedAlike platform h further s t ↔ reading = reading' := by
  rw [ObservedAlike, known.reading_eq, known'.reading_eq, Option.some.injEq]
  refine and_iff_left_of_imp fun sameReading => ?_
  obtain ⟨host, alive, isCore, reads⟩ := known.alive
  obtain ⟨host', alive', isCore', reads'⟩ := known'.alive
  rw [World.properties, World.properties, alive, alive', Option.map_some,
    Option.map_some, Option.some.injEq] at sameProperties
  have face : s.face h = t.face h := by
    rw [World.face, World.face, alive, alive', Option.map_some,
      Option.map_some, Option.some.injEq, LibretroHost.face_eq_iff]
    exact ⟨isCore.trans isCore'.symm,
      reads.trans (sameReading.trans reads'.symm), sameProperties⟩
  have between : Between h s t := by
    refine ⟨⟨heap, heap', known.owned, known'.owned, face⟩, fun loaded => ?_⟩
    rw [World.loaded_of alive] at loaded
    rw [← reads] at idle
    exact absurd (idle.symm.trans loaded) Bool.false_ne_true
  exact (Relates.each (fun op member =>
    relates_perform platform (methods op member)) s t between).2.1

/-- **After a session.** Any host, after a session that is ended by `shutdown`,
and a newly created host of the same core with the same properties are observed
alike in all further calls of their methods exactly if the session left the
pixel format at XRGB8888 and the information about the core at zero. -/
theorem fresh_again_iff
    (platform : Platform)
    (earlier others : List Op)
    (h : HostId)
    (host : LibretroHost)
    (callable :
      ((performAll platform earlier).state World.initial).callable h =
        some host)
    (behaviour ending : CoreBehaviour)
    (accepted : behaviour.loadGame = true)
    (data : Data)
    (romPath : String)
    (body : List Op)
    (during : ∀ op ∈ body, op.DuringSession h)
    (name : String)
    (found : libretroCoreLookup platform.registry
      (some (CString.ofString name)) = some host.core)
    (next :
      ((performAll platform others).state World.initial).nextHost = h)
    (setUp : List Op)
    (sets : ∀ op ∈ setUp, op.Sets h)
    (sameProperties :
      ((performAll platform (earlier ++
        session h behaviour data romPath body ending)).state
          World.initial).properties h =
      ((performAll platform (others ++ .create name :: setUp)).state
        World.initial).properties h)
    (further : List Op)
    (methods : ∀ op ∈ further, op.IsMethodOf h) :
    ObservedAlike platform h further
        ((performAll platform (earlier ++
          session h behaviour data romPath body ending)).state World.initial)
        ((performAll platform (others ++ .create name :: setUp)).state
          World.initial) ↔
      (lastFormat (sessionActions behaviour body ending)).getD
          host.pixelFormat = .xrgb8888 ∧
        behaviour.avInfo = .zero := by
  have used : Reads h host.core
      ⟨false, (lastFormat (sessionActions behaviour body ending)).getD
        host.pixelFormat, behaviour.avInfo⟩
      ((performAll platform (earlier ++
        session h behaviour data romPath body ending)).state
          World.initial) := by
    rw [state_each_append]
    exact reads_session platform callable accepted data romPath during ending
  have new : Reads h host.core ⟨false, .xrgb8888, .zero⟩
      ((performAll platform (others ++ .create name :: setUp)).state
        World.initial) := by
    rw [state_each_append, state_each_cons]
    refine Reads.setUp platform ?_ sets
    rw [perform, initCore, found, ← next]
    exact reads_allocateHost platform name host.core _
  rw [observedAlike_iff platform (heapOk_performAll platform _)
    (heapOk_performAll platform _) used new rfl sameProperties methods]
  simp

/-- A core that asks for RGB565 when its environment callback is set. -/
def rgb565Core : CoreBehaviour where
  actions
    | .retroSetEnvironment =>
        [.calls (.environment Env.setPixelFormat (some 2))]
    | _ => []

theorem fresh_again_iff_rgb565 :
    ObservedAlike pcePlatform 0
        [.start 0 {} [2] "b.pce", .runFrame 0 {}]
        ((performAll pcePlatform ([.create "pce", .setOnVideo 0 true] ++
          session 0 rgb565Core [1] "a.pce" [.runFrame 0 {}] {})).state
            World.initial)
        ((performAll pcePlatform ([] ++
          .create "pce" :: [.setOnVideo 0 true])).state World.initial) ↔
      (lastFormat (sessionActions rgb565Core [.runFrame 0 {}] {})).getD
          .xrgb8888 = .xrgb8888 ∧
        RetroSystemAvInfo.zero = .zero :=
  fresh_again_iff pcePlatform [.create "pce", .setOnVideo 0 true] [] 0 _ rfl
    rgb565Core {} rfl [1] "a.pce" [.runFrame 0 {}]
    (by simp [Op.DuringSession]) "pce" rfl rfl [.setOnVideo 0 true]
    (by simp [Op.Sets]) (by decide) _ (by simp [Op.IsMethodOf])

/-- After that session the host still has the format of its core. -/
theorem rgb565_not_fresh_again :
    ((performAll pcePlatform ([.create "pce", .setOnVideo 0 true] ++
        session 0 rgb565Core [1] "a.pce" [.runFrame 0 {}] {})).state
          World.initial).properties 0 =
      ((performAll pcePlatform
        ([] ++ .create "pce" :: [.setOnVideo 0 true])).state
          World.initial).properties 0 ∧
    ¬ObservedAlike pcePlatform 0
      [.start 0 {} [2] "b.pce", .runFrame 0 {}]
      ((performAll pcePlatform ([.create "pce", .setOnVideo 0 true] ++
        session 0 rgb565Core [1] "a.pce" [.runFrame 0 {}] {})).state
          World.initial)
      ((performAll pcePlatform ([] ++
        .create "pce" :: [.setOnVideo 0 true])).state World.initial) := by
  refine ⟨by decide, fun alike => ?_⟩
  exact absurd alike.1 (by decide)

end Host
end LibretroLab
