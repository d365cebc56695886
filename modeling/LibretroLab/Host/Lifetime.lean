import LibretroLab.Host.Heap

/-!
# What a core was given stays alive

While a core holds a game, the host that loaded it, its directory strings and
the ROM bytes stay as they were, exactly as long as a loaded host is not
started again with other bytes, and a host that holds a game is not left
without any reference.
-/

namespace LibretroLab
namespace Host

open Recorder

/-- The host that loaded the game is alive, its two directory strings are
allocated and unchanged, and its ROM bytes are those of the game. -/
def Game.KeptAlive (game : Game) (w : World) : Prop :=
  ∃ host, w.hosts game.host = some host ∧
    (∃ p, host.systemDirC = some p ∧ w.strings p = some host.systemDir) ∧
    (∃ p, host.saveDirC = some p ∧ w.strings p = some host.saveDir) ∧
    host.romData = some game.romData

/-- What every core was given is alive. -/
def World.Kept (w : World) : Prop :=
  ∀ core, ∀ game ∈ (w.cores core).games, game.KeptAlive w

/-- What every core was given is alive after the moment. -/
def KeptAfter (moment : Moment World Event) : Prop :=
  moment.after.Kept

/-- Some core holds a game that the host loaded. -/
def World.Provides (w : World) (h : HostId) : Prop :=
  ∃ core, ∃ game ∈ (w.cores core).games, game.host = h

/-- The operation leaves what cores were given alone: a `start` on a host whose
core holds games of that host brings the bytes of each, a `start` takes the
callbacks over only from a host that provides nothing or has an owner, and a
host that provides a game is dropped only while the callbacks refer to it. -/
def Op.LeavesGames (w : World) : Op → Prop
  | .start h _ data _ => ∀ host, w.callable h = some host →
      (∀ game ∈ (w.cores host.core).games, game.host = h →
        game.romData = data) ∧
      ∀ old, w.gLibretroHost = some old → old ≠ h → w.Provides old →
        w.owned old = true
  | .drop h => w.owned h = true → w.Provides h → w.gLibretroHost = some h
  | _ => True

/-! ## The games that cores hold -/

/-- The core and the ROM bytes of a live host. -/
def World.bytes (w : World) (h : HostId) : Option (CoreId × Option Data) :=
  (w.hosts h).map fun host => (host.core, host.romData)

/-- Each game was loaded by a live host of the same core, which still has the
bytes. -/
structure Held (w : World) : Prop where
  heap : w.HeapOk
  games : ∀ core, ∀ game ∈ (w.cores core).games,
    w.bytes game.host = some (core, some game.romData)

theorem bytes_of_alive
    {w : World}
    (alive : w.hosts h = some host) :
    w.bytes h = some (host.core, host.romData) := by
  rw [World.bytes, alive, Option.map_some]

/-- A game of a host is held by the core of that host. -/
theorem Held.core_eq
    {w : World}
    (held : Held w)
    (bytes : w.bytes self = some (core, old))
    (holds : game ∈ (w.cores callee).games)
    (same : game.host = self) :
    core = callee := by
  have known := held.games callee game holds
  rw [same, bytes, Option.some.injEq, Prod.mk.injEq] at known
  exact known.1

@[simp] theorem bytes_played
    (core : CoreId) (actions : List CoreAction) (w : World) :
    (w.played core actions).bytes = w.bytes := by
  funext h
  rw [World.bytes, World.hosts_played, Option.map_map]
  rfl

theorem bytes_modifyHost
    {f : LibretroHost → LibretroHost}
    (sameCore : ∀ host, (f host).core = host.core)
    (sameBytes : ∀ host, (f host).romData = host.romData)
    (self : HostId)
    (w : World) :
    (w.modifyHost self f).bytes = w.bytes := by
  funext h
  rw [World.bytes, World.hosts_modifyHost, World.bytes]
  by_cases same : h = self
  · subst same
    rw [Function.update_self, Option.map_map]
    congr 1
    funext host
    exact Prod.ext (sameCore host) (sameBytes host)
  · rw [Function.update_of_ne same]

theorem bytes_setRomData
    (self : HostId)
    (value : Option Data)
    (w : World) :
    (w.modifyHost self fun host => { host with romData := value }).bytes =
      Function.update w.bytes self
        ((w.bytes self).map fun known => (known.1, value)) := by
  funext h
  rw [World.bytes, World.hosts_modifyHost]
  by_cases same : h = self
  · subst same
    rw [Function.update_self, Function.update_self, World.bytes,
      Option.map_map, Option.map_map]
    rfl
  · rw [Function.update_of_ne same, Function.update_of_ne same, World.bytes]

/-- A host without a game may go. -/
theorem bytes_release_of_ne
    {self h : HostId}
    {w : World}
    (kept : h ≠ self ∨ w.owned self = true ∨ w.gLibretroHost = some self) :
    (w.release self).bytes h = w.bytes h := by
  rw [World.bytes, World.hosts_release, if_neg, World.bytes]
  rintro ⟨same, unowned, unrouted⟩
  rcases kept with differs | owned | routed
  · exact differs same
  · rw [unowned] at owned
    contradiction
  · exact unrouted routed

namespace Held

/-- What cores were given is alive when each game is with its host. -/
theorem kept (held : Held w) : w.Kept := by
  intro core game holds
  obtain ⟨host, alive, same⟩ :=
    Option.map_eq_some_iff.mp (held.games core game holds)
  have allocated := held.heap.allocated game.host host.constants
    (by rw [World.constants, alive, Option.map_some])
  exact ⟨host, alive, allocated.systemDir, allocated.saveDir,
    (Prod.mk.inj same).2⟩

theorem provider_alive
    (held : Held w)
    (provides : w.Provides h) :
    ∃ host, w.hosts h = some host := by
  obtain ⟨core, game, holds, rfl⟩ := provides
  obtain ⟨host, alive, _⟩ :=
    Option.map_eq_some_iff.mp (held.games core game holds)
  exact ⟨host, alive⟩

/-- A world with the same bytes for all hosts that provide a game, and with no
new games. -/
theorem of_bytes
    {w w' : World}
    (held : Held w)
    (heap : w'.HeapOk)
    (bytes : ∀ h, w.Provides h → w'.bytes h = w.bytes h)
    (fewer : ∀ core, ∀ game ∈ (w'.cores core).games,
      game ∈ (w.cores core).games) :
    Held w' where
  heap := heap
  games := by
    intro core game holds
    have before := fewer core game holds
    rw [bytes game.host ⟨core, game, before, rfl⟩]
    exact held.games core game before

/-- Releasing a host that provides nothing, or has references. -/
theorem release
    {self : HostId}
    (held : Held w)
    (kept : w.Provides self →
      w.owned self = true ∨ w.gLibretroHost = some self) :
    Held (w.release self) := by
  refine held.of_bytes (held.heap.release self) ?_ ?_
  · intro h provides
    apply bytes_release_of_ne
    by_cases same : h = self
    · subst same
      exact Or.inr (kept provides)
    · exact Or.inl same
  · intro core game holds
    rwa [World.cores_release] at holds

/-- The global does not matter to the games. -/
theorem setGlobal (held : Held w) (value : Option HostId) :
    Held { w with gLibretroHost := value } :=
  held.of_bytes (held.heap.setGlobal value) (fun _ _ => rfl)
    fun _ _ holds => holds

theorem assignGlobal
    {value : Option HostId}
    (held : Held w)
    (kept : ∀ old, w.gLibretroHost = some old → value ≠ some old →
      w.Provides old → w.owned old = true) :
    Held (w.assignGlobal value) := by
  unfold World.assignGlobal
  cases routed : w.gLibretroHost with
  | none => exact held.setGlobal value
  | some old =>
      refine (held.setGlobal value).release fun provides => ?_
      by_cases same : value = some old
      · exact Or.inr same
      · exact Or.inl (kept old routed same provides)

end Held

/-! ## Calls leave the games alone -/

/-- An invariant that depends on the heap, the bytes of the hosts, the
references to them, and on games only as far as they are held. -/
def Stable (invariant : World → Prop) : Prop :=
  ∀ w w', invariant w → w'.HeapOk → w'.bytes = w.bytes →
    w'.gLibretroHost = w.gLibretroHost → w'.owned = w.owned →
    (∀ core, ∀ game ∈ (w'.cores core).games,
      game ∈ (w.cores core).games) →
    invariant w'

theorem stable_held : Stable Held :=
  fun _ _ held heap bytes _ _ fewer =>
    held.of_bytes heap (fun h _ => congrFun bytes h) fewer

/-- Entering a call gives a core no game. -/
theorem game_of_game_enter
    {callee core : CoreId}
    {retroCall : RetroCall}
    {w : World}
    (holds : game ∈ ((w.enter callee retroCall).cores core).games) :
    game ∈ (w.cores core).games := by
  rw [World.cores_enter] at holds
  by_cases same : core = callee
  · subst same
    rw [Function.update_self] at holds
    cases retroCall <;> first | exact holds | contradiction
  · rwa [Function.update_of_ne same] at holds

/-- Only an accepted game changes what a core holds when a call returns. -/
theorem leave_of_not_accepted
    {retroCall : RetroCall}
    (notAccepted : ∀ info, retroCall ≠ .loadGame info true)
    (self : HostId)
    (core : CoreId)
    (w : World) :
    w.leave self core retroCall = w := by
  have same (state : CoreState) : state.left self retroCall = state := by
    cases retroCall with
    | loadGame info accepted =>
        cases accepted with
        | false => rfl
        | true => exact absurd rfl (notAccepted info)
    | _ => rfl
  rw [World.leave, same, Function.update_eq_self]

section Calls

variable {invariant post : World → Prop}

/-- A core cannot break a stable invariant. -/
theorem keeps_act_of_stable
    (stable : Stable invariant)
    (held : ∀ w, invariant w → Held w)
    (core : CoreId)
    (action : CoreAction) :
    Keeps invariant KeptAfter (act core action) := by
  intro w initially
  have final : invariant (w.played core [action]) :=
    stable w _ initially (heapOk_played (held w initially).heap _)
      (bytes_played _ _ _) rfl rfl fun _ _ holds => holds
  rw [state_act]
  refine ⟨?_, final⟩
  have kept := (held _ final).kept
  rw [← state_act] at kept
  cases action with
  | calls callback => exact (throughout_step _ _ _).mpr kept
  | writeButton h id value => exact (throughout_emit _ _ _ _).mpr kept

/-- A call that enters a stable invariant leads where its return leads. -/
theorem leads_call
    {pre : World → Prop}
    {retroCall : RetroCall}
    (stable : Stable invariant)
    (held : ∀ w, invariant w → Held w)
    (self : HostId)
    (core : CoreId)
    (actions : List CoreAction)
    (entered : ∀ w, pre w → invariant (w.enter core retroCall))
    (left : ∀ w, invariant w →
      Held (w.leave self core retroCall) ∧
        post (w.leave self core retroCall)) :
    Leads pre KeptAfter post (call self core retroCall actions) := by
  refine Leads.bind (Leads.emit (fun w initially => ?_) entered) fun _ =>
    Leads.bind (keeps_each (keeps_act_of_stable stable held core) actions)
      fun _ => Leads.emit (fun w initially => ?_)
        fun w initially => (left w initially).2
  · exact (held _ (entered w initially)).kept
  · exact (left w initially).1.kept

/-- A call in which no game is accepted keeps a stable invariant. -/
theorem keeps_call_of_stable
    {retroCall : RetroCall}
    (stable : Stable invariant)
    (held : ∀ w, invariant w → Held w)
    (self : HostId)
    (core : CoreId)
    (actions : List CoreAction)
    (notAccepted : ∀ info, retroCall ≠ .loadGame info true) :
    Keeps invariant KeptAfter (call self core retroCall actions) := by
  refine leads_call stable held self core actions (fun w initially => ?_)
    fun w initially => ?_
  · refine stable w _ initially ?_ rfl rfl rfl fun _ _ holds =>
      game_of_game_enter holds
    exact (held w initially).heap.congr rfl rfl rfl rfl
  · rw [leave_of_not_accepted notAccepted]
    exact ⟨held w initially, initially⟩

/-- So does a store to properties other than the ROM bytes. -/
theorem keeps_assign_of_stable
    {f : LibretroHost → LibretroHost}
    (stable : Stable invariant)
    (held : ∀ w, invariant w → Held w)
    (self : HostId)
    (sameConstants : ∀ host, (f host).constants = host.constants)
    (sameBytes : ∀ host, (f host).romData = host.romData) :
    Keeps invariant KeptAfter (assign self f) := by
  have preserved (w : World) (initially : invariant w) :
      invariant (w.modifyHost self f) := by
    refine stable w _ initially
      (heapOk_modifyHost (held w initially).heap sameConstants) ?_ rfl rfl
      fun _ _ holds => holds
    exact bytes_modifyHost
      (fun host => congrArg Constants.core (sameConstants host)) sameBytes
      self w
  exact Keeps.emit
    (fun w initially => (held _ (preserved w initially)).kept) preserved

end Calls

/-! ## The stages of a start -/

/-- The host is owned and receives the callbacks. -/
structure Starting (h : HostId) (w : World) : Prop where
  held : Held w
  routed : w.gLibretroHost = some h
  owned : w.owned h = true

/-- `start` may be called: nothing that a core was given hangs on the old value
of the global or on the old ROM bytes. -/
structure Startable
    (h : HostId)
    (core : CoreId)
    (data : Data)
    (w : World) : Prop where
  held : Held w
  owned : w.owned h = true
  bytes : ∃ old, w.bytes h = some (core, old)
  sameBytes : ∀ game ∈ (w.cores core).games, game.host = h →
    game.romData = data
  takesOver : ∀ old, w.gLibretroHost = some old → old ≠ h →
    w.Provides old → w.owned old = true

/-- The ROM bytes may be stored. -/
structure Offering
    (h : HostId)
    (core : CoreId)
    (data : Data)
    (w : World) : Prop extends Starting h w where
  bytes : ∃ old, w.bytes h = some (core, old)
  sameBytes : ∀ game ∈ (w.cores core).games, game.host = h →
    game.romData = data

/-- The ROM bytes are stored. -/
structure Armed
    (h : HostId)
    (core : CoreId)
    (data : Data)
    (w : World) : Prop extends Starting h w where
  bytes : w.bytes h = some (core, some data)

theorem stable_starting (self : HostId) : Stable (Starting self) := by
  intro w w' starting heap bytes routed owned fewer
  refine ⟨stable_held w w' starting.held heap bytes routed owned fewer,
    ?_, ?_⟩
  · rw [routed, starting.routed]
  · rw [owned, starting.owned]

theorem stable_offering (self : HostId) (core : CoreId) (data : Data) :
    Stable (Offering self core data) := by
  intro w w' offering heap bytes routed owned fewer
  refine ⟨stable_starting self w w' offering.toStarting heap bytes routed
    owned fewer, ?_, ?_⟩
  · rw [bytes]
    exact offering.bytes
  · exact fun game holds => offering.sameBytes game (fewer core game holds)

theorem stable_armed (self : HostId) (core : CoreId) (data : Data) :
    Stable (Armed self core data) := by
  intro w w' armed heap bytes routed owned fewer
  refine ⟨stable_starting self w w' armed.toStarting heap bytes routed
    owned fewer, ?_⟩
  rw [bytes, armed.bytes]

section Start

variable {self : HostId} {core : CoreId} {behaviour : CoreBehaviour}
  {data : Data} {romPath : String}

theorem Startable.offering
    {w : World}
    (startable : Startable self core data w) :
    Offering self core data (w.assignGlobal (some self)) where
  held := startable.held.assignGlobal fun old routed differs =>
    startable.takesOver old routed fun same =>
      differs (congrArg some same.symm)
  routed := World.gLibretroHost_assignGlobal _ w
  owned := by rw [World.owned_assignGlobal, startable.owned]
  bytes := by
    rw [World.bytes, World.hosts_assignGlobal_of_owned startable.owned]
    exact startable.bytes
  sameBytes := by
    rw [World.cores_assignGlobal]
    exact startable.sameBytes

/-- Storing the bytes of a game that is about to be offered. -/
theorem Offering.armed
    {w : World}
    (offering : Offering self core data w) :
    Armed self core data
      (w.modifyHost self fun host => { host with romData := some data }) := by
  obtain ⟨old, before⟩ := offering.bytes
  refine ⟨⟨⟨heapOk_modifyHost offering.held.heap fun _ => rfl, ?_⟩,
    offering.routed, offering.owned⟩, ?_⟩
  · intro callee game holds
    have known := offering.held.games callee game holds
    rw [bytes_setRomData]
    by_cases same : game.host = self
    · have sameCore := offering.held.core_eq before holds same
      subst sameCore
      rw [same, Function.update_self, before, Option.map_some,
        offering.sameBytes game holds same]
    · rw [Function.update_of_ne same, known]
  · rw [bytes_setRomData, Function.update_self, before, Option.map_some]

/-- An accepted game is with its host. -/
theorem Armed.held_leave
    {w : World}
    (armed : Armed self core data w)
    (romPath : String) :
    Held (w.leave self core (.loadGame (gameInfo data romPath) true)) where
  heap := armed.held.heap.congr rfl rfl rfl rfl
  games := by
    intro callee game holds
    have bytes : (w.leave self core
        (.loadGame (gameInfo data romPath) true)).bytes = w.bytes := rfl
    rw [bytes]
    by_cases same : callee = core
    · subst same
      have isGame : game ∈ (w.cores callee).games ∨ game = ⟨self, data⟩ := by
        simpa [World.leave, CoreState.left, gameInfo] using holds
      rcases isGame with before | rfl
      · exact armed.held.games callee game before
      · exact armed.bytes
    · have before : game ∈ (w.cores callee).games := by
        simpa [World.leave, same] using holds
      exact armed.held.games callee game before

theorem keeps_registerCallbacks_of_stable
    {invariant : World → Prop}
    (stable : Stable invariant)
    (held : ∀ w, invariant w → Held w)
    (behaviour : CoreBehaviour) :
    Keeps invariant KeptAfter (registerCallbacks self core behaviour) := by
  have registers (retroCall : RetroCall) (actions : List CoreAction)
      (notAccepted : ∀ info, retroCall ≠ .loadGame info true) :
      Keeps invariant KeptAfter (call self core retroCall actions) :=
    keeps_call_of_stable stable held self core actions notAccepted
  exact Keeps.bind (registers .setEnvironment _ (by simp)) fun _ =>
    Keeps.bind (registers .setVideoRefresh _ (by simp)) fun _ =>
      Keeps.bind (registers .setAudioSample _ (by simp)) fun _ =>
        Keeps.bind (registers .setAudioSampleBatch _ (by simp)) fun _ =>
          Keeps.bind (registers .setInputPoll _ (by simp)) fun _ =>
            registers .setInputState _ (by simp)

/-- What follows an accepted game. -/
theorem leads_accepted :
    Leads (Armed self core data) KeptAfter Held (do
      call self core (.loadGame (gameInfo data romPath) true)
        (behaviour.actions .retroLoadGame)
      call self core .getSystemAvInfo
        (behaviour.actions .retroGetSystemAvInfo)
      assign self fun host => { host with avInfo := behaviour.avInfo }
      call self core (.setControllerPortDevice 0 1)
        (behaviour.actions .retroSetControllerPortDevice)
      assign self fun host => { host with loaded := true }
      pure true) := by
  have loads : Leads (Armed self core data) KeptAfter Held
      (call self core (.loadGame (gameInfo data romPath) true)
        (behaviour.actions .retroLoadGame)) := by
    refine leads_call (stable_armed self core data)
      (fun _ armed => armed.held) self core _ (fun w armed => ?_)
      fun w armed => ⟨armed.held_leave romPath, armed.held_leave romPath⟩
    exact stable_armed self core data w _ armed
      (armed.held.heap.congr rfl rfl rfl rfl) rfl rfl rfl
      fun _ _ holds => game_of_game_enter holds
  refine Leads.bind loads fun _ =>
    Leads.bind (keeps_call_of_stable stable_held (fun _ held => held) self
      core _ (by simp)) fun _ =>
    Leads.bind (keeps_assign_of_stable stable_held (fun _ held => held) self
      (fun _ => rfl) fun _ => rfl) fun _ =>
    Leads.bind (keeps_call_of_stable stable_held (fun _ held => held) self
      core _ (by simp)) fun _ =>
    Leads.bind (keeps_assign_of_stable stable_held (fun _ held => held) self
      (fun _ => rfl) fun _ => rfl) fun _ => Leads.pure true

/-- What follows a rejected game. -/
theorem leads_rejected :
    Leads (Armed self core data) KeptAfter Held (do
      call self core (.loadGame (gameInfo data romPath) false)
        (behaviour.actions .retroLoadGame)
      call self core .deinit (behaviour.actions .retroDeinit)
      emit .assigned (World.assignGlobal none)
      pure false) := by
  have clears (w : World) (armed : Armed self core data w) :
      Held (w.assignGlobal none) := by
    refine armed.held.assignGlobal fun old routed _ _ => ?_
    rw [armed.routed, Option.some.injEq] at routed
    rw [← routed, armed.owned]
  refine Leads.bind (keeps_call_of_stable (stable_armed self core data)
      (fun _ armed => armed.held) self core _ (by simp)) fun _ =>
    Leads.bind (keeps_call_of_stable (stable_armed self core data)
      (fun _ armed => armed.held) self core _ (by simp)) fun _ =>
    Leads.bind (Leads.emit (fun w armed => (clears w armed).kept) clears)
      fun _ => Leads.pure false

/-- A `start` that may be called keeps what cores were given. -/
theorem leads_start :
    Leads (Startable self core data) KeptAfter Held
      (start self core behaviour data romPath) := by
  unfold start
  refine Leads.bind (Leads.emit
      (fun w startable => startable.offering.held.kept)
      fun w startable => startable.offering) fun _ =>
    Leads.bind (keeps_registerCallbacks_of_stable
      (stable_offering self core data) (fun _ offering => offering.held)
      behaviour) fun _ =>
    Leads.bind (keeps_call_of_stable (stable_offering self core data)
      (fun _ offering => offering.held) self core _ (by simp)) fun _ =>
    Leads.bind (Leads.emit (fun w offering => offering.armed.held.kept)
      fun w offering => offering.armed) fun _ => ?_
  cases accepted : behaviour.loadGame with
  | true => exact leads_accepted
  | false => exact leads_rejected

end Start

/-! ## Frames, shutdown and drop -/

section Methods

variable {self : HostId} {core : CoreId} {behaviour : CoreBehaviour}

theorem keeps_runFrame :
    Keeps Held KeptAfter (runFrame self core behaviour) := by
  refine Leads.get_bind fun w held => ?_
  by_cases loaded : w.loaded self = true
  · rw [if_pos loaded]
    exact keeps_call_of_stable stable_held (fun _ held => held) self core _
      (by simp) w held
  · rw [if_neg loaded]
    exact Leads.pure () w held

/-- An owned host of the core that provides no game. -/
structure Emptied (h : HostId) (w : World) : Prop where
  held : Held w
  owned : w.owned h = true
  empty : ¬w.Provides h

theorem stable_emptied (h : HostId) : Stable (Emptied h) := by
  intro w w' emptied heap bytes routed owned fewer
  refine ⟨stable_held w w' emptied.held heap bytes routed owned fewer, ?_, ?_⟩
  · rw [owned, emptied.owned]
  · rintro ⟨core, game, holds, same⟩
    exact emptied.empty ⟨core, game, fewer core game holds, same⟩

/-- A core that enters `retro_unload_game` gives up the game of its host. -/
theorem emptied_enter
    {w : World}
    (held : Held w)
    (owned : w.owned self = true)
    (bytes : ∃ old, w.bytes self = some (core, old)) :
    Emptied self (w.enter core .unloadGame) := by
  refine ⟨held.of_bytes (held.heap.congr rfl rfl rfl rfl) (fun _ _ => rfl)
    fun _ _ holds => game_of_game_enter holds, owned, ?_⟩
  rintro ⟨callee, game, holds, same⟩
  obtain ⟨old, before⟩ := bytes
  have sameCore := held.core_eq before (game_of_game_enter holds) same
  subst sameCore
  simp [World.enter, CoreState.entered] at holds

/-- A host without a game may let go of its ROM bytes. -/
theorem Emptied.clear
    {w : World}
    (emptied : Emptied self w) :
    Emptied self
      (w.modifyHost self fun host => { host with romData := none }) where
  held := by
    refine emptied.held.of_bytes
      (heapOk_modifyHost emptied.held.heap fun _ => rfl) (fun h provides => ?_)
      fun _ _ holds => holds
    have differs : h ≠ self := by
      rintro rfl
      exact emptied.empty provides
    rw [bytes_setRomData, Function.update_of_ne differs]
  owned := emptied.owned
  empty := emptied.empty

/-- An owned host of the core. -/
structure Ending (h : HostId) (core : CoreId) (w : World) : Prop where
  held : Held w
  owned : w.owned h = true
  bytes : ∃ old, w.bytes h = some (core, old)

theorem stable_ending (h : HostId) (core : CoreId) :
    Stable (Ending h core) := by
  intro w w' ending heap bytes routed owned fewer
  refine ⟨stable_held w w' ending.held heap bytes routed owned fewer, ?_, ?_⟩
  · rw [owned, ending.owned]
  · rw [bytes]
    exact ending.bytes

/-- `retro_unload_game` takes the game of the host back. -/
theorem leads_unloadGame (actions : List CoreAction) :
    Leads (Ending self core) KeptAfter (Emptied self)
      (call self core .unloadGame actions) := by
  refine leads_call (stable_emptied self) (fun _ emptied => emptied.held) self
    core actions (fun w ending => emptied_enter ending.held ending.owned
      ending.bytes) fun w emptied => ?_
  rw [leave_of_not_accepted (by simp)]
  exact ⟨emptied.held, emptied⟩

/-- A host without a game may let go of the global. -/
theorem Emptied.letGo
    {w : World}
    (emptied : Emptied self w) :
    Held (if w.gLibretroHost = some self then w.assignGlobal none
      else w) := by
  split_ifs with routed
  · rw [World.assignGlobal_of_owned routed emptied.owned]
    exact emptied.held.setGlobal none
  · exact emptied.held

/-- What `shutdown` does on a loaded host. -/
theorem leads_ending :
    Leads (Ending self core) KeptAfter Held (do
      assign self fun host => { host with loaded := false }
      call self core .unloadGame (behaviour.actions .retroUnloadGame)
      call self core .deinit (behaviour.actions .retroDeinit)
      assign self fun host => { host with romData := none }
      emit .assigned fun w =>
        if w.gLibretroHost = some self then w.assignGlobal none else w) :=
  Leads.bind (keeps_assign_of_stable (stable_ending self core)
      (fun _ ending => ending.held) self (fun _ => rfl) fun _ => rfl)
    fun _ => Leads.bind (leads_unloadGame _) fun _ =>
    Leads.bind (keeps_call_of_stable (stable_emptied self)
      (fun _ emptied => emptied.held) self core _ (by simp)) fun _ =>
    Leads.bind (Leads.emit (fun _ emptied => emptied.clear.held.kept)
      fun _ emptied => emptied.clear) fun _ =>
    Leads.emit (fun _ emptied => emptied.letGo.kept)
      fun _ emptied => emptied.letGo

/-- `shutdown` keeps what cores were given. -/
theorem leads_shutdown :
    Leads (Ending self core) KeptAfter Held
      (shutdown self core behaviour) := by
  refine Leads.get_bind fun w ending => ?_
  by_cases loaded : w.loaded self = true
  · rw [if_pos loaded]
    exact leads_ending w ending
  · rw [if_neg loaded]
    exact ⟨throughout_pure _ _ _, ending.held⟩

end Methods

/-- A method call keeps what its body keeps. -/
theorem leads_method
    {self : HostId}
    {body : CoreId → HostM (Option Bool)}
    {w : World}
    (held : Held w)
    (does : ∀ host, w.owned self = true → w.hosts self = some host →
      Throughout KeptAfter (body host.core) w ∧
        Held ((body host.core).state w)) :
    Throughout KeptAfter (method self body) w ∧
      Held ((method self body).state w) := by
  cases callable : w.callable self with
  | none =>
      rw [Throughout, (method_of_uncallable callable).1,
        (method_of_uncallable callable).2]
      exact ⟨by simp, held⟩
  | some host =>
      obtain ⟨owned, alive⟩ :=
        (World.callable_eq_some_iff w self host).mp callable
      obtain ⟨good, final⟩ := does host owned alive
      rw [throughout_method_of_callable callable,
        state_method_of_callable callable]
      exact ⟨⟨good, final.kept⟩, final⟩

theorem keeps_setProperty
    {f : LibretroHost → LibretroHost}
    (inert : Inert f)
    (h : HostId) :
    Keeps Held KeptAfter (setProperty h f) := by
  refine Leads.get_bind fun w held => ?_
  by_cases callable : (w.callable h).isSome = true
  · rw [if_pos callable]
    refine keeps_assign_of_stable stable_held (fun _ held => held) h
      (fun host => ?_) (fun host => ?_) w held
    · rw [inert host]
      rfl
    · rw [inert host]
  · rw [if_neg callable]
    exact Leads.pure () w held

theorem Held.allocateHost
    {w : World}
    (held : Held w)
    (platform : Platform)
    (name : String)
    (entry : CoreId) :
    Held (w.allocateHost platform name entry) := by
  refine held.of_bytes (held.heap.allocateHost platform name entry)
    (fun h provides => ?_) fun _ _ holds => holds
  obtain ⟨host, alive⟩ := held.provider_alive provides
  have isOld : h ≠ w.nextHost := by
    rintro rfl
    exact lt_irrefl _ (held.heap.bounded _ host alive)
  rw [World.bytes, World.hosts_allocateHost_of_ne isOld, World.bytes]

theorem Held.dropOwner
    {h : HostId}
    {w : World}
    (held : Held w)
    (kept : w.Provides h → w.gLibretroHost = some h) :
    Held (w.dropOwner h) := by
  have unowned : Held { w with owned := Function.update w.owned h false } :=
    held.of_bytes (held.heap.congr rfl rfl rfl rfl) (fun _ _ => rfl)
      fun _ _ holds => holds
  exact unowned.release fun provides => Or.inr (kept provides)

/-! ## Runs -/

/-- An operation that leaves the games alone keeps what cores were given. -/
theorem kept_perform
    (platform : Platform)
    {w : World}
    {op : Op}
    (held : Held w)
    (leaves : op.LeavesGames w) :
    Throughout KeptAfter (perform platform op) w ∧
      Held ((perform platform op).state w) := by
  cases op with
  | create name =>
      rw [perform, initCore]
      split
      · exact ⟨throughout_pure _ _ _, held⟩
      · exact Leads.emit
          (fun _ held => (held.allocateHost platform name _).kept)
          (fun _ held => held.allocateHost platform name _) w held
  | start h behaviour data romPath =>
      refine leads_method held fun host owned alive => ?_
      have known := leaves host
        ((World.callable_eq_some_iff w h host).mpr ⟨owned, alive⟩)
      have startable : Startable h host.core data w :=
        ⟨held, owned, ⟨_, bytes_of_alive alive⟩, known.1, known.2⟩
      exact Leads.bind leads_start (fun _ => Leads.pure _) w startable
  | runFrame h behaviour =>
      refine leads_method held fun host _ _ => ?_
      exact Leads.bind keeps_runFrame (fun _ => Leads.pure _) w held
  | shutdown h behaviour =>
      refine leads_method held fun host owned alive => ?_
      have ending : Ending h host.core w :=
        ⟨held, owned, _, bytes_of_alive alive⟩
      exact Leads.bind leads_shutdown (fun _ => Leads.pure _) w ending
  | drop h =>
      rw [perform, throughout_get_bind, state_get_bind]
      by_cases owned : w.owned h = true
      · rw [if_pos owned]
        have kept := held.dropOwner (leaves owned)
        exact ⟨(throughout_emit _ _ _ _).mpr kept.kept, kept⟩
      · rw [if_neg owned]
        exact ⟨throughout_pure _ _ _, held⟩
  | setOnVideo h isSet => exact keeps_setProperty (fun _ => rfl) h w held
  | setOnAudio h isSet => exact keeps_setProperty (fun _ => rfl) h w held
  | writeButton h id value =>
      exact keeps_setProperty (fun _ => rfl) h w held

/-- A dead host cannot provide a game that is kept alive. -/
theorem not_provides_of_dead
    {w : World}
    (kept : w.Kept)
    (dead : w.hosts h = none) :
    ¬w.Provides h := by
  rintro ⟨core, game, holds, rfl⟩
  obtain ⟨host, alive, _⟩ := kept core game holds
  rw [dead] at alive
  contradiction

/-- A `start` that keeps what cores were given leaves the games alone: its
first step takes over the callbacks, and its second store is that of the
bytes. -/
theorem leavesGames_of_booting
    {self : HostId}
    {host : LibretroHost}
    {behaviour : CoreBehaviour}
    {data : Data}
    {w : World}
    (owned : w.owned self = true)
    (alive : w.hosts self = some host)
    (booting : Booting KeptAfter self host.core behaviour data w) :
    (∀ game ∈ (w.cores host.core).games, game.host = self →
      game.romData = data) ∧
    ∀ old, w.gLibretroHost = some old → old ≠ self → w.Provides old →
      w.owned old = true := by
  obtain ⟨taken, _, _, stored⟩ := booting
  constructor
  · intro game holds same
    have stillHolds : game ∈ ((w.booted self host.core behaviour data).cores
        host.core).games := by
      rw [cores_booted, Function.update_self]
      exact holds
    obtain ⟨owner, ownerAlive, _, _, bytes⟩ := stored _ game stillHolds
    rw [same, hosts_booted_self owned, alive, Option.map_some,
      Option.some.injEq] at ownerAlive
    rw [← ownerAlive, Option.some.injEq] at bytes
    exact bytes.symm
  · intro old routed differs provides
    by_contra unowned
    have dead : (w.assignGlobal (some self)).hosts old = none := by
      rw [World.hosts_assignGlobal, if_pos]
      exact ⟨routed, Bool.eq_false_of_not_eq_true unowned,
        fun same => differs (Option.some.inj same).symm⟩
    refine not_provides_of_dead taken dead ?_
    obtain ⟨core, game, holds, same⟩ := provides
    refine ⟨core, game, ?_, same⟩
    change game ∈ ((w.assignGlobal (some self)).cores core).games
    rwa [World.cores_assignGlobal]

/-- An operation that keeps what cores were given leaves the games alone. -/
theorem leavesGames_of_kept
    (platform : Platform)
    {w : World}
    {op : Op}
    (kept : Throughout KeptAfter (perform platform op) w) :
    op.LeavesGames w := by
  cases op with
  | start h behaviour data romPath =>
      intro host callable
      obtain ⟨owned, alive⟩ :=
        (World.callable_eq_some_iff w h host).mp callable
      rw [perform, throughout_method_of_callable callable,
        throughout_bind] at kept
      have booting : Booting KeptAfter h host.core behaviour data w := by
        cases accepted : behaviour.loadGame with
        | true => exact ((throughout_start_accepted accepted _).mp kept.1.1).1
        | false =>
            exact ((throughout_start_rejected accepted _).mp kept.1.1).1
      exact leavesGames_of_booting owned alive booting
  | drop h =>
      intro owned provides
      rw [perform, throughout_get_bind, if_pos owned,
        throughout_emit] at kept
      by_contra unrouted
      have dead : (w.dropOwner h).hosts h = none := by
        rw [World.dropOwner, World.hosts_release]
        exact if_pos ⟨rfl, Function.update_self _ _ _, unrouted⟩
      refine not_provides_of_dead kept dead ?_
      obtain ⟨core, game, holds, same⟩ := provides
      refine ⟨core, game, ?_, same⟩
      change game ∈ ((w.dropOwner h).cores core).games
      rwa [World.dropOwner, World.cores_release]
  | create | runFrame | shutdown | setOnVideo | setOnAudio | writeButton =>
      trivial

theorem held_initial : Held World.initial where
  heap := heapOk_initial
  games := fun _ _ holds => by contradiction

/-- **Lifetime.** In every run, the hosts, the directory strings and the ROM
bytes that cores were given stay alive while they hold their games, exactly if
every operation leaves the games alone. -/
theorem kept_performAll_iff (platform : Platform) (ops : List Op) :
    Throughout KeptAfter (performAll platform ops) World.initial ↔
      Along (perform platform) (fun w op => op.LeavesGames w)
        World.initial ops := by
  have unrestricted : Along (perform platform) (fun _ _ => True)
      World.initial ops :=
    along_of_forall (fun _ _ => trivial) World.initial
  exact throughout_each_iff_along Held
    (fun _ _ held _ => ⟨leavesGames_of_kept platform,
      fun leaves => (kept_perform platform held leaves).1⟩)
    (fun _ _ held _ leaves => (kept_perform platform held leaves).2)
    ops World.initial held_initial unrestricted

/-- A host that plays is started again with other bytes. -/
def restartedWhilePlaying : List Op :=
  [.create "pce", .start 0 {} [1] "a.pce", .start 0 {} [2] "b.pce"]

/-- The core then holds its first game, whose bytes the host has let go of. -/
theorem restartedWhilePlaying_not_kept :
    ¬Throughout KeptAfter (performAll pcePlatform restartedWhilePlaying)
      World.initial := by
  intro kept
  have restarted := ((throughout_each_append _ _
    (restartedWhilePlaying.take 2) [.start 0 {} [2] "b.pce"] _).mp kept).2
  have leaves := leavesGames_of_kept pcePlatform
    ((throughout_each_cons _ _ _ _ _).mp restarted).1
  have sameBytes := (leaves _ rfl).1 ⟨0, [1]⟩ (by decide) rfl
  contradiction

end Host
end LibretroLab
