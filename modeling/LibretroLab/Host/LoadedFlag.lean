import LibretroLab.Host.Run

/-!
# The loaded flag and the core behind it

For the methods of one host in any order: `loaded` tells whether the core is
initialised and holds a game, and no call reaches a core that is not ready for
it, exactly as long as `start` is not called on a loaded host.
-/

namespace LibretroLab
namespace Host

open Recorder

/-- The calls that a core in a given state is ready for. -/
def RetroCall.Permitted (core : CoreState) : RetroCall → Prop
  | .init => core.initialised = false
  | .run | .unloadGame =>
      core.initialised = true ∧ core.games ≠ []
  | .deinit => core.initialised = true
  | _ => True

instance (core : CoreState) :
    (retroCall : RetroCall) → Decidable (retroCall.Permitted core)
  | .init => inferInstanceAs (Decidable (core.initialised = false))
  | .run | .unloadGame =>
      inferInstanceAs (Decidable
        (core.initialised = true ∧ core.games ≠ []))
  | .deinit => inferInstanceAs (Decidable (core.initialised = true))
  | .setEnvironment | .setVideoRefresh | .setAudioSample
  | .setAudioSampleBatch | .setInputPoll | .setInputState
  | .loadGame _ _ | .getSystemAvInfo | .setControllerPortDevice _ _ =>
      inferInstanceAs (Decidable True)

/-- `loaded` is true exactly if the core is initialised and holds a game. -/
def World.Truthful (w : World) (h : HostId) (core : CoreId) : Prop :=
  w.loaded h = true ↔
    (w.cores core).initialised = true ∧ (w.cores core).games ≠ []

instance (w : World) (h : HostId) (core : CoreId) :
    Decidable (w.Truthful h core) :=
  inferInstanceAs (Decidable (_ ↔ _))

/-- A moment of a run of the host `h`: its core is ready for each call, and
between method calls the flag is truthful. -/
def HonestAt (h : HostId) (core : CoreId) (moment : Moment World Event) :
    Prop :=
  match moment.event with
  | .call _ callee retroCall =>
      callee = core → retroCall.Permitted (moment.before.cores core)
  | .methodReturned host _ => host = h → moment.after.Truthful h core
  | _ => True

instance (h : HostId) (core : CoreId) : DecidablePred (HonestAt h core)
  | ⟨before, .call _ callee retroCall, _⟩ =>
      inferInstanceAs (Decidable
        (callee = core → retroCall.Permitted (before.cores core)))
  | ⟨_, .methodReturned host _, after⟩ =>
      inferInstanceAs (Decidable (host = h → after.Truthful h core))
  | ⟨_, .returned _ _ _, _⟩ | ⟨_, .callback _ _ _, _⟩
  | ⟨_, .buttonWritten _ _ _, _⟩ | ⟨_, .assigned, _⟩ =>
      inferInstanceAs (Decidable True)

/-- The three methods of the host `h`. -/
def Op.IsMethodOf (h : HostId) : Op → Prop
  | .start host _ _ _ | .runFrame host _ | .shutdown host _ => host = h
  | _ => False

/-- `start` is not called on a host that is loaded. -/
def Op.NotARestart (w : World) : Op → Prop
  | .start host _ _ _ => w.loaded host = false
  | _ => True

/-- What holds of a host and its core between calls while the flag is truthful:
an idle host has an untouched core, a loaded one a core with a game. -/
def Settled (h : HostId) (core : CoreId) (w : World) : Prop :=
  ∃ host, w.owned h = true ∧ w.hosts h = some host ∧ host.core = core ∧
    if host.loaded then
      ∃ games, games ≠ [] ∧
        w.cores core = { initialised := true, games := games }
    else w.cores core = {}

/-- What a core does inside a call is always honest. -/
theorem throughout_each_act_of_silent
    (good : Moment World Event → Prop)
    (calls : ∀ before core callback response after,
      good ⟨before, .callback core callback response, after⟩)
    (writes : ∀ before h id value after,
      good ⟨before, .buttonWritten h id value, after⟩)
    (core : CoreId)
    (actions : List CoreAction)
    (w : World) :
    Throughout good (each (act core) actions) w := by
  induction actions generalizing w with
  | nil => simp
  | cons action rest inductionHypothesis =>
      rw [throughout_each_cons]
      refine ⟨?_, inductionHypothesis _⟩
      cases action with
      | calls callback =>
          rw [act, throughout_step]
          exact calls _ _ _ _ _
      | writeButton h id value =>
          rw [act, throughout_emit]
          exact writes _ _ _ _ _

section Calls

variable {h : HostId} {core : CoreId} {self : HostId} {retroCall : RetroCall}
  {actions : List CoreAction} {w : World}

/-- A call is honest exactly if the core is ready for it. -/
theorem honest_call :
    Throughout (HonestAt h core) (call self core retroCall actions) w ↔
      retroCall.Permitted (w.cores core) := by
  rw [throughout_call]
  have silent := throughout_each_act_of_silent (HonestAt h core)
    (by intros; trivial) (by intros; trivial) core actions
    (w.enter core retroCall)
  simp [HonestAt, silent]

end Calls

section Methods

variable {h : HostId} {core : CoreId} {behaviour : CoreBehaviour}
  {data : Data} {romPath : String} {w : World}

theorem honest_registerCallbacks :
    Throughout (HonestAt h core) (registerCallbacks h core behaviour) w := by
  simp [registerCallbacks, honest_call, RetroCall.Permitted]

/-- Booting is honest exactly if the core is not initialised. -/
theorem honest_booting :
    Booting (HonestAt h core) h core behaviour data w ↔
      (w.cores core).initialised = false := by
  simp [Booting, HonestAt, honest_registerCallbacks, honest_call,
    RetroCall.Permitted]

/-- `start` is honest exactly if the core is not initialised. -/
theorem honest_start :
    Throughout (HonestAt h core) (start h core behaviour data romPath) w ↔
      (w.cores core).initialised = false := by
  cases accepted : behaviour.loadGame with
  | true =>
      rw [throughout_start_accepted accepted, honest_booting]
      simp [assign, honest_call, RetroCall.Permitted, HonestAt]
  | false =>
      rw [throughout_start_rejected accepted, honest_booting]
      simp [honest_call, RetroCall.Permitted, HonestAt, cores_booted,
        CoreState.entered, CoreState.left]

theorem honest_runFrame
    (ready : w.loaded h = true →
      (w.cores core).initialised = true ∧
        (w.cores core).games ≠ []) :
    Throughout (HonestAt h core) (runFrame h core behaviour) w := by
  rw [throughout_runFrame]
  intro loaded
  rw [honest_call]
  exact ready loaded

theorem honest_shutdown
    (ready : w.loaded h = true →
      (w.cores core).initialised = true ∧
        (w.cores core).games ≠ []) :
    Throughout (HonestAt h core) (shutdown h core behaviour) w := by
  rw [throughout_shutdown]
  intro loaded
  simp [assign, honest_call, RetroCall.Permitted, ready loaded, HonestAt,
    CoreState.entered, CoreState.left]

end Methods

/-! ## Between the calls -/

theorem Settled.truthful
    {h : HostId}
    {core : CoreId}
    {w : World}
    (settled : Settled h core w) :
    w.Truthful h core := by
  obtain ⟨host, owned, alive, rfl, phase⟩ := settled
  rw [World.Truthful, World.loaded_of alive]
  cases loaded : host.loaded with
  | true =>
      rw [loaded, if_pos rfl] at phase
      obtain ⟨games, someGame, held⟩ := phase
      simp [held, someGame]
  | false =>
      rw [loaded, if_neg (by simp)] at phase
      simp [phase]

/-- A loaded settled host has a core that is ready for frames. -/
theorem Settled.ready
    {h : HostId}
    {core : CoreId}
    {w : World}
    (settled : Settled h core w)
    (loaded : w.loaded h = true) :
    (w.cores core).initialised = true ∧
      (w.cores core).games ≠ [] :=
  settled.truthful.mp loaded

/-- A settled host is loaded exactly if its core is initialised. -/
theorem Settled.loaded_eq_initialised
    {h : HostId}
    {core : CoreId}
    {w : World}
    (settled : Settled h core w) :
    w.loaded h = (w.cores core).initialised := by
  obtain ⟨host, owned, alive, rfl, phase⟩ := settled
  rw [World.loaded_of alive]
  cases loaded : host.loaded with
  | true =>
      rw [loaded, if_pos rfl] at phase
      obtain ⟨games, _, held⟩ := phase
      rw [held]
  | false =>
      rw [loaded, if_neg (by simp)] at phase
      rw [phase]

section Perform

variable {h : HostId} {host : LibretroHost} {behaviour : CoreBehaviour}
  {data : Data} {romPath : String} {w : World}

theorem settled_start
    (owned : w.owned h = true)
    (alive : w.hosts h = some host)
    (idle : host.loaded = false) :
    Settled h host.core
      ((start h host.core behaviour data romPath).state w) := by
  refine ⟨host.started h behaviour data, by simpa using owned, ?_, by simp,
    ?_⟩
  · rw [hosts_start_self owned, alive, Option.map_some]
  · rw [cores_start]
    cases accepted : behaviour.loadGame with
    | true => simp [accepted]
    | false => simp [accepted, idle]

theorem settled_runFrame
    (settled : Settled h core w) :
    Settled h core ((runFrame h core behaviour).state w) := by
  cases loaded : w.loaded h with
  | true =>
      obtain ⟨host, owned, alive, rfl, phase⟩ := settled
      rw [state_runFrame_of_loaded loaded]
      refine ⟨host.played (w.gLibretroHost = some h) h
        (behaviour.actions .retroRun), owned, ?_, rfl, phase⟩
      rw [World.hosts_played, alive, Option.map_some]
  | false => rwa [(runFrame_of_idle loaded).1]

theorem settled_shutdown
    (settled : Settled h core w) :
    Settled h core ((shutdown h core behaviour).state w) := by
  cases loaded : w.loaded h with
  | true =>
      obtain ⟨host, owned, alive, rfl, phase⟩ := settled
      rw [state_shutdown_of_owned owned loaded]
      refine ⟨host.shutDown (w.gLibretroHost = some h) h behaviour, owned,
        ?_, rfl, ?_⟩
      · rw [hosts_afterShutdown, hosts_ended_self, alive, Option.map_some]
      · simp [LibretroHost.shutDown]
  | false => rwa [(shutdown_of_idle loaded).1]

end Perform

/-- A method of a settled host is honest exactly if it is not a restart. -/
theorem honest_perform_iff
    (platform : Platform)
    {h : HostId}
    {core : CoreId}
    {w : World}
    {op : Op}
    (settled : Settled h core w)
    (isMethod : op.IsMethodOf h) :
    Throughout (HonestAt h core) (perform platform op) w ↔
      op.NotARestart w := by
  have shown := settled
  obtain ⟨host, owned, alive, rfl, phase⟩ := shown
  have callable := (World.callable_eq_some_iff w h host).mpr ⟨owned, alive⟩
  cases op with
  | start self behaviour data romPath =>
      obtain rfl : self = h := isMethod
      rw [perform, throughout_method_of_callable callable, throughout_bind,
        honest_start, ← settled.loaded_eq_initialised]
      simp only [throughout_pure, and_true, Op.NotARestart]
      refine and_iff_left_of_imp fun idle _ => ?_
      rw [World.loaded_of alive] at idle
      exact (settled_start owned alive idle).truthful
  | runFrame self behaviour =>
      obtain rfl : self = h := isMethod
      rw [perform, throughout_method_of_callable callable, throughout_bind]
      refine iff_of_true ⟨⟨honest_runFrame settled.ready, by simp⟩,
        fun _ => ?_⟩ trivial
      exact (settled_runFrame settled).truthful
  | shutdown self behaviour =>
      obtain rfl : self = h := isMethod
      rw [perform, throughout_method_of_callable callable, throughout_bind]
      refine iff_of_true ⟨⟨honest_shutdown settled.ready, by simp⟩,
        fun _ => ?_⟩ trivial
      exact (settled_shutdown settled).truthful
  | create | drop | setOnVideo | setOnAudio | writeButton =>
      exact isMethod.elim

theorem settled_perform
    (platform : Platform)
    {h : HostId}
    {core : CoreId}
    {w : World}
    {op : Op}
    (settled : Settled h core w)
    (isMethod : op.IsMethodOf h)
    (notARestart : op.NotARestart w) :
    Settled h core ((perform platform op).state w) := by
  have shown := settled
  obtain ⟨host, owned, alive, rfl, phase⟩ := shown
  have callable := (World.callable_eq_some_iff w h host).mpr ⟨owned, alive⟩
  cases op with
  | start self behaviour data romPath =>
      obtain rfl : self = h := isMethod
      rw [Op.NotARestart, World.loaded_of alive] at notARestart
      rw [perform, state_method_of_callable callable]
      exact settled_start owned alive notARestart
  | runFrame self behaviour =>
      obtain rfl : self = h := isMethod
      rw [perform, state_method_of_callable callable]
      exact settled_runFrame settled
  | shutdown self behaviour =>
      obtain rfl : self = h := isMethod
      rw [perform, state_method_of_callable callable]
      exact settled_shutdown settled
  | create | drop | setOnVideo | setOnAudio | writeButton =>
      exact isMethod.elim

/-- **The loaded flag.** For every sequence of method calls of one host whose
core was untouched: the flag is truthful between all calls and the core is
ready for every call it receives, exactly if no `start` is made while the host
is loaded. -/
theorem honest_performAll_iff
    (platform : Platform)
    (h : HostId)
    (host : LibretroHost)
    (w : World)
    (owned : w.owned h = true)
    (alive : w.hosts h = some host)
    (idle : host.loaded = false)
    (untouched : w.cores host.core = {})
    (ops : List Op)
    (methods : ∀ op ∈ ops, op.IsMethodOf h) :
    w.Truthful h host.core ∧
        Throughout (HonestAt h host.core) (performAll platform ops) w ↔
      Along (perform platform) (fun w op => op.NotARestart w) w ops := by
  have settled : Settled h host.core w :=
    ⟨host, owned, alive, rfl, by simp [idle, untouched]⟩
  rw [and_iff_right settled.truthful]
  exact throughout_each_iff_along (Settled h host.core)
    (fun _ _ settled isMethod => honest_perform_iff platform settled isMethod)
    (fun _ _ settled isMethod notARestart =>
      settled_perform platform settled isMethod notARestart)
    ops w settled (along_of_forall methods w)

theorem honest_performAll_iff_session :
    oneHost.Truthful 0 0 ∧
        Throughout (HonestAt 0 0) (performAll pcePlatform
          [.start 0 {} [1] "a.pce", .runFrame 0 {}, .shutdown 0 {},
            .start 0 { loadGame := false } [2] "b.pce", .runFrame 0 {}])
          oneHost ↔
      Along (perform pcePlatform) (fun w op => op.NotARestart w) oneHost
        [.start 0 {} [1] "a.pce", .runFrame 0 {}, .shutdown 0 {},
          .start 0 { loadGame := false } [2] "b.pce", .runFrame 0 {}] :=
  honest_performAll_iff pcePlatform 0 _ oneHost rfl rfl rfl rfl _
    (by simp [Op.IsMethodOf])

/-- A rejected restart leaves `loaded` set on a core that holds nothing. -/
theorem rejected_restart_not_honest :
    (∀ op ∈ [Op.start 0 {} [1] "a.pce",
        .start 0 { loadGame := false } [2] "b.pce"], op.IsMethodOf 0) ∧
      ¬(oneHost.Truthful 0 0 ∧
        Throughout (HonestAt 0 0) (performAll pcePlatform
          [.start 0 {} [1] "a.pce",
            .start 0 { loadGame := false } [2] "b.pce"]) oneHost) := by
  refine ⟨by simp [Op.IsMethodOf], ?_⟩
  decide

end Host
end LibretroLab
