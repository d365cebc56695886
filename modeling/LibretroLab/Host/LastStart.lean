import LibretroLab.Host.FailingStart
import LibretroLab.Host.Solo

/-!
# The last start gets the callbacks

Several hosts may be loaded at a time, but there is one global. In every run it
refers to the host of the last `start` that returned, if that was accepted and
the host is still loaded, and to none otherwise; so the callbacks of all cores
go there.
-/

namespace LibretroLab
namespace Host

open Recorder

/-- The `start` that returns in an event, with its result. -/
def Event.startReturned : Event → Option (HostId × Bool)
  | .methodReturned h (some accepted) => some (h, accepted)
  | _ => none

/-- The starts that returned, in order. -/
def startsReturned (log : List (Moment World Event)) :
    List (HostId × Bool) :=
  log.filterMap fun moment => moment.event.startReturned

/-- The last start that returned. -/
def lastStart (log : List (Moment World Event)) : Option (HostId × Bool) :=
  (startsReturned log).getLast?

/-- The host of the last `start` that returned, if it was accepted and the host
is still loaded. -/
def World.player (log : List (Moment World Event)) (w : World) :
    Option HostId :=
  match lastStart log with
  | some (h, true) => if w.loaded h then some h else none
  | _ => none

/-- The host that a callback reaches. -/
def World.reached (w : World) : Option HostId := w.activeHost.map Prod.fst

/-- The callbacks of an operation are to reach the host it starts, and
otherwise the player. -/
def Op.reaches (player : Option HostId) : Op → Option HostId
  | .start h _ _ _ => some h
  | _ => player

/-- A callback that reaches the given host, or none. -/
def Reaches (target : Option HostId) (moment : Moment World Event) : Prop :=
  ∀ core callback response, moment.event = .callback core callback response →
    moment.before.reached = target

/-! ## Starts in logs -/

@[simp] theorem startsReturned_nil : startsReturned [] = [] := rfl

@[simp] theorem startsReturned_append
    (first second : List (Moment World Event)) :
    startsReturned (first ++ second) =
      startsReturned first ++ startsReturned second :=
  List.filterMap_append

theorem startsReturned_each_act
    (core : CoreId)
    (actions : List CoreAction)
    (w : World) :
    startsReturned ((each (act core) actions).log w) = [] := by
  induction actions generalizing w with
  | nil => rfl
  | cons action rest inductionHypothesis =>
      rw [log_each_cons, startsReturned_append, inductionHypothesis,
        List.append_nil]
      cases action <;> rfl

@[simp] theorem startsReturned_call
    (self : HostId)
    (core : CoreId)
    (retroCall : RetroCall)
    (actions : List CoreAction)
    (w : World) :
    startsReturned ((call self core retroCall actions).log w) = [] := by
  rw [call, log_bind, log_bind, startsReturned_append, startsReturned_append,
    startsReturned_each_act]
  rfl

@[simp] theorem startsReturned_assign
    (self : HostId) (f : LibretroHost → LibretroHost) (w : World) :
    startsReturned ((assign self f).log w) = [] := rfl

@[simp] theorem startsReturned_cons_assigned
    (before after : World) (rest : List (Moment World Event)) :
    startsReturned (⟨before, .assigned, after⟩ :: rest) =
      startsReturned rest := rfl

theorem startsReturned_start :
    startsReturned ((start self core behaviour data romPath).log w) = [] := by
  cases accepted : behaviour.loadGame <;>
    simp [start, registerCallbacks, accepted]

theorem lastStart_append_of_none
    {log more : List (Moment World Event)}
    (noStart : startsReturned more = []) :
    lastStart (log ++ more) = lastStart log := by
  rw [lastStart, startsReturned_append, noStart, List.append_nil, lastStart]

theorem lastStart_append_of_one
    {log more : List (Moment World Event)}
    (oneStart : startsReturned more = [(h, accepted)]) :
    lastStart (log ++ more) = some (h, accepted) := by
  rw [lastStart, startsReturned_append, oneStart, List.getLast?_concat]

/-! ## The global follows the starts -/

/-- The player after starts that did not return depends on its flag. -/
theorem player_append_of_none
    {log more : List (Moment World Event)}
    {w w' : World}
    (noStart : startsReturned more = [])
    (sameFlag : ∀ h, lastStart log = some (h, true) →
      w'.loaded h = w.loaded h) :
    w'.player (log ++ more) = w.player log := by
  rw [World.player, World.player, lastStart_append_of_none noStart]
  rcases last : lastStart log with _ | ⟨h, accepted⟩
  · rfl
  · cases accepted with
    | false => rfl
    | true => simp only [sameFlag h last]

/-- The world is well formed, and the global refers to the player. -/
structure FollowsStarts
    (log : List (Moment World Event))
    (w : World) : Prop where
  wellFormed : w.WellFormed
  routed : w.gLibretroHost = w.player log

/-- The player is loaded. -/
theorem loaded_of_player
    {log : List (Moment World Event)}
    {w : World}
    (isPlayer : w.player log = some h) :
    w.loaded h = true ∧ lastStart log = some (h, true) := by
  rw [World.player] at isPlayer
  split at isPlayer
  case h_1 last same =>
      split_ifs at isPlayer with loaded
      obtain rfl := Option.some.inj isPlayer
      exact ⟨loaded, same⟩
  case h_2 => contradiction

theorem player_of_loaded
    {log : List (Moment World Event)}
    {w : World}
    (last : lastStart log = some (h, true))
    (loaded : w.loaded h = true) :
    w.player log = some h := by
  rw [World.player, last]
  simp [loaded]

section Perform

variable {platform : Platform} {log : List (Moment World Event)} {w : World}
  {self : HostId}

/-- An operation in which no `start` returns and that leaves the global and
the flag of its host alone. -/
theorem FollowsStarts.routed_of_same
    {w' : World}
    {more : List (Moment World Event)}
    (follows : FollowsStarts log w)
    (noStart : startsReturned more = [])
    (sameGlobal : w'.gLibretroHost = w.gLibretroHost)
    (sameFlag : ∀ h, lastStart log = some (h, true) →
      w'.loaded h = w.loaded h) :
    w'.gLibretroHost = w'.player (log ++ more) := by
  rw [sameGlobal, player_append_of_none noStart sameFlag]
  exact follows.routed

/-- A method that is not called changes nothing, and otherwise does what its
body does. -/
theorem FollowsStarts.method
    {body : CoreId → HostM (Option Bool)}
    (follows : FollowsStarts log w)
    (does : ∀ host, w.owned self = true → w.hosts self = some host →
      ((body host.core).state w).gLibretroHost =
        ((body host.core).state w).player (log ++ ((body host.core).log w ++
          [⟨(body host.core).state w,
            .methodReturned self ((body host.core).value w),
            (body host.core).state w⟩]))) :
    ((Host.method self body).state w).gLibretroHost =
      ((Host.method self body).state w).player
        (log ++ (Host.method self body).log w) := by
  cases callable : w.callable self with
  | none =>
      rw [(method_of_uncallable callable).1, (method_of_uncallable callable).2,
        List.append_nil]
      exact follows.routed
  | some host =>
      obtain ⟨owned, alive⟩ :=
        (World.callable_eq_some_iff w self host).mp callable
      rw [state_method_of_callable callable, log_method_of_callable callable]
      exact does host owned alive

theorem FollowsStarts.setProperty
    {f : LibretroHost → LibretroHost}
    (follows : FollowsStarts log w)
    (inert : Inert f)
    (self : HostId) :
    ((Host.setProperty self f).state w).gLibretroHost =
      ((Host.setProperty self f).state w).player
        (log ++ (Host.setProperty self f).log w) := by
  rw [Host.setProperty, state_get_bind, log_get_bind]
  split_ifs
  · exact follows.routed_of_same rfl rfl fun h _ =>
      loaded_modifyHost inert self w h
  · rw [log_pure, List.append_nil]
    exact follows.routed

/-- After a `start` that returns the global refers to its host if the game was
accepted, and else to none. -/
theorem routed_start
    {host : LibretroHost}
    (owned : w.owned self = true)
    (alive : w.hosts self = some host)
    (log : List (Moment World Event))
    (core : CoreId)
    (behaviour : CoreBehaviour)
    (data : Data)
    (romPath : String) :
    let after := (start self core behaviour data romPath).state w
    after.gLibretroHost = after.player (log ++
      ((start self core behaviour data romPath).log w ++
        [⟨after, .methodReturned self (some behaviour.loadGame), after⟩])) := by
  intro after
  have oneStart : startsReturned
      ((start self core behaviour data romPath).log w ++
        [⟨after, .methodReturned self (some behaviour.loadGame), after⟩]) =
      [(self, behaviour.loadGame)] := by
    rw [startsReturned_append, startsReturned_start]
    rfl
  rw [World.player, lastStart_append_of_one oneStart, gLibretroHost_start]
  cases accepted : behaviour.loadGame with
  | false => rfl
  | true =>
      have loaded : after.loaded self = true := by
        rw [World.loaded, hosts_start_self owned, alive, Option.map_some,
          Option.any_some, LibretroHost.loaded_started, accepted,
          Bool.true_or]
      simp [loaded]

/-- A `shutdown` that does something ends the player or leaves it. -/
theorem FollowsStarts.shutdown
    (follows : FollowsStarts log w)
    (owned : w.owned self = true)
    (loaded : w.loaded self = true)
    (core : CoreId)
    (behaviour : CoreBehaviour)
    {more : List (Moment World Event)}
    (noStart : startsReturned more = []) :
    ((Host.shutdown self core behaviour).state w).gLibretroHost =
      ((Host.shutdown self core behaviour).state w).player (log ++ more) := by
  rw [state_shutdown_of_owned owned loaded, gLibretroHost_afterShutdown]
  by_cases isLast : lastStart log = some (self, true)
  · rw [follows.routed, player_of_loaded isLast loaded, if_pos rfl,
      World.player, lastStart_append_of_none noStart, isLast]
    simp [loaded_afterShutdown_self]
  · have notPlayer : w.gLibretroHost ≠ some self := by
      rw [follows.routed]
      exact fun isPlayer => isLast (loaded_of_player isPlayer).2
    rw [if_neg notPlayer, follows.routed]
    refine (player_append_of_none noStart fun h last => ?_).symm
    have differs : h ≠ self := by
      rintro rfl
      exact isLast last
    exact loaded_afterShutdown_other differs core behaviour w

/-- A dropped host is not the player, or stays. -/
theorem FollowsStarts.loaded_dropOwner
    (follows : FollowsStarts log w)
    (self : HostId)
    (h : HostId)
    (last : lastStart log = some (h, true)) :
    (w.dropOwner self).loaded h = w.loaded h := by
  cases loaded : w.loaded h with
  | false =>
      by_contra becomes
      rw [loaded_of_loaded_dropOwner
        (Bool.eq_true_of_not_eq_false becomes)] at loaded
      contradiction
  | true =>
      have routed : w.gLibretroHost = some h :=
        follows.routed.trans (player_of_loaded last loaded)
      rw [World.loaded] at loaded
      rw [World.loaded, World.dropOwner, World.hosts_release, if_neg]
      · exact loaded
      · rintro ⟨rfl, _, notRouted⟩
        exact notRouted routed

theorem loaded_allocateHost
    (bounded : w.Bounded)
    (platform : Platform)
    (name : String)
    (entry : CoreId)
    (h : HostId) :
    (w.allocateHost platform name entry).loaded h = w.loaded h := by
  by_cases created : h = w.nextHost
  · subst created
    have unborn : w.hosts w.nextHost = none := by
      cases found : w.hosts w.nextHost with
      | none => rfl
      | some host => exact absurd (bounded _ host found) (lt_irrefl _)
    simp [World.loaded, World.allocateHost, unborn]
  · rw [World.loaded, World.hosts_allocateHost_of_ne created, World.loaded]

/-- Every operation keeps the global with the last start. -/
theorem FollowsStarts.perform
    (follows : FollowsStarts log w)
    (platform : Platform)
    (op : Op) :
    FollowsStarts (log ++ (Host.perform platform op).log w)
      ((Host.perform platform op).state w) where
  wellFormed := wellFormed_perform platform op follows.wellFormed
  routed := by
    cases op with
    | create name =>
        rw [Host.perform, initCore]
        split
        · rw [log_pure, List.append_nil]
          exact follows.routed
        · exact follows.routed_of_same rfl rfl fun h _ =>
            loaded_allocateHost follows.wellFormed.heap.bounded platform name
              _ h
    | start self behaviour data romPath =>
        rw [Host.perform]
        refine follows.method fun host owned alive => ?_
        simp only [state_bind, log_bind, value_bind, value_start, state_pure,
          log_pure, value_pure, List.append_nil]
        exact routed_start owned alive log _ behaviour data romPath
    | runFrame self behaviour =>
        rw [Host.perform]
        refine follows.method fun host owned alive => ?_
        simp only [state_bind, log_bind, value_bind, state_pure, log_pure,
          value_pure, List.append_nil]
        cases loaded : w.loaded self with
        | false =>
            rw [(runFrame_of_idle loaded).1, (runFrame_of_idle loaded).2]
            exact follows.routed_of_same rfl rfl fun _ _ => rfl
        | true =>
            rw [state_runFrame_of_loaded loaded, runFrame, log_get_bind,
              if_pos loaded]
            refine follows.routed_of_same ?_ rfl fun h _ =>
              loaded_played _ _ w h
            rw [startsReturned_append, startsReturned_call]
            rfl
    | shutdown self behaviour =>
        rw [Host.perform]
        refine follows.method fun host owned alive => ?_
        simp only [state_bind, log_bind, value_bind, state_pure, log_pure,
          value_pure, List.append_nil]
        cases loaded : w.loaded self with
        | false =>
            rw [(shutdown_of_idle loaded).1, (shutdown_of_idle loaded).2]
            exact follows.routed_of_same rfl rfl fun _ _ => rfl
        | true =>
            refine follows.shutdown owned loaded _ behaviour ?_
            rw [Host.shutdown, log_get_bind, if_pos loaded]
            simp only [log_bind, log_emit, startsReturned_append,
              startsReturned_assign, startsReturned_call,
              startsReturned_cons_assigned, startsReturned_nil]
            rfl
    | drop self =>
        rw [Host.perform, state_get_bind, log_get_bind]
        split_ifs with owned
        · exact follows.routed_of_same rfl (by simp [World.dropOwner])
            (follows.loaded_dropOwner self)
        · rw [log_pure, List.append_nil]
          exact follows.routed
    | setOnVideo self isSet => exact follows.setProperty (fun _ => rfl) self
    | setOnAudio self isSet => exact follows.setProperty (fun _ => rfl) self
    | writeButton self id value =>
        exact follows.setProperty (fun _ => rfl) self

end Perform

theorem followsStarts_initial : FollowsStarts [] World.initial where
  wellFormed := wellFormed_initial
  routed := rfl

/-- After every run the global refers to the player. -/
theorem followsStarts_performAll (platform : Platform) (ops : List Op) :
    FollowsStarts ((performAll platform ops).log World.initial)
      ((performAll platform ops).state World.initial) :=
  history_each_invariant FollowsStarts
    (fun _ _ op follows _ => follows.perform platform op)
    ops [] World.initial followsStarts_initial
    (along_of_forall (fun _ _ => trivial : ∀ op ∈ ops, True) _)

/-! ## Where callbacks go -/

theorem reached_of_wellFormed
    {w : World}
    (wellFormed : w.WellFormed) :
    w.reached = w.gLibretroHost := by
  rw [World.reached, World.activeHost]
  cases routed : w.gLibretroHost with
  | none => rfl
  | some h =>
      obtain ⟨host, alive⟩ :=
        Option.ne_none_iff_exists'.mp (wellFormed.active h routed)
      rw [Option.bind_some, alive]
      rfl

theorem reached_played
    (core : CoreId) (actions : List CoreAction) (w : World) :
    (w.played core actions).reached = w.reached := by
  rw [World.reached, World.reached, World.activeHost, World.activeHost,
    World.gLibretroHost_played]
  cases w.gLibretroHost with
  | none => rfl
  | some h =>
      rw [Option.bind_some, Option.bind_some, World.hosts_played]
      cases w.hosts h <;> rfl

theorem reached_modifyHost
    (self : HostId)
    (f : LibretroHost → LibretroHost)
    (w : World) :
    (w.modifyHost self f).reached = w.reached := by
  rw [World.reached, World.reached, World.activeHost, World.activeHost,
    World.gLibretroHost_modifyHost]
  cases w.gLibretroHost with
  | none => rfl
  | some h =>
      rw [Option.bind_some, Option.bind_some, World.hosts_modifyHost]
      by_cases same : h = self
      · subst same
        rw [Function.update_self]
        cases w.hosts h <;> rfl
      · rw [Function.update_of_ne same]

section Target

variable {target : Option HostId} {self : HostId} {core : CoreId}

theorem reaches_of_silent
    {moment : Moment World Event}
    (silent : ∀ core callback response,
      moment.event ≠ .callback core callback response) :
    Reaches target moment :=
  fun core callback response isCallback =>
    absurd isCallback (silent core callback response)

theorem keeps_act_reached (core : CoreId) (action : CoreAction) :
    Keeps (fun w => w.reached = target) (Reaches target)
      (act core action) := by
  intro w reached
  constructor
  · cases action with
    | calls callback =>
        rw [act, throughout_step]
        exact fun _ _ _ _ => reached
    | writeButton h id value =>
        rw [act, throughout_emit]
        exact reaches_of_silent (by simp)
  · rw [state_act]
    exact (reached_played core [action] w).trans reached

theorem keeps_call_reached
    (self : HostId)
    (core : CoreId)
    (retroCall : RetroCall)
    (actions : List CoreAction) :
    Keeps (fun w => w.reached = target) (Reaches target)
      (call self core retroCall actions) :=
  Leads.bind (Keeps.emit (fun _ _ => reaches_of_silent (by simp))
      fun _ reached => reached) fun _ =>
    Leads.bind (keeps_each (keeps_act_reached core) actions) fun _ =>
    Keeps.emit (fun _ _ => reaches_of_silent (by simp))
      fun _ reached => reached

theorem keeps_assign_reached
    (self : HostId)
    (f : LibretroHost → LibretroHost) :
    Keeps (fun w => w.reached = target) (Reaches target) (assign self f) :=
  Keeps.emit (fun _ _ => reaches_of_silent (by simp))
    fun w reached => (reached_modifyHost self f w).trans reached

theorem keeps_registerCallbacks_reached
    (self : HostId)
    (core : CoreId)
    (behaviour : CoreBehaviour) :
    Keeps (fun w => w.reached = target) (Reaches target)
      (registerCallbacks self core behaviour) :=
  Leads.bind (keeps_call_reached self core _ _) fun _ =>
    Leads.bind (keeps_call_reached self core _ _) fun _ =>
    Leads.bind (keeps_call_reached self core _ _) fun _ =>
    Leads.bind (keeps_call_reached self core _ _) fun _ =>
    Leads.bind (keeps_call_reached self core _ _) fun _ =>
    keeps_call_reached self core _ _

/-- The callbacks of a `start` reach its host from its first store on. -/
theorem leads_start_reached
    (behaviour : CoreBehaviour)
    (data : Data)
    (romPath : String) :
    Leads (fun w => w.owned self = true ∧ w.hosts self ≠ none)
      (Reaches (some self)) (fun _ => True)
      (start self core behaviour data romPath) := by
  have opens : Leads (fun w => w.owned self = true ∧ w.hosts self ≠ none)
      (Reaches (some self)) (fun w => w.reached = some self)
      (emit .assigned (World.assignGlobal (some self))) := by
    refine Leads.emit (fun _ _ => reaches_of_silent (by simp)) ?_
    rintro w ⟨owned, alive⟩
    obtain ⟨host, isHost⟩ := Option.ne_none_iff_exists'.mp alive
    have stays := (World.hosts_assignGlobal_of_owned owned (some self)).trans
      isHost
    rw [World.reached, World.activeHost_of (by simp) stays]
    rfl
  unfold start
  refine Leads.bind opens fun _ =>
    Leads.bind (keeps_registerCallbacks_reached self core behaviour) fun _ =>
    Leads.bind (keeps_call_reached self core _ _) fun _ =>
    Leads.bind (keeps_assign_reached self _) fun _ =>
    Leads.bind (keeps_call_reached self core _ _) fun _ => ?_
  cases behaviour.loadGame with
  | true =>
      exact Leads.bind (keeps_call_reached self core _ _) fun _ =>
        Leads.bind (keeps_assign_reached self _) fun _ =>
        Leads.bind (keeps_call_reached self core _ _) fun _ =>
        Leads.bind (keeps_assign_reached self _) fun _ =>
        fun w _ => ⟨throughout_pure _ _ w, trivial⟩
  | false =>
      exact Leads.bind (keeps_call_reached self core _ _) fun _ =>
        Leads.bind (Leads.emit (fun _ _ => reaches_of_silent (by simp))
          fun _ _ => trivial) fun _ => Leads.pure false

theorem throughout_runFrame_reached
    (behaviour : CoreBehaviour)
    {w : World}
    (reached : w.reached = target) :
    Throughout (Reaches target) (runFrame self core behaviour) w := by
  rw [throughout_runFrame]
  intro _
  exact (keeps_call_reached self core _ _ w reached).1

theorem throughout_shutdown_reached
    (behaviour : CoreBehaviour)
    {w : World}
    (reached : w.reached = target) :
    Throughout (Reaches target) (shutdown self core behaviour) w := by
  rw [throughout_shutdown]
  intro _
  refine Keeps.throughout_bind (keeps_assign_reached self _) ?_ reached
  intro _ _ unflagged
  refine Keeps.throughout_bind (keeps_call_reached self core _ _) ?_ unflagged
  intro _ _ unloaded
  refine Keeps.throughout_bind (keeps_call_reached self core _ _) ?_ unloaded
  intro _ _ deinitialised
  refine Keeps.throughout_bind (keeps_assign_reached self _) ?_ deinitialised
  intro _ _ _
  exact (throughout_emit _ _ _ _).mpr (reaches_of_silent (by simp))

theorem throughout_method_reached
    {body : CoreId → HostM (Option Bool)}
    {w : World}
    (does : ∀ host, w.owned self = true → w.hosts self = some host →
      Throughout (Reaches target) (body host.core) w) :
    Throughout (Reaches target) (method self body) w := by
  cases callable : w.callable self with
  | none =>
      rw [Throughout, (method_of_uncallable callable).2]
      simp
  | some host =>
      obtain ⟨owned, alive⟩ :=
        (World.callable_eq_some_iff w self host).mp callable
      rw [throughout_method_of_callable callable]
      exact ⟨does host owned alive, reaches_of_silent (by simp)⟩

theorem throughout_setProperty_reached
    (self : HostId)
    (f : LibretroHost → LibretroHost)
    {w : World}
    (reached : w.reached = target) :
    Throughout (Reaches target) (setProperty self f) w := by
  rw [setProperty, throughout_get_bind, throughout_ite_pure]
  exact fun _ => (keeps_assign_reached self f w reached).1

end Target

/-- The callbacks of an operation reach the host it starts, and otherwise the
host of the global. -/
theorem throughout_perform_reached
    (platform : Platform)
    (op : Op)
    {w : World}
    (wellFormed : w.WellFormed) :
    Throughout (Reaches (op.reaches w.gLibretroHost)) (perform platform op)
      w := by
  have reached := reached_of_wellFormed wellFormed
  cases op with
  | create name =>
      rw [perform, initCore]
      split
      · exact throughout_pure _ _ _
      · exact (throughout_emit _ _ _ _).mpr (reaches_of_silent (by simp))
  | start self behaviour data romPath =>
      rw [perform]
      refine throughout_method_reached fun host owned alive => ?_
      rw [throughout_bind]
      exact ⟨(leads_start_reached behaviour data romPath w
        ⟨owned, by simp [alive]⟩).1, throughout_pure _ _ _⟩
  | runFrame self behaviour =>
      rw [perform]
      refine throughout_method_reached fun host owned alive => ?_
      rw [throughout_bind]
      exact ⟨throughout_runFrame_reached behaviour reached,
        throughout_pure _ _ _⟩
  | shutdown self behaviour =>
      rw [perform]
      refine throughout_method_reached fun host owned alive => ?_
      rw [throughout_bind]
      exact ⟨throughout_shutdown_reached behaviour reached,
        throughout_pure _ _ _⟩
  | drop self =>
      rw [perform, throughout_get_bind, throughout_ite_pure]
      exact fun _ => (throughout_emit _ _ _ _).mpr
        (reaches_of_silent (by simp))
  | setOnVideo self isSet => exact throughout_setProperty_reached self _ reached
  | setOnAudio self isSet => exact throughout_setProperty_reached self _ reached
  | writeButton self id value =>
      exact throughout_setProperty_reached self _ reached

/-- **The last start.** In every run of any number of hosts, the global refers
to the host of the last `start` that returned, if it was accepted and that host
is still loaded, and to none otherwise; the callbacks of a `start` reach its own
host and those of every other operation reach the host of the global. So a
loaded host gets the callbacks of its core exactly if no other `start` has
returned since its own. -/
theorem callbacks_reach_last_start
    (platform : Platform)
    (ops : List Op)
    (op : Op) :
    let log := (performAll platform ops).log World.initial
    let w := (performAll platform ops).state World.initial
    w.gLibretroHost = w.player log ∧
      Throughout (Reaches (op.reaches (w.player log))) (perform platform op)
        w ∧
      ∀ h, w.loaded h = true →
        (w.gLibretroHost = some h ↔ lastStart log = some (h, true)) := by
  intro log w
  have follows : FollowsStarts log w := followsStarts_performAll platform ops
  refine ⟨follows.routed, ?_, fun h loaded => ?_⟩
  · rw [← follows.routed]
    exact throughout_perform_reached platform op follows.wellFormed
  · rw [follows.routed]
    exact ⟨fun isPlayer => (loaded_of_player isPlayer).2,
      fun last => player_of_loaded last loaded⟩

end Host
end LibretroLab
