import LibretroLab.Host.Lifecycle

/-!
# Runs of the program

What the rest of the program may do with hosts, one operation at a time: create
one, call its methods, write its properties, drop it. An operation on a host
needs a reference to it, so it is performed only on a host that is owned and
alive.
-/

namespace LibretroLab
namespace Host

open Recorder Registry

/-- One operation of the program, with what the core does meanwhile. -/
inductive Op
  | create (name : String)
  | start
      (host : HostId)
      (behaviour : CoreBehaviour)
      (data : Data)
      (romPath : String)
  | runFrame (host : HostId) (behaviour : CoreBehaviour)
  | shutdown (host : HostId) (behaviour : CoreBehaviour)
  | drop (host : HostId)
  | setOnVideo (host : HostId) (isSet : Bool)
  | setOnAudio (host : HostId) (isSet : Bool)
  | writeButton (host : HostId) (id : Fin 16) (value : Int16)

/-- The host object, if somebody can call its methods. -/
def World.callable (w : World) (h : HostId) : Option LibretroHost :=
  if w.owned h then w.hosts h else none

theorem World.callable_eq_some_iff
    (w : World)
    (h : HostId)
    (host : LibretroHost) :
    w.callable h = some host ↔ w.owned h = true ∧ w.hosts h = some host := by
  simp [World.callable]

/-- A method call on a host, which reports its result. -/
def method
    (self : HostId)
    (body : CoreId → HostM (Option Bool)) : HostM Unit := do
  let w ← get
  match w.callable self with
  | none => pure ()
  | some host =>
      let result ← body host.core
      emit (.methodReturned self result) fun w => w

/-- A store to a property that others may write. -/
def setProperty
    (self : HostId)
    (f : LibretroHost → LibretroHost) : HostM Unit := do
  let w ← get
  if (w.callable self).isSome then assign self f

/-- Perform one operation. -/
def perform (platform : Platform) : Op → HostM Unit
  | .create name => initCore platform name
  | .start h behaviour data romPath =>
      method h fun core => do
        let ok ← start h core behaviour data romPath
        pure (some ok)
  | .runFrame h behaviour =>
      method h fun core => do
        runFrame h core behaviour
        pure none
  | .shutdown h behaviour =>
      method h fun core => do
        shutdown h core behaviour
        pure none
  | .drop h => do
      let w ← get
      if w.owned h then emit .assigned (World.dropOwner h)
  | .setOnVideo h isSet =>
      setProperty h fun host => { host with onVideo := isSet }
  | .setOnAudio h isSet =>
      setProperty h fun host => { host with onAudio := isSet }
  | .writeButton h id value =>
      setProperty h (LibretroHost.setButton id value)

/-- Perform a sequence of operations. -/
abbrev performAll (platform : Platform) : List Op → HostM Unit :=
  each (perform platform)

/-! ## What an operation can do -/

section Method

variable {self : HostId} {body : CoreId → HostM (Option Bool)} {w : World}

theorem state_method_of_callable (callable : w.callable self = some host) :
    (method self body).state w = (body host.core).state w := by
  rw [method, state_get_bind, callable]
  simp only [state_bind, state_emit]

theorem log_method_of_callable (callable : w.callable self = some host) :
    (method self body).log w =
      (body host.core).log w ++
        [⟨(body host.core).state w,
          .methodReturned self ((body host.core).value w),
          (body host.core).state w⟩] := by
  rw [method, log_get_bind, callable]
  simp only [log_bind, log_emit]

theorem throughout_method_of_callable
    (callable : w.callable self = some host)
    (good : Moment World Event → Prop) :
    Throughout good (method self body) w ↔
      Throughout good (body host.core) w ∧
        good ⟨(body host.core).state w,
          .methodReturned self ((body host.core).value w),
          (body host.core).state w⟩ := by
  simp only [Throughout, log_method_of_callable callable, List.mem_append,
    List.mem_singleton, or_imp, forall_and, forall_eq]

theorem method_of_uncallable (uncallable : w.callable self = none) :
    (method self body).state w = w ∧ (method self body).log w = [] := by
  rw [method, state_get_bind, log_get_bind, uncallable]
  exact ⟨rfl, rfl⟩

end Method

/-- A function on hosts that writes nothing but properties open to others. -/
def Inert (f : LibretroHost → LibretroHost) : Prop :=
  ∀ host, f host =
    { host with
      buttons := (f host).buttons
      onVideo := (f host).onVideo
      onAudio := (f host).onAudio }

/-- What an operation can do: the calls it sends and the world it leaves. -/
inductive Performed (platform : Platform) (w : World) :
    Op → List (CoreId × RetroCall) → World → Prop
  | idle {op : Op} : Performed platform w op [] w
  | created
      {name : String}
      {entry : CoreId}
      (found : libretroCoreLookup platform.registry
        (some (CString.ofString name)) = some entry) :
      Performed platform w (.create name) []
        (w.allocateHost platform name entry)
  | started
      {h : HostId}
      {host : LibretroHost}
      {behaviour : CoreBehaviour}
      {data : Data}
      {romPath : String}
      (owned : w.owned h = true)
      (alive : w.hosts h = some host) :
      Performed platform w (.start h behaviour data romPath)
        ((startCalls behaviour data romPath).map (Prod.mk host.core))
        ((start h host.core behaviour data romPath).state w)
  | ranFrame
      {h : HostId}
      {host : LibretroHost}
      {behaviour : CoreBehaviour}
      (owned : w.owned h = true)
      (alive : w.hosts h = some host)
      (loaded : host.loaded = true) :
      Performed platform w (.runFrame h behaviour) [(host.core, .run)]
        (w.played host.core (behaviour.actions .retroRun))
  | shutDown
      {h : HostId}
      {host : LibretroHost}
      {behaviour : CoreBehaviour}
      (owned : w.owned h = true)
      (alive : w.hosts h = some host)
      (loaded : host.loaded = true) :
      Performed platform w (.shutdown h behaviour)
        [(host.core, .unloadGame), (host.core, .deinit)]
        (w.afterShutdown h host.core behaviour)
  | dropped
      {h : HostId}
      (owned : w.owned h = true) :
      Performed platform w (.drop h) [] (w.dropOwner h)
  | assigned
      {op : Op}
      {h : HostId}
      {host : LibretroHost}
      {f : LibretroHost → LibretroHost}
      (owned : w.owned h = true)
      (alive : w.hosts h = some host)
      (inert : Inert f) :
      Performed platform w op [] (w.modifyHost h f)

theorem performed_setProperty
    (platform : Platform)
    (op : Op)
    (h : HostId)
    {f : LibretroHost → LibretroHost}
    (inert : Inert f)
    (w : World) :
    Performed platform w op (sent ((setProperty h f).log w))
      ((setProperty h f).state w) := by
  rw [setProperty, state_get_bind, log_get_bind]
  cases callable : w.callable h with
  | none => exact Performed.idle
  | some host =>
      obtain ⟨owned, alive⟩ :=
        (World.callable_eq_some_iff w h host).mp callable
      exact Performed.assigned owned alive inert

/-- A method does what its body does, and nothing without a reference. -/
theorem performed_method
    (platform : Platform)
    (op : Op)
    (h : HostId)
    (body : CoreId → HostM (Option Bool))
    (w : World)
    (does : ∀ host, w.owned h = true → w.hosts h = some host →
      Performed platform w op (sent ((body host.core).log w))
        ((body host.core).state w)) :
    Performed platform w op (sent ((method h body).log w))
      ((method h body).state w) := by
  cases callable : w.callable h with
  | none =>
      rw [(method_of_uncallable callable).1, (method_of_uncallable callable).2]
      exact Performed.idle
  | some host =>
      obtain ⟨owned, alive⟩ :=
        (World.callable_eq_some_iff w h host).mp callable
      rw [state_method_of_callable callable, log_method_of_callable callable,
        sent_append]
      simpa [sent, Event.sent] using does host owned alive

/-- Every operation does one of these things. -/
theorem performed (platform : Platform) (op : Op) (w : World) :
    Performed platform w op (sent ((perform platform op).log w))
      ((perform platform op).state w) := by
  cases op with
  | create name =>
      rw [perform, initCore]
      cases found : libretroCoreLookup platform.registry
          (some (CString.ofString name)) with
      | none => exact Performed.idle
      | some entry => exact Performed.created found
  | start h behaviour data romPath =>
      apply performed_method
      intro host owned alive
      rw [log_bind, log_pure, List.append_nil, sent_start]
      exact Performed.started owned alive
  | runFrame h behaviour =>
      apply performed_method
      intro host owned alive
      rw [log_bind, log_pure, List.append_nil, state_bind, state_pure]
      cases loaded : host.loaded with
      | true =>
          have isLoaded := (World.loaded_of alive).trans loaded
          rw [state_runFrame_of_loaded isLoaded,
            sent_runFrame_of_loaded isLoaded]
          exact Performed.ranFrame owned alive loaded
      | false =>
          have isIdle := (World.loaded_of alive).trans loaded
          rw [(runFrame_of_idle isIdle).1, (runFrame_of_idle isIdle).2]
          exact Performed.idle
  | shutdown h behaviour =>
      apply performed_method
      intro host owned alive
      rw [log_bind, log_pure, List.append_nil, state_bind, state_pure]
      cases loaded : host.loaded with
      | true =>
          have isLoaded := (World.loaded_of alive).trans loaded
          rw [state_shutdown_of_owned owned isLoaded,
            sent_shutdown_of_loaded isLoaded]
          exact Performed.shutDown owned alive loaded
      | false =>
          have isIdle := (World.loaded_of alive).trans loaded
          rw [(shutdown_of_idle isIdle).1, (shutdown_of_idle isIdle).2]
          exact Performed.idle
  | drop h =>
      rw [perform, state_get_bind, log_get_bind]
      cases owned : w.owned h with
      | false => exact Performed.idle
      | true => exact Performed.dropped owned
  | setOnVideo h isSet =>
      exact performed_setProperty platform _ h (fun _ => rfl) w
  | setOnAudio h isSet =>
      exact performed_setProperty platform _ h (fun _ => rfl) w
  | writeButton h id value =>
      exact performed_setProperty platform _ h (fun _ => rfl) w

/-! ## Identities are not reused -/

/-- All live hosts were created before the next one. -/
def World.Bounded (w : World) : Prop :=
  ∀ h host, w.hosts h = some host → h < w.nextHost

/-- A world whose live hosts were alive is bounded if the first one was. -/
theorem World.Bounded.of_alive
    {w w' : World}
    (bounded : w.Bounded)
    (next : w'.nextHost = w.nextHost)
    (alive : ∀ h, w.hosts h = none → w'.hosts h = none) :
    w'.Bounded := by
  intro h host found
  rw [next]
  cases before : w.hosts h with
  | none =>
      rw [alive h before] at found
      contradiction
  | some host' => exact bounded h host' before

theorem bounded_initial : World.initial.Bounded := by
  intro h host alive
  contradiction

theorem bounded_allocateHost
    {w : World}
    (bounded : w.Bounded)
    (platform : Platform)
    (name : String)
    (entry : CoreId) :
    (w.allocateHost platform name entry).Bounded := by
  intro h host alive
  by_cases isNew : h = w.nextHost
  · rw [isNew]
    exact Nat.lt_succ_self _
  · rw [World.hosts_allocateHost_of_ne isNew] at alive
    exact (bounded h host alive).trans (Nat.lt_succ_self _)

/-- Every operation keeps identities fresh. -/
theorem bounded_of_performed
    {platform : Platform}
    {w w' : World}
    {op : Op}
    {calls : List (CoreId × RetroCall)}
    (done : Performed platform w op calls w')
    (bounded : w.Bounded) :
    w'.Bounded := by
  cases done with
  | idle => exact bounded
  | @created name entry found =>
      exact bounded_allocateHost bounded platform name entry
  | @started self host behaviour data romPath owned alive =>
      refine bounded.of_alive nextHost_start ?_
      intro h dead
      have differs : h ≠ self := by
        rintro rfl
        rw [alive] at dead
        contradiction
      rw [hosts_start_other differs, World.hosts_assignGlobal, dead, ite_self]
      rfl
  | ranFrame =>
      refine bounded.of_alive rfl ?_
      intro h dead
      rw [World.hosts_played, dead]
      rfl
  | @shutDown self host behaviour owned alive loaded =>
      refine bounded.of_alive rfl ?_
      intro h dead
      have differs : h ≠ self := by
        rintro rfl
        rw [alive] at dead
        contradiction
      rw [hosts_afterShutdown, hosts_ended_other differs, dead]
      rfl
  | @dropped self owned =>
      refine bounded.of_alive (by simp [World.dropOwner]) ?_
      intro h dead
      rw [World.dropOwner, World.hosts_release]
      split_ifs
      · rfl
      · exact dead
  | @assigned op self host f owned alive inert =>
      refine bounded.of_alive rfl ?_
      intro h dead
      have differs : h ≠ self := by
        rintro rfl
        rw [alive] at dead
        contradiction
      rw [World.hosts_modifyHost, Function.update_of_ne differs, dead]

/-- Every reachable world is bounded. -/
theorem bounded_performAll (platform : Platform) (ops : List Op) :
    ((performAll platform ops).state World.initial).Bounded :=
  state_each_of_preserved World.Bounded
    (fun w op => bounded_of_performed (performed platform op w))
    ops World.initial bounded_initial

/-- A platform with the one core `pce`. -/
def pcePlatform : Platform where
  registry := gCores ["pce"]
  systemDir := "/libretro/system"
  saveDir := "/libretro/saves"

/-- A platform with two cores. -/
def twoCorePlatform : Platform where
  registry := gCores ["pce", "nes"]
  systemDir := "/libretro/system"
  saveDir := "/libretro/saves"

/-- The program after `init(core: "pce")`. -/
def oneHost : World := World.initial.allocateHost pcePlatform "pce" 0

example :
    (perform pcePlatform (.create "pce")).state World.initial = oneHost := by
  rfl

end Host
end LibretroLab
