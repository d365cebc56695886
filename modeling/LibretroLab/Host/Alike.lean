import LibretroLab.Host.Heap
import LibretroLab.Host.LoadedFlag

/-!
# Runs that look alike

What can be observed of a host: the calls that cores receive, what comes back
from their callbacks, with the pointers followed, and what the program reads
between its calls. Two worlds that agree on the host, up to the parts that
cannot be observed, go on agreeing.
-/

namespace LibretroLab
namespace Host

open Recorder

/-- The properties of a host that can be read but not written from outside. -/
structure Reading where
  loaded : Bool
  pixelFormat : PixelFormat
  avInfo : RetroSystemAvInfo
  deriving DecidableEq

/-- The properties of a host that its owner sets up. -/
structure Properties where
  buttons : Vector Int16 16
  onVideo : Bool
  onAudio : Bool
  systemDir : String
  saveDir : String
  deriving DecidableEq

/-- All of a host that can show. -/
structure Face where
  core : CoreId
  reading : Reading
  properties : Properties
  deriving DecidableEq

namespace LibretroHost

/-- What can be read of a host. -/
def reading (host : LibretroHost) : Reading where
  loaded := host.loaded
  pixelFormat := host.pixelFormat
  avInfo := host.avInfo

/-- What is set up in a host. -/
def properties (host : LibretroHost) : Properties where
  buttons := host.buttons
  onVideo := host.onVideo
  onAudio := host.onAudio
  systemDir := host.systemDir
  saveDir := host.saveDir

/-- What can show of a host. -/
def face (host : LibretroHost) : Face where
  core := host.core
  reading := host.reading
  properties := host.properties

theorem face_eq_iff (host host' : LibretroHost) :
    host.face = host'.face ↔
      host.core = host'.core ∧ host.reading = host'.reading ∧
        host.properties = host'.properties := by
  simp [face]

end LibretroHost

namespace World

/-- What can be read of a live host. -/
def reading (w : World) (h : HostId) : Option Reading :=
  (w.hosts h).map LibretroHost.reading

/-- What is set up in a live host. -/
def properties (w : World) (h : HostId) : Option Properties :=
  (w.hosts h).map LibretroHost.properties

/-- What can show of a live host. -/
def face (w : World) (h : HostId) : Option Face :=
  (w.hosts h).map LibretroHost.face

theorem reading_eq_of_face_eq
    {s t : World}
    (same : s.face h = t.face h) :
    s.reading h = t.reading h := by
  have mapped := congrArg (Option.map Face.reading) same
  rw [face, face, Option.map_map, Option.map_map] at mapped
  exact mapped

theorem loaded_eq_of_face_eq
    {s t : World}
    (same : s.face h = t.face h) :
    s.loaded h = t.loaded h := by
  have readings := reading_eq_of_face_eq same
  rw [reading, reading] at readings
  rw [loaded, loaded]
  cases before : s.hosts h with
  | none =>
      rw [before, Option.map_none, eq_comm, Option.map_eq_none_iff] at readings
      rw [readings]
  | some host =>
      rw [before, Option.map_some, eq_comm, Option.map_eq_some_iff] at readings
      obtain ⟨host', alive, equal⟩ := readings
      rw [alive]
      exact (congrArg Reading.loaded equal).symm

end World

/-- What a core finds behind the data pointer of an environment request. -/
inductive Found
  | bool (value : Bool)
  | path (text : Option String)
  deriving DecidableEq

/-- Follow the pointer that was stored. -/
def Written.follow (strings : StringPtr → Option String) : Written → Found
  | .bool value => .bool value
  | .path pointer => .path (pointer.bind strings)

/-- An answer as the core can observe it. -/
inductive Heard
  | void
  | environment (result : Bool) (found : Option Found)
  | audioSampleBatch (frames : Int)
  | inputState (value : Int16)
  deriving DecidableEq

/-- What the core observes of an answer. -/
def Answer.heard (strings : StringPtr → Option String) : Answer → Heard
  | .void => .void
  | .environment reply =>
      .environment reply.result (reply.written.map (Written.follow strings))
  | .audioSampleBatch frames => .audioSampleBatch frames
  | .inputState value => .inputState value

/-- What can be observed at a moment. -/
inductive Observation
  | called (core : CoreId) (retroCall : RetroCall)
  | answered
      (core : CoreId)
      (callback : Callback)
      (heard : Heard)
      (closures : List ClosureCall)
  | returned (result : Option Bool) (reading : Option Reading)
  deriving DecidableEq

/-- The observations of a moment: calls, callbacks with the closure calls they
make, and method results together with what is read afterwards. -/
def observe (moment : Moment World Event) : List Observation :=
  match moment.event with
  | .call _ core retroCall => [.called core retroCall]
  | .callback core callback response =>
      [.answered core callback
        (response.answer.heard moment.before.strings) response.closures]
  | .methodReturned host result =>
      [.returned result (moment.after.reading host)]
  | .returned _ _ _ | .buttonWritten _ _ _ | .assigned => []

/-! ## Worlds that agree on a host -/

/-- Both worlds own the host and show the same of it. -/
structure Alike (h : HostId) (s t : World) : Prop where
  heap : s.HeapOk
  heap' : t.HeapOk
  owned : s.owned h = true
  owned' : t.owned h = true
  face : s.face h = t.face h

/-- The callbacks reach the host in both worlds, or no host in either. -/
structure Tuned (h : HostId) (s t : World) : Prop extends Alike h s t where
  routed : s.gLibretroHost = t.gLibretroHost
  own : ∀ active, s.gLibretroHost = some active → active = h

/-- Between method calls, routing matters to a loaded host only. -/
structure Between (h : HostId) (s t : World) : Prop extends Alike h s t where
  tuned : s.loaded h = true → Tuned h s t

theorem Tuned.between {s t : World} (tuned : Tuned h s t) : Between h s t :=
  ⟨tuned.toAlike, fun _ => tuned⟩

theorem Alike.loaded_iff {s t : World} (alike : Alike h s t) :
    s.loaded h = true ↔ t.loaded h = true := by
  rw [World.loaded_eq_of_face_eq alike.face]

/-- The host is in both heaps or in neither. -/
theorem Alike.hosts
    {s t : World}
    (alike : Alike h s t) :
    (s.hosts h = none ∧ t.hosts h = none) ∨
      ∃ host host', s.hosts h = some host ∧ t.hosts h = some host' ∧
        host.face = host'.face := by
  have same := alike.face
  rw [World.face, World.face] at same
  cases before : s.hosts h with
  | none =>
      rw [before, Option.map_none, eq_comm, Option.map_eq_none_iff] at same
      exact Or.inl ⟨rfl, same⟩
  | some host =>
      rw [before, Option.map_some, eq_comm, Option.map_eq_some_iff] at same
      obtain ⟨host', alive, equal⟩ := same
      exact Or.inr ⟨host, host', rfl, alive, equal.symm⟩

/-- The same change of the host on both sides. -/
theorem face_map_eq
    {s t : World}
    {f : LibretroHost → LibretroHost}
    (respects : ∀ host host', host.face = host'.face →
      (f host).face = (f host').face)
    (alike : Alike h s t) :
    ((s.hosts h).map f).map LibretroHost.face =
      ((t.hosts h).map f).map LibretroHost.face := by
  rcases alike.hosts with ⟨dead, dead'⟩ | ⟨host, host', alive, alive', same⟩
  · rw [dead, dead']
  · rw [alive, alive']
    exact congrArg some (respects host host' same)

/-- Changes outside the heap, the references and the host do not matter. -/
theorem Tuned.congr
    {s s' t t' : World}
    (tuned : Tuned h s t)
    (heap : s'.HeapOk)
    (heap' : t'.HeapOk)
    (owned : s'.owned = s.owned)
    (owned' : t'.owned = t.owned)
    (face : s'.face h = t'.face h)
    (routed : s'.gLibretroHost = s.gLibretroHost)
    (routed' : t'.gLibretroHost = t.gLibretroHost) :
    Tuned h s' t' where
  heap := heap
  heap' := heap'
  owned := by rw [owned, tuned.owned]
  owned' := by rw [owned', tuned.owned']
  face := face
  routed := by rw [routed, routed', tuned.routed]
  own := by
    rw [routed]
    exact tuned.own

theorem Tuned.enter
    {s t : World}
    (tuned : Tuned h s t)
    (core : CoreId)
    (retroCall : RetroCall) :
    Tuned h (s.enter core retroCall) (t.enter core retroCall) :=
  tuned.congr (tuned.heap.congr rfl rfl rfl rfl)
    (tuned.heap'.congr rfl rfl rfl rfl) rfl rfl tuned.face rfl rfl

theorem Tuned.leave
    {s t : World}
    (tuned : Tuned h s t)
    (self : HostId)
    (core : CoreId)
    (retroCall : RetroCall) :
    Tuned h (s.leave self core retroCall) (t.leave self core retroCall) :=
  tuned.congr (tuned.heap.congr rfl rfl rfl rfl)
    (tuned.heap'.congr rfl rfl rfl rfl) rfl rfl tuned.face rfl rfl

theorem Tuned.played
    {s t : World}
    (tuned : Tuned h s t)
    (core : CoreId)
    (actions : List CoreAction) :
    Tuned h (s.played core actions) (t.played core actions) := by
  refine tuned.congr (heapOk_played tuned.heap _)
    (heapOk_played tuned.heap' _) rfl rfl ?_ rfl rfl
  rw [World.face, World.face, World.hosts_played, World.hosts_played,
    tuned.routed]
  refine face_map_eq (fun host host' same => ?_) tuned.toAlike
  obtain ⟨sameCore, sameReading, sameProperties⟩ :=
    (LibretroHost.face_eq_iff host host').mp same
  simp only [LibretroHost.reading, Reading.mk.injEq] at sameReading
  simp only [LibretroHost.properties, Properties.mk.injEq] at sameProperties
  simp [LibretroHost.face, LibretroHost.reading, LibretroHost.properties,
    LibretroHost.played, sameCore, sameReading, sameProperties]

theorem Tuned.modifyHost
    {s t : World}
    {f : LibretroHost → LibretroHost}
    (tuned : Tuned h s t)
    (keeps : ∀ host, (f host).constants = host.constants)
    (respects : ∀ host host', host.face = host'.face →
      (f host).face = (f host').face) :
    Tuned h (s.modifyHost h f) (t.modifyHost h f) := by
  refine tuned.congr (heapOk_modifyHost tuned.heap keeps)
    (heapOk_modifyHost tuned.heap' keeps) rfl rfl ?_ rfl rfl
  simp only [World.face, World.hosts_modifyHost, Function.update_self]
  exact face_map_eq respects tuned.toAlike

/-- A store to the global makes two worlds agree on the routing. -/
theorem Alike.assignGlobal
    {s t : World}
    (alike : Alike h s t)
    {value : Option HostId}
    (own : ∀ active, value = some active → active = h) :
    Tuned h (s.assignGlobal value) (t.assignGlobal value) where
  heap := alike.heap.assignGlobal value
  heap' := alike.heap'.assignGlobal value
  owned := by rw [World.owned_assignGlobal, alike.owned]
  owned' := by rw [World.owned_assignGlobal, alike.owned']
  face := by
    rw [World.face, World.face,
      World.hosts_assignGlobal_of_owned alike.owned,
      World.hosts_assignGlobal_of_owned alike.owned']
    exact alike.face
  routed := by rw [World.gLibretroHost_assignGlobal,
    World.gLibretroHost_assignGlobal]
  own := by
    rw [World.gLibretroHost_assignGlobal]
    exact own

/-! ## Callbacks are answered alike -/

/-- The system directory that a core reads is the one set up. -/
theorem follow_systemDirC
    {w : World}
    (heap : w.HeapOk)
    (alive : w.hosts h = some host) :
    host.systemDirC.bind w.strings = some host.systemDir := by
  have allocated := heap.allocated h host.constants
    (by rw [World.constants, alive, Option.map_some])
  obtain ⟨p, isPointer, holds⟩ := allocated.systemDir
  change host.systemDirC = some p at isPointer
  rw [isPointer]
  exact holds

/-- So is the save directory. -/
theorem follow_saveDirC
    {w : World}
    (heap : w.HeapOk)
    (alive : w.hosts h = some host) :
    host.saveDirC.bind w.strings = some host.saveDir := by
  have allocated := heap.allocated h host.constants
    (by rw [World.constants, alive, Option.map_some])
  obtain ⟨p, isPointer, holds⟩ := allocated.saveDir
  change host.saveDirC = some p at isPointer
  rw [isPointer]
  exact holds

/-- An environment request is heard from the face of the host alone. -/
theorem heard_environment
    {s t : World}
    (heap : s.HeapOk)
    (heap' : t.HeapOk)
    (alive : s.hosts h = some host)
    (alive' : t.hosts h = some host')
    (same : host.face = host'.face)
    (cmd : UInt32)
    (data : Option Int32) :
    (Answer.environment (host.handleEnvironment cmd data).1).heard s.strings =
      (Answer.environment (host'.handleEnvironment cmd data).1).heard
        t.strings := by
  obtain ⟨_, _, sameProperties⟩ :=
    (LibretroHost.face_eq_iff host host').mp same
  simp only [LibretroHost.properties, Properties.mk.injEq] at sameProperties
  have systemDir : host.systemDirC.bind s.strings =
      host'.systemDirC.bind t.strings := by
    rw [follow_systemDirC heap alive, follow_systemDirC heap' alive',
      sameProperties.2.2.2.1]
  have saveDir : host.saveDirC.bind s.strings =
      host'.saveDirC.bind t.strings := by
    rw [follow_saveDirC heap alive, follow_saveDirC heap' alive',
      sameProperties.2.2.2.2]
  by_cases isFormat : cmd = Env.setPixelFormat
  · rw [isFormat, handleEnvironment_setPixelFormat,
      handleEnvironment_setPixelFormat]
    rfl
  · simp only [LibretroHost.handleEnvironment, isFormat, if_false]
    split_ifs <;> cases data <;>
      simp [Answer.heard, Written.follow, systemDir, saveDir]

/-- The active host is the same on both sides. -/
theorem Tuned.activeHost
    {s t : World}
    (tuned : Tuned h s t) :
    (s.activeHost = none ∧ t.activeHost = none) ∨
      ∃ host host', s.activeHost = some (h, host) ∧
        t.activeHost = some (h, host') ∧ s.hosts h = some host ∧
        t.hosts h = some host' ∧ host.face = host'.face := by
  cases routed : s.gLibretroHost with
  | none =>
      have routed' := tuned.routed.symm.trans routed
      refine Or.inl ⟨?_, ?_⟩
      · rw [World.activeHost, routed, Option.bind_none]
      · rw [World.activeHost, routed', Option.bind_none]
  | some active =>
      obtain rfl := tuned.own active routed
      have routed' := tuned.routed.symm.trans routed
      rcases tuned.hosts with ⟨dead, dead'⟩ |
        ⟨host, host', alive, alive', same⟩
      · refine Or.inl ⟨?_, ?_⟩
        · rw [World.activeHost, routed, Option.bind_some, dead,
            Option.map_none]
        · rw [World.activeHost, routed', Option.bind_some, dead',
            Option.map_none]
      · exact Or.inr ⟨host, host', World.activeHost_of routed alive,
          World.activeHost_of routed' alive', alive, alive', same⟩

/-- Every callback is answered alike, with the same closure calls. -/
theorem Tuned.respond
    {s t : World}
    (tuned : Tuned h s t)
    (callback : Callback) :
    (s.respond callback).1.answer.heard s.strings =
        (t.respond callback).1.answer.heard t.strings ∧
      (s.respond callback).1.closures = (t.respond callback).1.closures := by
  rcases tuned.activeHost with ⟨inactive, inactive'⟩ |
    ⟨host, host', active, active', alive, alive', same⟩
  · cases callback <;>
      simp [World.respond, World.environmentCallback,
        World.videoRefreshCallback, World.audioSampleCallback,
        World.audioSampleBatchCallback, World.inputPollCallback,
        World.inputStateCallback, inactive, inactive', Answer.heard]
  · obtain ⟨_, sameReading, sameProperties⟩ :=
      (LibretroHost.face_eq_iff host host').mp same
    simp only [LibretroHost.reading, Reading.mk.injEq] at sameReading
    simp only [LibretroHost.properties, Properties.mk.injEq] at sameProperties
    obtain ⟨buttons, onVideo, onAudio, _, _⟩ := sameProperties
    obtain ⟨_, pixelFormat, _⟩ := sameReading
    cases callback with
    | environment cmd data =>
        have heard := heard_environment tuned.heap tuned.heap' alive alive'
          same cmd data
        simp only [World.respond, World.environmentCallback, active, active']
        exact ⟨heard, trivial⟩
    | videoRefresh data width height pitch =>
        cases data <;>
          simp [World.respond, World.videoRefreshCallback, active, active',
            Answer.heard, LibretroHost.callOnVideo, onVideo, pixelFormat]
    | audioSample left right =>
        simp [World.respond, World.audioSampleCallback, active, active',
          Answer.heard, LibretroHost.callOnAudio, onAudio]
    | audioSampleBatch data frames =>
        cases data <;>
          simp [World.respond, World.audioSampleBatchCallback, active,
            active', Answer.heard, LibretroHost.callOnAudio, onAudio]
    | inputPoll => exact ⟨rfl, rfl⟩
    | inputState port device index id =>
        simp only [World.respond, World.inputStateCallback, active, active',
          buttons]
        split_ifs <;> exact ⟨rfl, trivial⟩

/-! ## Methods are observed alike -/

section Relates

variable {h : HostId} {core : CoreId} {behaviour : CoreBehaviour}
  {data : Data} {romPath : String}

theorem relates_act (core : CoreId) (action : CoreAction) :
    Relates (Tuned h) observe (Tuned h) (act core action) := by
  cases action with
  | calls callback =>
      refine Relates.step (fun s t tuned => ?_) fun s t tuned => ?_
      · obtain ⟨heard, closures⟩ := tuned.respond callback
        simp only [observe, heard, closures]
      · have played := tuned.played core [.calls callback]
        rw [← World.hear_respond, ← World.hear_respond] at played
        exact played
  | writeButton self id value =>
      refine Relates.emit (fun _ _ _ => rfl) fun s t tuned => ?_
      rw [← World.played_writeButton core, ← World.played_writeButton core]
      exact tuned.played core [.writeButton self id value]

theorem relates_call
    (self : HostId)
    (core : CoreId)
    (retroCall : RetroCall)
    (actions : List CoreAction) :
    Relates (Tuned h) observe (Tuned h)
      (call self core retroCall actions) :=
  Relates.bind (Relates.emit (fun _ _ _ => rfl)
      fun _ _ tuned => tuned.enter core retroCall) fun _ =>
    Relates.bind (Relates.each fun action _ => relates_act core action)
      fun _ => Relates.emit (fun _ _ _ => rfl)
        fun _ _ tuned => tuned.leave self core retroCall

theorem relates_assign
    {f : LibretroHost → LibretroHost}
    (keeps : ∀ host, (f host).constants = host.constants)
    (respects : ∀ host host', host.face = host'.face →
      (f host).face = (f host').face) :
    Relates (Tuned h) observe (Tuned h) (assign h f) :=
  Relates.emit (fun _ _ _ => rfl)
    fun _ _ tuned => tuned.modifyHost keeps respects

theorem relates_registerCallbacks :
    Relates (Tuned h) observe (Tuned h)
      (registerCallbacks h core behaviour) :=
  Relates.bind (relates_call h core _ _) fun _ =>
    Relates.bind (relates_call h core _ _) fun _ =>
      Relates.bind (relates_call h core _ _) fun _ =>
        Relates.bind (relates_call h core _ _) fun _ =>
          Relates.bind (relates_call h core _ _) fun _ =>
            relates_call h core _ _

/-- The ROM bytes do not show. -/
theorem relates_setRomData (value : Option Data) :
    Relates (Tuned h) observe (Tuned h)
      (assign h fun host => { host with romData := value }) :=
  relates_assign (fun _ => rfl) fun _ _ same => same

theorem relates_clearGlobal :
    Relates (Tuned h) observe (Tuned h)
      (emit .assigned (World.assignGlobal none)) :=
  Relates.emit (fun _ _ _ => rfl) fun _ _ tuned =>
    tuned.toAlike.assignGlobal (by simp)

/-- Stores to what can be read. -/
theorem relates_setReading
    (f : LibretroHost → LibretroHost)
    (g : Reading → Reading)
    (keeps : ∀ host, (f host).constants = host.constants)
    (properties : ∀ host, (f host).properties = host.properties)
    (reading : ∀ host, (f host).reading = g host.reading) :
    Relates (Tuned h) observe (Tuned h) (assign h f) := by
  refine relates_assign keeps fun host host' same => ?_
  obtain ⟨sameCore, sameReading, sameProperties⟩ :=
    (LibretroHost.face_eq_iff host host').mp same
  rw [LibretroHost.face_eq_iff, properties, properties, reading, reading,
    sameReading, sameProperties]
  have core := congrArg Constants.core (keeps host)
  have core' := congrArg Constants.core (keeps host')
  exact ⟨core.trans (sameCore.trans core'.symm), rfl, rfl⟩

theorem relates_start :
    Relates (Alike h) observe (Tuned h)
      (start h core behaviour data romPath) := by
  unfold start
  refine Relates.bind (Relates.emit (fun _ _ _ => rfl) fun _ _ alike =>
      alike.assignGlobal fun active routed => (Option.some.inj routed).symm)
    fun _ => Relates.bind relates_registerCallbacks fun _ =>
    Relates.bind (relates_call h core _ _) fun _ =>
    Relates.bind (relates_setRomData (some data)) fun _ =>
    Relates.bind (relates_call h core _ _) fun _ => ?_
  by_cases accepted : behaviour.loadGame = true
  · rw [if_pos accepted]
    exact Relates.bind (relates_call h core _ _) fun _ =>
      Relates.bind (relates_setReading _
        (fun reading => { reading with avInfo := behaviour.avInfo })
        (fun _ => rfl) (fun _ => rfl) fun _ => rfl) fun _ =>
      Relates.bind (relates_call h core _ _) fun _ =>
      Relates.bind (relates_setReading _
        (fun reading => { reading with loaded := true })
        (fun _ => rfl) (fun _ => rfl) fun _ => rfl) fun _ =>
      Relates.pure true
  · rw [if_neg accepted]
    exact Relates.bind (relates_call h core _ _) fun _ =>
      Relates.bind relates_clearGlobal fun _ => Relates.pure false

theorem relates_runFrame :
    Relates (Between h) observe (Between h) (runFrame h core behaviour) := by
  refine Relates.ite_get (fun _ _ between => between.toAlike.loaded_iff) ?_ ?_
  · rintro s t ⟨between, loaded⟩
    exact ((relates_call h core .run _).weaken
      fun _ _ tuned => tuned.between) s t (between.tuned loaded)
  · rintro s t ⟨between, _⟩
    exact ⟨rfl, rfl, between⟩

/-- `shutdown` clears the global only if it is its own. -/
theorem relates_letGo :
    Relates (Tuned h) observe (Tuned h) (emit .assigned fun w =>
      if w.gLibretroHost = some h then w.assignGlobal none else w) := by
  refine Relates.emit (fun _ _ _ => rfl) fun s t tuned => ?_
  rw [← tuned.routed]
  split_ifs
  · exact tuned.toAlike.assignGlobal (by simp)
  · exact tuned

/-- What `shutdown` does on a loaded host. -/
theorem relates_ending :
    Relates (Tuned h) observe (Tuned h) (do
      assign h fun host => { host with loaded := false }
      call h core .unloadGame (behaviour.actions .retroUnloadGame)
      call h core .deinit (behaviour.actions .retroDeinit)
      assign h fun host => { host with romData := none }
      emit .assigned fun w =>
        if w.gLibretroHost = some h then w.assignGlobal none else w) :=
  Relates.bind (relates_setReading _
      (fun reading => { reading with loaded := false })
      (fun _ => rfl) (fun _ => rfl) fun _ => rfl) fun _ =>
    Relates.bind (relates_call h core _ _) fun _ =>
    Relates.bind (relates_call h core _ _) fun _ =>
    Relates.bind (relates_setRomData none) fun _ => relates_letGo

theorem relates_shutdown :
    Relates (Between h) observe (Between h) (shutdown h core behaviour) := by
  refine Relates.ite_get (fun _ _ between => between.toAlike.loaded_iff) ?_ ?_
  · rintro s t ⟨between, loaded⟩
    obtain ⟨sameValue, alike, final⟩ :=
      relates_ending s t (between.tuned loaded)
    exact ⟨sameValue, alike, final.between⟩
  · rintro s t ⟨between, _⟩
    exact ⟨rfl, rfl, between⟩

/-- A method is observed alike if its body is. -/
theorem relates_method
    {body : CoreId → HostM (Option Bool)}
    (relates : ∀ core, Relates (Between h) observe (Between h) (body core)) :
    Relates (Between h) observe (Between h) (method h body) := by
  intro s t between
  have callable : s.callable h = s.hosts h := by
    rw [World.callable, if_pos between.owned]
  have callable' : t.callable h = t.hosts h := by
    rw [World.callable, if_pos between.owned']
  refine ⟨rfl, ?_⟩
  rcases between.hosts with ⟨dead, dead'⟩ |
    ⟨host, host', alive, alive', same⟩
  · rw [(method_of_uncallable (callable.trans dead)).1,
      (method_of_uncallable (callable.trans dead)).2,
      (method_of_uncallable (callable'.trans dead')).1,
      (method_of_uncallable (callable'.trans dead')).2]
    exact ⟨rfl, between⟩
  · obtain ⟨sameCore, _, _⟩ :=
      (LibretroHost.face_eq_iff host host').mp same
    obtain ⟨sameValue, alike, final⟩ := relates host.core s t between
    rw [log_method_of_callable (callable.trans alive),
      log_method_of_callable (callable'.trans alive'),
      state_method_of_callable (callable.trans alive),
      state_method_of_callable (callable'.trans alive'), ← sameCore]
    refine ⟨?_, final⟩
    rw [List.flatMap_append, List.flatMap_append, alike, List.flatMap_singleton,
      List.flatMap_singleton]
    simp only [observe, sameValue,
      World.reading_eq_of_face_eq final.toAlike.face]

/-- The methods of a host are observed alike in worlds that agree on it. -/
theorem relates_perform
    (platform : Platform)
    {op : Op}
    (isMethod : op.IsMethodOf h) :
    Relates (Between h) observe (Between h) (perform platform op) := by
  cases op with
  | start self behaviour data romPath =>
      obtain rfl : self = h := isMethod
      refine relates_method fun core => ?_
      exact Relates.bind
        (fun s t between => (relates_start.weaken
          fun _ _ tuned => tuned.between) s t between.toAlike)
        fun _ => Relates.pure _
  | runFrame self behaviour =>
      obtain rfl : self = h := isMethod
      exact relates_method fun core =>
        Relates.bind relates_runFrame fun _ => Relates.pure _
  | shutdown self behaviour =>
      obtain rfl : self = h := isMethod
      exact relates_method fun core =>
        Relates.bind relates_shutdown fun _ => Relates.pure _
  | create | drop | setOnVideo | setOnAudio | writeButton =>
      exact isMethod.elim

end Relates

end Host
end LibretroLab
