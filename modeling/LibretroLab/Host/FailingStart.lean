import LibretroLab.Host.Run

/-!
# A start that fails

What a `start` whose game is rejected leaves behind: the core is deinitialised,
but the ROM bytes stay, the pixel format that the core asked for stays, and the
callbacks reach no host any more.
-/

namespace LibretroLab
namespace Host

open Recorder

/-- The part of a host that a session sets up. -/
structure SessionState where
  loaded : Bool
  pixelFormat : PixelFormat
  avInfo : RetroSystemAvInfo
  romData : Option Data
  deriving DecidableEq

/-- The session state of a host object. -/
def LibretroHost.sessionState (host : LibretroHost) : SessionState where
  loaded := host.loaded
  pixelFormat := host.pixelFormat
  avInfo := host.avInfo
  romData := host.romData

/-- The session state of every live host. -/
def World.sessionState (w : World) (h : HostId) : Option SessionState :=
  (w.hosts h).map LibretroHost.sessionState

/-- From `before` to `after`, `core` was deinitialised, and neither the session
state of any host nor the routing of the callbacks changed. -/
structure ChangedNothing (core : CoreId) (before after : World) : Prop where
  deinitialised : (after.cores core).initialised = false
  sessions : after.sessionState = before.sessionState
  routing : after.gLibretroHost = before.gLibretroHost

/-- When the operation is a `start` that returns false, it changes nothing. -/
def Op.FailsCleanly (platform : Platform) (w : World) : Op → Prop
  | .start h behaviour data romPath => ∀ host,
      w.callable h = some host →
      (Host.start h host.core behaviour data romPath).value w = false →
      ChangedNothing host.core w
        ((perform platform (.start h behaviour data romPath)).state w)
  | _ => True

/-- When the operation is a `start` whose game is rejected, the callbacks were
routed nowhere before, the host already had the same bytes, and the last format
that the core asks for, if any, is the one the host already had. -/
def Op.NothingToUndo (w : World) : Op → Prop
  | .start h behaviour data _ => ∀ host,
      w.callable h = some host →
      behaviour.loadGame = false →
      w.gLibretroHost = none ∧ host.romData = some data ∧
        (lastFormat behaviour.startActions).getD host.pixelFormat =
          host.pixelFormat
  | _ => True

section Rejected

variable {self : HostId} {core : CoreId} {behaviour : CoreBehaviour}
  {data : Data} {romPath : String} {w : World} {host : LibretroHost}

/-- `start` returns what `retro_load_game` returned. -/
@[simp] theorem value_start :
    (start self core behaviour data romPath).value w =
      behaviour.loadGame := by
  cases accepted : behaviour.loadGame <;> simp [start, accepted]

/-- A rejected start keeps the bytes and the format of the core. -/
theorem sessionState_started (rejected : behaviour.loadGame = false) :
    (host.started self behaviour data).sessionState =
      { host.sessionState with
        pixelFormat :=
          (lastFormat behaviour.startActions).getD host.pixelFormat
        romData := some data } := by
  rw [LibretroHost.started]
  simp only [rejected, Bool.false_eq_true, if_false]
  rfl

/-- The session state of the host of a rejected start is what it was exactly if
it had the same bytes and the same format. -/
theorem sessionState_started_eq_iff (rejected : behaviour.loadGame = false) :
    (host.started self behaviour data).sessionState = host.sessionState ↔
      host.romData = some data ∧
        (lastFormat behaviour.startActions).getD host.pixelFormat =
          host.pixelFormat := by
  rw [sessionState_started rejected]
  simp only [LibretroHost.sessionState, SessionState.mk.injEq, true_and]
  rw [and_comm, eq_comm]

/-- A start on another host does not show in the session state of a host that
the callbacks were not routed to. -/
theorem sessionState_start_other
    {other : HostId}
    (differs : other ≠ self)
    (unrouted : w.gLibretroHost = none) :
    ((start self core behaviour data romPath).state w).sessionState other =
      w.sessionState other := by
  rw [World.sessionState, hosts_start_other differs, World.hosts_assignGlobal,
    if_neg (by simp [unrouted]), Option.map_map, World.sessionState]
  rfl

/-- A rejected start changed nothing exactly if there was nothing to undo. -/
theorem changedNothing_start_iff
    (owned : w.owned self = true)
    (alive : w.hosts self = some host)
    (rejected : behaviour.loadGame = false) :
    ChangedNothing core w
        ((start self core behaviour data romPath).state w) ↔
      w.gLibretroHost = none ∧ host.romData = some data ∧
        (lastFormat behaviour.startActions).getD host.pixelFormat =
          host.pixelFormat := by
  have atSelf :
      ((start self core behaviour data romPath).state w).sessionState self =
        some (host.started self behaviour data).sessionState := by
    rw [World.sessionState, hosts_start_self owned, alive]
    rfl
  have before : w.sessionState self = some host.sessionState := by
    rw [World.sessionState, alive, Option.map_some]
  constructor
  · intro unchanged
    have routing := unchanged.routing
    rw [gLibretroHost_start, rejected, if_neg Bool.false_ne_true] at routing
    have same := congrFun unchanged.sessions self
    rw [atSelf, before, Option.some.injEq] at same
    exact ⟨routing.symm, (sessionState_started_eq_iff rejected).mp same⟩
  · rintro ⟨unrouted, sameSession⟩
    refine ⟨?_, ?_, ?_⟩
    · rw [cores_start, Function.update_self, rejected]
      rfl
    · funext h
      by_cases isSelf : h = self
      · rw [isSelf, atSelf, before,
          (sessionState_started_eq_iff rejected).mpr sameSession]
      · exact sessionState_start_other isSelf unrouted
    · rw [gLibretroHost_start, rejected, unrouted]
      rfl

end Rejected

/-- In every world, an operation fails cleanly exactly if there is nothing to
undo. -/
theorem failsCleanly_iff (platform : Platform) (w : World) (op : Op) :
    op.FailsCleanly platform w ↔ op.NothingToUndo w := by
  cases op with
  | start h behaviour data romPath =>
      refine forall_congr' fun host => forall_congr' fun callable => ?_
      obtain ⟨owned, alive⟩ :=
        (World.callable_eq_some_iff w h host).mp callable
      rw [value_start]
      refine forall_congr' fun rejected => ?_
      rw [perform, state_method_of_callable callable, state_bind, state_pure]
      exact changedNothing_start_iff owned alive rejected
  | create | runFrame | shutdown | drop | setOnVideo | setOnAudio
  | writeButton => rfl

/-- **Failing starts.** At every step of every run, a `start` that returns
false changes nothing exactly if the callbacks were routed nowhere, the host
already had the same bytes, and the format the core last asked for, if any, was
the one in force. -/
theorem failing_starts_clean_iff (platform : Platform) (ops : List Op) :
    Along (perform platform)
      (fun w op => op.FailsCleanly platform w ↔ op.NothingToUndo w)
      World.initial ops :=
  along_of_invariant (fun _ => True)
    (fun w op _ _ => failsCleanly_iff platform w op)
    (fun _ _ _ _ => trivial) ops World.initial trivial
    (along_of_forall (fun _ _ => trivial) World.initial)

/-- A host that plays while another host of another core fails to start. -/
def startWhilePlaying : List Op :=
  [.create "pce", .create "nes", .start 0 {} [1] "a.pce",
    .start 1 { loadGame := false } [2] "b.nes"]

/-- The playing host loses its callbacks and the other keeps its bytes. -/
theorem startWhilePlaying_not_clean :
    ¬Along (perform twoCorePlatform)
      (fun w op => op.FailsCleanly twoCorePlatform w)
      World.initial startWhilePlaying := by
  rintro ⟨_, _, _, clean, _⟩
  have unchanged := clean _ rfl rfl
  exact absurd unchanged.routing (by decide)

end Host
end LibretroLab
