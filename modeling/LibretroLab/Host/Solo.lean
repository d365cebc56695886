import LibretroLab.Host.Heap

/-!
# One game at a time

While `start` is called only when no host is loaded, a loaded host is the one
that receives the callbacks.
-/

namespace LibretroLab
namespace Host

open Recorder

/-- `start` is called only when no host is loaded. -/
def Op.StartsAlone (w : World) : Op → Prop
  | .start _ _ _ _ => ∀ h, w.loaded h = false
  | _ => True

/-- The world is well formed and a loaded host is the active one. -/
structure Solo (w : World) : Prop where
  wellFormed : w.WellFormed
  routed : ∀ h, w.loaded h = true → w.gLibretroHost = some h

/-- No two hosts are loaded at the same time. -/
theorem Solo.unique
    {w : World}
    (solo : Solo w)
    {h h' : HostId}
    (loaded : w.loaded h = true)
    (loaded' : w.loaded h' = true) :
    h = h' :=
  Option.some.inj ((solo.routed h loaded).symm.trans (solo.routed h' loaded'))

theorem solo_initial : Solo World.initial where
  wellFormed := wellFormed_initial
  routed := fun _ loaded => by contradiction

theorem loaded_played
    (core : CoreId)
    (actions : List CoreAction)
    (w : World)
    (h : HostId) :
    (w.played core actions).loaded h = w.loaded h := by
  rw [World.loaded, World.hosts_played, World.loaded]
  cases w.hosts h <;> rfl

theorem loaded_start_other
    {self h : HostId}
    (differs : h ≠ self)
    {w : World}
    (idle : w.loaded h = false) :
    ((start self core behaviour data romPath).state w).loaded h = false := by
  rw [World.loaded, hosts_start_other differs, World.hosts_assignGlobal]
  split_ifs
  · rfl
  · rw [World.loaded] at idle
    cases alive : w.hosts h with
    | none => rfl
    | some host =>
        rw [alive] at idle
        exact idle

theorem loaded_afterShutdown_self
    (self : HostId)
    (core : CoreId)
    (behaviour : CoreBehaviour)
    (w : World) :
    (w.afterShutdown self core behaviour).loaded self = false := by
  rw [World.loaded, hosts_afterShutdown, hosts_ended_self]
  cases w.hosts self <;> rfl

theorem loaded_afterShutdown_other
    {self h : HostId}
    (differs : h ≠ self)
    (core : CoreId)
    (behaviour : CoreBehaviour)
    (w : World) :
    (w.afterShutdown self core behaviour).loaded h = w.loaded h := by
  rw [World.loaded, hosts_afterShutdown, hosts_ended_other differs,
    World.loaded]
  cases w.hosts h <;> rfl

theorem loaded_of_loaded_dropOwner
    {self h : HostId}
    {w : World}
    (loaded : (w.dropOwner self).loaded h = true) :
    w.loaded h = true := by
  rw [World.loaded, World.dropOwner, World.hosts_release] at loaded
  split_ifs at loaded
  · contradiction
  · exact loaded

theorem loaded_modifyHost
    {f : LibretroHost → LibretroHost}
    (inert : Inert f)
    (self : HostId)
    (w : World)
    (h : HostId) :
    (w.modifyHost self f).loaded h = w.loaded h := by
  rw [World.loaded, World.hosts_modifyHost, World.loaded]
  by_cases same : h = self
  · subst same
    rw [Function.update_self]
    cases alive : w.hosts h with
    | none => rfl
    | some host =>
        rw [Option.map_some, Option.any_some, Option.any_some, inert host]
  · rw [Function.update_of_ne same]

/-- After a `start` in a world without loaded hosts, only its own host can be
loaded, and only if the game was accepted. -/
theorem loaded_start
    {self : HostId}
    {host : LibretroHost}
    {w : World}
    (owned : w.owned self = true)
    (alive : w.hosts self = some host)
    (alone : ∀ h, w.loaded h = false)
    (h : HostId)
    (loaded : ((start self core behaviour data romPath).state w).loaded h =
      true) :
    h = self ∧ behaviour.loadGame = true := by
  have isSelf : h = self := by
    by_contra differs
    rw [loaded_start_other differs (alone h)] at loaded
    contradiction
  refine ⟨isSelf, ?_⟩
  subst isSelf
  have idle := (World.loaded_of alive).symm.trans (alone h)
  rw [World.loaded, hosts_start_self owned, alive] at loaded
  simpa [idle] using loaded

/-- Every operation of a run with one game at a time keeps it so. -/
theorem solo_of_performed
    {platform : Platform}
    {w w' : World}
    {op : Op}
    {calls : List (CoreId × RetroCall)}
    (done : Performed platform w op calls w')
    (solo : Solo w)
    (alone : op.StartsAlone w)
    (h : HostId)
    (loaded : w'.loaded h = true) :
    w'.gLibretroHost = some h := by
  cases done with
  | idle => exact solo.routed h loaded
  | @created name entry found =>
      have differs : h ≠ w.nextHost := by
        rintro rfl
        simp [World.loaded, World.allocateHost] at loaded
      rw [World.loaded, World.hosts_allocateHost_of_ne differs] at loaded
      exact solo.routed h loaded
  | started owned alive =>
      obtain ⟨rfl, accepted⟩ := loaded_start owned alive alone h loaded
      rw [gLibretroHost_start, if_pos accepted]
  | ranFrame owned alive isLoaded =>
      rw [loaded_played] at loaded
      exact solo.routed h loaded
  | @shutDown self host behaviour owned alive isLoaded =>
      have differs : h ≠ self := by
        rintro rfl
        rw [loaded_afterShutdown_self] at loaded
        contradiction
      rw [loaded_afterShutdown_other differs] at loaded
      have routed := solo.routed h loaded
      have notHeld : w.gLibretroHost ≠ some self := by
        rw [routed]
        exact fun same => differs (Option.some.inj same)
      rw [gLibretroHost_afterShutdown, if_neg notHeld, routed]
  | dropped owned =>
      have routed := solo.routed h (loaded_of_loaded_dropOwner loaded)
      simpa [World.dropOwner] using routed
  | assigned owned alive inert =>
      rw [loaded_modifyHost inert] at loaded
      exact solo.routed h loaded

theorem Solo.perform
    {platform : Platform}
    {w : World}
    {op : Op}
    (solo : Solo w)
    (alone : op.StartsAlone w) :
    Solo ((perform platform op).state w) where
  wellFormed := wellFormed_perform platform op solo.wellFormed
  routed := solo_of_performed (performed platform op w) solo alone

theorem solo_performAll
    (platform : Platform)
    (ops : List Op)
    (alone : Along (perform platform) (fun w op => op.StartsAlone w)
      World.initial ops) :
    Solo ((performAll platform ops).state World.initial) :=
  state_each_invariant Solo (fun _ _ solo alone => solo.perform alone)
    ops World.initial solo_initial alone

/-- No host is loaded while none is active. -/
theorem Solo.idle_of_inactive
    {w : World}
    (solo : Solo w)
    (inactive : w.gLibretroHost = none)
    (h : HostId) :
    w.loaded h = false := by
  cases loaded : w.loaded h with
  | false => rfl
  | true =>
      have routed := solo.routed h loaded
      rw [inactive] at routed
      contradiction

end Host
end LibretroLab
