import LibretroLab.Host.Run
import Mathlib.Data.List.Basic

/-!
# The heap of the host program

In every reachable world the directory strings of a live host are allocated,
are its own, and hold its two directories, and the global refers to a live
host or to none.
-/

namespace LibretroLab
namespace Host

open Recorder

/-- The part of a host that is fixed when it is created. -/
structure Constants where
  core : CoreId
  systemDir : String
  saveDir : String
  systemDirC : Option StringPtr
  saveDirC : Option StringPtr
  deriving DecidableEq

namespace Constants

/-- The strings that belong to a host. -/
def pointers (constants : Constants) : List StringPtr :=
  constants.systemDirC.toList ++ constants.saveDirC.toList

/-- Both strings are allocated and hold the directories. -/
structure Allocated
    (strings : StringPtr → Option String)
    (next : StringPtr)
    (constants : Constants) : Prop where
  below : ∀ p ∈ constants.pointers, p < next
  systemDir : ∃ p, constants.systemDirC = some p ∧
    strings p = some constants.systemDir
  saveDir : ∃ p, constants.saveDirC = some p ∧
    strings p = some constants.saveDir

/-- Allocation looks at the strings of the host only. -/
theorem Allocated.congr
    {strings strings' : StringPtr → Option String}
    {next next' : StringPtr}
    {constants : Constants}
    (allocated : constants.Allocated strings next)
    (later : next ≤ next')
    (same : ∀ p ∈ constants.pointers, strings' p = strings p) :
    constants.Allocated strings' next' := by
  obtain ⟨below, ⟨p, isSystem, holdsSystem⟩, ⟨q, isSave, holdsSave⟩⟩ :=
    allocated
  have pMember : p ∈ constants.pointers := by simp [pointers, isSystem]
  have qMember : q ∈ constants.pointers := by simp [pointers, isSave]
  exact
    { below := fun r member => (below r member).trans_le later
      systemDir := ⟨p, isSystem, (same p pMember).trans holdsSystem⟩
      saveDir := ⟨q, isSave, (same q qMember).trans holdsSave⟩ }

end Constants

/-- The constants of a host object. -/
def LibretroHost.constants (host : LibretroHost) : Constants where
  core := host.core
  systemDir := host.systemDir
  saveDir := host.saveDir
  systemDirC := host.systemDirC
  saveDirC := host.saveDirC

namespace World

/-- The constants of the live hosts. -/
def constants (w : World) (h : HostId) : Option Constants :=
  (w.hosts h).map LibretroHost.constants

/-- The heap is in order. -/
structure HeapOk (w : World) : Prop where
  bounded : w.Bounded
  allocated : ∀ h constants, w.constants h = some constants →
    constants.Allocated w.strings w.nextString
  apart : ∀ h h' constants constants', h ≠ h' →
    w.constants h = some constants → w.constants h' = some constants' →
    constants.pointers.Disjoint constants'.pointers

/-- The global refers to a live host or to none. -/
def ActiveAlive (w : World) : Prop :=
  ∀ h, w.gLibretroHost = some h → w.hosts h ≠ none

/-- What holds of every reachable world. -/
structure WellFormed (w : World) : Prop where
  heap : w.HeapOk
  active : w.ActiveAlive

theorem HeapOk.congr
    {w w' : World}
    (ok : w.HeapOk)
    (sameConstants : w'.constants = w.constants)
    (sameStrings : w'.strings = w.strings)
    (nextHost : w'.nextHost = w.nextHost)
    (nextString : w'.nextString = w.nextString) :
    w'.HeapOk where
  bounded := by
    refine ok.bounded.of_alive nextHost fun h dead => ?_
    have same := congrFun sameConstants h
    simpa [constants, dead] using same
  allocated := by
    rw [sameConstants, sameStrings, nextString]
    exact ok.allocated
  apart := by
    rw [sameConstants]
    exact ok.apart

theorem constants_played
    (core : CoreId) (actions : List CoreAction) (w : World) :
    (w.played core actions).constants = w.constants := by
  funext h
  rw [constants, hosts_played, Option.map_map]
  rfl

theorem constants_modifyHost
    {f : LibretroHost → LibretroHost}
    (keeps : ∀ host, (f host).constants = host.constants)
    (self : HostId)
    (w : World) :
    (w.modifyHost self f).constants = w.constants := by
  funext h
  rw [constants, hosts_modifyHost, constants]
  by_cases same : h = self
  · subst same
    rw [Function.update_self, Option.map_map]
    congr 1
    funext host
    exact keeps host
  · rw [Function.update_of_ne same]

/-- Freeing the strings of a dead host leaves the others alone. -/
theorem HeapOk.deinitHost
    {w : World}
    (ok : w.HeapOk)
    (self : HostId) :
    (w.deinitHost self).HeapOk := by
  cases alive : w.hosts self with
  | none => simpa [World.deinitHost, alive] using ok
  | some host =>
      have own : w.constants self = some host.constants := by
        simp [constants, alive]
      have others (h : HostId) (differs : h ≠ self) :
          (w.deinitHost self).constants h = w.constants h := by
        rw [constants, deinitHost_frame]
        simp [constants, differs]
      have gone : (w.deinitHost self).constants self = none := by
        rw [constants, deinitHost_frame]
        simp
      have survives (h : HostId) (found : Constants)
          (isFound : (w.deinitHost self).constants h = some found) :
          h ≠ self ∧ w.constants h = some found := by
        have differs : h ≠ self := by
          rintro rfl
          rw [gone] at isFound
          contradiction
        exact ⟨differs, (others h differs).symm.trans isFound⟩
      refine ⟨?_, ?_, ?_⟩
      · refine ok.bounded.of_alive (by rw [deinitHost_frame]) fun h dead => ?_
        rw [deinitHost_frame]
        by_cases same : h = self
        · simp [same]
        · simp [same, dead]
      · intro h found isFound
        obtain ⟨differs, before⟩ := survives h found isFound
        refine (ok.allocated h found before).congr
          (by rw [deinitHost_frame]) ?_
        intro p member
        have disjoint := ok.apart h self found host.constants differs before
          own
        have notSystem : host.systemDirC ≠ some p := by
          intro isSystem
          exact disjoint member (by
            simp [Constants.pointers, LibretroHost.constants, isSystem])
        have notSave : host.saveDirC ≠ some p := by
          intro isSave
          exact disjoint member (by
            simp [Constants.pointers, LibretroHost.constants, isSave])
        rw [World.deinitHost, alive]
        exact (strings_free_of_ne notSave _).trans
          (strings_free_of_ne notSystem w)
      · intro h h' found found' differs isFound isFound'
        exact ok.apart h h' found found' differs
          (survives h found isFound).2 (survives h' found' isFound').2

theorem HeapOk.release
    {w : World}
    (ok : w.HeapOk)
    (self : HostId) :
    (w.release self).HeapOk := by
  unfold World.release
  split_ifs
  · exact ok.deinitHost self
  · exact ok

/-- The heap does not depend on the global. -/
theorem HeapOk.setGlobal
    {w : World}
    (ok : w.HeapOk)
    (value : Option HostId) :
    HeapOk { w with gLibretroHost := value } :=
  ok.congr rfl rfl rfl rfl

theorem HeapOk.assignGlobal
    {w : World}
    (ok : w.HeapOk)
    (value : Option HostId) :
    (w.assignGlobal value).HeapOk := by
  unfold World.assignGlobal
  split
  · exact ok.setGlobal value
  · exact (ok.setGlobal value).release _

/-- The constants that `init` sets up. -/
def newConstants
    (platform : Platform)
    (entry : CoreId)
    (w : World) : Constants where
  core := entry
  systemDir := platform.systemDir
  saveDir := platform.saveDir
  systemDirC := some w.nextString
  saveDirC := some (w.nextString + 1)

theorem constants_allocateHost
    (platform : Platform)
    (name : String)
    (entry : CoreId)
    (w : World) :
    (w.allocateHost platform name entry).constants =
      Function.update w.constants w.nextHost
        (some (w.newConstants platform entry)) := by
  funext h
  by_cases isNew : h = w.nextHost
  · subst isNew
    simp [constants, allocateHost, newConstants, LibretroHost.constants]
  · rw [constants, hosts_allocateHost_of_ne isNew,
      Function.update_of_ne isNew, constants]

theorem strings_allocateHost_of_lt
    {p : StringPtr}
    {w : World}
    (below : p < w.nextString)
    (platform : Platform)
    (name : String)
    (entry : CoreId) :
    (w.allocateHost platform name entry).strings p = w.strings p := by
  have notSave : p ≠ w.nextString + 1 :=
    Nat.ne_of_lt (Nat.lt_succ_of_lt below)
  have notSystem : p ≠ w.nextString := Nat.ne_of_lt below
  simp [allocateHost, notSave, notSystem]

theorem mem_pointers_newConstants
    (platform : Platform)
    (entry : CoreId)
    (w : World)
    (p : StringPtr) :
    p ∈ (w.newConstants platform entry).pointers ↔
      p = w.nextString ∨ p = w.nextString + 1 := by
  simp [newConstants, Constants.pointers]

/-- A new host gets strings of its own. -/
theorem HeapOk.allocateHost
    {w : World}
    (ok : w.HeapOk)
    (platform : Platform)
    (name : String)
    (entry : CoreId) :
    (w.allocateHost platform name entry).HeapOk := by
  have fresh (h : HostId) (found : Constants)
      (isFound : w.constants h = some found) :
      found.pointers.Disjoint (w.newConstants platform entry).pointers := by
    intro p old new
    have below : p < w.nextString := (ok.allocated h found isFound).below p old
    rcases (mem_pointers_newConstants platform entry w p).mp new with
      rfl | rfl
    · exact absurd below (lt_irrefl _)
    · exact absurd below (Nat.not_lt_of_lt (Nat.lt_succ_self _))
  refine ⟨bounded_allocateHost ok.bounded platform name entry, ?_, ?_⟩
  · intro h found isFound
    rw [constants_allocateHost] at isFound
    by_cases isNew : h = w.nextHost
    · rw [isNew, Function.update_self, Option.some.injEq] at isFound
      subst isFound
      refine ⟨?_, ⟨w.nextString, rfl, ?_⟩, ⟨w.nextString + 1, rfl, ?_⟩⟩
      · intro p member
        rcases (mem_pointers_newConstants platform entry w p).mp member with
          rfl | rfl
        · exact Nat.lt_succ_of_lt (Nat.lt_succ_self _)
        · exact Nat.lt_succ_self _
      · simp [World.allocateHost, newConstants]
      · simp [World.allocateHost, newConstants]
    · rw [Function.update_of_ne isNew] at isFound
      have before := ok.allocated h found isFound
      exact before.congr (Nat.le_add_right _ 2) fun p member =>
        strings_allocateHost_of_lt (before.below p member) platform name entry
  · intro h h' found found' differs isFound isFound'
    rw [constants_allocateHost] at isFound isFound'
    by_cases isNew : h = w.nextHost
    · have isOld : h' ≠ w.nextHost := fun same =>
        differs (isNew.trans same.symm)
      rw [isNew, Function.update_self, Option.some.injEq] at isFound
      rw [Function.update_of_ne isOld] at isFound'
      subst isFound
      exact List.disjoint_symm (fresh h' found' isFound')
    · rw [Function.update_of_ne isNew] at isFound
      by_cases isNew' : h' = w.nextHost
      · rw [isNew', Function.update_self, Option.some.injEq] at isFound'
        subst isFound'
        exact fresh h found isFound
      · rw [Function.update_of_ne isNew'] at isFound'
        exact ok.apart h h' found found' differs isFound isFound'

end World

/-! ## Every operation keeps the heap in order -/

section Start

variable {self : HostId} {core : CoreId} {behaviour : CoreBehaviour}
  {data : Data} {romPath : String} {w : World}

theorem constants_called
    (retroCall : RetroCall)
    (actions : List CoreAction) :
    (w.called self core retroCall actions).constants = w.constants :=
  World.constants_played core actions (w.enter core retroCall)

theorem heapOk_called
    (ok : w.HeapOk)
    (retroCall : RetroCall)
    (actions : List CoreAction) :
    (w.called self core retroCall actions).HeapOk :=
  ok.congr (constants_called retroCall actions) rfl rfl rfl

theorem heapOk_played
    (ok : w.HeapOk)
    (actions : List CoreAction) :
    (w.played core actions).HeapOk :=
  ok.congr (World.constants_played core actions w) rfl rfl rfl

theorem heapOk_modifyHost
    (ok : w.HeapOk)
    {f : LibretroHost → LibretroHost}
    (keeps : ∀ host, (f host).constants = host.constants) :
    (w.modifyHost self f).HeapOk :=
  ok.congr (World.constants_modifyHost keeps self w) rfl rfl rfl

theorem heapOk_booted (ok : w.HeapOk) :
    (w.booted self core behaviour data).HeapOk := by
  have opened : ((w.assignGlobal (some self)).enter core
      .setEnvironment).HeapOk :=
    (ok.assignGlobal (some self)).congr rfl rfl rfl rfl
  have registered : (w.registered self core behaviour).HeapOk :=
    heapOk_played opened _
  refine heapOk_modifyHost ?_ fun _ => rfl
  exact heapOk_called registered .init _

theorem heapOk_start (ok : w.HeapOk) :
    ((start self core behaviour data romPath).state w).HeapOk := by
  have booted : (w.booted self core behaviour data).HeapOk := heapOk_booted ok
  cases accepted : behaviour.loadGame with
  | true =>
      rw [state_start_accepted accepted]
      refine heapOk_modifyHost (heapOk_played ?_ _) fun _ => rfl
      refine heapOk_modifyHost (heapOk_played ?_ _) fun _ => rfl
      exact heapOk_called booted _ _
  | false =>
      rw [state_start_rejected accepted]
      apply World.HeapOk.assignGlobal
      apply heapOk_called
      exact heapOk_played booted _

theorem heapOk_afterShutdown (ok : w.HeapOk) :
    (w.afterShutdown self core behaviour).HeapOk := by
  have ended : (w.ended self core behaviour).HeapOk := by
    refine heapOk_modifyHost ?_ fun _ => rfl
    apply heapOk_called
    apply heapOk_called
    exact heapOk_modifyHost ok fun _ => rfl
  exact ended.setGlobal _

end Start

theorem heapOk_initial : World.initial.HeapOk where
  bounded := bounded_initial
  allocated := fun _ _ found => by contradiction
  apart := fun _ _ _ _ _ found => by contradiction

theorem heapOk_of_performed
    {platform : Platform}
    {w w' : World}
    {op : Op}
    {calls : List (CoreId × RetroCall)}
    (done : Performed platform w op calls w')
    (ok : w.HeapOk) :
    w'.HeapOk := by
  cases done with
  | idle => exact ok
  | created found => exact ok.allocateHost platform _ _
  | started owned alive => exact heapOk_start ok
  | ranFrame owned alive loaded => exact heapOk_played ok _
  | shutDown owned alive loaded => exact heapOk_afterShutdown ok
  | @dropped h owned =>
      have unowned : World.HeapOk
          { w with owned := Function.update w.owned h false } :=
        ok.congr rfl rfl rfl rfl
      exact unowned.release h
  | assigned owned alive inert =>
      refine heapOk_modifyHost ok fun host => ?_
      rw [inert host]
      rfl

/-- The global keeps referring to a live host. -/
theorem activeAlive_of_performed
    {platform : Platform}
    {w w' : World}
    {op : Op}
    {calls : List (CoreId × RetroCall)}
    (done : Performed platform w op calls w')
    (wellFormed : w.WellFormed) :
    w'.ActiveAlive := by
  have active := wellFormed.active
  cases done with
  | idle => exact active
  | @created name entry found =>
      intro h routed
      by_cases isNew : h = w.nextHost
      · subst isNew
        simp [World.allocateHost]
      · rw [World.hosts_allocateHost_of_ne isNew]
        exact active h routed
  | @started self host behaviour data romPath owned alive =>
      intro h routed
      have isSelf : h = self := by
        rw [gLibretroHost_start] at routed
        split_ifs at routed
        exact (Option.some.inj routed).symm
      rw [isSelf, hosts_start_self owned, alive]
      simp
  | ranFrame owned alive loaded =>
      intro h routed
      rw [World.hosts_played]
      simpa using active h routed
  | @shutDown self host behaviour owned alive loaded =>
      intro h routed
      rw [gLibretroHost_afterShutdown] at routed
      split_ifs at routed with held
      have differs : h ≠ self := by
        rintro rfl
        exact held routed
      rw [hosts_afterShutdown, hosts_ended_other differs]
      simpa using active h routed
  | @dropped self owned =>
      intro h routed
      have before : w.gLibretroHost = some h := by
        simpa [World.dropOwner] using routed
      rw [World.dropOwner, World.hosts_release]
      split_ifs with lost
      · rw [← lost.1] at lost
        exact absurd before lost.2.2
      · exact active h before
  | @assigned op self host f owned alive inert =>
      intro h routed
      rw [World.hosts_modifyHost]
      by_cases same : h = self
      · subst same
        simp [alive]
      · rw [Function.update_of_ne same]
        exact active h routed

theorem wellFormed_initial : World.initial.WellFormed where
  heap := heapOk_initial
  active := fun _ routed => by contradiction

/-- Every operation keeps a world well formed. -/
theorem wellFormed_perform
    (platform : Platform)
    (op : Op)
    {w : World}
    (wellFormed : w.WellFormed) :
    ((perform platform op).state w).WellFormed where
  heap := heapOk_of_performed (performed platform op w) wellFormed.heap
  active := activeAlive_of_performed (performed platform op w) wellFormed

end Host
end LibretroLab
