import LibretroLab.Host.Heap

/-!
# Who lives, and what is freed

At every moment of every run the live hosts are exactly those that an owner or
the global refers to, the allocated strings are exactly those of the live
hosts, a host that goes away takes its two strings with it and no others, and a
core is never handed a directory that is not there.
-/

namespace LibretroLab
namespace Host

open Recorder

/-- An owner or the global refers to the host. -/
def World.Referenced (w : World) (h : HostId) : Prop :=
  w.owned h = true ∨ w.gLibretroHost = some h

/-- The string belongs to a live host. -/
def World.Belongs (w : World) (p : StringPtr) : Prop :=
  ∃ h constants, w.constants h = some constants ∧ p ∈ constants.pointers

/-- What is in the heap is what is in use. -/
structure Exact (w : World) : Prop where
  heap : w.HeapOk
  alive_iff : ∀ h, w.constants h ≠ none ↔ w.Referenced h
  allocated_iff : ∀ p, w.strings p ≠ none ↔ w.Belongs p
  distinct : ∀ h constants, w.constants h = some constants →
    constants.pointers.Nodup

/-- Two worlds with the same heap and the same references into it. -/
structure SameHeap (w w' : World) : Prop where
  constants : w'.constants = w.constants
  owned : w'.owned = w.owned
  strings : w'.strings = w.strings
  nextHost : w'.nextHost = w.nextHost
  nextString : w'.nextString = w.nextString
  gLibretroHost : w'.gLibretroHost = w.gLibretroHost

/-- Nothing is freed but the strings of hosts that go away, which were
allocated until then. -/
structure FreesWithHosts (before after : World) : Prop where
  freed : ∀ h constants, before.constants h = some constants →
    after.constants h = none → ∀ p ∈ constants.pointers,
      before.strings p ≠ none ∧ after.strings p = none
  kept : ∀ p text, before.strings p = some text →
    after.strings p = some text ∨
      ∃ h constants, before.constants h = some constants ∧
        after.constants h = none ∧ p ∈ constants.pointers

/-- A directory that is handed to a core is the directory of the active
host. -/
def HandsOutDirectories (moment : Moment World Event) : Prop :=
  ∀ core cmd data result pointer closures,
    moment.event = .callback core (.environment cmd data)
      ⟨.environment ⟨result, some (.path pointer)⟩, closures⟩ →
    ∃ h host p, moment.before.activeHost = some (h, host) ∧
      pointer = some p ∧
      moment.after.strings p = some
        (if cmd = Env.getSystemDirectory then host.systemDir
        else host.saveDir)

/-- One atomic step manages memory soundly. -/
structure Sound (moment : Moment World Event) : Prop where
  exact_after : Exact moment.after
  frees : FreesWithHosts moment.before moment.after
  directories : HandsOutDirectories moment

/-! ## The heap and the references -/

theorem World.constants_eq_none_iff (w : World) (h : HostId) :
    w.constants h = none ↔ w.hosts h = none := by
  simp [World.constants]

namespace SameHeap

theorem exact
    {w w' : World}
    (same : SameHeap w w')
    (isExact : Exact w) :
    Exact w' where
  heap := isExact.heap.congr same.constants same.strings same.nextHost
    same.nextString
  alive_iff := by
    intro h
    rw [same.constants, World.Referenced, same.owned, same.gLibretroHost]
    exact isExact.alive_iff h
  allocated_iff := by
    intro p
    rw [same.strings, World.Belongs, same.constants]
    exact isExact.allocated_iff p
  distinct := by
    rw [same.constants]
    exact isExact.distinct

theorem frees
    {w w' : World}
    (same : SameHeap w w') :
    FreesWithHosts w w' where
  freed := by
    intro h constants found gone
    rw [same.constants, found] at gone
    contradiction
  kept := by
    intro p text holds
    rw [same.strings]
    exact Or.inl holds

end SameHeap

/-- Every allocated string was allocated before the next one. -/
theorem Exact.strings_below
    {w : World}
    (isExact : Exact w)
    {p : StringPtr}
    (allocated : w.strings p ≠ none) :
    p < w.nextString := by
  obtain ⟨h, constants, found, member⟩ := (isExact.allocated_iff p).mp allocated
  exact (isExact.heap.allocated h constants found).below p member

/-- The two strings of a host are all that its `deinit` frees. -/
theorem strings_deinitHost
    {w : World}
    {h : HostId}
    {host : LibretroHost}
    (alive : w.hosts h = some host)
    (p : StringPtr) :
    (w.deinitHost h).strings p =
      if p ∈ host.constants.pointers then none else w.strings p := by
  have atFree (q : Option StringPtr) (v : World) :
      (v.free q).strings p = if q = some p then none else v.strings p := by
    cases q with
    | none => simp [World.free]
    | some q =>
        simp only [World.free, Function.update_apply, Option.some.injEq]
        simp only [eq_comm]
  rw [World.deinitHost, alive]
  simp only [atFree, Constants.pointers, LibretroHost.constants,
    List.mem_append, Option.mem_toList]
  by_cases isSave : host.saveDirC = some p
  · simp [isSave]
  · simp [isSave]

theorem constants_deinitHost (w : World) (h other : HostId) :
    (w.deinitHost h).constants other =
      if other = h then none else w.constants other := by
  rw [World.constants, World.deinitHost_frame]
  by_cases same : other = h
  · simp [same]
  · simp [same, World.constants]

/-- A world in which the references to one host may have just gone. -/
structure ExactBut (h : HostId) (w : World) : Prop where
  heap : w.HeapOk
  others : ∀ other, other ≠ h → (w.constants other ≠ none ↔
    w.Referenced other)
  alive : w.constants h ≠ none
  allocated_iff : ∀ p, w.strings p ≠ none ↔ w.Belongs p
  distinct : ∀ h constants, w.constants h = some constants →
    constants.pointers.Nodup

section Release

variable {h : HostId} {w : World}

/-- The strings that are left after a `deinit` belong to the other hosts. -/
theorem ExactBut.deinitHost
    (almost : ExactBut h w)
    (unreferenced : ¬w.Referenced h) :
    Exact (w.deinitHost h) where
  heap := almost.heap.deinitHost h
  alive_iff := by
    intro other
    have sameReferences : (w.deinitHost h).Referenced other ↔
        w.Referenced other := by
      rw [World.Referenced, World.deinitHost_frame]
      rfl
    rw [constants_deinitHost, sameReferences]
    by_cases same : other = h
    · subst same
      simp [unreferenced]
    · rw [if_neg same]
      exact almost.others other same
  allocated_iff := by
    intro p
    obtain ⟨own, isOwn⟩ := Option.ne_none_iff_exists'.mp almost.alive
    obtain ⟨host, alive, rfl⟩ := Option.map_eq_some_iff.mp isOwn
    rw [strings_deinitHost alive]
    constructor
    · intro allocated
      split_ifs at allocated with freed
      · exact absurd rfl allocated
      · obtain ⟨other, constants, found, member⟩ :=
          (almost.allocated_iff p).mp allocated
        have differs : other ≠ h := by
          rintro rfl
          rw [isOwn, Option.some.injEq] at found
          exact freed (found ▸ member)
        refine ⟨other, constants, ?_, member⟩
        rw [constants_deinitHost, if_neg differs, found]
    · rintro ⟨other, constants, found, member⟩
      rw [constants_deinitHost] at found
      split_ifs at found with same
      have apart := almost.heap.apart other h constants host.constants same
        found isOwn
      rw [if_neg (apart member)]
      exact (almost.allocated_iff p).mpr ⟨other, constants, found, member⟩
  distinct := by
    intro other constants found
    rw [constants_deinitHost] at found
    split_ifs at found
    exact almost.distinct other constants found

/-- Dropping a reference to a host keeps the heap exact. -/
theorem ExactBut.release (almost : ExactBut h w) : Exact (w.release h) := by
  rw [World.release]
  split_ifs with lost
  · refine almost.deinitHost ?_
    rintro (owned | routed)
    · rw [lost.1] at owned
      contradiction
    · exact lost.2 routed
  · have referenced : w.Referenced h := by
      by_cases owned : w.owned h = true
      · exact Or.inl owned
      · right
        by_contra notRouted
        exact lost ⟨Bool.eq_false_of_not_eq_true owned, notRouted⟩
    refine ⟨almost.heap, fun other => ?_, almost.allocated_iff,
      almost.distinct⟩
    by_cases same : other = h
    · subst same
      exact iff_of_true almost.alive referenced
    · exact almost.others other same

/-- A released host takes its own strings along. -/
theorem ExactBut.frees_release (almost : ExactBut h w) :
    FreesWithHosts w (w.release h) := by
  rw [World.release]
  split_ifs with lost
  · obtain ⟨own, isOwn⟩ := Option.ne_none_iff_exists'.mp almost.alive
    obtain ⟨host, alive, rfl⟩ := Option.map_eq_some_iff.mp isOwn
    constructor
    · intro other constants found gone p member
      rw [constants_deinitHost] at gone
      split_ifs at gone with same
      · subst same
        rw [isOwn, Option.some.injEq] at found
        subst found
        refine ⟨?_, by rw [strings_deinitHost alive, if_pos member]⟩
        exact (almost.allocated_iff p).mpr ⟨_, _, isOwn, member⟩
      · rw [found] at gone
        contradiction
    · intro p text holds
      by_cases freed : p ∈ host.constants.pointers
      · exact Or.inr ⟨h, host.constants, isOwn,
          by rw [constants_deinitHost, if_pos rfl], freed⟩
      · left
        rw [strings_deinitHost alive, if_neg freed, holds]
  · exact SameHeap.frees ⟨rfl, rfl, rfl, rfl, rfl, rfl⟩

end Release

/-! ## The operations on references -/

section References

variable {h self : HostId} {w : World}

/-- A host that has an owner is alive. -/
theorem Exact.alive_of_owned
    (isExact : Exact w)
    (owned : w.owned h = true) :
    w.constants h ≠ none :=
  (isExact.alive_iff h).mpr (Or.inl owned)

/-- The old value of the global is the only host that a store can lose. -/
theorem Exact.exactBut_of_setGlobal
    {old : HostId}
    {value : Option HostId}
    (isExact : Exact w)
    (held : w.gLibretroHost = some old)
    (alive : ∀ h, value = some h → w.constants h ≠ none) :
    ExactBut old { w with gLibretroHost := value } where
  heap := isExact.heap.setGlobal value
  others := by
    intro other differs
    have notHeld : w.gLibretroHost ≠ some other := by
      rw [held]
      exact fun same => differs (Option.some.inj same).symm
    constructor
    · intro isAlive
      rcases (isExact.alive_iff other).mp isAlive with owned | routed
      · exact Or.inl owned
      · exact absurd routed notHeld
    · rintro (owned | routed)
      · exact isExact.alive_of_owned owned
      · exact alive other routed
  alive := (isExact.alive_iff old).mpr (Or.inr held)
  allocated_iff := isExact.allocated_iff
  distinct := isExact.distinct

/-- A store to the global keeps the heap exact and frees no more than the host
it held. -/
theorem Exact.assignGlobal
    {value : Option HostId}
    (isExact : Exact w)
    (alive : ∀ h, value = some h → w.constants h ≠ none) :
    Exact (w.assignGlobal value) ∧
      FreesWithHosts w (w.assignGlobal value) := by
  rw [World.assignGlobal]
  cases held : w.gLibretroHost with
  | none =>
      refine ⟨⟨isExact.heap.setGlobal value, fun h => ?_,
        isExact.allocated_iff, isExact.distinct⟩, ⟨?_, ?_⟩⟩
      · constructor
        · intro isAlive
          rcases (isExact.alive_iff h).mp isAlive with owned | routed
          · exact Or.inl owned
          · rw [held] at routed
            contradiction
        · rintro (owned | routed)
          · exact isExact.alive_of_owned owned
          · exact alive h routed
      · intro h constants found gone
        exact absurd (found.symm.trans gone) (by simp)
      · exact fun p text holds => Or.inl holds
  | some old =>
      have almost := isExact.exactBut_of_setGlobal held alive
      exact ⟨almost.release, almost.frees_release.freed,
        almost.frees_release.kept⟩

/-- So does an owner that lets go. -/
theorem Exact.dropOwner
    (isExact : Exact w)
    (owned : w.owned h = true) :
    Exact (w.dropOwner h) ∧ FreesWithHosts w (w.dropOwner h) := by
  have almost : ExactBut h
      { w with owned := Function.update w.owned h false } :=
    { heap := isExact.heap.congr rfl rfl rfl rfl
      others := by
        intro other differs
        rw [World.Referenced]
        simp only [Function.update_of_ne differs]
        exact isExact.alive_iff other
      alive := isExact.alive_of_owned owned
      allocated_iff := isExact.allocated_iff
      distinct := isExact.distinct }
  exact ⟨almost.release, almost.frees_release.freed,
    almost.frees_release.kept⟩

theorem pointers_newConstants
    (platform : Platform)
    (entry : CoreId)
    (w : World) :
    (w.newConstants platform entry).pointers =
      [w.nextString, w.nextString + 1] := rfl

/-- The identity of the next host is unused. -/
theorem Exact.constants_nextHost (isExact : Exact w) :
    w.constants w.nextHost = none := by
  cases found : w.hosts w.nextHost with
  | none => exact (w.constants_eq_none_iff _).mpr found
  | some host =>
      exact absurd (isExact.heap.bounded _ host found) (lt_irrefl _)

section Allocation

variable
  (isExact : Exact w)
  (platform : Platform)
  (name : String)
  (entry : CoreId)

include isExact

/-- The strings of the older hosts stay theirs. -/
theorem Exact.constants_allocateHost_of_some
    {constants : Constants}
    (found : w.constants h = some constants) :
    (w.allocateHost platform name entry).constants h = some constants := by
  have differs : h ≠ w.nextHost := by
    rintro rfl
    rw [isExact.constants_nextHost] at found
    contradiction
  rw [World.constants_allocateHost, Function.update_of_ne differs, found]

/-- Allocated afterwards are the two new strings and those of the older
hosts. -/
theorem Exact.allocated_allocateHost_iff (p : StringPtr) :
    (w.allocateHost platform name entry).strings p ≠ none ↔
      ∃ h constants,
        (w.allocateHost platform name entry).constants h = some constants ∧
          p ∈ constants.pointers := by
  have newborn : (w.allocateHost platform name entry).constants w.nextHost =
      some (w.newConstants platform entry) := by
    rw [World.constants_allocateHost, Function.update_self]
  constructor
  · intro allocated
    by_cases isNew : p = w.nextString ∨ p = w.nextString + 1
    · exact ⟨w.nextHost, _, newborn,
        (World.mem_pointers_newConstants platform entry w p).mpr isNew⟩
    · have before : w.strings p ≠ none := by
        rw [not_or] at isNew
        simpa [World.allocateHost, isNew.1, isNew.2] using allocated
      obtain ⟨h, constants, found, member⟩ :=
        (isExact.allocated_iff p).mp before
      exact ⟨h, constants,
        isExact.constants_allocateHost_of_some platform name entry found,
        member⟩
  · rintro ⟨h, constants, found, member⟩
    by_cases isNew : h = w.nextHost
    · subst isNew
      rw [newborn, Option.some.injEq] at found
      subst found
      rcases (World.mem_pointers_newConstants platform entry w p).mp member
        with rfl | rfl
      · simp [World.allocateHost]
      · simp [World.allocateHost]
    · rw [World.constants_allocateHost, Function.update_of_ne isNew] at found
      have before : w.strings p ≠ none :=
        (isExact.allocated_iff p).mpr ⟨h, constants, found, member⟩
      rwa [World.strings_allocateHost_of_lt (isExact.strings_below before)]

/-- A new host brings its two strings and its owner. -/
theorem Exact.allocateHost :
    Exact (w.allocateHost platform name entry) ∧
      FreesWithHosts w (w.allocateHost platform name entry) := by
  refine ⟨⟨isExact.heap.allocateHost platform name entry, fun h => ?_,
    isExact.allocated_allocateHost_iff platform name entry,
    fun h constants found => ?_⟩, ⟨?_, ?_⟩⟩
  · by_cases isNew : h = w.nextHost
    · subst isNew
      rw [World.constants_allocateHost, Function.update_self]
      exact iff_of_true (by simp) (Or.inl (by simp [World.allocateHost]))
    · rw [World.constants_allocateHost, Function.update_of_ne isNew,
        isExact.alive_iff h, World.Referenced, World.Referenced]
      simp [World.allocateHost, isNew]
  · rw [World.constants_allocateHost] at found
    by_cases isNew : h = w.nextHost
    · rw [isNew, Function.update_self, Option.some.injEq] at found
      subst found
      simp [pointers_newConstants]
    · rw [Function.update_of_ne isNew] at found
      exact isExact.distinct h constants found
  · intro h constants found gone
    rw [isExact.constants_allocateHost_of_some platform name entry found]
      at gone
    contradiction
  · intro p text holds
    left
    have before : w.strings p ≠ none := by simp [holds]
    rw [World.strings_allocateHost_of_lt (isExact.strings_below before), holds]

end Allocation

end References

/-! ## Every atomic step -/

section Steps

variable {self : HostId} {core : CoreId}

theorem handsOutDirectories_of_silent
    {moment : Moment World Event}
    (silent : ∀ core callback response,
      moment.event ≠ .callback core callback response) :
    HandsOutDirectories moment := by
  intro core cmd data result pointer closures isCallback
  exact absurd isCallback (silent core _ _)

/-- A step that leaves the heap and the references alone is sound, if it hands
out directories. -/
theorem sound_of_same
    {moment : Moment World Event}
    (isExact : Exact moment.before)
    (same : SameHeap moment.before moment.after)
    (directories : HandsOutDirectories moment) :
    Sound moment :=
  ⟨same.exact isExact, same.frees, directories⟩

theorem sameHeap_played (core : CoreId) (actions : List CoreAction)
    (w : World) : SameHeap w (w.played core actions) :=
  ⟨World.constants_played core actions w, rfl, rfl, rfl, rfl, rfl⟩

theorem sameHeap_modifyHost
    {f : LibretroHost → LibretroHost}
    (keeps : ∀ host, (f host).constants = host.constants)
    (self : HostId)
    (w : World) :
    SameHeap w (w.modifyHost self f) :=
  ⟨World.constants_modifyHost keeps self w, rfl, rfl, rfl, rfl, rfl⟩

/-- Only the two requests for a directory are answered with a path. -/
theorem handleEnvironment_path
    {host : LibretroHost}
    {cmd : UInt32}
    {data : Option Int32}
    {result : Bool}
    {pointer : Option StringPtr}
    (answered : (host.handleEnvironment cmd data).1 =
      ⟨result, some (.path pointer)⟩) :
    pointer = if cmd = Env.getSystemDirectory then host.systemDirC
      else host.saveDirC := by
  have written : (host.handleEnvironment cmd data).1.written =
      some (.path pointer) := by rw [answered]
  unfold LibretroHost.handleEnvironment at written
  split_ifs at written with isDupe isFormat isSystem isSave
  · cases data <;> simp at written
  · cases data with
    | none => simp at written
    | some raw => cases found : PixelFormat.ofRawValue raw <;>
        simp [found] at written
  · cases data with
    | none => simp at written
    | some raw => simpa [isSystem, eq_comm] using written
  · cases data with
    | none => simp at written
    | some raw => simpa [isSystem, eq_comm] using written
  · cases data <;> simp at written

/-- The directories a core is told of are there. -/
theorem handsOutDirectories_calls
    (core : CoreId)
    (callback : Callback)
    {w : World}
    (isExact : Exact w) :
    HandsOutDirectories
      ⟨w, .callback core callback (w.respond callback).1,
        w.played core [.calls callback]⟩ := by
  intro callee cmd data result pointer closures isCallback
  simp only [Event.callback.injEq] at isCallback
  obtain ⟨-, rfl, response⟩ := isCallback
  rw [World.respond, World.environmentCallback] at response
  cases active : w.activeHost with
  | none => simp [active] at response
  | some found =>
      obtain ⟨h, host⟩ := found
      simp only [active, Response.mk.injEq, Answer.environment.injEq]
        at response
      obtain ⟨_, alive⟩ := (World.activeHost_eq_some_iff w h host).mp active
      have known : w.constants h = some host.constants := by
        rw [World.constants, alive, Option.map_some]
      obtain ⟨_, ⟨p, isSystem, holdsSystem⟩, ⟨q, isSave, holdsSave⟩⟩ :=
        isExact.heap.allocated h _ known
      have path := handleEnvironment_path response.1
      by_cases asksSystem : cmd = Env.getSystemDirectory
      · rw [if_pos asksSystem] at path
        refine ⟨h, host, p, rfl, path.trans isSystem, ?_⟩
        rw [if_pos asksSystem]
        exact holdsSystem
      · rw [if_neg asksSystem] at path
        refine ⟨h, host, q, rfl, path.trans isSave, ?_⟩
        rw [if_neg asksSystem]
        exact holdsSave

theorem keeps_act_exact (core : CoreId) (action : CoreAction) :
    Keeps Exact Sound (act core action) := by
  intro w isExact
  have same := sameHeap_played core [action] w
  refine ⟨?_, by rw [state_act]; exact same.exact isExact⟩
  cases action with
  | calls callback =>
      rw [act, throughout_step]
      simp only [World.hear_respond]
      exact sound_of_same isExact same
        (handsOutDirectories_calls core callback isExact)
  | writeButton h id value =>
      rw [act, throughout_emit, ← World.played_writeButton core]
      exact sound_of_same isExact same
        (handsOutDirectories_of_silent (by simp))

theorem keeps_call_exact
    (self : HostId)
    (core : CoreId)
    (retroCall : RetroCall)
    (actions : List CoreAction) :
    Keeps Exact Sound (call self core retroCall actions) := by
  have entering (w : World) : SameHeap w (w.enter core retroCall) :=
    ⟨rfl, rfl, rfl, rfl, rfl, rfl⟩
  have leaving (w : World) : SameHeap w (w.leave self core retroCall) :=
    ⟨rfl, rfl, rfl, rfl, rfl, rfl⟩
  refine Keeps.bind (Keeps.emit ?_ fun w => (entering w).exact) fun _ =>
    Keeps.bind (keeps_each (keeps_act_exact core) actions) fun _ =>
      Keeps.emit ?_ fun w => (leaving w).exact
  · exact fun w isExact => sound_of_same isExact (entering w)
      (handsOutDirectories_of_silent (by simp))
  · exact fun w isExact => sound_of_same isExact (leaving w)
      (handsOutDirectories_of_silent (by simp))

theorem keeps_assign_exact
    {f : LibretroHost → LibretroHost}
    (self : HostId)
    (keeps : ∀ host, (f host).constants = host.constants) :
    Keeps Exact Sound (assign self f) := by
  refine Keeps.emit ?_ fun w => (sameHeap_modifyHost keeps self w).exact
  exact fun w isExact => sound_of_same isExact
    (sameHeap_modifyHost keeps self w)
    (handsOutDirectories_of_silent (by simp))

theorem sound_assignGlobal
    {value : Option HostId}
    {w : World}
    (isExact : Exact w)
    (alive : ∀ h, value = some h → w.constants h ≠ none) :
    Sound ⟨w, .assigned, w.assignGlobal value⟩ :=
  ⟨(isExact.assignGlobal alive).1, (isExact.assignGlobal alive).2,
    handsOutDirectories_of_silent (by simp)⟩

theorem keeps_clearGlobal :
    Keeps Exact Sound (emit .assigned (World.assignGlobal none)) :=
  Keeps.emit (fun _ isExact => sound_assignGlobal isExact (by simp))
    fun _ isExact => (isExact.assignGlobal (by simp)).1

theorem keeps_registerCallbacks_exact
    (self : HostId)
    (core : CoreId)
    (behaviour : CoreBehaviour) :
    Keeps Exact Sound (registerCallbacks self core behaviour) :=
  (keeps_call_exact self core _ _).bind fun _ =>
    (keeps_call_exact self core _ _).bind fun _ =>
      (keeps_call_exact self core _ _).bind fun _ =>
        (keeps_call_exact self core _ _).bind fun _ =>
          (keeps_call_exact self core _ _).bind fun _ =>
            keeps_call_exact self core _ _

end Steps

/-! ## The methods and the run -/

section Methods

variable {self : HostId} {core : CoreId} {behaviour : CoreBehaviour}
  {data : Data} {romPath : String}

/-- `start` needs a reference to its host. -/
theorem leads_start_exact :
    Leads (fun w => Exact w ∧ w.owned self = true) Sound Exact
      (start self core behaviour data romPath) := by
  have opens : Leads (fun w => Exact w ∧ w.owned self = true) Sound Exact
      (emit .assigned (World.assignGlobal (some self))) := by
    have alive (w : World) (owning : Exact w ∧ w.owned self = true)
        (h : HostId) (isSelf : some self = some h) :
        w.constants h ≠ none := by
      obtain rfl := Option.some.inj isSelf
      exact owning.1.alive_of_owned owning.2
    exact Leads.emit
      (fun w owning => sound_assignGlobal owning.1 (alive w owning))
      fun w owning => (owning.1.assignGlobal (alive w owning)).1
  unfold start
  refine Leads.bind opens fun _ =>
    Leads.bind (keeps_registerCallbacks_exact self core behaviour) fun _ =>
    Leads.bind (keeps_call_exact self core _ _) fun _ =>
    Leads.bind (keeps_assign_exact self fun _ => rfl) fun _ =>
    Leads.bind (keeps_call_exact self core _ _) fun _ => ?_
  cases behaviour.loadGame with
  | true =>
      exact Leads.bind (keeps_call_exact self core _ _) fun _ =>
        Leads.bind (keeps_assign_exact self fun _ => rfl) fun _ =>
        Leads.bind (keeps_call_exact self core _ _) fun _ =>
        Leads.bind (keeps_assign_exact self fun _ => rfl) fun _ =>
        Leads.pure true
  | false =>
      exact Leads.bind (keeps_call_exact self core _ _) fun _ =>
        Leads.bind keeps_clearGlobal fun _ => Leads.pure false

theorem keeps_runFrame_exact :
    Keeps Exact Sound (runFrame self core behaviour) := by
  refine Leads.get_bind fun w isExact => ?_
  split_ifs
  · exact keeps_call_exact self core _ _ w isExact
  · exact Leads.pure () w isExact

/-- What `shutdown` does on a loaded host. -/
theorem keeps_ending_exact :
    Keeps Exact Sound (do
      assign self fun host => { host with loaded := false }
      call self core .unloadGame (behaviour.actions .retroUnloadGame)
      call self core .deinit (behaviour.actions .retroDeinit)
      assign self fun host => { host with romData := none }
      emit .assigned fun w =>
        if w.gLibretroHost = some self then w.assignGlobal none else w) := by
  have letsGo : Keeps Exact Sound (emit .assigned fun w =>
      if w.gLibretroHost = some self then w.assignGlobal none else w) := by
    refine Keeps.emit (fun w isExact => ?_) fun w isExact => ?_
    · split_ifs
      · exact sound_assignGlobal isExact (by simp)
      · exact sound_of_same isExact ⟨rfl, rfl, rfl, rfl, rfl, rfl⟩
          (handsOutDirectories_of_silent (by simp))
    · split_ifs
      · exact (isExact.assignGlobal (by simp)).1
      · exact isExact
  exact Leads.bind (keeps_assign_exact self fun _ => rfl) fun _ =>
    Leads.bind (keeps_call_exact self core _ _) fun _ =>
    Leads.bind (keeps_call_exact self core _ _) fun _ =>
    Leads.bind (keeps_assign_exact self fun _ => rfl) fun _ => letsGo

theorem keeps_shutdown_exact :
    Keeps Exact Sound (shutdown self core behaviour) := by
  refine Leads.get_bind fun w isExact => ?_
  by_cases loaded : w.loaded self = true
  · rw [if_pos loaded]
    exact keeps_ending_exact w isExact
  · rw [if_neg loaded]
    exact Leads.pure () w isExact

/-- A method is called by somebody who owns the host. -/
theorem keeps_method_exact
    {body : CoreId → HostM (Option Bool)}
    (does : ∀ core, Leads (fun w => Exact w ∧ w.owned self = true) Sound
      Exact (body core)) :
    Keeps Exact Sound (method self body) := by
  refine Leads.get_bind fun w isExact => ?_
  cases callable : w.callable self with
  | none => exact Leads.pure () w isExact
  | some host =>
      obtain ⟨owned, _⟩ :=
        (World.callable_eq_some_iff w self host).mp callable
      refine Leads.bind (does host.core) (fun result =>
        Keeps.emit (fun w isExact => ?_) fun w isExact => isExact)
        w ⟨isExact, owned⟩
      exact sound_of_same isExact ⟨rfl, rfl, rfl, rfl, rfl, rfl⟩
        (handsOutDirectories_of_silent (by simp))

theorem keeps_setProperty_exact
    {f : LibretroHost → LibretroHost}
    (inert : Inert f)
    (h : HostId) :
    Keeps Exact Sound (setProperty h f) := by
  refine Leads.get_bind fun w isExact => ?_
  split_ifs
  · refine keeps_assign_exact h (fun host => ?_) w isExact
    rw [inert host]
    rfl
  · exact Leads.pure () w isExact

end Methods

/-- Every operation manages memory soundly in all its steps. -/
theorem keeps_perform_exact (platform : Platform) (op : Op) :
    Keeps Exact Sound (perform platform op) := by
  have weakened {program : HostM Unit} (self : HostId)
      (keeps : Keeps Exact Sound program) :
      Leads (fun w => Exact w ∧ w.owned self = true) Sound Exact program :=
    fun w owning => keeps w owning.1
  cases op with
  | create name =>
      rw [perform, initCore]
      split
      · exact Leads.pure ()
      · refine Keeps.emit (fun w isExact => ?_) fun w isExact =>
          (isExact.allocateHost platform name _).1
        exact ⟨(isExact.allocateHost platform name _).1,
          (isExact.allocateHost platform name _).2,
          handsOutDirectories_of_silent (by simp)⟩
  | start h behaviour data romPath =>
      exact keeps_method_exact fun core =>
        Leads.bind leads_start_exact fun _ => Leads.pure _
  | runFrame h behaviour =>
      exact keeps_method_exact fun core =>
        Leads.bind (weakened h keeps_runFrame_exact) fun _ => Leads.pure _
  | shutdown h behaviour =>
      exact keeps_method_exact fun core =>
        Leads.bind (weakened h keeps_shutdown_exact) fun _ => Leads.pure _
  | drop h =>
      refine Leads.get_bind fun w isExact => ?_
      split_ifs with owned
      · rw [throughout_emit, state_emit]
        exact ⟨⟨(isExact.dropOwner owned).1, (isExact.dropOwner owned).2,
          handsOutDirectories_of_silent (by simp)⟩,
          (isExact.dropOwner owned).1⟩
      · exact Leads.pure () w isExact
  | setOnVideo h isSet => exact keeps_setProperty_exact (fun _ => rfl) h
  | setOnAudio h isSet => exact keeps_setProperty_exact (fun _ => rfl) h
  | writeButton h id value => exact keeps_setProperty_exact (fun _ => rfl) h

theorem exact_initial : Exact World.initial where
  heap := heapOk_initial
  alive_iff := by
    intro h
    simp [World.constants, World.initial, World.Referenced]
  allocated_iff := by
    intro p
    simp [World.Belongs, World.constants, World.initial]
  distinct := fun _ _ found => by contradiction

/-- **Memory.** In every run, whatever it does with any number of hosts: after
each atomic step the live hosts are those with an owner or in the global and
the allocated strings are those of the live hosts; the step frees the strings
of the hosts that go away in it and no others, all of them allocated until
then; and a directory it hands to a core is allocated and that of the active
host. Once no owner is left and no host is active, nothing is left. -/
theorem memory_is_exact (platform : Platform) (ops : List Op) :
    let final := (performAll platform ops).state World.initial
    Throughout Sound (performAll platform ops) World.initial ∧
      Exact final ∧
      ((∀ h, final.owned h = false) → final.gLibretroHost = none →
        (∀ h, final.hosts h = none) ∧ ∀ p, final.strings p = none) := by
  intro final
  obtain ⟨sound, isExact⟩ :=
    keeps_each (keeps_perform_exact platform) ops World.initial exact_initial
  refine ⟨sound, isExact, fun unowned inactive => ?_⟩
  have noConstants (h : HostId) : final.constants h = none := by
    by_contra isAlive
    rcases (isExact.alive_iff h).mp isAlive with owned | routed
    · rw [unowned h] at owned
      contradiction
    · rw [inactive] at routed
      contradiction
  refine ⟨fun h => (final.constants_eq_none_iff h).mp (noConstants h),
    fun p => ?_⟩
  by_contra allocated
  obtain ⟨h, constants, found, _⟩ := (isExact.allocated_iff p).mp allocated
  rw [noConstants h] at found
  contradiction

end Host
end LibretroLab
