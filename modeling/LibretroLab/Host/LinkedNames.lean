import LibretroLab.Host.Run
import LibretroLab.Registry.Reachability

/-!
# Hosts for the linked names

`init?(core:)` passes its argument to `libretro_core_lookup` as a C string.
Which names it accepts, and whether the entry it dispatches through is the one
that `coreName` says, is compared with `linkedCores`, both with the names taken
as sequences of Unicode scalars and with Swift's `==`.
-/

namespace LibretroLab
namespace Host

open Recorder Registry

/-- The host that `init(core: name)` allocates, if it succeeds. -/
def World.created
    (platform : Platform)
    (name : String)
    (w : World) :
    Option LibretroHost :=
  ((perform platform (.create name)).state w).hosts w.nextHost

/-- Hosts can be created for exactly the linked names, and dispatch through the
entry that has their name. -/
structure CreatesExactly
    (same : String → String → Prop)
    (repair : List UInt8 → String)
    (platform : Platform)
    (w : World)
    (name : String) : Prop where
  created_iff : (w.created platform name).isSome ↔
    ∃ linked ∈ linkedCores repair platform.registry, same linked name
  dispatches : ∀ host, w.created platform name = some host →
    host.core < platform.registry.length ∧
      ∀ index (bound : index < platform.registry.length),
        same (CString.readBack repair platform.registry[index].name)
            host.coreName ↔
          index = host.core

/-! ## Swift's equality -/

/-- The canonical decomposition of the scalars that decompose to ASCII: the
Greek question mark, the Greek varia and the Kelvin sign. -/
def canonicalScalar (scalar : Char) : Char :=
  if scalar = '\u037E' then ';'
  else if scalar = '\u1FEF' then '\u0060'
  else if scalar = '\u212A' then 'K'
  else scalar

/-- A text with these scalars decomposed. -/
def canonical (text : String) : String :=
  String.ofList (text.toList.map canonicalScalar)

/-- Swift's `==`, which is canonical equivalence, when one of the two texts is
ASCII. -/
def SwiftEqual (left right : String) : Prop := canonical left = canonical right

/-- An ASCII text is its own decomposition. -/
theorem canonical_of_isIdentifier
    {name : String}
    (identifier : isIdentifier name = true) :
    canonical name = name := by
  have unchanged : ∀ char ∈ name.toList, canonicalScalar char = char := by
    intro char member
    have part := isIdentifierPart_of_mem identifier member
    unfold canonicalScalar
    split_ifs with isQuestionMark isVaria isKelvin
    · subst isQuestionMark
      contradiction
    · subst isVaria
      contradiction
    · subst isKelvin
      contradiction
    · rfl
  rw [canonical, List.map_congr_left unchanged, List.map_id',
    String.ofList_toList]

/-! ## What the lookup finds -/

section Registry

variable {names : List String}

/-- Names that are identifiers reach C whole. -/
theorem noNul_of_identifiers
    (identifiers : ∀ name ∈ names, isIdentifier name = true) :
    ∀ name ∈ names, ∀ char ∈ name.toList, char ≠ Char.ofNat 0 :=
  fun name member => noNul_of_isIdentifier (identifiers name member)

/-- An entry's name reads back as it was written. -/
theorem readBack_name_gCores
    (identifiers : ∀ name ∈ names, isIdentifier name = true)
    (repair : List UInt8 → String)
    (index : Nat)
    (bound : index < (gCores names).length) :
    names[index]? =
      some (CString.readBack repair (gCores names)[index].name) := by
  have inNames : index < names.length := by simpa [gCores] using bound
  simp only [gCores, List.getElem_map, coreVtable]
  rw [CString.readBack_ofString repair
      (noNul_of_identifiers identifiers _ (List.getElem_mem inNames)),
    List.getElem?_eq_getElem inNames]

/-- The lookup finds the name that precedes the first U+0000. -/
theorem libretroCoreLookup_beforeNul
    (identifiers : ∀ name ∈ names, isIdentifier name = true)
    (nodup : names.Nodup)
    (n : String)
    (index : Nat) :
    libretroCoreLookup (gCores names) (some (CString.ofString n)) =
        some index ↔
      names[index]? = some (CString.beforeNul n) := by
  have noNul := noNul_of_identifiers identifiers
  have listed : ∀ name ∈ names,
      CString.ofString name = CString.ofString n ↔
        name = CString.beforeNul n := by
    intro name member
    rw [CString.ofString_eq_iff,
      (CString.beforeNul_eq_self_iff name).mpr (noNul name member)]
  constructor
  · intro found
    obtain ⟨bound, same, _⟩ :=
      (libretroCoreLookup_eq_some_iff _ _ _).mp found
    have inNames : index < names.length := by simpa [gCores] using bound
    simp only [gCores, List.getElem_map, coreVtable] at same
    rw [List.getElem?_eq_getElem inNames, Option.some.injEq]
    exact (listed _ (List.getElem_mem inNames)).mp same
  · intro at_index
    obtain ⟨inNames, same⟩ := List.getElem?_eq_some_iff.mp at_index
    rw [← (listed _ (List.getElem_mem inNames)).mpr same]
    exact libretroCoreLookup_gCores noNul nodup index inNames

end Registry

/-! ## What is created -/

/-- A host is created for the entry that the lookup finds, under the name that
was asked for. -/
theorem World.created_eq_some_iff
    {platform : Platform}
    {w : World}
    (bounded : w.Bounded)
    (n : String)
    (host : LibretroHost) :
    w.created platform n = some host ↔
      ∃ index, libretroCoreLookup platform.registry
          (some (CString.ofString n)) = some index ∧
        (w.allocateHost platform n index).hosts w.nextHost = some host := by
  rw [World.created, perform, initCore]
  cases found : libretroCoreLookup platform.registry
      (some (CString.ofString n)) with
  | none =>
      simp only [reduceCtorEq, false_and, exists_false, iff_false]
      intro alive
      exact (bounded w.nextHost host alive).false
  | some index => simp [state_emit]

/-- The platform of a registry with these names. -/
def linkedPlatform (names : List String) (systemDir saveDir : String) :
    Platform where
  registry := gCores names
  systemDir := systemDir
  saveDir := saveDir

section Linked

variable {names : List String} {w : World}

/-- The created host keeps the name that was asked for and dispatches through
the entry of its part before U+0000. -/
theorem created_linkedPlatform
    (identifiers : ∀ name ∈ names, isIdentifier name = true)
    (nodup : names.Nodup)
    (bounded : w.Bounded)
    {systemDir saveDir n : String}
    {host : LibretroHost}
    (created : w.created (linkedPlatform names systemDir saveDir) n =
      some host) :
    host.coreName = n ∧ names[host.core]? = some (CString.beforeNul n) := by
  obtain ⟨index, found, alive⟩ :=
    (World.created_eq_some_iff bounded n host).mp created
  simp only [World.allocateHost, Function.update_self, Option.some.injEq]
    at alive
  subst alive
  exact ⟨rfl,
    (libretroCoreLookup_beforeNul identifiers nodup n index).mp found⟩

/-- Creation succeeds exactly for the texts whose part before U+0000 is a
linked name. -/
theorem isSome_created_iff
    (identifiers : ∀ name ∈ names, isIdentifier name = true)
    (nodup : names.Nodup)
    (bounded : w.Bounded)
    (systemDir saveDir n : String) :
    (w.created (linkedPlatform names systemDir saveDir) n).isSome ↔
      CString.beforeNul n ∈ names := by
  rw [Option.isSome_iff_exists]
  constructor
  · rintro ⟨host, created⟩
    exact List.mem_of_getElem?
      (created_linkedPlatform identifiers nodup bounded created).2
  · intro member
    obtain ⟨index, at_index⟩ := List.mem_iff_getElem?.mp member
    refine ⟨_, (World.created_eq_some_iff bounded n _).mpr ⟨index, ?_,
      Function.update_self _ _ _⟩⟩
    exact (libretroCoreLookup_beforeNul identifiers nodup n index).mpr at_index

/-- If a listed name is the same as `n` exactly when it is spelled in one way,
then the entry of a created host is the one entry with its name exactly if the
part of `n` before U+0000 is spelled so. -/
theorem dispatches_iff
    (identifiers : ∀ name ∈ names, isIdentifier name = true)
    (nodup : names.Nodup)
    (bounded : w.Bounded)
    (repair : List UInt8 → String)
    {systemDir saveDir : String}
    {same : String → String → Prop}
    {n spelled : String}
    (reads : ∀ name ∈ names, same name n ↔ name = spelled)
    {host : LibretroHost}
    (created : w.created (linkedPlatform names systemDir saveDir) n =
      some host) :
    (host.core < (gCores names).length ∧
        ∀ index (bound : index < (gCores names).length),
          same (CString.readBack repair (gCores names)[index].name)
              host.coreName ↔
            index = host.core) ↔
      CString.beforeNul n = spelled := by
  obtain ⟨named, entry⟩ :=
    created_linkedPlatform identifiers nodup bounded created
  have member := List.mem_of_getElem? entry
  rw [named]
  constructor
  · rintro ⟨bound, onlyEntry⟩
    have readBack := readBack_name_gCores identifiers repair host.core bound
    rw [entry, Option.some.injEq] at readBack
    have isSame := (onlyEntry host.core bound).mpr rfl
    rw [← readBack] at isSame
    exact (reads _ member).mp isSame
  · intro spelledSo
    obtain ⟨inNames, _⟩ := List.getElem?_eq_some_iff.mp entry
    refine ⟨by simpa [gCores] using inNames, ?_⟩
    intro index bound
    have readBack := readBack_name_gCores identifiers repair index bound
    rw [reads _ (List.mem_of_getElem? readBack), ← spelledSo,
      ← Option.some.injEq, ← readBack, ← entry]
    constructor
    · intro sameEntry
      have inList : index < names.length := by simpa [gCores] using bound
      exact (List.getElem?_inj inList nodup).mp sameEntry
    · rintro rfl
      rfl

/-- Hosts are created as they should exactly if the part of `n` before U+0000
is spelled like `n` whenever one of the two is listed. -/
theorem createsExactly_iff
    (identifiers : ∀ name ∈ names, isIdentifier name = true)
    (nodup : names.Nodup)
    (bounded : w.Bounded)
    (repair : List UInt8 → String)
    (systemDir saveDir : String)
    {same : String → String → Prop}
    {n spelled : String}
    (reads : ∀ name ∈ names, same name n ↔ name = spelled) :
    CreatesExactly same repair (linkedPlatform names systemDir saveDir) w n ↔
      (CString.beforeNul n ∈ names ∨ spelled ∈ names →
        CString.beforeNul n = spelled) := by
  have accepted := isSome_created_iff identifiers nodup bounded systemDir
    saveDir n
  have linked : linkedCores repair
      (linkedPlatform names systemDir saveDir).registry = names :=
    linkedCores_gCores repair names (noNul_of_identifiers identifiers)
  have listed : (∃ name ∈ names, same name n) ↔ spelled ∈ names := by
    constructor
    · rintro ⟨name, member, isSame⟩
      exact (reads name member).mp isSame ▸ member
    · intro member
      exact ⟨spelled, member, (reads spelled member).mpr rfl⟩
  constructor
  · intro exactly either
    have createdIff := exactly.created_iff
    rw [accepted, linked, listed] at createdIff
    have member : CString.beforeNul n ∈ names :=
      either.elim id createdIff.mpr
    obtain ⟨host, created⟩ :=
      Option.isSome_iff_exists.mp (accepted.mpr member)
    exact (dispatches_iff identifiers nodup bounded repair reads created).mp
      (exactly.dispatches host created)
  · intro spelledSo
    constructor
    · rw [accepted, linked, listed]
      constructor
      · intro member
        exact spelledSo (Or.inl member) ▸ member
      · intro member
        rw [spelledSo (Or.inr member)]
        exact member
    · intro host created
      have member : CString.beforeNul n ∈ names :=
        accepted.mp (Option.isSome_iff_exists.mpr ⟨host, created⟩)
      exact (dispatches_iff identifiers nodup bounded repair reads created).mpr
        (spelledSo (Or.inl member))

/-- A text that C takes for a linked name, cutting something off. -/
def HidesTail (names : List String) (n : String) : Prop :=
  Char.ofNat 0 ∈ n.toList ∧ CString.beforeNul n ∈ names

/-- A text that is another spelling of a linked name for Swift. -/
def Respells (names : List String) (n : String) : Prop :=
  n ∉ names ∧ canonical n ∈ names

/-- Without a hidden tail C sees all of a text that it takes for a name. -/
theorem beforeNul_eq_self_of_not_hidesTail
    {n : String}
    (noTail : ¬HidesTail names n)
    (cut : CString.beforeNul n ∈ names) :
    CString.beforeNul n = n := by
  rw [CString.beforeNul_eq_self_iff]
  rintro char member rfl
  exact noTail ⟨member, cut⟩

/-- Scalar by scalar only a hidden tail makes a difference. -/
theorem beforeNul_eq_of_listed_iff
    (identifiers : ∀ name ∈ names, isIdentifier name = true)
    (n : String) :
    (CString.beforeNul n ∈ names ∨ n ∈ names → CString.beforeNul n = n) ↔
      ¬HidesTail names n := by
  constructor
  · rintro spelledSo ⟨hasNul, member⟩
    have whole := (CString.beforeNul_eq_self_iff n).mp (spelledSo (.inl member))
    exact whole _ hasNul rfl
  · intro noTail either
    rcases either with cut | whole
    · exact beforeNul_eq_self_of_not_hidesTail noTail cut
    · rw [CString.beforeNul_eq_self_iff]
      exact noNul_of_identifiers identifiers n whole

theorem zero_mem_canonical
    {n : String}
    (hasNul : Char.ofNat 0 ∈ n.toList) :
    Char.ofNat 0 ∈ (canonical n).toList := by
  rw [canonical, String.toList_ofList]
  exact List.mem_map.mpr ⟨Char.ofNat 0, hasNul, by decide⟩

/-- For Swift another spelling makes a difference, too. -/
theorem beforeNul_eq_canonical_of_listed_iff
    (identifiers : ∀ name ∈ names, isIdentifier name = true)
    (n : String) :
    (CString.beforeNul n ∈ names ∨ canonical n ∈ names →
        CString.beforeNul n = canonical n) ↔
      ¬HidesTail names n ∧ ¬Respells names n := by
  constructor
  · intro spelledSo
    constructor
    · rintro ⟨hasNul, member⟩
      have inCanonical := zero_mem_canonical hasNul
      rw [← spelledSo (.inl member)] at inCanonical
      exact CString.noNul_beforeNul n _ inCanonical rfl
    · rintro ⟨unlisted, member⟩
      have cut := spelledSo (.inr member)
      have noNul : ∀ char ∈ n.toList, char ≠ Char.ofNat 0 := by
        rintro char hasNul rfl
        exact noNul_of_identifiers identifiers _ member _
          (zero_mem_canonical hasNul) rfl
      rw [(CString.beforeNul_eq_self_iff n).mpr noNul] at cut
      exact unlisted (cut ▸ member)
  · rintro ⟨noTail, noRespelling⟩ either
    have member : n ∈ names := by
      rcases either with cut | decomposed
      · exact beforeNul_eq_self_of_not_hidesTail noTail cut ▸ cut
      · by_contra unlisted
        exact noRespelling ⟨unlisted, decomposed⟩
    rw [canonical_of_isIdentifier (identifiers n member),
      CString.beforeNul_eq_self_iff]
    exact noNul_of_identifiers identifiers n member

end Linked

/-- For distinct identifiers as names, in every reachable state and for every
text: hosts can be created for exactly the linked names unless the text hides a
tail behind a U+0000. With Swift's `==` it must not be another spelling of a
linked name either. -/
theorem linked_names_created_iff
    (names : List String)
    (identifiers : ∀ name ∈ names, isIdentifier name = true)
    (nodup : names.Nodup)
    (repair : List UInt8 → String)
    (systemDir saveDir : String)
    (ops : List Op)
    (n : String) :
    let platform := linkedPlatform names systemDir saveDir
    let w := (performAll platform ops).state World.initial
    (CreatesExactly Eq repair platform w n ↔ ¬HidesTail names n) ∧
      (CreatesExactly SwiftEqual repair platform w n ↔
        ¬HidesTail names n ∧ ¬Respells names n) := by
  intro platform w
  have bounded : w.Bounded := bounded_performAll platform ops
  constructor
  · rw [← beforeNul_eq_of_listed_iff identifiers]
    exact createsExactly_iff identifiers nodup bounded repair systemDir saveDir
      fun _ _ => Iff.rfl
  · rw [← beforeNul_eq_canonical_of_listed_iff identifiers]
    apply createsExactly_iff identifiers nodup bounded repair systemDir saveDir
    intro name member
    rw [SwiftEqual, canonical_of_isIdentifier (identifiers name member)]

/-- The second of two linked names, and a text that is none of them. -/
theorem linked_names_created_pce :
    CreatesExactly SwiftEqual (fun _ => "")
        (linkedPlatform ["fceumm", "pce"] "sys" "sav")
        ((performAll (linkedPlatform ["fceumm", "pce"] "sys" "sav")
          [.create "fceumm"]).state World.initial) "pce" ∧
      CreatesExactly SwiftEqual (fun _ => "")
        (linkedPlatform ["fceumm", "pce"] "sys" "sav")
        ((performAll (linkedPlatform ["fceumm", "pce"] "sys" "sav")
          [.create "pce"]).state World.initial) "pcex" := by
  have plain : ∀ n ∈ ["pce", "pcex"], ¬HidesTail ["fceumm", "pce"] n ∧
      ¬Respells ["fceumm", "pce"] n := by
    unfold HidesTail Respells
    decide
  exact ⟨(linked_names_created_iff ["fceumm", "pce"] (by decide) (by decide)
      (fun _ => "") "sys" "sav" [.create "fceumm"] "pce").2.mpr
        (plain "pce" (by decide)),
    (linked_names_created_iff ["fceumm", "pce"] (by decide) (by decide)
      (fun _ => "") "sys" "sav" [.create "pce"] "pcex").2.mpr
        (plain "pcex" (by decide))⟩

/-- A text that goes on after `pce` and a U+0000 is no linked name, yet a host
is created for it. -/
theorem hidden_tail_creates :
    (World.initial.created (linkedPlatform ["pce"] "sys" "sav")
        "pce\u0000x").isSome ∧
      "pce\u0000x" ∉
        linkedCores (fun _ => "")
          (linkedPlatform ["pce"] "sys" "sav").registry ∧
      ¬CreatesExactly Eq (fun _ => "") (linkedPlatform ["pce"] "sys" "sav")
        World.initial "pce\u0000x" ∧
      ¬CreatesExactly SwiftEqual (fun _ => "")
        (linkedPlatform ["pce"] "sys" "sav") World.initial "pce\u0000x" := by
  have identifiers : ∀ name ∈ ["pce"], isIdentifier name = true := by decide
  have nodup : ["pce"].Nodup := by decide
  refine ⟨?_, ?_, ?_, ?_⟩
  · rw [isSome_created_iff identifiers nodup bounded_initial]
    decide
  · rw [linkedPlatform,
      linkedCores_gCores _ _ (noNul_of_identifiers identifiers)]
    decide
  · rw [createsExactly_iff identifiers nodup bounded_initial _ "sys" "sav"
      fun _ _ => Iff.rfl]
    decide
  · have reads : ∀ name ∈ ["pce"],
        SwiftEqual name "pce\u0000x" ↔ name = canonical "pce\u0000x" := by
      intro name member
      rw [SwiftEqual, canonical_of_isIdentifier (identifiers name member)]
    rw [createsExactly_iff identifiers nodup bounded_initial _ "sys" "sav"
      reads]
    decide

end Host
end LibretroLab
