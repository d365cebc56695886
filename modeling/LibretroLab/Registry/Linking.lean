import Mathlib.Data.Finset.Dedup
import LibretroLab.Registry.Shim

/-!
# Linking the registry against the archive

Each core contributes one object whose only global definitions are the shim
wrappers on its export list. Every slot of every vtable then resolves to one
definition of the archive.
-/

namespace LibretroLab
namespace Registry

/-- A global definition of the archive: the core whose object holds it and the
function that the wrapper calls inside this object. -/
structure Definition where
  core : String
  calls : String
  deriving DecidableEq

/-- The linker's name of a C symbol on Apple platforms. -/
def linkerName (symbol : String) : String := "_" ++ symbol

/-- The global definitions of a core's hidden object. `nmedit` and the second
`ld -r` leave the listed symbols global and no others. -/
def hiddenObject (macros : ShimMacros) (p : String) :
    List (String × Definition) :=
  ((coreShim (macros.withCorePrefix p)).filter fun wrapper =>
      linkerName wrapper.symbol ∈ exported p).map
    fun wrapper => (linkerName wrapper.symbol, ⟨p, wrapper.calls⟩)

/-- `libretrocores.a`: the objects of all cores, each from a file of its own. On
a case-insensitive volume names must differ in more than case for that. -/
def archive (macros : ShimMacros) (names : List String) :
    List (String × Definition) :=
  names.flatMap (hiddenObject macros)

/-- The definitions of the archive that a reference to a C symbol can bind
to. -/
def resolve (macros : ShimMacros) (names : List String) (symbol : String) :
    List Definition :=
  ((archive macros names).filter fun definition =>
    definition.1 = linkerName symbol).map Prod.snd

/-- No name in the list is a macro where the shim is compiled for it. -/
def NotMacros (macros : ShimMacros) (names : List String) : Prop :=
  ∀ p ∈ names, p ∉ (macros.withCorePrefix p).map Prod.fst

instance (macros : ShimMacros) : DecidablePred (NotMacros macros) :=
  fun names => inferInstanceAs (Decidable
    (∀ p ∈ names, p ∉ (macros.withCorePrefix p).map Prod.fst))

theorem linkerName_inj {left right : String} :
    linkerName left = linkerName right ↔ left = right :=
  String.append_right_inj "_"

/-- Hiding keeps exactly the wrappers. -/
theorem hiddenObject_eq
    (macros : ShimMacros)
    {p : String}
    (plain : p ∉ (macros.withCorePrefix p).map Prod.fst) :
    hiddenObject macros p =
      EntryPoint.all.map fun f =>
        (linkerName (prefixedSymbol p f), ⟨p, f.cName⟩) := by
  have allListed : ∀ wrapper ∈ coreShim (macros.withCorePrefix p),
      linkerName wrapper.symbol ∈ exported p := by
    rw [coreShim_eq macros plain, exported_eq]
    intro wrapper member
    obtain ⟨f, inAll, rfl⟩ := List.mem_map.mp member
    exact List.mem_map.mpr ⟨f, inAll, rfl⟩
  unfold hiddenObject
  rw [List.filter_eq_self.mpr (by simpa using allListed),
    coreShim_eq macros plain, List.map_map]
  rfl

/-- The archive holds one wrapper for each pair of a core and an entry
point. -/
theorem archive_eq
    (macros : ShimMacros)
    {names : List String}
    (plain : NotMacros macros names) :
    archive macros names =
      (names ×ˢ EntryPoint.all).map fun pair =>
        (linkerName (prefixedSymbol pair.1 pair.2),
          ⟨pair.1, pair.2.cName⟩) := by
  unfold archive
  rw [List.flatMap_congr fun p member =>
    hiddenObject_eq macros (plain p member)]
  induction names with
  | nil => rfl
  | cons p names inductionHypothesis =>
      rw [List.flatMap_cons, List.product_cons, List.map_append, List.map_map,
        inductionHypothesis fun other member =>
          plain other (List.mem_cons_of_mem _ member)]
      rfl

/-- A prefixed symbol of a listed core resolves to that core's wrapper. -/
theorem resolve_prefixedSymbol
    (macros : ShimMacros)
    {names : List String}
    (plain : NotMacros macros names)
    (nodup : names.Nodup)
    {p : String}
    (member : p ∈ names)
    (f : EntryPoint) :
    resolve macros names (prefixedSymbol p f) = [⟨p, f.cName⟩] := by
  have onlyPair : (names ×ˢ EntryPoint.all).filter
      (fun pair => prefixedSymbol pair.1 pair.2 = prefixedSymbol p f) =
        [(p, f)] := by
    have decodes (pair : String × EntryPoint)
        (_ : pair ∈ names ×ˢ EntryPoint.all)
        (other : String × EntryPoint)
        (_ : other ∈ names ×ˢ EntryPoint.all)
        (equal : prefixedSymbol pair.1 pair.2 =
          prefixedSymbol other.1 other.2) : pair = other :=
      Prod.ext_iff.mpr (prefixedSymbol_inj equal)
    exact filter_key_eq_singleton (nodup.product EntryPoint.nodup_all)
      decodes (List.mem_product.mpr ⟨member, EntryPoint.mem_all f⟩)
  unfold resolve
  rw [archive_eq macros plain, List.filter_map]
  simp only [Function.comp_def, linkerName_inj, onlyPair, List.map_cons,
    List.map_nil]

/-- **Symbol prefixing.** For distinct names that are no macros: a
symbol `<p>_<f>` determines its core and its entry point; the shim defines, the
export list keeps and the vtable references the same symbols of a core; and
every slot of every vtable resolves to exactly one definition, the wrapper in
the same core's object that calls the entry point the slot is named after. The
archive has an object of each core: the volume tells their files apart. -/
theorem vtable_slots_resolve
    (macros : ShimMacros)
    (names : List String)
    (nodup : names.Nodup)
    (plain : NotMacros macros names) :
    (∀ p ∈ names, ∀ p' ∈ names, ∀ f f' : EntryPoint,
      prefixedSymbol p f = prefixedSymbol p' f' → p = p' ∧ f = f') ∧
    (∀ p ∈ names,
      ((shimSymbols macros p).map linkerName).toFinset =
          (exported p).toFinset ∧
        (shimSymbols macros p).toFinset = (vtableSymbols p).toFinset ∧
        (corePrototypes p).toFinset = (vtableSymbols p).toFinset) ∧
    ∀ p ∈ names, ∀ f : EntryPoint,
      resolve macros names ((coreVtable p).slot f) = [⟨p, f.cName⟩] := by
  refine ⟨?_, ?_, ?_⟩
  · intro p _ p' _ f f' equal
    exact prefixedSymbol_inj equal
  · intro p member
    have shim : shimSymbols macros p =
        EntryPoint.all.map (prefixedSymbol p) := by
      unfold shimSymbols
      rw [coreShim_eq macros (plain p member), List.map_map]
      rfl
    refine ⟨?_, ?_, ?_⟩
    · rw [shim, exported_eq, List.map_map]
      rfl
    · rw [shim, vtableSymbols_eq]
    · rw [corePrototypes_eq]
  · intro p member f
    rw [coreVtable_slot]
    exact resolve_prefixedSymbol macros plain nodup member f

/-- The theorem at names of which one is a prefix of another and contains the
name of an entry point. -/
theorem vtable_slots_resolve_nested :
    resolve ⟨[], by simp⟩ ["a", "a_retro_run"]
      ((coreVtable "a").slot .retroRun) = [⟨"a", "retro_run"⟩] :=
  (vtable_slots_resolve ⟨[], by simp⟩ ["a", "a_retro_run"]
    (by decide) (by decide)).2.2 "a" (by decide) .retroRun

end Registry
end LibretroLab
