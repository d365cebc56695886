import Mathlib.Data.List.Dedup
import Mathlib.Data.List.MinMax

/-!
# Relocatable objects

Object files with definitions and references, partial links of them, and what a
reference means once objects are linked together. A name that several objects
define is settled by the one strong definition, or else by the first weak one,
or else by the largest tentative one. A partial link makes private externs
static, which binds the references to them for good.
-/

namespace LibretroLab
namespace Linker

/-- Who can refer to a definition by its name: every object, the objects of the
same link, or its own object. -/
inductive Scope
  | external
  | privateExtern
  | static
  deriving DecidableEq

/-- Which of the definitions of a name wins. A linker takes two strong ones for
a mistake, one of several weak ones, as C++ has them of inline functions and
templates, and tentative ones only if there are no others. -/
inductive Strength
  | strong
  | weak
  | tentative
  deriving DecidableEq

/-- A definition of an object. -/
structure Definition (Name Code : Type) where
  name : Name
  scope : Scope
  strength : Strength
  size : Nat
  code : Code
  deriving DecidableEq

/-- Is there only one definition of the name allowed? -/
def Definition.strong {Name Code : Type} (definition : Definition Name Code) :
    Bool :=
  definition.strength = .strong

/-- Does the definition give way to all that are not like it? -/
def Definition.tentative {Name Code : Type}
    (definition : Definition Name Code) : Bool :=
  definition.strength = .tentative

/-- What a reference refers to: a name that is still to be looked up, or a
definition that it is bound to. -/
inductive Target (Name Code : Type)
  | symbol (name : Name)
  | bound (code : Code)
  deriving DecidableEq

/-- A place in the code that refers to a target. -/
structure Reference (Name Code : Type) where
  site : Code
  target : Target Name Code
  deriving DecidableEq

theorem strong_eq_false_of_tentative
    {Name Code : Type}
    {definition : Definition Name Code}
    (tentative : definition.tentative = true) :
    definition.strong = false := by
  rw [Definition.tentative, decide_eq_true_eq] at tentative
  rw [Definition.strong, tentative]
  rfl

theorem tentative_eq_false_of_strong
    {Name Code : Type}
    {definition : Definition Name Code}
    (isStrong : definition.strong = true) :
    definition.tentative = false := by
  rw [Definition.strong, decide_eq_true_eq] at isStrong
  rw [Definition.tentative, isStrong]
  rfl

/-- An object file. -/
structure Object (Name Code : Type) where
  definitions : List (Definition Name Code)
  references : List (Reference Name Code)

section Visible

variable {Name Code : Type}

/-- The definitions that other objects of a link can see. -/
def visible (inputs : List (Object Name Code)) : List (Definition Name Code) :=
  inputs.flatMap fun input =>
    input.definitions.filter fun definition => definition.scope ≠ .static

theorem scope_of_mem_visible
    {inputs : List (Object Name Code)}
    {definition : Definition Name Code}
    (isVisible : definition ∈ visible inputs) :
    definition.scope ≠ .static := by
  obtain ⟨input, _, notStatic⟩ := List.mem_flatMap.mp isVisible
  simpa using (List.mem_filter.mp notStatic).2

/-- No two visible strong definitions share a name. Otherwise a linker reports
duplicate symbols. -/
def DistinctDefinitions (inputs : List (Object Name Code)) : Prop :=
  (((visible inputs).filter Definition.strong).map Definition.name).Nodup

/-- The order of the inputs does not matter for duplicates. -/
theorem DistinctDefinitions.perm
    {inputs inputs' : List (Object Name Code)}
    (same : inputs.Perm inputs')
    (distinct : DistinctDefinitions inputs) :
    DistinctDefinitions inputs' :=
  (((same.flatMap_right _).filter _).map _).nodup_iff.mp distinct

/-- A private extern that has been linked is static. -/
def Definition.settled (definition : Definition Name Code) :
    Definition Name Code :=
  if definition.scope = .privateExtern then
    { definition with scope := .static }
  else definition

@[simp] theorem name_settled (definition : Definition Name Code) :
    definition.settled.name = definition.name := by
  rw [Definition.settled]
  split_ifs <;> rfl

@[simp] theorem strength_settled (definition : Definition Name Code) :
    definition.settled.strength = definition.strength := by
  rw [Definition.settled]
  split_ifs <;> rfl

@[simp] theorem tentative_settled (definition : Definition Name Code) :
    definition.settled.tentative = definition.tentative := by
  rw [Definition.tentative, Definition.tentative, strength_settled]

@[simp] theorem size_settled (definition : Definition Name Code) :
    definition.settled.size = definition.size := by
  rw [Definition.settled]
  split_ifs <;> rfl

@[simp] theorem code_settled (definition : Definition Name Code) :
    definition.settled.code = definition.code := by
  rw [Definition.settled]
  split_ifs <;> rfl

theorem settled_of_external
    {definition : Definition Name Code}
    (isExternal : definition.scope = .external) :
    definition.settled = definition := by
  rw [Definition.settled, if_neg]
  rw [isExternal]
  decide

end Visible

variable {Name Code : Type} [DecidableEq Name]

/-! ## Looking names up -/

/-- The visible definitions of a name. -/
def named (inputs : List (Object Name Code)) (name : Name) :
    List (Definition Name Code) :=
  (visible inputs).filter fun definition => definition.name = name

/-- The definition that a name stands for: the first strong one, or else the
first weak one, or else the largest tentative one. -/
def winner (inputs : List (Object Name Code)) (name : Name) :
    Option (Definition Name Code) :=
  ((named inputs name).find? Definition.strong).or
    (((named inputs name).find? fun definition => !definition.tentative).or
      ((named inputs name).argmax Definition.size))

/-- The code that a target stands for. -/
def resolve (inputs : List (Object Name Code)) :
    Target Name Code → Option Code
  | .symbol name => (winner inputs name).map Definition.code
  | .bound code => some code

theorem named_append
    (first second : List (Object Name Code))
    (name : Name) :
    named (first ++ second) name = named first name ++ named second name := by
  simp [named, visible]

theorem mem_named_iff
    (inputs : List (Object Name Code))
    (name : Name)
    (definition : Definition Name Code) :
    definition ∈ named inputs name ↔
      definition ∈ visible inputs ∧ definition.name = name := by
  simp [named]

/-- What can be seen is determined name by name. -/
theorem visible_perm_of_named
    {inputs : List (Object Name Code)}
    {expected : List (Definition Name Code)}
    (byName : ∀ name, named inputs name =
      expected.filter fun definition => definition.name = name) :
    (visible inputs).Perm expected := by
  classical
  rw [List.perm_iff_count]
  intro definition
  have isName : decide (definition.name = definition.name) = true := by simp
  rw [← List.count_filter (l := visible inputs)
      (p := fun other => decide (other.name = definition.name)) isName,
    ← List.count_filter (l := expected)
      (p := fun other => decide (other.name = definition.name)) isName]
  exact congrArg (List.count definition) (byName definition.name)

/-- There are no duplicates if each name has one strong definition at most. -/
theorem distinctDefinitions_iff (inputs : List (Object Name Code)) :
    DistinctDefinitions inputs ↔
      ∀ name, ((named inputs name).filter Definition.strong).length ≤ 1 := by
  have count : ∀ name,
      (((visible inputs).filter Definition.strong).map
        Definition.name).count name =
          ((named inputs name).filter Definition.strong).length := by
    intro name
    rw [List.count_eq_countP, List.countP_map, List.countP_eq_length_filter,
      named, List.filter_comm]
    rfl
  rw [DistinctDefinitions, List.nodup_iff_count_le_one]
  exact forall_congr' fun name => by rw [count]

theorem winner_mem
    {inputs : List (Object Name Code)}
    {name : Name}
    {definition : Definition Name Code}
    (won : winner inputs name = some definition) :
    definition ∈ named inputs name := by
  rw [winner, Option.or_eq_some_iff, Option.or_eq_some_iff] at won
  rcases won with found | ⟨_, found | ⟨_, largest⟩⟩
  · exact List.mem_of_find?_eq_some found
  · exact List.mem_of_find?_eq_some found
  · exact List.argmax_mem largest

theorem name_of_winner
    {inputs : List (Object Name Code)}
    {name : Name}
    {definition : Definition Name Code}
    (won : winner inputs name = some definition) :
    definition.name = name :=
  ((mem_named_iff inputs name definition).mp (winner_mem won)).2

theorem winner_eq_none_iff
    (inputs : List (Object Name Code))
    (name : Name) :
    winner inputs name = none ↔ named inputs name = [] := by
  rw [winner, Option.or_eq_none_iff, Option.or_eq_none_iff, List.argmax_eq_none]
  constructor
  · exact fun none => none.2.2
  · intro empty
    rw [empty]
    exact ⟨rfl, rfl, rfl⟩

/-- A name with one visible definition stands for it. -/
theorem winner_of_named_eq_singleton
    {inputs : List (Object Name Code)}
    {name : Name}
    {definition : Definition Name Code}
    (only : named inputs name = [definition]) :
    winner inputs name = some definition := by
  rw [winner, only, List.argmax_singleton, List.find?_singleton,
    List.find?_singleton]
  split
  · rfl
  · split <;> rfl

/-- A real definition wins over a tentative one. -/
theorem winner_of_named_eq_pair
    {inputs : List (Object Name Code)}
    {name : Name}
    {first second : Definition Name Code}
    (both : named inputs name = [first, second])
    (isTentative : first.tentative = true)
    (real : second.tentative = false) :
    winner inputs name = some second := by
  rw [winner, both]
  simp only [List.find?_cons, strong_eq_false_of_tentative isTentative,
    isTentative, real, Bool.not_true, Bool.not_false]
  split <;> rfl

/-- Looking up depends on the definitions of the name only. -/
theorem winner_congr
    {inputs inputs' : List (Object Name Code)}
    {name : Name}
    (same : named inputs name = named inputs' name) :
    winner inputs name = winner inputs' name := by
  rw [winner, winner, same]

/-- The one strong definition of a name wins. -/
theorem winner_of_strong
    {inputs : List (Object Name Code)}
    (distinct : DistinctDefinitions inputs)
    {definition : Definition Name Code}
    (isVisible : definition ∈ visible inputs)
    (isStrong : definition.strong = true) :
    winner inputs definition.name = some definition := by
  have isNamed : definition ∈ named inputs definition.name :=
    (mem_named_iff inputs definition.name definition).mpr ⟨isVisible, rfl⟩
  rw [winner]
  cases found : (named inputs definition.name).find? Definition.strong with
  | none =>
      exact absurd isStrong (List.find?_eq_none.mp found definition isNamed)
  | some other =>
      obtain ⟨otherVisible, sameName⟩ := (mem_named_iff inputs _ other).mp
        (List.mem_of_find?_eq_some found)
      have same : other = definition :=
        List.inj_on_of_nodup_map distinct
          (List.mem_filter.mpr ⟨otherVisible, List.find?_some found⟩)
          (List.mem_filter.mpr ⟨isVisible, isStrong⟩) sameName
      rw [same]
      rfl

/-- A tentative definition stands for a name only if all its definitions are
tentative and none is larger. -/
theorem le_of_winner_tentative
    {inputs : List (Object Name Code)}
    {name : Name}
    {definition : Definition Name Code}
    (won : winner inputs name = some definition)
    (tentative : definition.tentative = true)
    {other : Definition Name Code}
    (member : other ∈ named inputs name) :
    other.tentative = true ∧ other.size ≤ definition.size := by
  rw [winner, Option.or_eq_some_iff, Option.or_eq_some_iff] at won
  rcases won with found | ⟨_, found | ⟨noReal, largest⟩⟩
  · have isStrong := List.find?_some found
    rw [strong_eq_false_of_tentative tentative] at isStrong
    contradiction
  · have isReal := List.find?_some found
    rw [tentative] at isReal
    contradiction
  · have isTentative := List.find?_eq_none.mp noReal other member
    exact ⟨by simpa using isTentative, List.le_of_mem_argmax member largest⟩

/-! ## Images -/

section Load

omit [DecidableEq Name]

variable {Code' : Type}

/-- The same definition with its code somewhere else. -/
def Definition.mapCode (f : Code → Code') (definition : Definition Name Code) :
    Definition Name Code' where
  name := definition.name
  scope := definition.scope
  strength := definition.strength
  size := definition.size
  code := f definition.code

/-- The same target with the code somewhere else. -/
def Target.mapCode (f : Code → Code') : Target Name Code → Target Name Code'
  | .symbol name => .symbol name
  | .bound code => .bound (f code)

/-- The same object with its code somewhere else. -/
def Object.mapCode (f : Code → Code') (object : Object Name Code) :
    Object Name Code' where
  definitions := object.definitions.map (Definition.mapCode f)
  references := object.references.map fun reference =>
    ⟨f reference.site, reference.target.mapCode f⟩

/-- The image of a program. Each object has code of its own in it: the number of
the object, counted from a start, goes with the code. -/
def load (place : Nat) :
    List (Object Name Code) → List (Object Name (Nat × Code))
  | [] => []
  | object :: later => object.mapCode (Prod.mk place) :: load (place + 1) later

theorem load_append (place : Nat) (first second : List (Object Name Code)) :
    load place (first ++ second) =
      load place first ++ load (place + first.length) second := by
  induction first generalizing place with
  | nil => rfl
  | cons object later inductionHypothesis =>
      rw [List.cons_append, load, load, inductionHypothesis, List.length_cons,
        List.cons_append, Nat.add_assoc, Nat.add_comm 1]

theorem mem_load
    {objects : List (Object Name Code)}
    {index : Nat}
    {object : Object Name Code}
    (linked : objects[index]? = some object)
    (place : Nat) :
    object.mapCode (Prod.mk (place + index)) ∈ load place objects := by
  induction objects generalizing index place with
  | nil => simp at linked
  | cons first later inductionHypothesis =>
      rw [load, List.mem_cons]
      cases index with
      | zero =>
          rw [List.getElem?_cons_zero, Option.some.injEq] at linked
          exact .inl (by rw [linked, Nat.add_zero])
      | succ index =>
          rw [List.getElem?_cons_succ] at linked
          have found := inductionHypothesis linked (place + 1)
          rw [Nat.add_assoc, Nat.add_comm 1] at found
          exact .inr found

/-- What matters for finding duplicates. -/
def Definition.signature (definition : Definition Name Code) :
    Name × Strength :=
  (definition.name, definition.strength)

theorem visible_mapCode (f : Code → Code') (object : Object Name Code) :
    visible [object.mapCode f] =
      (visible [object]).map (Definition.mapCode f) := by
  rw [visible, visible, List.flatMap_singleton, List.flatMap_singleton,
    Object.mapCode, List.filter_map]
  rfl

/-- Loading changes places only. -/
theorem signatures_load (place : Nat) (objects : List (Object Name Code)) :
    (visible (load place objects)).map Definition.signature =
      (visible objects).map Definition.signature := by
  induction objects generalizing place with
  | nil => rfl
  | cons object later inductionHypothesis =>
      have split {Code : Type} (first : Object Name Code)
          (rest : List (Object Name Code)) :
          visible (first :: rest) = visible [first] ++ visible rest := by
        simp [visible]
      rw [load, split, split object, List.map_append, List.map_append,
        inductionHypothesis, visible_mapCode, List.map_map]
      rfl

theorem map_name_filter_strong (definitions : List (Definition Name Code)) :
    (definitions.filter Definition.strong).map Definition.name =
      ((definitions.map Definition.signature).filter fun signature =>
        signature.2 = .strong).map Prod.fst := by
  rw [List.filter_map, List.map_map]
  rfl

/-- The image has the duplicates of its objects. -/
theorem distinctDefinitions_load
    (place : Nat)
    (objects : List (Object Name Code)) :
    DistinctDefinitions (load place objects) ↔
      DistinctDefinitions objects := by
  rw [DistinctDefinitions, DistinctDefinitions, map_name_filter_strong,
    map_name_filter_strong, signatures_load]

/-- What can be seen of an object can be seen in the image, at its place. -/
theorem mapCode_mem_visible_load
    {objects : List (Object Name Code)}
    {index : Nat}
    {object : Object Name Code}
    (linked : objects[index]? = some object)
    {definition : Definition Name Code}
    (isVisible : definition ∈ visible [object])
    (place : Nat) :
    definition.mapCode (Prod.mk (place + index)) ∈
      visible (load place objects) := by
  have atPlace : definition.mapCode (Prod.mk (place + index)) ∈
      visible [object.mapCode (Prod.mk (place + index))] := by
    rw [visible_mapCode]
    exact List.mem_map_of_mem isVisible
  rw [visible, List.flatMap_singleton] at atPlace
  exact List.mem_flatMap.mpr ⟨_, mem_load linked place, atPlace⟩

end Load

/-- A name is defined in the image if it is defined in its objects. -/
theorem named_load_eq_nil_iff
    (place : Nat)
    (objects : List (Object Name Code))
    (name : Name) :
    named (load place objects) name = [] ↔ named objects name = [] := by
  have names : ∀ {Code : Type} (inputs : List (Object Name Code)),
      named inputs name = [] ↔
        name ∉ ((visible inputs).map Definition.signature).map Prod.fst := by
    intro Code inputs
    rw [named, List.filter_eq_nil_iff, List.map_map, List.mem_map, not_exists]
    refine forall_congr' fun definition => ?_
    rw [not_and, decide_eq_true_eq]
    rfl
  rw [names, names, signatures_load]

/-- A strong definition is what its name stands for in the image, wherever it is
linked. -/
theorem resolve_load_of_strong
    {objects : List (Object Name Code)}
    (distinct : DistinctDefinitions objects)
    {index : Nat}
    {object : Object Name Code}
    (linked : objects[index]? = some object)
    {definition : Definition Name Code}
    (isVisible : definition ∈ visible [object])
    (isStrong : definition.strong = true) :
    resolve (load 0 objects) (.symbol definition.name) =
      some (index, definition.code) := by
  have inImage := mapCode_mem_visible_load linked isVisible 0
  rw [Nat.zero_add] at inImage
  have won := winner_of_strong ((distinctDefinitions_load 0 objects).mpr
    distinct) inImage isStrong
  exact congrArg (Option.map Definition.code) won

/-! ## Partial links -/

/-- What a reference of an input refers to in the output of a partial link. A
name that stands for a private extern is bound to it. -/
def rebind (inputs : List (Object Name Code)) :
    Target Name Code → Target Name Code
  | .symbol name =>
      match winner inputs name with
      | none => .symbol name
      | some definition =>
          if definition.scope = .privateExtern then .bound definition.code
          else .symbol name
  | .bound code => .bound code

/-- The winners of all names. -/
def winners (inputs : List (Object Name Code)) :
    List (Definition Name Code) :=
  ((visible inputs).map Definition.name).dedup.filterMap (winner inputs)

/-- One object in place of several: the statics of each, one definition of each
visible name, and all references, also those in copies that do not win. -/
def partialLink (inputs : List (Object Name Code)) : Object Name Code where
  definitions :=
    (inputs.flatMap fun input =>
      input.definitions.filter fun definition => definition.scope = .static) ++
        (winners inputs).map Definition.settled
  references :=
    (inputs.flatMap Object.references).map fun reference =>
      { reference with target := rebind inputs reference.target }

theorem mem_winners_iff
    (inputs : List (Object Name Code))
    (definition : Definition Name Code) :
    definition ∈ winners inputs ↔
      winner inputs definition.name = some definition := by
  rw [winners, List.mem_filterMap]
  constructor
  · rintro ⟨name, _, won⟩
    rw [name_of_winner won]
    exact won
  · intro won
    refine ⟨definition.name, ?_, won⟩
    rw [List.mem_dedup]
    exact List.mem_map_of_mem
      ((mem_named_iff inputs _ definition).mp (winner_mem won)).1

/-- The output keeps the statics of its inputs. -/
theorem mem_partialLink_of_static
    {inputs : List (Object Name Code)}
    {input : Object Name Code}
    (isInput : input ∈ inputs)
    {definition : Definition Name Code}
    (member : definition ∈ input.definitions)
    (isStatic : definition.scope = .static) :
    definition ∈ (partialLink inputs).definitions :=
  List.mem_append_left _ (List.mem_flatMap.mpr
    ⟨input, isInput, List.mem_filter.mpr ⟨member, by simpa using isStatic⟩⟩)

/-- The output has the winner of each name. -/
theorem settled_mem_partialLink
    {inputs : List (Object Name Code)}
    {name : Name}
    {definition : Definition Name Code}
    (won : winner inputs name = some definition) :
    definition.settled ∈ (partialLink inputs).definitions := by
  apply List.mem_append_right
  apply List.mem_map_of_mem
  rw [mem_winners_iff, name_of_winner won]
  exact won

/-- A name that stands for an external definition is not bound yet. -/
theorem rebind_of_external
    {inputs : List (Object Name Code)}
    {name : Name}
    {definition : Definition Name Code}
    (won : winner inputs name = some definition)
    (isExternal : definition.scope = .external) :
    rebind inputs (.symbol name) = .symbol name := by
  simp [rebind, won, isExternal]

theorem rebind_of_unnamed
    {inputs : List (Object Name Code)}
    {name : Name}
    (none : winner inputs name = none) :
    rebind inputs (.symbol name) = .symbol name := by
  simp only [rebind, none]

/-- A link gives no target a new name. -/
theorem eq_of_rebind_eq_symbol
    {inputs : List (Object Name Code)}
    {target : Target Name Code}
    {name : Name}
    (unbound : rebind inputs target = .symbol name) :
    target = .symbol name := by
  cases target with
  | bound code => cases unbound
  | symbol other =>
      cases won : winner inputs other with
      | none =>
          rw [rebind_of_unnamed won] at unbound
          exact unbound
      | some definition =>
          simp only [rebind, won] at unbound
          split at unbound
          · cases unbound
          · exact unbound

/-- If all that can be seen is external, a link binds nothing. -/
theorem rebind_eq_self
    {inputs : List (Object Name Code)}
    (external : ∀ definition ∈ visible inputs, definition.scope = .external)
    (target : Target Name Code) :
    rebind inputs target = target := by
  cases target with
  | bound code => rfl
  | symbol name =>
      cases won : winner inputs name with
      | none => exact rebind_of_unnamed won
      | some definition =>
          apply rebind_of_external won
          apply external
          exact ((mem_named_iff inputs name definition).mp (winner_mem won)).1

/-- Each name has one winner. -/
theorem filter_winners (inputs : List (Object Name Code)) (name : Name) :
    (winners inputs).filter (fun definition => definition.name = name) =
      (winner inputs name).toList := by
  have perName : ∀ other,
      (winner inputs other).filter (fun definition => definition.name = name) =
        if decide (other = name) then winner inputs other else none := by
    intro other
    cases won : winner inputs other with
    | none => simp
    | some definition =>
        have isName := name_of_winner won
        by_cases same : other = name
        · simp [Option.filter, isName, same]
        · simp [Option.filter, isName, same]
  rw [winners, List.filter_filterMap, funext perName, ← List.filterMap_filter,
    List.filter_eq, List.count_dedup]
  by_cases listed : name ∈ (visible inputs).map Definition.name
  · rw [if_pos listed]
    cases won : winner inputs name <;> simp [won]
  · have unnamed : winner inputs name = none := by
      rw [winner_eq_none_iff, named, List.filter_eq_nil_iff]
      intro definition member isName
      exact listed (List.mem_map.mpr
        ⟨definition, member, by simpa using isName⟩)
    rw [if_neg listed, unnamed]
    rfl

/-- Other objects see of the output the winners that are external. -/
theorem visible_partialLink (inputs : List (Object Name Code)) :
    visible [partialLink inputs] =
      (winners inputs).filter fun definition =>
        definition.scope = .external := by
  have statics : (inputs.flatMap fun input =>
      input.definitions.filter fun definition =>
        definition.scope = .static).filter
          (fun definition => definition.scope ≠ .static) = [] := by
    rw [List.filter_eq_nil_iff]
    intro definition member
    obtain ⟨input, _, isStatic⟩ := List.mem_flatMap.mp member
    simpa using (List.mem_filter.mp isStatic).2
  have settledVisible : ∀ definition ∈ winners inputs,
      ((fun definition : Definition Name Code =>
        decide (definition.scope ≠ .static)) ∘ Definition.settled) definition =
          decide (definition.scope = .external) := by
    intro definition member
    have won := (mem_winners_iff inputs definition).mp member
    have seen := scope_of_mem_visible
      ((mem_named_iff inputs _ definition).mp (winner_mem won)).1
    rw [Function.comp_apply, Definition.settled]
    cases scope : definition.scope with
    | external => simp [scope]
    | privateExtern => simp
    | static => exact absurd scope seen
  have settledSame : ∀ definition ∈ (winners inputs).filter
      (fun definition => definition.scope = .external),
        definition.settled = definition := by
    intro definition member
    exact settled_of_external (by simpa using (List.mem_filter.mp member).2)
  rw [visible, List.flatMap_singleton, partialLink, List.filter_append, statics,
    List.nil_append, List.filter_map, List.filter_congr settledVisible,
    List.map_congr_left settledSame, List.map_id']

/-- Of a name other objects see its winner, if it is external. -/
theorem named_partialLink (inputs : List (Object Name Code)) (name : Name) :
    named [partialLink inputs] name =
      ((winner inputs name).filter fun definition =>
        definition.scope = .external).toList := by
  rw [named, visible_partialLink, List.filter_comm, filter_winners]
  cases winner inputs name with
  | none => rfl
  | some definition =>
      by_cases isExternal : definition.scope = .external
      · simp [Option.filter, isExternal]
      · simp [Option.filter, isExternal]

/-! ## Hiding -/

/-- An external definition that is not to be kept becomes a private extern. A
tentative one cannot. -/
def Definition.demoted (keep : List Name) (definition : Definition Name Code) :
    Definition Name Code :=
  if definition.scope = .external ∧ definition.tentative = false ∧
      definition.name ∉ keep then
    { definition with scope := .privateExtern }
  else definition

/-- An object in which the names to keep are the external ones. -/
def demote (keep : List Name) (input : Object Name Code) :
    Object Name Code where
  definitions := input.definitions.map (Definition.demoted keep)
  references := input.references

@[simp] theorem name_demoted
    (keep : List Name) (definition : Definition Name Code) :
    (definition.demoted keep).name = definition.name := by
  rw [Definition.demoted]
  split_ifs <;> rfl

@[simp] theorem strength_demoted
    (keep : List Name) (definition : Definition Name Code) :
    (definition.demoted keep).strength = definition.strength := by
  rw [Definition.demoted]
  split_ifs <;> rfl

@[simp] theorem tentative_demoted
    (keep : List Name) (definition : Definition Name Code) :
    (definition.demoted keep).tentative = definition.tentative := by
  rw [Definition.tentative, Definition.tentative, strength_demoted]

@[simp] theorem size_demoted
    (keep : List Name) (definition : Definition Name Code) :
    (definition.demoted keep).size = definition.size := by
  rw [Definition.demoted]
  split_ifs <;> rfl

@[simp] theorem code_demoted
    (keep : List Name) (definition : Definition Name Code) :
    (definition.demoted keep).code = definition.code := by
  rw [Definition.demoted]
  split_ifs <;> rfl

/-- Demoting hides nothing from the objects of the same link. -/
theorem demoted_scope_eq_static_iff
    (keep : List Name) (definition : Definition Name Code) :
    (definition.demoted keep).scope = .static ↔ definition.scope = .static := by
  rw [Definition.demoted]
  split_ifs with hidden
  · simp [hidden.1]
  · rfl

theorem named_demote
    (keep : List Name)
    (input : Object Name Code)
    (name : Name) :
    named [demote keep input] name =
      (named [input] name).map (Definition.demoted keep) := by
  simp only [named, visible, List.flatMap_singleton, demote, List.filter_map,
    Function.comp_def, ne_eq, demoted_scope_eq_static_iff, name_demoted]

/-- What is not external is left as it is. -/
theorem demoted_of_not_external
    (keep : List Name)
    {definition : Definition Name Code}
    (notExternal : definition.scope ≠ .external) :
    definition.demoted keep = definition := by
  rw [Definition.demoted, if_neg fun hidden => notExternal hidden.1]

/-- Hide all but some names of an object, so that they become static. -/
def hide (keep : List Name) (input : Object Name Code) : Object Name Code :=
  partialLink [demote keep input]

/-- A hidden object makes the same references. -/
theorem references_hide (keep : List Name) (input : Object Name Code) :
    (hide keep input).references =
      input.references.map fun reference =>
        { reference with
          target := rebind [demote keep input] reference.target } := by
  change ([demote keep input].flatMap Object.references).map _ = _
  rw [List.flatMap_singleton]
  rfl

section Hide

variable
  {keep : List Name}
  {input : Object Name Code}
  {name : Name}
  {definition : Definition Name Code}

theorem winner_demote (only : named [input] name = [definition]) :
    winner [demote keep input] name = some (definition.demoted keep) := by
  apply winner_of_named_eq_singleton
  rw [named_demote, only]
  rfl

/-- A real external definition stays in sight if its name is kept. -/
theorem named_hide
    (only : named [input] name = [definition])
    (isExternal : definition.scope = .external)
    (real : definition.tentative = false) :
    named [hide keep input] name =
      if name ∈ keep then [definition] else [] := by
  have isName : definition.name = name :=
    name_of_winner (winner_of_named_eq_singleton only)
  rw [hide, named_partialLink, winner_demote only, Definition.demoted]
  by_cases kept : name ∈ keep
  · simp [Option.filter, isExternal, isName, kept]
  · simp [Option.filter, isExternal, real, isName, kept]

theorem named_hide_of_unnamed (unnamed : named [input] name = []) :
    named [hide keep input] name = [] := by
  have noWinner : winner [demote keep input] name = none := by
    rw [winner_eq_none_iff, named_demote, unnamed, List.map_nil]
  rw [hide, named_partialLink, noWinner]
  rfl

/-- A name that is not kept is bound to its definition. -/
theorem rebind_demote
    (only : named [input] name = [definition])
    (isExternal : definition.scope = .external)
    (real : definition.tentative = false) :
    rebind [demote keep input] (.symbol name) =
      if name ∈ keep then .symbol name else .bound definition.code := by
  have isName : definition.name = name :=
    name_of_winner (winner_of_named_eq_singleton only)
  simp only [rebind, winner_demote only, Definition.demoted, isExternal, real,
    isName, true_and]
  by_cases kept : name ∈ keep
  · simp [kept, isExternal]
  · simp [kept]

theorem rebind_demote_of_unnamed (unnamed : named [input] name = []) :
    rebind [demote keep input] (.symbol name) = .symbol name := by
  have noWinner : winner [demote keep input] name = none := by
    rw [winner_eq_none_iff, named_demote, unnamed, List.map_nil]
  simp only [rebind, noWinner]

/-- In a program without duplicates, a name that an object with hidden names
defines means for the object what it meant before, whatever else is linked, if
what it keeps is strong. -/
theorem resolve_rebind_demote
    {objects : List (Object Name Code)}
    {index : Nat}
    (linked : objects[index]? = some (hide keep input))
    (distinct : DistinctDefinitions objects)
    (only : named [input] name = [definition])
    (isExternal : definition.scope = .external)
    (real : definition.tentative = false)
    (isStrong : name ∈ keep → definition.strong = true) :
    resolve (load 0 objects)
        ((rebind [demote keep input] (.symbol name)).mapCode (Prod.mk index)) =
      some (index, definition.code) := by
  rw [rebind_demote only isExternal real]
  by_cases kept : name ∈ keep
  · have isName : definition.name = name :=
      name_of_winner (winner_of_named_eq_singleton only)
    have inSight : definition ∈ visible [hide keep input] := by
      have seen : named [hide keep input] name = [definition] := by
        rw [named_hide only isExternal real, if_pos kept]
      exact ((mem_named_iff _ name definition).mp
        (seen ▸ List.mem_singleton_self definition)).1
    rw [if_pos kept, ← isName]
    exact resolve_load_of_strong distinct linked inSight (isStrong kept)
  · rw [if_neg kept]
    rfl

end Hide

end Linker
end LibretroLab
