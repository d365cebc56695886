import LibretroLab.Library.Words
import LibretroLab.Registry.GenRegistry

/-!
# The loop over the cores

`tools/build-cores.sh` lets Node write `tools/cores.json` as `cores.tsv`, one
line per core with its fields joined by tabs, and reads the lines back with
`while IFS=$'\t' read -r name repo ref dir mkfile prepatch`. What the loop body
sees is what was written, except where the tabs and newlines of a `prepatch`
say otherwise.
-/

namespace LibretroLab
namespace Build

open Registry (CoreEntry NamesPass)
open Words

/-- The six fields of a line, and the variables of the loop they are read
into. -/
structure CoreFields where
  name : String
  repo : String
  ref : String
  dir : String
  mkfile : String
  prepatch : String
  deriving DecidableEq

/-! ## The encoder -/

/-- `field || otherwise`: a field that is missing or empty is replaced. -/
def orElse (field : Option String) (otherwise : String) : String :=
  match field with
  | none => otherwise
  | some text => if text = "" then otherwise else text

/-- The array `[c.name, c.repo, c.ref || "master", …]` of one core. -/
def encodeFields (c : CoreEntry) : CoreFields where
  name := c.name
  repo := c.repo
  ref := orElse c.ref "master"
  dir := orElse c.dir "."
  mkfile := orElse c.makefile "Makefile.libretro"
  prepatch := orElse c.prepatch ""

/-- The default of the last field is what it replaces. -/
theorem encodeFields_prepatch (c : CoreEntry) :
    (encodeFields c).prepatch = c.prepatch.getD "" := by
  change orElse c.prepatch "" = _
  cases c.prepatch with
  | none => rfl
  | some text =>
      rw [orElse, Option.getD_some]
      split_ifs with empty
      · exact empty.symm
      · rfl

namespace CoreFields

/-- The fields before the last. -/
def leading (fields : CoreFields) : List String :=
  [fields.name, fields.repo, fields.ref, fields.dir, fields.mkfile]

/-- `[…].join("\t")` -/
def join (fields : CoreFields) : String :=
  "\t".intercalate (fields.leading ++ [fields.prepatch])

end CoreFields

/-- The file `cores.tsv`: one `console.log` per core, which ends the line. -/
def coresTsv (cores : List CoreEntry) : String :=
  String.join (cores.map fun c => (encodeFields c).join ++ "\n")

/-! ## The loop -/

/-- `IFS=$'\t' read -r name repo ref dir mkfile prepatch` on one line. Bash
drops the NUL bytes of a line, and a variable without a word is empty. -/
def readFields (line : List Char) : CoreFields :=
  let values := words '\t' 5 (line.filter (· ≠ Char.ofNat 0))
  let value := fun index => String.ofList (values.getD index [])
  { name := value 0
    repo := value 1
    ref := value 2
    dir := value 3
    mkfile := value 4
    prepatch := value 5 }

/-- The commands of the loop body. They do not read standard input, so they see
the six variables and the rest of the world only. -/
abbrev LoopBody (State Failure : Type) :=
  CoreFields → State → Except Failure State

variable {State Failure : Type}

/-- `while … read …; do …; done < cores.tsv`. Under `set -e` a command that
fails ends the script. -/
def coreLoop
    (body : LoopBody State Failure)
    (tsv : String)
    (state : State) :
    Except Failure State :=
  (eachLine '\n' tsv.toList).foldlM
    (fun state line => body (readFields line) state) state

/-- The body, keeping a record of the fields it ran with. -/
def recording
    (body : LoopBody State Failure) :
    LoopBody (State × List CoreFields) Failure :=
  fun fields state =>
    (body fields state.1).map fun next => (next, state.2 ++ [fields])

/-- The fields the body runs with, in order. -/
def loopRuns
    (body : LoopBody State Failure)
    (tsv : String)
    (state : State) :
    Except Failure (List CoreFields) :=
  (coreLoop (recording body) tsv (state, [])).map Prod.snd

/-- Over any lines, a body that succeeds is recorded once per line. -/
theorem foldlM_recording
    {body : LoopBody State Failure}
    (succeeds : ∀ fields state, ∃ next, body fields state = .ok next)
    (lines : List (List Char))
    (state : State)
    (runs : List CoreFields) :
    ∃ final,
      lines.foldlM (fun state line => recording body (readFields line) state)
        (state, runs) =
        (.ok (final, runs ++ lines.map readFields) :
          Except Failure (State × List CoreFields)) := by
  induction lines generalizing state runs with
  | nil => exact ⟨state, by simp [pure, Except.pure]⟩
  | cons line rest inductionHypothesis =>
      obtain ⟨next, ran⟩ := succeeds (readFields line) state
      obtain ⟨final, later⟩ :=
        inductionHypothesis next (runs ++ [readFields line])
      refine ⟨final, ?_⟩
      rw [List.append_assoc, List.singleton_append] at later
      simp only [List.foldlM_cons, recording, ran, Except.map, bind,
        Except.bind]
      exact later

/-- A body that succeeds runs once per line, with the fields of the line. -/
theorem loopRuns_of_succeeds
    {body : LoopBody State Failure}
    (succeeds : ∀ fields state, ∃ next, body fields state = .ok next)
    (tsv : String)
    (state : State) :
    loopRuns body tsv state =
      .ok ((eachLine '\n' tsv.toList).map readFields) := by
  obtain ⟨final, ran⟩ :=
    foldlM_recording succeeds (eachLine '\n' tsv.toList) state []
  rw [loopRuns, coreLoop, ran]
  rfl

/-! ## What the loop reads back -/

/-- An entry that the encoder and the loop are meant for: there is a `repo`, no
field before the last has a tab, a newline or a NUL in it, and the `prepatch`
is any text without NUL. -/
structure Sendable (c : CoreEntry) : Prop where
  repoNonempty : c.repo ≠ ""
  noTab : ∀ field ∈ (encodeFields c).leading, '\t' ∉ field.toList
  noNewline : ∀ field ∈ (encodeFields c).leading, '\n' ∉ field.toList
  noNul : ∀ field ∈ (encodeFields c).leading, Char.ofNat 0 ∉ field.toList
  prepatchNoNul : Char.ofNat 0 ∉ (encodeFields c).prepatch.toList

/-- A last field that arrives as it was sent. -/
def Kept (prepatch : String) : Prop :=
  '\n' ∉ prepatch.toList ∧
    prepatch.toList.head? ≠ some '\t' ∧ prepatch.toList.getLast? ≠ some '\t'

instance : DecidablePred Kept := fun prepatch =>
  inferInstanceAs (Decidable ('\n' ∉ prepatch.toList ∧
    prepatch.toList.head? ≠ some '\t' ∧
      prepatch.toList.getLast? ≠ some '\t'))

/-- A default that is not empty leaves no field empty. -/
theorem orElse_ne_empty
    (field : Option String)
    {otherwise : String}
    (nonempty : otherwise ≠ "") :
    orElse field otherwise ≠ "" := by
  unfold orElse
  cases field with
  | none => exact nonempty
  | some text =>
      by_cases empty : text = ""
      · simpa [empty] using nonempty
      · simp [empty]

/-- Every field before the last has at least one character. -/
theorem leading_ne_nil
    {c : CoreEntry}
    (passes : Registry.isIdentifier c.name = true)
    (sendable : Sendable c) :
    ∀ field ∈ (encodeFields c).leading, field.toList ≠ [] := by
  have ref : orElse c.ref "master" ≠ "" :=
    orElse_ne_empty c.ref (by decide)
  have dir : orElse c.dir "." ≠ "" := orElse_ne_empty c.dir (by decide)
  have mkfile : orElse c.makefile "Makefile.libretro" ≠ "" :=
    orElse_ne_empty c.makefile (by decide)
  intro field member
  simp only [CoreFields.leading, List.mem_cons, List.not_mem_nil, or_false]
    at member
  rcases member with rfl | rfl | rfl | rfl | rfl
  · exact Registry.toList_ne_nil_of_isIdentifier passes
  · simpa [encodeFields] using sendable.repoNonempty
  · simpa [encodeFields] using ref
  · simpa [encodeFields] using dir
  · simpa [encodeFields] using mkfile

/-- In a line each field but the last is followed by a tab. -/
theorem toList_join (fields : CoreFields) :
    fields.join.toList =
      ((fields.leading.map String.toList).flatMap fun field =>
        field ++ ['\t']) ++ fields.prepatch.toList := by
  simp [CoreFields.join, CoreFields.leading]

/-- In the file each line is followed by a newline. -/
theorem toList_coresTsv (cores : List CoreEntry) :
    (coresTsv cores).toList =
      (cores.map fun c => (encodeFields c).join.toList).flatMap fun line =>
        line ++ ['\n'] := by
  rw [coresTsv, String.toList_join, List.flatMap_map, List.flatMap_map]
  simp

/-- A line has no character besides those of its fields and the tabs. -/
theorem not_mem_join
    {char : Char}
    {fields : CoreFields}
    (notTab : char ≠ '\t')
    (leading : ∀ field ∈ fields.leading, char ∉ field.toList)
    (last : char ∉ fields.prepatch.toList) :
    char ∉ fields.join.toList := by
  rw [toList_join, List.mem_append, List.mem_flatMap, not_or]
  refine ⟨?_, last⟩
  rintro ⟨chars, inFields, inChars⟩
  obtain ⟨field, inLeading, rfl⟩ := List.mem_map.mp inFields
  rw [List.mem_append, List.mem_singleton] at inChars
  exact inChars.elim (leading field inLeading) notTab

/-- The line of an entry is read back with its last field trimmed. -/
theorem readFields_join
    {c : CoreEntry}
    (passes : Registry.isIdentifier c.name = true)
    (sendable : Sendable c) :
    readFields (encodeFields c).join.toList =
      { encodeFields c with
        prepatch :=
          String.ofList (trim '\t' (encodeFields c).prepatch.toList) } := by
  have noNul : (encodeFields c).join.toList.filter (· ≠ Char.ofNat 0) =
      (encodeFields c).join.toList := by
    have absent : Char.ofNat 0 ∉ (encodeFields c).join.toList :=
      not_mem_join (by decide) sendable.noNul sendable.prepatchNoNul
    rw [List.filter_eq_self]
    intro char member
    rw [decide_eq_true_eq]
    rintro rfl
    exact absent member
  have split : words '\t' 5 (encodeFields c).join.toList =
      (encodeFields c).leading.map String.toList ++
        [trim '\t' (encodeFields c).prepatch.toList] := by
    rw [toList_join]
    exact words_flatMap ((encodeFields c).leading.map String.toList)
      (List.forall_mem_map.mpr (leading_ne_nil passes sendable))
      (List.forall_mem_map.mpr sendable.noTab) _
  unfold readFields
  rw [noNul, split]
  simp [CoreFields.leading]

/-- A line without a newline of its own is read back whole exactly if its last
field has no tab at either end. -/
theorem readFields_join_eq_iff
    {c : CoreEntry}
    (passes : Registry.isIdentifier c.name = true)
    (sendable : Sendable c) :
    readFields (encodeFields c).join.toList = encodeFields c ↔
      (encodeFields c).prepatch.toList.head? ≠ some '\t' ∧
        (encodeFields c).prepatch.toList.getLast? ≠ some '\t' := by
  rw [readFields_join passes sendable, ← trim_eq_self_iff]
  constructor
  · intro readBack
    have lastField := congrArg CoreFields.prepatch readBack
    simpa using congrArg String.toList lastField
  · intro trimmed
    rw [trimmed, String.ofList_toList]

/-- Without newlines inside the lines, the loop reads the lines that were
written. -/
theorem eachLine_coresTsv
    {cores : List CoreEntry}
    (noNewline : ∀ c ∈ cores, '\n' ∉ (encodeFields c).join.toList) :
    eachLine '\n' (coresTsv cores).toList =
      cores.map fun c => (encodeFields c).join.toList := by
  rw [toList_coresTsv]
  exact eachLine_flatMap _ (List.forall_mem_map.mpr noNewline)

/-- Every newline inside a line makes one run more. -/
theorem length_eachLine_coresTsv (cores : List CoreEntry) :
    (eachLine '\n' (coresTsv cores).toList).length =
      cores.length +
        (cores.flatMap fun c => (encodeFields c).join.toList).count '\n' := by
  rw [length_eachLine, toList_coresTsv]
  induction cores with
  | nil => rfl
  | cons c rest inductionHypothesis =>
      simp only [List.map_cons, List.flatMap_cons, List.count_append,
        List.count_singleton_self, List.length_cons]
      rw [inductionHypothesis]
      omega

/-- As many runs as entries mean that no line has a newline inside. -/
theorem noNewline_of_length_eachLine
    {cores : List CoreEntry}
    (runs : (eachLine '\n' (coresTsv cores).toList).length = cores.length) :
    ∀ c ∈ cores, '\n' ∉ (encodeFields c).join.toList := by
  rw [length_eachLine_coresTsv, Nat.add_eq_left, List.count_eq_zero] at runs
  intro c member inLine
  exact runs (List.mem_flatMap.mpr ⟨c, member, inLine⟩)

/-- With a loop body that succeeds, the loop runs once per entry, in order and
with the six fields that were written, exactly if every last field arrives as
it was sent. -/
theorem loop_reads_back_iff
    {body : LoopBody State Failure}
    (succeeds : ∀ fields state, ∃ next, body fields state = .ok next)
    (state : State)
    (cores : List CoreEntry)
    (passes : NamesPass cores)
    (sendable : ∀ c ∈ cores, Sendable c) :
    loopRuns body (coresTsv cores) state = .ok (cores.map encodeFields) ↔
      ∀ c ∈ cores, Kept (c.prepatch.getD "") := by
  simp only [← encodeFields_prepatch]
  rw [loopRuns_of_succeeds succeeds, Except.ok.injEq]
  constructor
  · intro readBack
    have runs := congrArg List.length readBack
    rw [List.length_map, List.length_map] at runs
    have noNewline := noNewline_of_length_eachLine runs
    rw [eachLine_coresTsv noNewline, List.map_map, List.map_inj_left]
      at readBack
    intro c member
    refine ⟨?_, (readFields_join_eq_iff (passes c member)
      (sendable c member)).mp (readBack c member)⟩
    intro inPrepatch
    apply noNewline c member
    rw [toList_join]
    exact List.mem_append_right _ inPrepatch
  · intro kept
    have noNewline : ∀ c ∈ cores, '\n' ∉ (encodeFields c).join.toList :=
      fun c member =>
        not_mem_join (by decide) (sendable c member).noNewline (kept c member).1
    rw [eachLine_coresTsv noNewline, List.map_map, List.map_inj_left]
    exact fun c member =>
      (readFields_join_eq_iff (passes c member) (sendable c member)).mpr
        (kept c member).2

/-- A committed entry without a `prepatch`. -/
def fceummEntry : CoreEntry where
  name := "fceumm"
  repo := "https://github.com/libretro/libretro-fceumm.git"
  ref := some "master"
  dir := some "."
  makefile := some "Makefile.libretro"
  prepatch := none

/-- The committed entry with a `prepatch`. -/
def pceEntry : CoreEntry where
  name := "pce"
  repo := "https://github.com/libretro/beetle-pce-libretro.git"
  ref := some "master"
  dir := some "."
  makefile := some "Makefile"
  prepatch := some
    ("sed -i '' 's|define fdopen(fd,mode) NULL.*|undef fdopen|' " ++
      "deps/zlib-1.2.11/zutil.h deps/zlib-1.2.11/gzguts.h")

theorem fceummEntry_sendable : Sendable fceummEntry where
  repoNonempty := by decide
  noTab := by simp [CoreFields.leading, encodeFields, orElse, fceummEntry]
  noNewline := by simp [CoreFields.leading, encodeFields, orElse, fceummEntry]
  noNul := by simp [CoreFields.leading, encodeFields, orElse, fceummEntry]
  prepatchNoNul := by simp [encodeFields, orElse, fceummEntry]

theorem pceEntry_sendable : Sendable pceEntry where
  repoNonempty := by decide
  noTab := by simp [CoreFields.leading, encodeFields, orElse, pceEntry]
  noNewline := by simp [CoreFields.leading, encodeFields, orElse, pceEntry]
  noNul := by simp [CoreFields.leading, encodeFields, orElse, pceEntry]
  prepatchNoNul := by simp [encodeFields, orElse, pceEntry]

theorem fceummEntry_kept : Kept (fceummEntry.prepatch.getD "") := by
  simp [Kept, fceummEntry]

theorem pceEntry_kept : Kept (pceEntry.prepatch.getD "") := by
  simp [Kept, pceEntry]

/-- A loop body that collects the names it sees. -/
def collectNames : LoopBody (List String) String :=
  fun fields names => .ok (names ++ [fields.name])

/-- Two committed entries arrive, in order. -/
theorem loop_reads_back_pce :
    loopRuns collectNames (coresTsv [fceummEntry, pceEntry]) [] =
      .ok [encodeFields fceummEntry, encodeFields pceEntry] :=
  (loop_reads_back_iff (fun fields names => ⟨names ++ [fields.name], rfl⟩) []
    [fceummEntry, pceEntry] (by decide)
    (List.forall_mem_cons.mpr ⟨fceummEntry_sendable,
      List.forall_mem_singleton.mpr pceEntry_sendable⟩)).mpr
      (List.forall_mem_cons.mpr ⟨fceummEntry_kept,
        List.forall_mem_singleton.mpr pceEntry_kept⟩)

end Build
end LibretroLab
