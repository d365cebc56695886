import LibretroLab.Build.HidingGate

/-!
# Tentative definitions

`nmedit` cannot demote a tentative definition, and two cores that keep one of
the same name would share it. `tools/build-cores.sh` therefore lets `awk` write
an assembler file that defines every one of them for good, and checks at the end
that none is left.
-/

namespace LibretroLab
namespace Build

open Words

/-- A line of `nm -g -P -t d`: a symbol, which may be any text, its type letter,
and what else is printed of it. -/
structure PosixLine where
  symbol : String
  letter : Char
  columns : List String
  letterField : isBlank letter = false ∧ letter ≠ '\n'
  columnFields : ∀ column ∈ columns, OneField column

namespace PosixLine

/-- The fields of a line. -/
def fields (line : PosixLine) : List (List Char) :=
  line.symbol.toList :: [line.letter] :: line.columns.map String.toList

/-- The line as it is printed, without its newline. -/
def text (line : PosixLine) : List Char := [' '].intercalate line.fields

end PosixLine

/-- What `nm -P` prints. -/
def posixOutput (listing : List PosixLine) : List Char :=
  listing.flatMap fun line => line.text ++ ['\n']

/-! ## The commands -/

/-- The number that a field starts with, if it is not negative. -/
def awkNumber (field : List Char) : Nat :=
  Nat.ofDigitChars 10 (field.takeWhile Char.isDigit) 0

/-- `$<index>` -/
def awkField (index : Nat) (line : List Char) : List Char :=
  (Words.fields isBlank line).getD (index - 1) []

/-- `size = ($3 + 0 > 0) ? $3 : $4` -/
def awkSize (line : List Char) : List Char :=
  if awkNumber (awkField 3 line) > 0 then awkField 3 line else awkField 4 line

/-- `printf ".globl %s\n.zerofill __DATA,__common,%s,%d,4\n", $1, $1, size` -/
def zerofill (symbol : List Char) (size : Nat) : List Char :=
  ".globl ".toList ++ symbol ++ "\n.zerofill __DATA,__common,".toList ++
    symbol ++ ",".toList ++ (toString size).toList ++ ",4\n".toList

/-- The file `commons.s`: what `awk '$2 == "C" { … }'` prints. -/
def commonsS (nm : List Char) : List Char :=
  (splitLines '\n' nm).flatMap fun line =>
    if awkField 2 line = ['C'] then
      zerofill (awkField 1 line) (awkNumber (awkSize line))
    else []

/-- The last check: `nm -g … | awk '$2 == "C" { print $NF }'` may not print
anything. -/
def commonsGate (nm : List Char) : Except String Unit :=
  let commons := substitution ((splitLines '\n' nm).flatMap fun line =>
    if awkField 2 line = ['C'] then awkLast line ++ ['\n'] else [])
  if commons ≠ [] then
    .error ("    FATAL: external common symbols survived" ++
      " (would merge across cores):\n" ++ head 20 (printfLine commons))
  else .ok ()

/-! ## What they compute -/

/-- The size of a common symbol: in the first column after the letter, or in
the second if the first says nothing. -/
def PosixLine.commonSize (line : PosixLine) : Nat :=
  let value := awkNumber ((line.columns.map String.toList).getD 0 [])
  if value > 0 then value
  else awkNumber ((line.columns.map String.toList).getD 1 [])

/-- The common symbols of a listing with their sizes. -/
def commons (listing : List PosixLine) : List (String × Nat) :=
  (listing.filter fun line => line.letter = 'C').map fun line =>
    (line.symbol, line.commonSize)

/-- The directives that define some symbols. -/
def directives (definitions : List (String × Nat)) : List Char :=
  definitions.flatMap fun definition =>
    zerofill definition.1.toList definition.2

section PosixLine

variable {line : PosixLine} (symbolField : OneField line.symbol)

include symbolField

theorem fields_plain :
    ∀ field ∈ line.fields,
      field ≠ [] ∧ ∀ char ∈ field, isBlank char = false ∧ char ≠ '\n' := by
  intro field member
  rw [PosixLine.fields, List.mem_cons, List.mem_cons, List.mem_map] at member
  rcases member with rfl | rfl | ⟨column, isColumn, rfl⟩
  · exact ⟨by simpa using symbolField.1, symbolField.2⟩
  · exact ⟨by simp, by simpa using line.letterField⟩
  · have field := line.columnFields column isColumn
    exact ⟨by simpa using field.1, field.2⟩

theorem fields_text : Words.fields isBlank line.text = line.fields :=
  fields_intercalate (by decide) line.fields
    (fun field member => (fields_plain symbolField field member).1)
    fun field member char inField =>
      ((fields_plain symbolField field member).2 char inField).1

theorem newline_not_mem_text : '\n' ∉ line.text :=
  not_mem_intercalate (by decide) line.fields fun field member newline =>
    ((fields_plain symbolField field member).2 _ newline).2 rfl

/-- What the program of `awk` writes for a line. -/
theorem commonsS_text :
    (if awkField 2 line.text = ['C'] then
      zerofill (awkField 1 line.text) (awkNumber (awkSize line.text))
    else []) =
      if decide (line.letter = 'C') then
        zerofill line.symbol.toList line.commonSize
      else [] := by
  have second : awkField 2 line.text = [line.letter] := by
    rw [awkField, fields_text symbolField]
    rfl
  have first : awkField 1 line.text = line.symbol.toList := by
    rw [awkField, fields_text symbolField]
    rfl
  have size : awkNumber (awkSize line.text) = line.commonSize := by
    have third : awkField 3 line.text =
        (line.columns.map String.toList).getD 0 [] := by
      rw [awkField, fields_text symbolField]
      rfl
    have fourth : awkField 4 line.text =
        (line.columns.map String.toList).getD 1 [] := by
      rw [awkField, fields_text symbolField]
      rfl
    rw [awkSize, apply_ite awkNumber, third, fourth]
    rfl
  rw [second, first, size]
  simp

end PosixLine

/-- `awk` reads the lines of the listing. -/
theorem splitLines_posixOutput
    {listing : List PosixLine}
    (fields : ∀ line ∈ listing, OneField line.symbol) :
    splitLines '\n' (posixOutput listing) = listing.map PosixLine.text := by
  have output : posixOutput listing =
      (listing.map PosixLine.text).flatMap fun line => line ++ ['\n'] := by
    rw [posixOutput, List.flatMap_map]
  rw [output, splitLines_flatMap]
  exact eachLine_flatMap _ (List.forall_mem_map.mpr fun line member =>
    newline_not_mem_text (fields line member))

/-- The assembler file defines the common symbols of the listing with their
sizes, and nothing else. -/
theorem commonsS_posixOutput
    {listing : List PosixLine}
    (fields : ∀ line ∈ listing, OneField line.symbol) :
    commonsS (posixOutput listing) = directives (commons listing) := by
  rw [commonsS, splitLines_posixOutput fields, List.flatMap_map,
    List.flatMap_congr fun line member => commonsS_text (fields line member),
    directives, commons, List.flatMap_map]
  clear fields
  induction listing with
  | nil => rfl
  | cons line listing inductionHypothesis =>
      rw [List.flatMap_cons, inductionHypothesis, List.filter_cons]
      split <;> simp

/-! ## Sizes -/

/-- A number in decimal, maybe with zeros before it. -/
def Spells (text : String) (number : Nat) : Prop :=
  (∀ char ∈ text.toList, char.isDigit = true) ∧
    Nat.ofDigitChars 10 text.toList 0 = number

theorem awkNumber_of_spells
    {text : String}
    {number : Nat}
    (spells : Spells text number) :
    awkNumber text.toList = number := by
  rw [awkNumber, List.takeWhile_eq_self_iff.mpr spells.1]
  exact spells.2

theorem spells_toString (number : Nat) : Spells (toString number) number := by
  have digits : (toString number).toList = Nat.toDigits 10 number := by simp
  refine ⟨?_, ?_⟩
  · intro char member
    rw [digits] at member
    exact Nat.isDigit_of_mem_toDigits (by decide) (by decide) member
  · rw [digits, Nat.ofDigitChars_ten_toDigits]

/-- The columns that `nm -P` prints for a common symbol: the size stands in
place of a value, or it follows a value of zero. -/
inductive Sized (size : Nat) : List String → Prop
  | value
      {first : String}
      (more : List String)
      (spells : Spells first size) :
      Sized size (first :: more)
  | next
      {first second : String}
      (more : List String)
      (zero : Spells first 0)
      (spells : Spells second size) :
      Sized size (first :: second :: more)

/-- `awk` finds the size of a common symbol in either column. -/
theorem commonSize_of_sized
    {line : PosixLine}
    {size : Nat}
    (positive : 0 < size)
    (sized : Sized size line.columns) :
    line.commonSize = size := by
  rw [PosixLine.commonSize]
  cases columns : line.columns with
  | nil =>
      rw [columns] at sized
      cases sized
  | cons first later =>
      rw [columns] at sized
      cases sized with
      | value _ spells =>
          simp only [List.map_cons, List.getD_cons_zero,
            awkNumber_of_spells spells, gt_iff_lt, if_pos positive]
      | next _ zero spells =>
          simp only [List.map_cons, List.getD_cons_zero, List.getD_cons_succ,
            awkNumber_of_spells zero, awkNumber_of_spells spells, gt_iff_lt,
            Nat.lt_irrefl, if_false]

/-! ## The check for common symbols -/

theorem not_oneField_of_blank
    {text : String}
    (blank : ∀ char ∈ text.toList, isBlank char = true) :
    ¬ OneField text := by
  intro field
  have nonempty : text.toList ≠ [] := by simpa using field.1
  obtain ⟨char, member⟩ := List.exists_mem_of_ne_nil _ nonempty
  have clash := blank char member
  rw [(field.2 char member).1] at clash
  contradiction

/-- A line of `nm` for a symbol that is one field, with its value, or with
blanks for the value of an undefined symbol. -/
def NmLine.Columns (line : NmLine) : Prop :=
  OneField line.symbol ∧
    (OneField line.value ∨ ∀ char ∈ line.value.toList, isBlank char = true)

/-- The lines that `awk` takes for common symbols: the second field is the
letter, unless there is no value before it. -/
def NmLine.ReadsCommon (line : NmLine) : Prop :=
  (OneField line.value ∧ line.letter = 'C') ∨
    (¬ OneField line.value ∧ line.symbol = "C")

theorem awkField_two_text
    {line : NmLine}
    (columns : line.Columns) :
    awkField 2 line.text = ['C'] ↔ line.ReadsCommon := by
  have symbolField : Words.fields isBlank line.symbol.toList =
      [line.symbol.toList] :=
    fields_word (by simpa using columns.1.1)
      fun char member => (columns.1.2 char member).1
  have tail : Words.fields isBlank
      (line.letter :: ' ' :: line.symbol.toList) =
        [[line.letter], line.symbol.toList] := by
    rw [← List.singleton_append,
      fields_append (by decide) (by simp) (by simpa using line.letterVisible.1),
      symbolField]
  rw [awkField, NmLine.text, NmLine.ReadsCommon]
  rcases columns.2 with field | blank
  · have all : Words.fields isBlank
        (line.value.toList ++ ' ' :: line.letter :: ' ' :: line.symbol.toList) =
          [line.value.toList, [line.letter], line.symbol.toList] := by
      rw [fields_append (by decide) (by simpa using field.1)
        fun char member => (field.2 char member).1, tail]
    rw [all]
    simp [field]
  · have none := not_oneField_of_blank blank
    have all : Words.fields isBlank
        (line.value.toList ++ ' ' :: line.letter :: ' ' :: line.symbol.toList) =
          [[line.letter], line.symbol.toList] := by
      rw [fields_separators blank, ← List.nil_append (' ' :: _),
        List.nil_append, ← List.singleton_append,
        fields_separators (by simp [isBlank]), tail]
    rw [all]
    simp [none, ← String.toList_inj]

/-- The check passes if `awk` takes no line for a common symbol. -/
theorem commonsGate_eq_ok_iff
    {listing : List NmLine}
    (columns : ∀ line ∈ listing, line.Columns) :
    commonsGate (nmOutput listing) = .ok () ↔
      ∀ line ∈ listing, ¬ line.ReadsCommon := by
  have printed : ((splitLines '\n' (nmOutput listing)).flatMap fun line =>
      if awkField 2 line = ['C'] then awkLast line ++ ['\n'] else []) =
        listing.flatMap fun line =>
          if awkField 2 line.text = ['C'] then
            line.symbol.toList ++ ['\n']
          else [] := by
    rw [splitLines_nmOutput,
      eachLine_nmOutput fun line member => (columns line member).1,
      List.flatMap_map]
    exact List.flatMap_congr fun line member => by
      rw [awkLast_text (columns line member).1]
  have nothing : substitution (listing.flatMap fun line =>
      if awkField 2 line.text = ['C'] then
        line.symbol.toList ++ ['\n']
      else []) = [] ↔ ∀ line ∈ listing, ¬ line.ReadsCommon := by
    rw [substitution, List.rdropWhile_eq_nil_iff]
    constructor
    · intro newlines line member common
      have field := (columns line member).1
      have nonempty : line.symbol.toList ≠ [] := by simpa using field.1
      obtain ⟨char, inSymbol⟩ := List.exists_mem_of_ne_nil _ nonempty
      have isNewline := newlines char (List.mem_flatMap.mpr ⟨line, member, by
        rw [if_pos ((awkField_two_text (columns line member)).mpr common)]
        exact List.mem_append_left _ inSymbol⟩)
      exact (field.2 char inSymbol).2 (by simpa using isNewline)
    · intro noCommon char inOutput
      obtain ⟨line, member, inLine⟩ := List.mem_flatMap.mp inOutput
      rw [if_neg fun common => noCommon line member
        ((awkField_two_text (columns line member)).mp common)] at inLine
      exact absurd inLine List.not_mem_nil
  rw [commonsGate, printed, ← nothing]
  split <;> simp_all

end Build
end LibretroLab
