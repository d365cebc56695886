import Mathlib.Data.Finset.Card
import Mathlib.Data.Multiset.UnionInter
import LibretroLab.Library.Pipe
import LibretroLab.Library.Words
import LibretroLab.Registry.Shim

/-!
# The hiding gate

After `nmedit` and `ld -r` have made everything but the wrappers private,
`tools/build-cores.sh` looks at the defined external symbols of the core's
object and ends the build unless there are 25 of them, the wrapper of
`retro_run` is one, and neither `_retro_run` nor `_filestream_open` is. The
other wrappers are not looked for by name. What the checks read are the last
fields of the lines, and `set -o pipefail` makes two of them depend on whether
`grep -q` leaves before `printf` has written everything.
-/

namespace LibretroLab
namespace Build

open Registry (EntryPoint exported isIdentifier prefixedSymbol)
open Words

/-- The name of a core. It is a C identifier, so in a pattern of `grep` it
stands for itself. -/
abbrev CoreName := { name : String // isIdentifier name = true }

/-- The characters between the fields of `awk`. -/
def isBlank (char : Char) : Bool := char = ' ' || char = '\t'

/-- A text that `awk` reads as one field. -/
def OneField (text : String) : Prop :=
  text ≠ "" ∧ ∀ char ∈ text.toList, isBlank char = false ∧ char ≠ '\n'

instance : DecidablePred OneField := fun text =>
  decidable_of_iff
    (text ≠ "" ∧
      text.toList.all (fun char => !isBlank char && char ≠ '\n') = true)
    (by simp [OneField])

/-- What `nm -g --defined-only` prints of a symbol: its value, its type letter
and its name, which may be any text. -/
structure NmLine where
  value : String
  letter : Char
  symbol : String
  valueOneLine : '\n' ∉ value.toList
  letterVisible : isBlank letter = false ∧ letter ≠ '\n'

namespace NmLine

/-- The text without the newline at its end. -/
def text (line : NmLine) : List Char :=
  line.value.toList ++ ' ' :: line.letter :: ' ' :: line.symbol.toList

end NmLine

/-- What `nm` prints. -/
def nmOutput (listing : List NmLine) : List Char :=
  listing.flatMap fun line => line.text ++ ['\n']

/-! ## The commands of the gate -/

/-- `$NF`: the last field of a line, or the whole line if it has no fields. -/
def awkLast (line : List Char) : List Char :=
  if line.all isBlank then line else lastWord isBlank line

/-- `awk '{print $NF}'` -/
def awkLastField (input : List Char) : List Char :=
  (splitLines '\n' input).flatMap fun line => awkLast line ++ ['\n']

/-- `"$(…)"`: the output of a command without the newlines at its end. -/
def substitution (output : List Char) : List Char :=
  output.rdropWhile (· = '\n')

/-- `printf '%s\n' "$…"` -/
def printfLine (value : List Char) : List Char := value ++ ['\n']

/-- `grep -c .`: the number of lines with a character. -/
def grepCount (input : List Char) : Nat :=
  (splitLines '\n' input).countP (· ≠ [])

/-- Is the whole line one of the alternatives of the pattern? -/
def isOneOf (alternatives : List String) (line : List Char) : Bool :=
  alternatives.any fun pattern => pattern.toList = line

/-- Whether `printf '%s\n' "$…" | grep -qx …` succeeds. `grep` leaves at the
first line that matches. If `printf` has lines left to write, it may be cut off
by SIGPIPE, and under `pipefail` the pipeline fails although the line is
there. -/
def grepQuiet
    (cutOff : Bool)
    (alternatives : List String)
    (input : List Char) :
    Bool :=
  match (splitLines '\n' input).dropWhile fun line =>
      !isOneOf alternatives line with
  | [] => false
  | _ :: after => after.isEmpty || !cutOff

/-- Whether `printf` is cut off, where it can be, while the gate looks for the
wrapper of `retro_run` and while it looks for unprefixed symbols. -/
structure CutOff where
  run : Bool
  leaked : Bool

/-- `head -n <count>` -/
def head (count : Nat) (input : List Char) : String :=
  String.ofList ((wholeLines '\n' input).take count).flatten

/-- `printf '%s\n' "$defined"`, where `defined` is the output of `nm` cut down
to the symbols. -/
def printDefined (nm : List Char) : List Char :=
  printfLine (substitution (awkLastField nm))

/-- The message if the wrapper of `retro_run` is not found. -/
def runMissing (name : CoreName) : String :=
  "    FATAL: _" ++ name.1 ++ "_retro_run missing\n"

/-- The checks, with what they print before they end the build. -/
def hidingGate
    (cutOff : CutOff)
    (name : CoreName)
    (nm : List Char) :
    Except String Unit :=
  let n := grepCount (printDefined nm)
  if n ≠ 25 then
    .error ("    FATAL: expected exactly 25 exported symbols, got " ++
      toString n ++ ":\n" ++ head 40 (printDefined nm))
  else if !grepQuiet cutOff.run ["_" ++ name.1 ++ "_retro_run"]
      (printDefined nm) then
    .error (runMissing name)
  else if grepQuiet cutOff.leaked ["_retro_run", "_filestream_open"]
      (printDefined nm) then
    .error "    FATAL: unprefixed symbols leaked past nmedit\n"
  else .ok ()

/-- The two outcomes that a pipeline is given are those it can have, whatever
the order in which `printf` and `grep` take their steps. -/
theorem grepQuiet_iff_ends
    (alternatives : List String)
    (input : List Char)
    (succeeds : Bool) :
    (∃ cutOff, grepQuiet cutOff alternatives input = succeeds) ↔
      ∃ printf grep,
        Pipe.Ends (isOneOf alternatives) (splitLines '\n' input) printf grep ∧
          succeeds = (printf = .finished && grep = .found) := by
  simp only [grepQuiet, Pipe.ends_iff]
  cases (splitLines '\n' input).dropWhile fun line =>
      !isOneOf alternatives line with
  | nil =>
      constructor
      · rintro ⟨_, rfl⟩
        exact ⟨.finished, .notFound, ⟨rfl, rfl⟩, rfl⟩
      · rintro ⟨_, _, ⟨rfl, rfl⟩, rfl⟩
        exact ⟨false, rfl⟩
  | cons found after =>
      constructor
      · rintro ⟨cutOff, rfl⟩
        by_cases cut : after ≠ [] ∧ cutOff = true
        · exact ⟨.killed, .found, ⟨rfl, .inr ⟨rfl, cut.1⟩⟩, by simp [cut]⟩
        · refine ⟨.finished, .found, ⟨rfl, .inl rfl⟩, ?_⟩
          rw [not_and_or, not_not, Bool.not_eq_true] at cut
          simpa using cut
      · rintro ⟨_, _, ⟨rfl, rfl | ⟨rfl, more⟩⟩, rfl⟩
        · exact ⟨false, by simp⟩
        · exact ⟨true, by simpa using more⟩

/-! ## What the checks read -/

/-- The symbols of a listing, in order. -/
def symbols (listing : List NmLine) : List String :=
  listing.map NmLine.symbol

/-- What `awk` prints of the lines of `nm`. A symbol with blanks in it shows its
last word only, and one with newlines makes several lines. -/
def lastWords (listing : List NmLine) : List (List Char) :=
  (splitLines '\n' (nmOutput listing)).map awkLast

/-- The words that are not empty. -/
def printedWords (listing : List NmLine) : List (List Char) :=
  (lastWords listing).filter (· ≠ [])

/-- The lines of `nm` all end with a newline. -/
theorem splitLines_nmOutput (listing : List NmLine) :
    splitLines '\n' (nmOutput listing) = eachLine '\n' (nmOutput listing) := by
  have output : nmOutput listing =
      (listing.map NmLine.text).flatMap fun line => line ++ ['\n'] := by
    rw [nmOutput, List.flatMap_map]
  rw [output]
  exact splitLines_flatMap '\n' _

theorem newline_not_mem_lastWords (listing : List NmLine) :
    ∀ word ∈ lastWords listing, '\n' ∉ word := by
  rw [lastWords, splitLines_nmOutput, List.forall_mem_map]
  intro line member newline
  rw [awkLast] at newline
  split at newline
  · exact newline_not_mem_eachLine member newline
  · exact newline_not_mem_eachLine member (mem_of_mem_lastWord newline)

/-- The last field of a line is its symbol, if that is one field. -/
theorem awkLast_text
    {line : NmLine}
    (field : OneField line.symbol) :
    awkLast line.text = line.symbol.toList := by
  have split : line.text =
      (line.value.toList ++ [' ', line.letter]) ++
        ' ' :: line.symbol.toList := by
    simp [NmLine.text]
  have hasFields : line.text.all isBlank = false := by
    rw [List.all_eq_false]
    exact ⟨line.letter, by simp [NmLine.text], by simp [line.letterVisible.1]⟩
  rw [awkLast, hasFields, if_neg (by simp), split]
  exact lastWord_append (by decide) (by simpa using field.1)
    (fun char member => (field.2 char member).1) _

/-- `awk` reads the lines of the listing. -/
theorem eachLine_nmOutput
    {listing : List NmLine}
    (fields : ∀ line ∈ listing, OneField line.symbol) :
    eachLine '\n' (nmOutput listing) = listing.map NmLine.text := by
  have output : nmOutput listing =
      (listing.map NmLine.text).flatMap fun line => line ++ ['\n'] := by
    rw [nmOutput, List.flatMap_map]
  rw [output]
  apply eachLine_flatMap
  rw [List.forall_mem_map]
  intro line member
  have notInSymbol : '\n' ∉ line.symbol.toList := fun newline =>
    ((fields line member).2 '\n' newline).2 rfl
  simp [NmLine.text, line.valueOneLine, notInSymbol,
    Ne.symm line.letterVisible.2]

/-- Symbols that are single fields are what `awk` prints. -/
theorem lastWords_of_oneField
    {listing : List NmLine}
    (fields : ∀ symbol ∈ symbols listing, OneField symbol) :
    lastWords listing = (symbols listing).map String.toList := by
  rw [symbols, List.forall_mem_map] at fields
  rw [lastWords, splitLines_nmOutput, eachLine_nmOutput fields, symbols,
    List.map_map, List.map_map]
  exact List.map_congr_left fun line member => awkLast_text (fields line member)

/-- The checks read the last words, without the empty ones at the end, and an
empty line if nothing is left. -/
theorem splitLines_printDefined (listing : List NmLine) :
    splitLines '\n' (printDefined (nmOutput listing)) =
      if (lastWords listing).rdropWhile (· = []) = [] then [[]]
      else (lastWords listing).rdropWhile (· = []) := by
  have words : awkLastField (nmOutput listing) =
      (lastWords listing).flatMap fun word => word ++ ['\n'] := by
    rw [awkLastField, lastWords, List.flatMap_map]
  rw [printDefined, words, printfLine, splitLines_concat]
  exact eachLine_rdropWhile _ (newline_not_mem_lastWords listing)

/-- The count is that of the words that are not empty. -/
theorem grepCount_printDefined (listing : List NmLine) :
    grepCount (printDefined (nmOutput listing)) =
      (printedWords listing).length := by
  have kept := filter_rdropWhile (fun word : List Char => decide (word = []))
    (lastWords listing)
  simp only [← decide_not] at kept
  rw [grepCount, splitLines_printDefined, List.countP_eq_length_filter,
    printedWords, ← kept]
  split_ifs with empty
  · rw [empty]
    rfl
  · rfl

/-- A search among words finds one of the alternatives: some word is one, and if
the search may cut off what is printed after it, nothing is. -/
def Finds
    (cutOff : Bool)
    (alternatives : List String)
    (words : List (List Char)) :
    Prop :=
  ∃ found after,
    (words.dropWhile fun word => !isOneOf alternatives word) = found :: after ∧
      (cutOff = true → ∀ word ∈ after, word = [])

/-- A pipeline of the gate succeeds if its search finds something. -/
theorem grepQuiet_printDefined
    {alternatives : List String}
    (nonempty : "" ∉ alternatives)
    (cutOff : Bool)
    (listing : List NmLine) :
    grepQuiet cutOff alternatives (printDefined (nmOutput listing)) = true ↔
      Finds cutOff alternatives (lastWords listing) := by
  have passesEmpty : isOneOf alternatives [] = false := by
    rw [isOneOf, List.any_eq_false]
    intro pattern member isEmpty
    rw [decide_eq_true_eq, String.toList_eq_nil_iff] at isEmpty
    exact nonempty (isEmpty ▸ member)
  have searched : (splitLines '\n' (printDefined (nmOutput listing))).dropWhile
      (fun word => !isOneOf alternatives word) =
        ((lastWords listing).dropWhile fun word =>
          !isOneOf alternatives word).rdropWhile (· = []) := by
    rw [splitLines_printDefined, ← dropWhile_rdropWhile (by simp [passesEmpty])]
    split_ifs with empty
    · rw [empty, List.dropWhile_cons_of_pos (by simp [passesEmpty])]
    · rfl
  rw [grepQuiet, searched, Finds]
  cases rest : (lastWords listing).dropWhile fun word =>
      !isOneOf alternatives word with
  | nil => simp
  | cons found after =>
      have isFound := List.head?_dropWhile_not
        (fun word => !isOneOf alternatives word) (lastWords listing)
      rw [rest, List.head?_cons] at isFound
      have someWord : found ≠ [] := by
        rintro rfl
        simp [passesEmpty] at isFound
      rw [rdropWhile_cons, if_neg fun both => someWord (by simpa using both.1)]
      cases cutOff <;> simp

/-- The build goes on exactly if there are 25 words, the wrapper of `retro_run`
is found among them and neither of the two unprefixed names is. -/
theorem hidingGate_eq_ok_iff
    (cutOff : CutOff)
    (name : CoreName)
    (listing : List NmLine) :
    hidingGate cutOff name (nmOutput listing) = .ok () ↔
      (printedWords listing).length = 25 ∧
        Finds cutOff.run ["_" ++ name.1 ++ "_retro_run"] (lastWords listing) ∧
          ¬Finds cutOff.leaked ["_retro_run", "_filestream_open"]
            (lastWords listing) := by
  have run := grepQuiet_printDefined
    (show "" ∉ ["_" ++ name.1 ++ "_retro_run"] by simp) cutOff.run listing
  have leaked := grepQuiet_printDefined
    (show "" ∉ ["_retro_run", "_filestream_open"] by simp) cutOff.leaked
    listing
  rw [hidingGate, grepCount_printDefined, ← run, ← leaked]
  generalize (printedWords listing).length = count
  split_ifs with differs missing present
  · simp [differs]
  · simp [Bool.not_eq_true' _ ▸ missing]
  · simp [present]
  · rw [Bool.not_eq_true', Bool.not_eq_false] at missing
    simp [not_not.mp differs, missing, present]

/-! ## What the gate promises -/

/-- The list of a core names each wrapper once. -/
theorem exported_nodup (name : String) : (exported name).Nodup := by
  rw [Registry.exported_eq]
  apply Registry.EntryPoint.nodup_all.map
  intro f f' equal
  have same := congrArg String.toList equal
  simp only [String.toList_append, List.append_cancel_left_eq,
    String.toList_inj] at same
  exact (Registry.prefixedSymbol_inj same).2

theorem length_exported (name : String) : (exported name).length = 25 := by
  rw [exported, List.length_map]
  rfl

theorem run_mem_exported (name : String) :
    "_" ++ name ++ "_retro_run" ∈ exported name := by
  simp [exported, Registry.retroApi, String.append_assoc]

theorem cName_isIdentifierPart :
    ∀ f : EntryPoint, f.cName.toList.all Registry.isIdentifierPart = true := by
  decide +kernel

/-- The wrappers of a core are identifiers. -/
theorem isIdentifier_of_mem_exported (name : CoreName) :
    ∀ symbol ∈ exported name.1, isIdentifier symbol = true := by
  intro symbol member
  rw [Registry.exported_eq] at member
  obtain ⟨f, _, rfl⟩ := List.mem_map.mp member
  have spelled : ("_" ++ prefixedSymbol name.1 f).toList =
      '_' :: (name.1.toList ++ '_' :: f.cName.toList) := by
    rw [String.toList_append, Registry.toList_prefixedSymbol]
    rfl
  rw [isIdentifier, spelled]
  simp only [Bool.and_eq_true, List.all_append, List.all_cons,
    List.all_eq_true]
  exact ⟨rfl, fun char => Registry.isIdentifierPart_of_mem name.2, rfl,
    List.all_eq_true.mp (cName_isIdentifierPart f)⟩

theorem oneField_of_isIdentifier
    {symbol : String}
    (identifier : isIdentifier symbol = true) :
    OneField symbol := by
  refine ⟨?_, ?_⟩
  · rintro rfl
    contradiction
  · intro char member
    have part := Registry.isIdentifierPart_of_mem identifier member
    refine ⟨?_, ?_⟩
    · by_contra blank
      rw [Bool.not_eq_false, isBlank, Bool.or_eq_true, decide_eq_true_eq,
        decide_eq_true_eq] at blank
      rcases blank with rfl | rfl
      all_goals contradiction
    · rintro rfl
      contradiction

/-- What follows the core's name has two underscores or more. -/
theorem two_le_count_tail : ∀ f : EntryPoint, 2 ≤ f.tail.count '_' := by
  decide +kernel

/-- A wrapper's name has three underscores or more. -/
theorem not_mem_exported
    {symbol : String}
    (fewUnderscores : symbol.toList.count '_' ≤ 2)
    (name : String) :
    symbol ∉ exported name := by
  rw [Registry.exported_eq, List.mem_map]
  rintro ⟨f, _, rfl⟩
  have tail := two_le_count_tail f
  rw [String.toList_append, Registry.toList_prefixedSymbol, List.count_append,
    List.count_append] at fewUnderscores
  have first : "_".toList.count '_' = 1 := by decide
  omega

theorem retro_run_not_mem_exported (name : String) :
    "_retro_run" ∉ exported name :=
  not_mem_exported (by decide) name

theorem filestream_open_not_mem_exported (name : String) :
    "_filestream_open" ∉ exported name :=
  not_mem_exported (by decide) name

/-- The external symbols that are no wrapper of the core. -/
def foreign (name : CoreName) (listing : List NmLine) : Finset String :=
  (symbols listing).toFinset \ (exported name.1).toFinset

/-- The wrappers that are not among the external symbols. -/
def missing (name : CoreName) (listing : List NmLine) : Finset String :=
  (exported name.1).toFinset \ (symbols listing).toFinset

/-- The words that are no wrappers of the core, or repeat one. -/
def foreignWords (name : CoreName) (listing : List NmLine) :
    Multiset (List Char) :=
  ↑(printedWords listing) - ↑((exported name.1).map String.toList)

/-- The wrappers that are not among the words. -/
def missingWords (name : CoreName) (listing : List NmLine) :
    Multiset (List Char) :=
  ↑((exported name.1).map String.toList) - ↑(printedWords listing)

/-- The gate passes a core that is not properly hidden: other symbols are there,
but there are as many foreign words as missing ones, the wrapper of `retro_run`
is found among the words, and no unprefixed name is. -/
structure Replaced
    (cutOff : CutOff)
    (name : CoreName)
    (listing : List NmLine) :
    Prop where
  leaked : (foreign name listing).Nonempty
  asMany :
    (foreignWords name listing).card = (missingWords name listing).card
  runFound :
    Finds cutOff.run ["_" ++ name.1 ++ "_retro_run"] (lastWords listing)
  noLeakFound :
    ¬Finds cutOff.leaked ["_retro_run", "_filestream_open"] (lastWords listing)

/-- The gate stops a core that is properly hidden: `printf` is cut off when the
wrapper of `retro_run` has been found before the last line. -/
structure Interrupted
    (cutOff : CutOff)
    (name : CoreName)
    (listing : List NmLine) :
    Prop where
  hidden : (symbols listing).toFinset = (exported name.1).toFinset
  cutOff : cutOff.run = true
  notLast : (symbols listing).getLast? ≠ some ("_" ++ name.1 ++ "_retro_run")

/-- Symbols that are single fields make one word each. -/
theorem count_of_oneField
    {listing : List NmLine}
    (fields : ∀ symbol ∈ symbols listing, OneField symbol) :
    (printedWords listing).length = (symbols listing).length := by
  rw [printedWords, lastWords_of_oneField fields, List.filter_eq_self.mpr,
    List.length_map]
  rw [List.forall_mem_map]
  exact fun symbol member => by simpa using (fields symbol member).1

/-- Without foreign symbols all symbols are single fields. -/
theorem oneField_of_subset
    {name : CoreName}
    {listing : List NmLine}
    (subset : (symbols listing).toFinset ⊆ (exported name.1).toFinset) :
    ∀ symbol ∈ symbols listing, OneField symbol := by
  intro symbol member
  have isWrapper := subset (List.mem_toFinset.mpr member)
  exact oneField_of_isIdentifier (isIdentifier_of_mem_exported name symbol
    (List.mem_toFinset.mp isWrapper))

/-- Twenty-five words mean as many foreign ones as missing ones. -/
theorem length_printedWords_iff (name : CoreName) (listing : List NmLine) :
    (printedWords listing).length = 25 ↔
      (foreignWords name listing).card = (missingWords name listing).card := by
  have printed := congrArg Multiset.card (Multiset.sub_add_inter
    (printedWords listing : Multiset (List Char))
    ((exported name.1).map String.toList))
  have wrappers := congrArg Multiset.card (Multiset.sub_add_inter
    ((exported name.1).map String.toList : Multiset (List Char))
    (printedWords listing))
  rw [Multiset.inter_comm, Multiset.card_add, Multiset.coe_card,
    List.length_map, length_exported] at wrappers
  rw [Multiset.card_add, Multiset.coe_card] at printed
  rw [foreignWords, missingWords, ← printed, ← wrappers]
  exact Nat.add_right_cancel_iff

/-- For symbols that are single fields, as many foreign words as missing ones
mean as many foreign symbols as missing ones. -/
theorem asMany_iff
    (name : CoreName)
    {listing : List NmLine}
    (fields : ∀ symbol ∈ symbols listing, OneField symbol)
    (distinct : (symbols listing).Nodup) :
    (foreignWords name listing).card = (missingWords name listing).card ↔
      (foreign name listing).card = (missing name listing).card := by
  rw [← length_printedWords_iff, count_of_oneField fields, foreign, missing,
    Finset.card_sdiff_eq_card_sdiff_iff,
    List.toFinset_card_of_nodup distinct,
    List.toFinset_card_of_nodup (exported_nodup name.1), length_exported]

/-- A line that is a whole symbol matches the alternatives that it is one of. -/
theorem isOneOf_toList_iff (alternatives : List String) (symbol : String) :
    isOneOf alternatives symbol.toList = true ↔ symbol ∈ alternatives := by
  simp [isOneOf, String.toList_inj]

theorem isOneOf_toList_eq_false_iff
    (alternatives : List String)
    (symbol : String) :
    isOneOf alternatives symbol.toList = false ↔ symbol ∉ alternatives := by
  rw [← Bool.not_eq_true, isOneOf_toList_iff]

/-- What is not among the words is not found. -/
theorem not_finds_map_toList
    {alternatives names : List String}
    (absent : ∀ pattern ∈ alternatives, pattern ∉ names)
    (cutOff : Bool) :
    ¬Finds cutOff alternatives (names.map String.toList) := by
  rintro ⟨found, after, rest, _⟩
  rw [List.dropWhile_eq_nil_iff.mpr] at rest
  · contradiction
  · rw [List.forall_mem_map]
    intro symbol member
    rw [Bool.not_eq_true', isOneOf_toList_eq_false_iff]
    exact fun isPattern => absent symbol isPattern member

/-- No word follows a symbol exactly if it is the last one. -/
theorem nothing_after_iff
    {symbol : String}
    {after : List String}
    (nonempty : "" ∉ after)
    (notAfter : symbol ∉ after)
    (before : List String) :
    (∀ word ∈ after.map String.toList, word = []) ↔
      (before ++ symbol :: after).getLast? = some symbol := by
  cases after using List.reverseRecOn with
  | nil => simp
  | append_singleton start last =>
      have isLast : last ≠ symbol := by
        rintro rfl
        exact notAfter (by simp)
      have someWord : last ≠ "" := by
        rintro rfl
        exact nonempty (by simp)
      refine iff_of_false (fun empty => someWord ?_) ?_
      · exact String.toList_eq_nil_iff.mp (empty last.toList
          (List.mem_map_of_mem (List.mem_append_right _ (by simp))))
      · rw [← List.cons_append, ← List.append_assoc, List.getLast?_concat]
        simpa using isLast

/-- Among words that are printed whole, a search finds a symbol exactly if it is
there, and is the last one if the search may be cut off. -/
theorem finds_map_toList_iff
    {names : List String}
    (nonempty : "" ∉ names)
    (distinct : names.Nodup)
    (cutOff : Bool)
    (symbol : String) :
    Finds cutOff [symbol] (names.map String.toList) ↔
      symbol ∈ names ∧ (cutOff = true → names.getLast? = some symbol) := by
  by_cases member : symbol ∈ names
  · obtain ⟨before, after, rfl, notBefore⟩ :=
      List.eq_append_cons_of_mem member
    have notAfter : symbol ∉ after := by
      rw [List.nodup_append'] at distinct
      exact (List.nodup_cons.mp distinct.2.1).1
    have nonemptyAfter : "" ∉ after := fun inAfter =>
      nonempty (List.mem_append_right _ (List.mem_cons_of_mem _ inAfter))
    have unwanted : ∀ word ∈ before.map String.toList,
        isOneOf [symbol] word = false := by
      rw [List.forall_mem_map]
      intro other inBefore
      rw [isOneOf_toList_eq_false_iff, List.mem_singleton]
      rintro rfl
      exact notBefore inBefore
    have isWanted : isOneOf [symbol] symbol.toList = true :=
      (isOneOf_toList_iff _ _).mpr (List.mem_singleton_self _)
    rw [Finds, List.map_append, List.map_cons,
      Pipe.dropWhile_unwanted unwanted isWanted, and_iff_right member,
      ← nothing_after_iff nonemptyAfter notAfter before]
    simp
  · refine iff_of_false (not_finds_map_toList ?_ cutOff) fun found =>
      member found.1
    rwa [List.forall_mem_singleton]

/-- The gate passes a core that is not properly hidden exactly if wrappers have
been replaced. -/
theorem passes_and_differs_iff
    (cutOff : CutOff)
    (name : CoreName)
    {listing : List NmLine}
    (distinct : (symbols listing).Nodup) :
    hidingGate cutOff name (nmOutput listing) = .ok () ∧
        (symbols listing).toFinset ≠ (exported name.1).toFinset ↔
      Replaced cutOff name listing := by
  have asMany := length_printedWords_iff name listing
  rw [hidingGate_eq_ok_iff]
  constructor
  · rintro ⟨⟨twentyFive, runFound, noLeakFound⟩, differs⟩
    refine ⟨?_, asMany.mp twentyFive, runFound, noLeakFound⟩
    rw [Finset.nonempty_iff_ne_empty]
    intro noForeign
    have subset := Finset.sdiff_eq_empty_iff_subset.mp noForeign
    rw [count_of_oneField (oneField_of_subset subset)] at twentyFive
    apply differs
    apply Finset.eq_of_subset_of_card_le subset
    rw [List.toFinset_card_of_nodup (exported_nodup name.1), length_exported,
      List.toFinset_card_of_nodup distinct, twentyFive]
  · intro replaced
    refine ⟨⟨asMany.mpr replaced.asMany, replaced.runFound,
      replaced.noLeakFound⟩, ?_⟩
    intro same
    have leaked := replaced.leaked
    rw [foreign, same, Finset.sdiff_self] at leaked
    exact Finset.not_nonempty_empty leaked

/-- A search that `printf` survives finds an alternative exactly if one is
printed. -/
theorem finds_false_iff (alternatives names : List String) :
    Finds false alternatives (names.map String.toList) ↔
      ∃ pattern ∈ alternatives, pattern ∈ names := by
  have nothing : ((names.map String.toList).dropWhile fun word =>
      !isOneOf alternatives word) = [] ↔
        ∀ pattern ∈ alternatives, pattern ∉ names := by
    rw [List.dropWhile_eq_nil_iff, List.forall_mem_map]
    simp only [Bool.not_eq_true', isOneOf_toList_eq_false_iff]
    exact ⟨fun differ pattern isPattern member =>
        differ pattern member isPattern,
      fun absent symbol member isPattern => absent symbol isPattern member⟩
  rw [Finds]
  simp only [Bool.false_eq_true, false_implies, and_true]
  rw [← List.ne_nil_iff_exists_cons, ne_eq, nothing]
  simp

/-- If `printf` is not cut off and all symbols are single fields: as many other
symbols as there are wrappers missing, `retro_run` still among the wrappers, and
no unprefixed name. -/
theorem replaced_uncut_iff
    (name : CoreName)
    {listing : List NmLine}
    (fields : ∀ symbol ∈ symbols listing, OneField symbol)
    (distinct : (symbols listing).Nodup) :
    Replaced ⟨false, false⟩ name listing ↔
      (foreign name listing).Nonempty ∧
        (foreign name listing).card = (missing name listing).card ∧
        "_" ++ name.1 ++ "_retro_run" ∈ symbols listing ∧
        "_retro_run" ∉ symbols listing ∧
        "_filestream_open" ∉ symbols listing := by
  have same := asMany_iff name fields distinct
  have words := lastWords_of_oneField fields
  constructor
  · rintro ⟨leaked, asMany, runFound, noLeakFound⟩
    rw [words, finds_false_iff] at runFound noLeakFound
    exact ⟨leaked, same.mp asMany, by simpa using runFound,
      by simpa using noLeakFound⟩
  · rintro ⟨leaked, cards, run, noLeak⟩
    refine ⟨leaked, same.mpr cards, ?_, ?_⟩
    · rw [words, finds_false_iff]
      exact ⟨_, List.mem_singleton_self _, run⟩
    · rw [words, finds_false_iff]
      simpa using noLeak

/-- A properly hidden core passes, unless `printf` is cut off. -/
theorem hidingGate_of_hidden
    (cutOff : CutOff)
    {name : CoreName}
    {listing : List NmLine}
    (distinct : (symbols listing).Nodup)
    (hidden : (symbols listing).toFinset = (exported name.1).toFinset) :
    hidingGate cutOff name (nmOutput listing) =
      if cutOff.run = true ∧ (symbols listing).getLast? ≠
          some ("_" ++ name.1 ++ "_retro_run") then
        .error (runMissing name)
      else .ok () := by
  have fields := oneField_of_subset hidden.subset
  have isListed (symbol : String) :
      symbol ∈ symbols listing ↔ symbol ∈ exported name.1 := by
    rw [← List.mem_toFinset, hidden, List.mem_toFinset]
  have twentyFive : grepCount (printDefined (nmOutput listing)) = 25 := by
    rw [grepCount_printDefined, count_of_oneField fields,
      ← List.toFinset_card_of_nodup distinct, hidden,
      List.toFinset_card_of_nodup (exported_nodup name.1), length_exported]
  have run : grepQuiet cutOff.run ["_" ++ name.1 ++ "_retro_run"]
      (printDefined (nmOutput listing)) = true ↔
        ¬(cutOff.run = true ∧ (symbols listing).getLast? ≠
          some ("_" ++ name.1 ++ "_retro_run")) := by
    rw [grepQuiet_printDefined (by simp), lastWords_of_oneField fields,
      finds_map_toList_iff (fun member => (fields _ member).1 rfl) distinct,
      isListed, and_iff_right (run_mem_exported name.1)]
    simp
  have absent : ∀ pattern ∈ ["_retro_run", "_filestream_open"],
      pattern ∉ symbols listing := by
    simp [isListed, retro_run_not_mem_exported,
      filestream_open_not_mem_exported]
  have noLeak : grepQuiet cutOff.leaked ["_retro_run", "_filestream_open"]
      (printDefined (nmOutput listing)) = false := by
    rw [← Bool.not_eq_true, grepQuiet_printDefined (by simp),
      lastWords_of_oneField fields]
    exact not_finds_map_toList absent cutOff.leaked
  rw [hidingGate, if_neg (not_not.mpr twentyFive), noLeak]
  by_cases interrupted : cutOff.run = true ∧ (symbols listing).getLast? ≠
      some ("_" ++ name.1 ++ "_retro_run")
  · have notFound := run.not.mpr (not_not.mpr interrupted)
    rw [if_pos interrupted, if_pos (by simpa using notFound)]
  · rw [if_neg interrupted, run.mpr interrupted]
    rfl

/-- For distinct symbols, whatever `nm` prints of them, and whether or not
`printf` is cut off, passing the gate means to be properly hidden exactly unless
wrappers have been replaced or the gate has been interrupted. -/
theorem gate_passes_hidden_iff
    (cutOff : CutOff)
    (name : CoreName)
    (listing : List NmLine)
    (distinct : (symbols listing).Nodup) :
    (hidingGate cutOff name (nmOutput listing) = .ok () ↔
        (symbols listing).toFinset = (exported name.1).toFinset) ↔
      ¬Replaced cutOff name listing ∧ ¬Interrupted cutOff name listing := by
  rw [← passes_and_differs_iff cutOff name distinct]
  constructor
  · intro agrees
    refine ⟨fun both => both.2 (agrees.mp both.1), fun interrupted => ?_⟩
    have passes := agrees.mpr interrupted.hidden
    rw [hidingGate_of_hidden cutOff distinct interrupted.hidden,
      if_pos ⟨interrupted.cutOff, interrupted.notLast⟩] at passes
    cases passes
  · rintro ⟨notReplaced, notInterrupted⟩
    constructor
    · intro passes
      by_contra differs
      exact notReplaced ⟨passes, differs⟩
    · intro hidden
      rw [hidingGate_of_hidden cutOff distinct hidden, if_neg]
      exact fun both => notInterrupted ⟨hidden, both.1, both.2⟩

/-! ## The listings of two objects -/

theorem newline_not_mem_zeros : '\n' ∉ "0000000000000000".toList := by
  decide

/-- The line of a function. -/
def functionLine (symbol : String) : NmLine where
  value := "0000000000000000"
  letter := 'T'
  symbol := symbol
  valueOneLine := newline_not_mem_zeros
  letterVisible := by decide

/-- The listing of an object with these functions. -/
def functionListing (names : List String) : List NmLine :=
  names.map functionLine

theorem symbols_functionListing (names : List String) :
    symbols (functionListing names) = names := by
  rw [symbols, functionListing, List.map_map]
  exact List.map_id names

/-- The symbols of a core with a function of its zlib in place of the wrapper
of `retro_reset`. -/
def leakySymbols (name : CoreName) : List String :=
  "_inflate" :: (exported name.1).erase ("_" ++ name.1 ++ "_retro_reset")

theorem inflate_not_mem_exported (name : String) :
    "_inflate" ∉ exported name :=
  not_mem_exported (by decide) name

theorem leakySymbols_nodup (name : CoreName) : (leakySymbols name).Nodup := by
  rw [leakySymbols, List.nodup_cons]
  exact ⟨fun member =>
      inflate_not_mem_exported name.1 (List.mem_of_mem_erase member),
    (exported_nodup name.1).erase _⟩

/-- The symbols of the leaky object are single fields. -/
theorem oneField_of_mem_leakySymbols (name : CoreName) :
    ∀ symbol ∈ leakySymbols name, OneField symbol := by
  rw [leakySymbols, List.forall_mem_cons]
  exact ⟨by decide, fun symbol member => oneField_of_isIdentifier
    (isIdentifier_of_mem_exported name symbol (List.mem_of_mem_erase member))⟩

/-- The gate lets the build continue with the leaky object of any core, if
`printf` is not cut off. -/
theorem hidingGate_leakySymbols (name : CoreName) :
    hidingGate ⟨false, false⟩ name
      (nmOutput (functionListing (leakySymbols name))) = .ok () := by
  have listed := symbols_functionListing (leakySymbols name)
  have fields : ∀ symbol ∈ symbols (functionListing (leakySymbols name)),
      OneField symbol := by
    rw [listed]
    exact oneField_of_mem_leakySymbols name
  have reset : "_" ++ name.1 ++ "_retro_reset" ∈ exported name.1 := by
    simp [exported, Registry.retroApi, String.append_assoc]
  have kept : "_" ++ name.1 ++ "_retro_run" ∈ leakySymbols name := by
    refine List.mem_cons_of_mem _
      ((List.mem_erase_of_ne ?_).mpr (run_mem_exported name.1))
    rw [ne_eq, String.append_right_inj]
    decide
  have noOther : ∀ symbol, symbol ≠ "_inflate" → symbol ∉ exported name.1 →
      symbol ∉ leakySymbols name := by
    intro symbol differs notExported member
    rcases List.mem_cons.mp member with isInflate | inList
    · exact differs isInflate
    · exact notExported (List.mem_of_mem_erase inList)
  have noLeak : ∀ pattern ∈ ["_retro_run", "_filestream_open"],
      pattern ∉ leakySymbols name := by
    rw [List.forall_mem_cons, List.forall_mem_singleton]
    exact ⟨noOther _ (by decide) (retro_run_not_mem_exported name.1),
      noOther _ (by decide) (filestream_open_not_mem_exported name.1)⟩
  have nonempty : "" ∉ leakySymbols name := fun member =>
    (oneField_of_mem_leakySymbols name _ member).1 rfl
  rw [hidingGate_eq_ok_iff, count_of_oneField fields,
    lastWords_of_oneField fields, listed,
    finds_map_toList_iff nonempty (leakySymbols_nodup name)]
  refine ⟨?_, ⟨kept, by simp⟩, not_finds_map_toList noLeak _⟩
  rw [leakySymbols, List.length_cons, List.length_erase_of_mem reset,
    length_exported]

/-- The core `pce`. -/
def pce : CoreName := ⟨"pce", by decide⟩

/-- The object of `pce` as it should be, with `printf` cut off in the second
pipeline, where it does no harm. -/
theorem gate_passes_hidden_pce :
    hidingGate ⟨false, true⟩ pce (nmOutput (functionListing (exported "pce"))) =
        .ok () ↔
      (symbols (functionListing (exported "pce"))).toFinset =
        (exported "pce").toFinset := by
  have listed := symbols_functionListing (exported "pce")
  refine (gate_passes_hidden_iff ⟨false, true⟩ pce
    (functionListing (exported "pce")) (listed ▸ exported_nodup "pce")).mpr
      ⟨fun replaced => ?_, fun interrupted => by cases interrupted.cutOff⟩
  have leaked := replaced.leaked
  rw [foreign, listed] at leaked
  change ((exported "pce").toFinset \ (exported "pce").toFinset).Nonempty
    at leaked
  rw [Finset.sdiff_self] at leaked
  exact Finset.not_nonempty_empty leaked

/-- The leaky object of `pce` passes and is not properly hidden. -/
theorem gate_passes_leaky_pce :
    (symbols (functionListing (leakySymbols pce))).Nodup ∧
      ¬(hidingGate ⟨false, false⟩ pce
          (nmOutput (functionListing (leakySymbols pce))) = .ok () ↔
        (symbols (functionListing (leakySymbols pce))).toFinset =
          (exported "pce").toFinset) := by
  rw [symbols_functionListing]
  refine ⟨leakySymbols_nodup pce, ?_⟩
  intro agrees
  have same := agrees.mp (hidingGate_leakySymbols pce)
  have isExported : "_inflate" ∈ (exported "pce").toFinset := by
    rw [← same, List.mem_toFinset]
    exact List.mem_cons_self
  exact inflate_not_mem_exported "pce" (List.mem_toFinset.mp isExported)

end Build
end LibretroLab
