import Mathlib.Data.List.TakeWhile

/-!
# C strings

A C string is a sequence of non-zero bytes; the terminating NUL is implicit. A
string of Unicode scalars reaches C as its UTF-8 bytes up to the first NUL.
-/

namespace LibretroLab

/-- The bytes of a C string before its terminator. -/
structure CString where
  bytes : List UInt8
  noNul : ∀ byte ∈ bytes, byte ≠ 0
  deriving DecidableEq

namespace CString

theorem ext_bytes {left right : CString} (equal : left.bytes = right.bytes) :
    left = right := by
  cases left
  cases right
  simpa using equal

/-- The C string at a NUL-terminated buffer that starts with `bytes`. -/
def ofBytes (bytes : List UInt8) : CString where
  bytes := bytes.takeWhile (· ≠ 0)
  noNul byte member := by
    simpa using List.mem_takeWhile_imp member

/-- What C sees of a Unicode string passed as UTF-8 with a final NUL. -/
def ofString (text : String) : CString := ofBytes text.toUTF8.data.toList

/-- `strcmp`: the difference of the first bytes that differ, the terminator
counting as zero. -/
def strcmpBytes : List UInt8 → List UInt8 → Int
  | [], [] => 0
  | [], right :: _ => -(right.toNat : Int)
  | left :: _, [] => left.toNat
  | left :: lefts, right :: rights =>
      if left = right then strcmpBytes lefts rights
      else left.toNat - right.toNat

/-- `strcmp` on whole C strings. -/
def strcmp (left right : CString) : Int :=
  strcmpBytes left.bytes right.bytes

private theorem toNat_ne_zero {byte : UInt8} (nonzero : byte ≠ 0) :
    byte.toNat ≠ 0 := by
  intro equal
  exact nonzero (UInt8.toNat_inj.mp equal)

private theorem strcmpBytes_eq_zero_iff
    (left right : List UInt8)
    (leftNoNul : ∀ byte ∈ left, byte ≠ 0)
    (rightNoNul : ∀ byte ∈ right, byte ≠ 0) :
    strcmpBytes left right = 0 ↔ left = right := by
  induction left generalizing right with
  | nil =>
      cases right with
      | nil => simp [strcmpBytes]
      | cons head tail =>
          have nonzero := toNat_ne_zero (rightNoNul head List.mem_cons_self)
          simp only [strcmpBytes, reduceCtorEq, iff_false]
          omega
  | cons leftHead leftTail inductionHypothesis =>
      cases right with
      | nil =>
          have nonzero :=
            toNat_ne_zero (leftNoNul leftHead List.mem_cons_self)
          simp only [strcmpBytes, reduceCtorEq, iff_false]
          omega
      | cons head tail =>
          by_cases same : leftHead = head
          · subst same
            simp only [strcmpBytes, if_true, List.cons.injEq, true_and]
            exact inductionHypothesis tail
              (fun byte later =>
                leftNoNul byte (List.mem_cons_of_mem _ later))
              (fun byte later =>
                rightNoNul byte (List.mem_cons_of_mem _ later))
          · have differs : leftHead.toNat ≠ head.toNat :=
              fun equal => same (UInt8.toNat_inj.mp equal)
            simp only [strcmpBytes, same, if_false, List.cons.injEq,
              false_and, iff_false]
            omega

/-- `strcmp` answers zero exactly on equal strings. -/
theorem strcmp_eq_zero_iff (left right : CString) :
    strcmp left right = 0 ↔ left = right := by
  unfold strcmp
  rw [strcmpBytes_eq_zero_iff _ _ left.noNul right.noNul]
  exact ⟨ext_bytes, congrArg bytes⟩

/-! ## Text without U+0000 -/

private theorem ofNat_ne_zero
    {value : Nat}
    (positive : 0 < value)
    (small : value < 256) :
    UInt8.ofNat value ≠ 0 := by
  intro equal
  have values := congrArg UInt8.toNat equal
  rw [UInt8.toNat_ofNat_of_lt' (by simpa using small)] at values
  simp only [UInt8.toNat_zero] at values
  omega

/-- The byte zero encodes U+0000 and nothing else. -/
theorem utf8EncodeChar_ne_zero
    {char : Char}
    (notNul : char ≠ Char.ofNat 0)
    {byte : UInt8}
    (member : byte ∈ String.utf8EncodeChar char) :
    byte ≠ 0 := by
  have positive : 0 < char.val.toNat := by
    rcases Nat.eq_zero_or_pos char.val.toNat with zero | positive
    · exact absurd (Char.ext (UInt32.toNat_inj.mp zero)) notNul
    · exact positive
  unfold String.utf8EncodeChar at member
  dsimp only at member
  split_ifs at member <;>
    simp only [List.mem_cons, List.not_mem_nil, or_false] at member
  · subst member
    exact ofNat_ne_zero positive (by omega)
  · rcases member with rfl | rfl <;> exact ofNat_ne_zero (by omega) (by omega)
  · rcases member with rfl | rfl | rfl <;>
      exact ofNat_ne_zero (by omega) (by omega)
  · rcases member with rfl | rfl | rfl | rfl <;>
      exact ofNat_ne_zero (by omega) (by omega)

private theorem toUTF8_toList (text : String) :
    text.toUTF8.data.toList = text.toList.flatMap String.utf8EncodeChar := by
  change text.toByteArray.data.toList = _
  rw [← String.utf8Encode_toList, List.utf8Encode, List.data_toByteArray]

/-- Bytes are cut where the text has its first U+0000. -/
private theorem takeWhile_flatMap_utf8EncodeChar (chars : List Char) :
    (chars.flatMap String.utf8EncodeChar).takeWhile (· ≠ 0) =
      (chars.takeWhile (· ≠ Char.ofNat 0)).flatMap String.utf8EncodeChar := by
  induction chars with
  | nil => rfl
  | cons char rest inductionHypothesis =>
      by_cases isNul : char = Char.ofNat 0
      · have encoded : String.utf8EncodeChar char = [0] := by
          rw [isNul]
          rfl
        rw [List.flatMap_cons, encoded, List.singleton_append,
          List.takeWhile_cons_of_neg (by simp),
          List.takeWhile_cons_of_neg (by simpa using isNul), List.flatMap_nil]
      · have nonzero : ∀ byte ∈ String.utf8EncodeChar char,
            decide (byte ≠ 0) = true := by
          intro byte member
          exact decide_eq_true (utf8EncodeChar_ne_zero isNul member)
        rw [List.flatMap_cons, List.takeWhile_append_of_pos nonzero,
          List.takeWhile_cons_of_pos (by simpa using isNul),
          List.flatMap_cons, inductionHypothesis]

/-- The part of a text before its first U+0000. -/
def beforeNul (text : String) : String :=
  String.ofList (text.toList.takeWhile (· ≠ Char.ofNat 0))

theorem noNul_beforeNul (text : String) :
    ∀ char ∈ (beforeNul text).toList, char ≠ Char.ofNat 0 := by
  intro char member
  rw [beforeNul, String.toList_ofList] at member
  simpa using List.mem_takeWhile_imp member

theorem beforeNul_eq_self_iff (text : String) :
    beforeNul text = text ↔ ∀ char ∈ text.toList, char ≠ Char.ofNat 0 := by
  rw [← String.toList_inj, beforeNul, String.toList_ofList,
    List.takeWhile_eq_self_iff]
  simp

/-- C sees the part of a text before its first U+0000. -/
theorem bytes_ofString (text : String) :
    (ofString text).bytes = (beforeNul text).toUTF8.data.toList := by
  change List.takeWhile _ _ = _
  rw [toUTF8_toList, toUTF8_toList, takeWhile_flatMap_utf8EncodeChar,
    beforeNul, String.toList_ofList]

/-- Two texts are the same in C exactly if they are the same before U+0000. -/
theorem ofString_eq_iff (left right : String) :
    ofString left = ofString right ↔ beforeNul left = beforeNul right := by
  constructor
  · intro equal
    have sameBytes := congrArg bytes equal
    rw [bytes_ofString, bytes_ofString, Array.toList_inj] at sameBytes
    have sameArrays : (beforeNul left).toByteArray =
        (beforeNul right).toByteArray :=
      ByteArray.ext sameBytes
    exact String.toByteArray_inj.mp sameArrays
  · intro equal
    apply ext_bytes
    rw [bytes_ofString, bytes_ofString, equal]

/-- Distinct texts without U+0000 stay distinct in C. -/
theorem ofString_inj
    {left right : String}
    (leftNoNul : ∀ char ∈ left.toList, char ≠ Char.ofNat 0)
    (rightNoNul : ∀ char ∈ right.toList, char ≠ Char.ofNat 0) :
    ofString left = ofString right ↔ left = right := by
  rw [ofString_eq_iff, (beforeNul_eq_self_iff left).mpr leftNoNul,
    (beforeNul_eq_self_iff right).mpr rightNoNul]

/-- Read a C string back as text: its UTF-8 decoding, or `repair` of the
bytes when they are ill-formed. -/
def readBack (repair : List UInt8 → String) (text : CString) : String :=
  (String.fromUTF8? text.bytes.toByteArray).getD (repair text.bytes)

/-- Text without U+0000 survives the trip to C and back. -/
theorem readBack_ofString
    (repair : List UInt8 → String)
    {text : String}
    (noNul : ∀ char ∈ text.toList, char ≠ Char.ofNat 0) :
    readBack repair (ofString text) = text := by
  have sameArray : text.toUTF8.data.toList.toByteArray = text.toByteArray := by
    apply ByteArray.ext
    rw [List.data_toByteArray]
    rfl
  unfold readBack
  rw [bytes_ofString, (beforeNul_eq_self_iff text).mpr noNul, sameArray,
    String.fromUTF8?, dif_pos text.isValidUTF8]
  rfl

end CString

end LibretroLab
