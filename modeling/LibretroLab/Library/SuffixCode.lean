import Mathlib.Data.List.Infix
import Mathlib.Data.List.Nodup
import Mathlib.Data.List.ProdSigma

/-!
# Suffix codes and tables keyed by an injection

Appending a codeword to arbitrary text can be undone when no codeword is a
suffix of another, however the text itself looks. The second half concerns
association lists whose keys come from an injection: every key selects exactly
one entry.
-/

namespace LibretroLab

/-- No codeword is a suffix of the codeword of another symbol. -/
def SuffixFree (code : κ → List α) : Prop :=
  ∀ left right, code left <:+ code right → left = right

/-- Text followed by a codeword of a suffix-free code decodes uniquely. -/
theorem SuffixFree.append_injective
    {code : κ → List α}
    (suffixFree : SuffixFree code) :
    Function.Injective fun pair : List α × κ => pair.1 ++ code pair.2 := by
  rintro ⟨leftText, left⟩ ⟨rightText, right⟩ equal
  change leftText ++ code left = rightText ++ code right at equal
  have leftSuffix : code left <:+ rightText ++ code right :=
    equal ▸ List.suffix_append leftText (code left)
  have sameSymbol : left = right := by
    rcases List.suffix_or_suffix_of_suffix leftSuffix
      (List.suffix_append rightText (code right)) with shorter | longer
    · exact suffixFree left right shorter
    · exact (suffixFree right left longer).symm
  subst sameSymbol
  exact Prod.ext (List.append_cancel_right equal) rfl

/-- In a table whose keys are pairwise distinct, selecting by one entry's key
leaves exactly that entry. -/
theorem filter_key_eq_singleton
    [DecidableEq β]
    {key : α → β}
    {entries : List α}
    (nodup : entries.Nodup)
    (injective : ∀ left ∈ entries, ∀ right ∈ entries,
      key left = key right → left = right)
    {entry : α}
    (member : entry ∈ entries) :
    entries.filter (fun other => key other = key entry) = [entry] := by
  induction entries with
  | nil => cases member
  | cons head tail inductionHypothesis =>
      obtain ⟨absent, tailNodup⟩ := List.nodup_cons.mp nodup
      have tailInjective : ∀ left ∈ tail, ∀ right ∈ tail,
          key left = key right → left = right :=
        fun left leftMember right rightMember =>
          injective left (List.mem_cons_of_mem _ leftMember)
            right (List.mem_cons_of_mem _ rightMember)
      rcases List.mem_cons.mp member with rfl | inTail
      · have none : ∀ other ∈ tail, ¬key other = key entry := by
          intro other otherMember equal
          have same := injective other (List.mem_cons_of_mem _ otherMember)
            entry List.mem_cons_self equal
          exact absent (same ▸ otherMember)
        rw [List.filter_cons_of_pos (by simp),
          List.filter_eq_nil_iff.mpr (by simpa using none)]
      · have headDiffers : ¬key head = key entry := by
          intro equal
          have same := injective head List.mem_cons_self
            entry (List.mem_cons_of_mem _ inTail) equal
          exact absent (same ▸ inTail)
        rw [List.filter_cons_of_neg (by simpa using headDiffers)]
        exact inductionHypothesis tailNodup tailInjective inTail

end LibretroLab
