/-! Sets of characters given by ascending ranges of code points. -/

set_option autoImplicit false

namespace JsonTree

abbrev CharRanges := List (Nat × Nat)

/-- Whether a range holds the code point. The search ends at the first range above it. -/
def CharRanges.holds : CharRanges → Nat → Bool
  | [], _ => false
  | (first, last) :: rest, code =>
    if code < first then false else decide (code ≤ last) || holds rest code

theorem CharRanges.exists_of_holds {ranges : CharRanges} {code : Nat} (held : ranges.holds code) :
    ∃ range ∈ ranges, range.1 ≤ code ∧ code ≤ range.2 := by
  induction ranges with
  | nil => simp [holds] at held
  | cons range rest ih =>
    obtain ⟨first, last⟩ := range
    simp only [holds] at held
    split at held
    · contradiction
    · next above =>
      simp only [Bool.or_eq_true, decide_eq_true_eq] at held
      rcases held with inside | later
      · exact ⟨(first, last), by simp, by simpa using above, inside⟩
      · obtain ⟨range, member, bounds⟩ := ih later
        exact ⟨range, List.mem_cons_of_mem _ member, bounds⟩

end JsonTree
