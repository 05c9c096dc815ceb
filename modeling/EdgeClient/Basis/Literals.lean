import Mathlib

/-!
# Literals

Named facts about the numbers that occur as literals and as sizes, so that the same literal
is the same term wherever it is written.
-/

namespace Basis

/-- Four is not zero. The instances of this module are found by name, without a search. -/
instance neZeroFour : NeZero 4 := ⟨four_ne_zero⟩

/-- Six is not zero. -/
instance neZeroSix : NeZero 6 := ⟨by decide⟩

/-- Eight is not zero. -/
instance neZeroEight : NeZero 8 := ⟨by decide⟩

/-- Two is at least two. -/
instance atLeastTwoTwo : Nat.AtLeastTwo 2 := ⟨le_rfl⟩

/-- Four components of eight are measured. -/
theorem four_le_eight : 4 ≤ 8 := by decide

end Basis
