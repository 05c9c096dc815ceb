import EdgeClient.Basis.ExactArithmetic
import EdgeClient.Vision.Types
import EdgeClient.Vision.GalleryMatcher

/-!
# Embeddings in exact arithmetic

In exact arithmetic the product of two embeddings is that of two vectors, and an embedding is
normalized by its length.
-/

namespace EdgeClient.Vision

open Basis Basis.Extended

/-- The components of an embedding. -/
abbrev Components := Fin kEmbeddingSize → ℝ

/-- The embedding with these components. -/
def exactEmbedding (x : Components) : Embedding (Extended ℝ) := fun j => .fin (x j)

/-- The length of an embedding. -/
noncomputable def embeddingNorm (x : Components) : ℝ := √(∑ j, x j * x j)

/-- The embedding of unit length in the same direction. -/
noncomputable def unitEmbedding (x : Components) : Components := fun j => x j / embeddingNorm x

/-- An embedding of finite components. -/
theorem exists_components {v : Embedding (Extended ℝ)} (h : ∀ j, isFinite (v j) = true) :
    ∃ x, v = exactEmbedding x := by
  choose x hx using fun j => isFinite_iff.mp (h j)
  exact ⟨x, funext hx⟩

/-- The loop of the product computes the inner product of Mathlib. -/
theorem dotProduct_exact (x y : Components) :
    (dotProduct (exactEmbedding x) (exactEmbedding y) : Extended ℝ) = .fin (∑ j, x j * y j) := by
  simp only [dotProduct, exactEmbedding, widen_eq, fin_mul, lit_def, Rat.cast_zero]
  rw [foldl_add_fin, zero_add]

/-- The length of an embedding as the code computes it. -/
theorem sqrt_dotProduct_exact (x : Components) :
    (Basis.sqrt (dotProduct (exactEmbedding x) (exactEmbedding x)) : Extended ℝ) =
      .fin (embeddingNorm x) := by
  rw [dotProduct_exact, sqrt_fin (Finset.sum_nonneg fun j _ => mul_self_nonneg (x j))]
  rfl

/-- An embedding with a length has finite components. -/
theorem exists_components_of_norm {v : Embedding (Extended ℝ)}
    (h : isFinite (Basis.sqrt (dotProduct v v) : Extended ℝ) = true) :
    ∃ x, v = exactEmbedding x := by
  obtain ⟨square, hsquare, -⟩ := finite_of_sqrt h
  have hfinite : isFinite (dotProduct v v : Extended ℝ) = true := by
    rw [hsquare]
    rfl
  obtain ⟨-, hterms⟩ := finite_of_foldl_add hfinite
  apply exists_components
  intro j
  exact (finite_of_mul (hterms j (List.mem_finRange j))).1

/-- Every component is multiplied by the inverse of the length. -/
theorem scale_exact {x : Components} (hx : 1e-12 ≤ embeddingNorm x) :
    (fun j => exactEmbedding x j * (narrow (lit 1 / .fin (embeddingNorm x) : Extended ℝ))) =
      exactEmbedding (unitEmbedding x) := by
  have hpos : embeddingNorm x ≠ 0 := by
    intro hzero
    norm_num [hzero] at hx
  funext j
  simp only [narrow_eq, lit_def, Rat.cast_one, exactEmbedding, unitEmbedding]
  rw [fin_div _ hpos, fin_mul, mul_one_div]

/-- The shortest embedding that is normalized. -/
theorem fin_lt_shortest {r : ℝ} : ((.fin r : Extended ℝ) < lit 1e-12) ↔ r < 1e-12 := by
  rw [lit_def, fin_lt]
  norm_num

/-- An embedding is normalized unless it is too short. The bound is on the length, and the
division is by it. -/
theorem normalizeEmbedding_exact {v u : Embedding (Extended ℝ)} :
    normalizeEmbedding (Extended ℝ) v = .ok u ↔
      ∃ x, v = exactEmbedding x ∧ 1e-12 ≤ embeddingNorm x ∧
        u = exactEmbedding (unitEmbedding x) := by
  constructor
  · intro h
    unfold normalizeEmbedding at h
    dsimp only at h
    split at h
    · cases h
    rename_i hgood
    simp only [not_or, Bool.not_eq_false] at hgood
    obtain ⟨hfinite, hlong⟩ := hgood
    obtain ⟨x, rfl⟩ := exists_components_of_norm hfinite
    rw [sqrt_dotProduct_exact, fin_lt_shortest, not_lt] at hlong
    rw [sqrt_dotProduct_exact, scale_exact hlong] at h
    cases h
    exact ⟨x, rfl, hlong, rfl⟩
  · rintro ⟨x, rfl, hnorm, rfl⟩
    have hgood : ¬ (isFinite (Basis.sqrt (dotProduct (exactEmbedding x) (exactEmbedding x)) :
        Extended ℝ) = false ∨ (Basis.sqrt (dotProduct (exactEmbedding x) (exactEmbedding x)) :
          Extended ℝ) < lit 1e-12) := by
      rw [sqrt_dotProduct_exact, fin_lt_shortest, isFinite_fin]
      simpa using hnorm
    rw [normalizeEmbedding, if_neg hgood, sqrt_dotProduct_exact, ← scale_exact hnorm]
    rfl

end EdgeClient.Vision
