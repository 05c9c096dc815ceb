import EdgeClient.Basis.Runs

/-!
# What a history says

A history is the list of what has been written so far, the last entry at its end. Statements about
it look back: something was written, and since then only certain entries. They can be followed
entry by entry, so that an invariant may relate them to the state of a machine.
-/

namespace Basis

variable {ω : Type} {φ : List ω → ω → Prop} {ψ : ω → Prop}

/-- An entry with `φ` was written, where `φ` may look at the entries in front of it, and since
then only entries with `ψ`. -/
def Since (φ : List ω → ω → Prop) (ψ : ω → Prop) (history : List ω) : Prop :=
  ∃ before x after, history = before ++ x :: after ∧ φ before x ∧ ∀ y ∈ after, ψ y

/-- Nothing has happened in the empty history. -/
theorem not_since_nil : ¬ Since φ ψ [] := by
  rintro ⟨before, x, after, h, -⟩
  exact List.append_ne_nil_of_right_ne_nil before (List.cons_ne_nil x after) h.symm

/-- The last entry begins or continues what is said. The rule makes it possible to follow a
history entry by entry, without looking back at the whole of it. -/
theorem since_snoc {history : List ω} {n : ω} :
    Since φ ψ (history ++ [n]) ↔ φ history n ∨ Since φ ψ history ∧ ψ n := by
  constructor
  · rintro ⟨before, x, after, h, hx, hafter⟩
    rcases List.eq_nil_or_concat after with rfl | ⟨earlier, y, rfl⟩
    · obtain ⟨rfl, hn⟩ := List.append_inj' h rfl
      cases hn
      exact Or.inl hx
    · rw [List.concat_eq_append, ← List.cons_append, ← List.append_assoc] at h
      obtain ⟨rfl, hn⟩ := List.append_inj' h rfl
      cases hn
      rw [List.concat_eq_append, List.forall_mem_append] at hafter
      exact Or.inr ⟨⟨before, x, earlier, rfl, hx, hafter.1⟩, hafter.2 n List.mem_cons_self⟩
  · rintro (hn | ⟨⟨before, x, after, rfl, hx, hafter⟩, hn⟩)
    · exact ⟨history, n, [], rfl, hn, by simp⟩
    · refine ⟨before, x, after ++ [n], by simp, hx, fun y hy => ?_⟩
      rcases List.mem_append.mp hy with hold | hnew
      · exact hafter y hold
      · rw [List.mem_singleton.mp hnew]
        exact hn

/-- Every entry is allowed behind those in front of it. -/
def Respects (allowed : List ω → ω → Prop) (history : List ω) : Prop :=
  ∀ before n after, history = before ++ n :: after → allowed before n

variable {allowed : List ω → ω → Prop}

/-- The empty history respects every rule. -/
theorem respects_nil : Respects allowed [] := fun before n after h =>
  absurd h.symm (List.append_ne_nil_of_right_ne_nil before (List.cons_ne_nil n after))

/-- A history respects a rule if it did so before its last note, and the rule allows this note
after the others. -/
theorem respects_snoc {history : List ω} {n : ω} :
    Respects allowed (history ++ [n]) ↔ Respects allowed history ∧ allowed history n := by
  constructor
  · intro h
    refine ⟨fun before m after hsplit => h before m (after ++ [n]) ?_, h history n [] rfl⟩
    rw [hsplit, List.append_assoc, List.cons_append]
  · rintro ⟨hhistory, hn⟩ before m after hsplit
    rcases List.eq_nil_or_concat after with rfl | ⟨earlier, y, rfl⟩
    · obtain ⟨rfl, hm⟩ := List.append_inj' hsplit rfl
      cases hm
      exact hn
    · rw [List.concat_eq_append, ← List.cons_append, ← List.append_assoc] at hsplit
      obtain ⟨rfl, -⟩ := List.append_inj' hsplit rfl
      exact hhistory before m earlier rfl

end Basis
