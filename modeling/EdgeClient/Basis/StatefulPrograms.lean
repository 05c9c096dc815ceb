import EdgeClient.Basis.Literals

/-!
# Weakest preconditions of stateful programs

A computation of `EStateM` changes a state and may throw; the changes made before
a throw stay. Its weakest precondition therefore has two postconditions, one for
each way of ending. The rules below follow the structure of a program, and the
rule for a loop uses an invariant over the visited and the remaining elements.
-/

namespace Basis

variable {ε σ α β : Type}

/-- The state in which a computation ended. -/
def finalState : EStateM.Result ε σ α → σ
  | .ok _ s => s
  | .error _ s => s

/-- The value that a computation returned, if it did. -/
def returned : EStateM.Result ε σ α → Option α
  | .ok a _ => some a
  | .error _ _ => none

/-- A result that was returned is the result of a run that succeeded. -/
theorem exists_of_returned {r : EStateM.Result ε σ α} {a : α} (h : returned r = some a) :
    ∃ s, r = .ok a s := by
  cases r with
  | ok b s =>
    cases h
    exact ⟨s, rfl⟩
  | error e s => cases h

/-- Started in `s`, the program returns with `Q` or throws with `E`. -/
def wp (m : EStateM ε σ α) (Q : α → σ → Prop) (E : σ → Prop) (s : σ) : Prop :=
  match m s with
  | .ok a t => Q a t
  | .error _ t => E t

section Rules

variable {Q R : α → σ → Prop} {E : σ → Prop} {s : σ}

/-- Returning a value establishes what holds of it. -/
@[simp] theorem wp_pure (a : α) : wp (pure a : EStateM ε σ α) Q E s ↔ Q a s := Iff.rfl

/-- A throw has to establish what is asked of failures. -/
@[simp] theorem wp_throw (e : ε) : wp (throw e : EStateM ε σ α) Q E s ↔ E s := Iff.rfl

/-- Reading gives the state and leaves it alone. -/
@[simp] theorem wp_get {Q : σ → σ → Prop} : wp (get : EStateM ε σ σ) Q E s ↔ Q s s := Iff.rfl

/-- After a write, the state is the one written. -/
@[simp] theorem wp_set {Q : PUnit → σ → Prop} (t : σ) :
    wp (set t : EStateM ε σ PUnit) Q E s ↔ Q ⟨⟩ t := Iff.rfl

/-- After a change, the state is the changed one. -/
@[simp] theorem wp_modify {Q : PUnit → σ → Prop} (f : σ → σ) :
    wp (modify f : EStateM ε σ PUnit) Q E s ↔ Q ⟨⟩ (f s) := Iff.rfl

/-- A change may give a value at the same time. -/
@[simp] theorem wp_modifyGet (f : σ → α × σ) :
    wp (modifyGet f : EStateM ε σ α) Q E s ↔ Q (f s).1 (f s).2 := Iff.rfl

/-- A sequence of two programs needs the precondition of the second after the first. -/
@[simp] theorem wp_bind {Q : β → σ → Prop} (m : EStateM ε σ α) (f : α → EStateM ε σ β) :
    wp (m >>= f) Q E s ↔ wp m (fun a => wp (f a) Q E) E s := by
  change wp (EStateM.bind m f) Q E s ↔ _
  unfold wp EStateM.bind
  cases m s with
  | ok => rfl
  | error => rfl

/-- A function of the result is applied after the run. -/
@[simp] theorem wp_map {Q : β → σ → Prop} (f : α → β) (m : EStateM ε σ α) :
    wp (f <$> m) Q E s ↔ wp m (fun a => Q (f a)) E s := by
  change wp (EStateM.map f m) Q E s ↔ _
  unfold wp EStateM.map
  cases m s with
  | ok => rfl
  | error => rfl

/-- Each branch is to be proved under its condition. -/
@[simp] theorem wp_ite {p : Prop} [Decidable p] (m n : EStateM ε σ α) :
    wp (if p then m else n) Q E s ↔ (p → wp m Q E s) ∧ (¬ p → wp n Q E s) := by
  by_cases hp : p <;> simp [hp]

/-- Postconditions may be weakened. -/
theorem wp_mono {m : EStateM ε σ α} {E' : σ → Prop} (h : wp m Q E s)
    (hok : ∀ a t, Q a t → R a t) (herror : ∀ t, E t → E' t) : wp m R E' s := by
  unfold wp at h ⊢
  cases hrun : m s with
  | ok a t => exact hok a t (by simpa only [hrun] using h)
  | error e t => exact herror t (by simpa only [hrun] using h)

/-- What holds at a normal end of a program that returned. -/
theorem wp_ok {m : EStateM ε σ α} {a : α} {t : σ} (h : wp m Q E s) (hrun : m s = .ok a t) :
    Q a t := by
  simpa only [wp, hrun] using h

/-- What holds after a program that threw. -/
theorem wp_error {m : EStateM ε σ α} {e : ε} {t : σ} (h : wp m Q E s) (hrun : m s = .error e t) :
    E t := by
  simpa only [wp, hrun] using h

/-- Two descriptions of a program hold together. -/
theorem wp_and {m : EStateM ε σ α} {E' : σ → Prop} (h : wp m Q E s) (h' : wp m R E' s) :
    wp m (fun a t => Q a t ∧ R a t) (fun t => E t ∧ E' t) s := by
  unfold wp at h h' ⊢
  cases hrun : m s with
  | ok a t => exact ⟨by simpa only [hrun] using h, by simpa only [hrun] using h'⟩
  | error e t => exact ⟨by simpa only [hrun] using h, by simpa only [hrun] using h'⟩

/-- A program that returns can be run. -/
theorem wp_run (m : EStateM ε σ α) : wp m (fun a t => m s = .ok a t) (fun _ => True) s := by
  unfold wp
  cases m s with
  | ok a t => rfl
  | error e t => trivial

/-- A program whose end is known. -/
theorem wp_run_ok {m : EStateM ε σ α} {a : α} {t : σ} (hrun : m s = .ok a t) :
    wp m (fun a' t' => a' = a ∧ t' = t) (fun _ => False) s := by
  simp only [wp, hrun, and_self]

/-- What holds at both ends holds of the final state. -/
theorem wp_finalState {m : EStateM ε σ α} (h : wp m (fun _ => E) E s) : E (finalState (m s)) := by
  unfold wp at h
  cases hrun : m s with
  | ok a t => simpa only [hrun, finalState] using h
  | error e t => simpa only [hrun, finalState] using h

/-- The loop rule: `I pre post b s` relates the visited and the remaining elements
to the accumulator and the state. -/
theorem wp_foldlM {f : β → α → EStateM ε σ β} {l : List α} {b : β}
    (I : List α → List α → β → σ → Prop) (hinit : I [] l b s)
    (hstep : ∀ pre x post b s, l = pre ++ x :: post → I pre (x :: post) b s →
      wp (f b x) (I (pre ++ [x]) post) E s) : wp (l.foldlM f b) (I l []) E s := by
  suffices h : ∀ (post pre : List α) (b : β) (s : σ), l = pre ++ post → I pre post b s →
      wp (post.foldlM f b) (I l []) E s from h l [] b s rfl hinit
  intro post
  induction post with
  | nil =>
    intro pre b s hsplit hinv
    rw [List.append_nil] at hsplit
    simpa only [List.foldlM_nil, wp_pure, hsplit] using hinv
  | cons x post ih =>
    intro pre b s hsplit hinv
    rw [List.foldlM_cons, wp_bind]
    refine wp_mono (hstep pre x post b s hsplit hinv) (fun b t ht => ?_) fun _ => id
    exact ih (pre ++ [x]) b t
      (by simpa only [List.append_assoc, List.singleton_append] using hsplit) ht

end Rules

/-! ## Exceptions that are not thrown -/

/-- Started in `s`, the program throws none of these exceptions. -/
def Avoids (bad : ε → Prop) (m : EStateM ε σ α) (s : σ) : Prop :=
  ∀ e t, m s = .error e t → ¬ bad e

section Avoids

variable {bad : ε → Prop} {s : σ}

/-- A program that never throws. -/
theorem avoids_of_total {m : EStateM ε σ α} (h : wp m (fun _ _ => True) (fun _ => False) s) :
    Avoids bad m s := fun _ _ hrun => (wp_error h hrun).elim

/-- A throw avoids the failures other than its own. -/
theorem avoids_throw {e : ε} (he : ¬ bad e) : Avoids bad (throw e : EStateM ε σ α) s := by
  intro e' t hrun
  cases hrun
  exact he

/-- A sequence avoids what its parts avoid; the second part starts where the first ended. An
exception of the sequence is one of its first part, or one of the second part in the state
between. -/
theorem avoids_bind {m : EStateM ε σ α} {f : α → EStateM ε σ β} (hfirst : Avoids bad m s)
    (hsecond : ∀ a t, m s = .ok a t → Avoids bad (f a) t) : Avoids bad (m >>= f) s := by
  intro e t hrun
  change EStateM.bind m f s = _ at hrun
  unfold EStateM.bind at hrun
  cases hm : m s with
  | ok a u =>
    rw [hm] at hrun
    exact hsecond a u hm e t hrun
  | error e' u =>
    rw [hm] at hrun
    cases hrun
    exact hfirst _ _ hm

/-- A loop avoids what each of its steps avoids, after any first part of it. The hypothesis may
use that the steps in front returned, which is what a loop invariant gives. -/
theorem avoids_foldlM {f : β → α → EStateM ε σ β} {l : List α} {b : β}
    (hstep : ∀ pre x post b' s', l = pre ++ x :: post → pre.foldlM f b s = .ok b' s' →
      Avoids bad (f b' x) s') : Avoids bad (l.foldlM f b) s := by
  suffices h : ∀ (post pre : List α) (b' : β) (s' : σ), l = pre ++ post →
      pre.foldlM f b s = .ok b' s' → Avoids bad (post.foldlM f b') s' from h l [] b s rfl rfl
  intro post
  induction post with
  | nil =>
    intro pre b' s' _ _ e t hrun
    cases hrun
  | cons x post ih =>
    intro pre b' s' hsplit hpre
    rw [List.foldlM_cons]
    refine avoids_bind (hstep pre x post b' s' hsplit hpre) fun b'' s'' hx => ?_
    refine ih (pre ++ [x]) b'' s'' (by rw [hsplit, List.append_assoc]; rfl) ?_
    rw [List.foldlM_append]
    change EStateM.bind (pre.foldlM f b) _ s = _
    unfold EStateM.bind
    rw [hpre]
    change (f b' x >>= pure) s' = _
    rw [bind_pure, hx]

end Avoids

/-! ## Programs without a state -/

/-- A program that leaves a value returns it. -/
theorem eq_ok_of_toOption {m : Except ε α} {a : α} (h : m.toOption = some a) : m = .ok a := by
  cases m with
  | error e => cases h
  | ok a' =>
    cases h
    rfl

/-- A sequence returns when both parts do. With this rule a program is taken apart from its first
statement on. -/
theorem bind_eq_ok {m : Except ε α} {f : α → Except ε β} {b : β} :
    (m >>= f) = .ok b ↔ ∃ a, m = .ok a ∧ f a = .ok b := by
  cases m with
  | error e =>
    constructor
    · intro h
      cases h
    · rintro ⟨a, h, -⟩
      cases h
  | ok a =>
    constructor
    · exact fun h => ⟨a, rfl, h⟩
    · rintro ⟨a', ha, h⟩
      cases ha
      exact h

/-- A sequence returns when its first part does and the rest returns after it. -/
theorem exists_ok_bind {m : Except ε α} {f : α → Except ε β} {a : α} (hm : m = .ok a)
    (hf : ∃ b, f a = .ok b) : ∃ b, (m >>= f) = .ok b := by
  obtain ⟨b, hb⟩ := hf
  exact ⟨b, bind_eq_ok.mpr ⟨a, hm, hb⟩⟩

/-- A sequence throws when one of its parts does. The second part can only throw behind a result
of the first. -/
theorem bind_eq_error {m : Except ε α} {f : α → Except ε β} {e : ε} :
    (m >>= f) = .error e ↔ m = .error e ∨ ∃ a, m = .ok a ∧ f a = .error e := by
  cases m with
  | error e' =>
    constructor
    · intro h
      cases h
      exact Or.inl rfl
    · rintro (h | ⟨a, h, -⟩)
      · cases h
        rfl
      · cases h
  | ok a =>
    constructor
    · exact fun h => Or.inr ⟨a, rfl, h⟩
    · rintro (h | ⟨a', ha, h⟩)
      · cases h
      · cases ha
        exact h

/-- A pass over a list returns what the program returns for each element. The results are those of
the elements, in the same order. -/
theorem mapM_eq_ok {f : α → Except ε β} {l : List α} {bs : List β} :
    l.mapM f = .ok bs ↔ List.Forall₂ (fun a b => f a = .ok b) l bs := by
  induction l generalizing bs with
  | nil =>
    rw [List.mapM_nil, List.forall₂_nil_left_iff]
    constructor
    · intro h
      cases h
      rfl
    · rintro rfl
      rfl
  | cons a l ih =>
    rw [List.mapM_cons, bind_eq_ok]
    constructor
    · rintro ⟨b, hb, h⟩
      obtain ⟨rest, hrest, h⟩ := bind_eq_ok.mp h
      cases h
      exact .cons hb (ih.mp hrest)
    · rintro (_ | ⟨hb, hrest⟩)
      exact ⟨_, hb, bind_eq_ok.mpr ⟨_, ih.mpr hrest, rfl⟩⟩

/-- A pass over a list returns when the program returns for each element. The first element for
which the program throws is where the pass ends. -/
theorem mapM_ok {f : α → Except ε β} {l : List α} :
    (∃ bs, l.mapM f = .ok bs) ↔ ∀ a ∈ l, ∃ b, f a = .ok b := by
  induction l with
  | nil =>
    refine ⟨?_, fun _ => ⟨[], rfl⟩⟩
    rintro - a ha
    cases ha
  | cons a l ih =>
    rw [List.mapM_cons, List.forall_mem_cons, ← ih]
    constructor
    · rintro ⟨bs, h⟩
      obtain ⟨b, hb, h⟩ := bind_eq_ok.mp h
      obtain ⟨bs', hbs', -⟩ := bind_eq_ok.mp h
      exact ⟨⟨b, hb⟩, bs', hbs'⟩
    · rintro ⟨⟨b, hb⟩, bs, hbs⟩
      rw [hb, hbs]
      exact ⟨b :: bs, rfl⟩

/-- A pass over a list throws at one of its elements. It is the first one for which the function
throws. -/
theorem mapM_error {f : α → Except ε β} {l : List α} {e : ε} (h : l.mapM f = .error e) :
    ∃ a ∈ l, f a = .error e := by
  induction l with
  | nil => cases h
  | cons a l ih =>
    rw [List.mapM_cons] at h
    rcases bind_eq_error.mp h with hfirst | ⟨b, -, h⟩
    · exact ⟨a, List.mem_cons_self, hfirst⟩
    · rcases bind_eq_error.mp h with hrest | ⟨rest, -, h⟩
      · obtain ⟨a', ha', he⟩ := ih hrest
        exact ⟨a', List.mem_cons_of_mem _ ha', he⟩
      · cases h

/-- A loop fails as one of its steps does. The property of the exceptions must hold wherever a
step throws. -/
theorem foldlM_error {f : β → α → Except ε β} {l : List α} {b : β} {P : ε → Prop} {e : ε}
    (hstep : ∀ b x e, f b x = .error e → P e) (h : l.foldlM f b = .error e) : P e := by
  induction l generalizing b with
  | nil => cases h
  | cons x l ih =>
    rw [List.foldlM_cons] at h
    rcases bind_eq_error.mp h with hfirst | ⟨b', -, hrest⟩
    · exact hstep b x e hfirst
    · exact ih hrest

/-- A loop that throws unless all elements pass a check. When all pass, the loop is the same loop
without the checks. -/
theorem foldlM_guarded {check : α → Bool} {step : β → α → β} {e : ε} {l : List α}
    {b b' : β} : l.foldlM (fun b a => if check a then return step b a else throw e) b =
      (.ok b' : Except ε β) ↔ (∀ a ∈ l, check a = true) ∧ b' = l.foldl step b := by
  induction l generalizing b with
  | nil =>
    constructor
    · intro h
      cases h
      exact ⟨by simp, rfl⟩
    · rintro ⟨-, rfl⟩
      rfl
  | cons a l ih =>
    rw [List.foldlM_cons, bind_eq_ok, List.forall_mem_cons]
    constructor
    · rintro ⟨c, hc, h⟩
      split at hc
      · rename_i ha
        cases hc
        obtain ⟨hall, hb⟩ := ih.mp h
        exact ⟨⟨ha, hall⟩, hb⟩
      · cases hc
    · rintro ⟨⟨ha, hall⟩, hb⟩
      exact ⟨step b a, if_pos ha, ih.mpr ⟨hall, hb⟩⟩

/-- In the list of all indices an index is in its place. Its place is the number of indices in
front of it. -/
theorem val_of_finRange_split {n : ℕ} {pre post : List (Fin n)} {i : Fin n}
    (h : List.finRange n = pre ++ i :: post) : i.val = pre.length := by
  have hentry : (List.finRange n)[pre.length]? = some i := by
    rw [h]
    simp
  obtain ⟨hlt, hentry⟩ := List.getElem?_eq_some_iff.mp hentry
  rw [List.getElem_finRange] at hentry
  rw [← hentry]
  rfl

/-- The loop rule for a loop that returned. The invariant speaks of the elements that were
consumed, and each step may assume the one in front of it. -/
theorem foldlM_ok {f : β → α → Except ε β} {l : List α} {b b' : β} (I : List α → β → Prop)
    (hinit : I [] b)
    (hstep : ∀ pre x post b b', l = pre ++ x :: post → I pre b → f b x = .ok b' →
      I (pre ++ [x]) b')
    (hok : l.foldlM f b = .ok b') : I l b' := by
  suffices h : ∀ (post pre : List α) (b : β), l = pre ++ post → I pre b →
      post.foldlM f b = .ok b' → I l b' from h l [] b rfl hinit hok
  intro post
  induction post with
  | nil =>
    intro pre b hsplit hinv hok
    rw [List.append_nil] at hsplit
    cases hok
    exact hsplit ▸ hinv
  | cons x post ih =>
    intro pre b hsplit hinv hok
    rw [List.foldlM_cons] at hok
    obtain ⟨c, hc, hrest⟩ := bind_eq_ok.mp hok
    exact ih (pre ++ [x]) c (by simpa only [List.append_assoc, List.singleton_append] using hsplit)
      (hstep pre x post b c hsplit hinv hc) hrest

end Basis
