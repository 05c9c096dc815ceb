import EdgeClient.Camera.FormatSelector

/-!
# The order of the camera modes

Scores are ordered by frame rate error, then stream, then subtype. The comparison of the
selection follows this order, but it also lets a better rank win over a frame rate error
that is smaller by less than the tolerance. Then two modes may each be better than the
other, and the later one is selected. Nothing else makes the selection depend on the order
of the modes.
-/

namespace EdgeClient.Camera

open Basis

/-- What the selection needs of the comparison and the difference of two frame rate errors. -/
class LawfulGap (F : Type) [FloatOps F] : Prop extends LawfulFloat F where
  /-- Of two data only one is smaller. -/
  lt_asymm {a b : F} : a < b → ¬ b < a
  /-- Equal data have no difference. -/
  gap_self {a b : F} : isFinite a = true → isFinite b = true → ¬ a < b → ¬ b < a →
    nearEqual a b = true
  /-- Equal data are equally far from a third one. -/
  gap_congr {a b c : F} : isFinite a = true → isFinite b = true → isFinite c = true → ¬ a < b →
    ¬ b < a → nearEqual c a = true → nearEqual c b = true

/-- Numbers that are not smaller than each other are equal. -/
theorem extended_eq_of_not_lt {a b : Extended ℚ} (ha : isFinite a = true) (hb : isFinite b = true)
    (hab : ¬ a < b) (hba : ¬ b < a) : a = b := by
  obtain ⟨x, rfl⟩ := Extended.exists_fin_of_isFinite ha
  obtain ⟨y, rfl⟩ := Extended.exists_fin_of_isFinite hb
  rcases lt_trichotomy x y with h | h | h
  · exact absurd (decide_eq_true h) hab
  · rw [h]
  · exact absurd (decide_eq_true h) hba

/-- The laws of the tolerance hold of rational numbers. The difference is computed exactly, so
equal numbers have none. -/
instance : LawfulGap (Extended ℚ) where
  lt_asymm {a b} h := by
    cases a <;> cases b <;> simp_all [Extended.lt_def, Extended.ltb]
    exact h.le
  gap_self {a b} ha hb hab hba := by
    obtain rfl := extended_eq_of_not_lt ha hb hab hba
    obtain ⟨x, rfl⟩ := Extended.exists_fin_of_isFinite ha
    have hzero : (Extended.fin x - Extended.fin x : Extended ℚ) = lit 0 :=
      congrArg Extended.fin (by simp)
    rw [nearEqual, hzero]
    decide +kernel
  gap_congr ha hb _ hab hba := by
    obtain rfl := extended_eq_of_not_lt ha hb hab hba
    exact id

/-! ## Frame rates in binary64 -/

section Binary64

open Float.Model (UnpackedFloat Format)

/-- Finite data that are not smaller than each other are the same number, or both zeros. The two
zeros are the only different data that compare as equal. -/
theorem unpacked_eq_of_not_lt {a b : UnpackedFloat} (ha : a.isFinite = true)
    (hb : b.isFinite = true) (hab : ¬ a.lt b = true) (hba : ¬ b.lt a = true) :
    a = b ∨ (∃ s, a = .zero s) ∧ ∃ s, b = .zero s := by
  rw [lt_iff] at hab hba
  cases a with
  | notANumber | infinity => cases ha
  | zero s =>
    cases b with
    | notANumber | infinity => cases hb
    | zero t => exact Or.inr ⟨⟨s, rfl⟩, t, rfl⟩
    | finite t m e hm => cases t <;> simp [UnpackedFloat.isNaN, rank] at hab hba
  | finite s m e hm =>
    cases b with
    | notANumber | infinity => cases hb
    | zero t => cases s <;> simp [UnpackedFloat.isNaN, rank] at hab hba
    | finite t m' e' hm' =>
      left
      cases s <;> cases t <;>
        simp [UnpackedFloat.isNaN, rank, signedExponent, signedMantissa, UnpackedFloat.Sign.apply]
          at hab hba ⊢ <;> omega

/-- Equal data have a zero as their difference. They are the same datum, or two zeros whose signs
may differ. -/
theorem sub_eq_zero_of_not_lt {a b : UnpackedFloat} (ha : a.isFinite = true)
    (hb : b.isFinite = true) (hab : ¬ a.lt b = true) (hba : ¬ b.lt a = true) :
    ∃ s, UnpackedFloat.sub Format.binary64 a b = .zero s := by
  rcases unpacked_eq_of_not_lt ha hb hab hba with rfl | ⟨⟨s, rfl⟩, t, rfl⟩
  · cases a with
    | notANumber | infinity => cases ha
    | zero s => cases s <;> exact ⟨_, rfl⟩
    | finite s m e hm => exact ⟨.positive, by simp [UnpackedFloat.sub, UnpackedFloat.normalize]⟩
  · cases s <;> cases t <;> exact ⟨_, rfl⟩

/-- A zero difference counts as none. -/
theorem nearEqual_of_sub {a b : Float} {s : UnpackedFloat.Sign}
    (hzero : UnpackedFloat.sub Format.binary64 a.toModel.unpack b.toModel.unpack = .zero s) :
    nearEqual a b = true := by
  have hsub : a - b = .ofModel (.pack (.zero s)) := by
    rw [← hzero]
    rfl
  rw [nearEqual, hsub]
  cases s <;> decide +kernel

/-- The laws of the tolerance hold in double precision, because the difference of equal data
rounds to zero. -/
instance : LawfulGap Float where
  lt_asymm h h' := by
    have hab := lt_iff.mp (float_lt_iff.mp h)
    have hba := lt_iff.mp (float_lt_iff.mp h')
    omega
  gap_self ha hb hab hba := by
    obtain ⟨s, hzero⟩ := sub_eq_zero_of_not_lt ha hb (mt float_lt_iff.mpr hab)
      (mt float_lt_iff.mpr hba)
    exact nearEqual_of_sub hzero
  gap_congr {a b c} ha hb hc hab hba hnear := by
    have hfinite : c.toModel.unpack.isFinite = true := hc
    suffices h : (∃ s, UnpackedFloat.sub Format.binary64 c.toModel.unpack b.toModel.unpack =
        .zero s) ∨ UnpackedFloat.sub Format.binary64 c.toModel.unpack b.toModel.unpack =
          UnpackedFloat.sub Format.binary64 c.toModel.unpack a.toModel.unpack by
      rcases h with ⟨s, hzero⟩ | hsame
      · exact nearEqual_of_sub hzero
      · have hsub : c - b = c - a := by
          change Float.ofModel (.pack (UnpackedFloat.sub _ _ b.toModel.unpack)) = _
          rw [hsame]
          rfl
        rwa [nearEqual, hsub]
    rcases unpacked_eq_of_not_lt ha hb (mt float_lt_iff.mpr hab) (mt float_lt_iff.mpr hba) with
      heq | ⟨⟨s, hs⟩, t, ht⟩
    · exact Or.inr (by rw [← heq])
    · rw [hs, ht]
      cases heq : c.toModel.unpack with
      | notANumber | infinity =>
        rw [heq] at hfinite
        cases hfinite
      | zero r => cases r <;> cases t <;> exact Or.inl ⟨_, rfl⟩
      | finite r m e hm => exact Or.inr rfl

end Binary64

section Order

variable {F : Type} [FloatOps F]

/-- Whether the ranks of a mode are better. -/
def FormatScore.Preferred (a b : FormatScore F) : Prop :=
  a.stream < b.stream ∨ a.stream = b.stream ∧ a.subtype < b.subtype

/-- Whether a mode comes before another one. -/
def FormatScore.Precedes (a b : FormatScore F) : Prop :=
  a.fpsError < b.fpsError ∨ ¬ b.fpsError < a.fpsError ∧ a.Preferred b

/-- The scores are equal as numbers. -/
def FormatScore.Same (a b : FormatScore F) : Prop :=
  ¬ a.fpsError < b.fpsError ∧ ¬ b.fpsError < a.fpsError ∧ a.stream = b.stream ∧
    a.subtype = b.subtype

/-- A candidate is better if its frame rate is closer, or as close within the tolerance and its
mode is preferred. -/
theorem isBetterCandidate_iff {a b : FormatScore F} :
    isBetterCandidate a b = true ↔ a.fpsError < b.fpsError ∨
      nearEqual a.fpsError b.fpsError = true ∧ a.Preferred b := by
  simp only [isBetterCandidate, FormatScore.Preferred, decide_eq_true_eq]
  tauto

/-- Having the same score does not depend on the order. -/
theorem FormatScore.Same.symm {a b : FormatScore F} (h : a.Same b) : b.Same a :=
  ⟨h.2.1, h.1, h.2.2.1.symm, h.2.2.2.symm⟩

/-- Modes of different scores are ordered. The parts of the score are compared in turn. -/
theorem precedes_or_same (a b : FormatScore F) : a.Precedes b ∨ b.Precedes a ∨ a.Same b := by
  by_cases hab : a.fpsError < b.fpsError
  · exact Or.inl (Or.inl hab)
  by_cases hba : b.fpsError < a.fpsError
  · exact Or.inr (Or.inl (Or.inl hba))
  rcases lt_trichotomy a.stream b.stream with h | h | h
  · exact Or.inl (Or.inr ⟨hba, Or.inl h⟩)
  · rcases lt_trichotomy a.subtype b.subtype with h' | h' | h'
    · exact Or.inl (Or.inr ⟨hba, Or.inr ⟨h, h'⟩⟩)
    · exact Or.inr (Or.inr ⟨hab, hba, h, h'⟩)
    · exact Or.inr (Or.inl (Or.inr ⟨hab, Or.inr ⟨h.symm, h'⟩⟩))
  · exact Or.inr (Or.inl (Or.inr ⟨hab, Or.inl h⟩))

/-- The frame rate error is a number. -/
def FormatScore.Finite (a : FormatScore F) : Prop := isFinite a.fpsError = true

variable [LawfulGap F] {a b c : FormatScore F}

/-- A number is not below itself. -/
theorem not_lt_self {x : F} (hx : isFinite x = true) : ¬ x < x := fun h =>
  LawfulFloat.not_le_of_lt h (LawfulFloat.le_refl_of_isFinite hx)

/-- A mode with a finite error has the same score as itself. -/
theorem FormatScore.Finite.same (ha : a.Finite) : a.Same a :=
  ⟨not_lt_self ha, not_lt_self ha, rfl, rfl⟩

/-- An error that is not below a larger one is larger as well. -/
theorem lt_of_lt_of_not_lt {x y z : F} (hz : isFinite z = true) (h : x < y) (hzy : ¬ z < y) :
    x < z :=
  LawfulFloat.lt_of_lt_of_not_lt h (LawfulFloat.le_refl_of_isFinite hz) hzy

/-- Modes with the same score as a third one have the same score, if the errors are finite. -/
theorem FormatScore.Same.trans (hb : b.Finite) (hab : a.Same b) (hbc : b.Same c) : a.Same c := by
  refine ⟨fun h => ?_, fun h => ?_, hab.2.2.1.trans hbc.2.2.1, hab.2.2.2.trans hbc.2.2.2⟩
  · exact hab.1 (lt_of_lt_of_not_lt hb h hbc.1)
  · exact hbc.2.1 (lt_of_lt_of_not_lt hb h hab.2.1)

/-- The order is transitive. The cases are those of the field that decides in either
comparison. -/
theorem FormatScore.Precedes.trans (ha : a.Finite) (hb : b.Finite) (hc : c.Finite)
    (hab : a.Precedes b) (hbc : b.Precedes c) : a.Precedes c := by
  have hcb : ¬ c.fpsError < b.fpsError := by
    rcases hbc with hlt | ⟨hnot, -⟩
    · exact LawfulGap.lt_asymm hlt
    · exact hnot
  rcases hab with hlt | ⟨hba, hpreferred⟩
  · exact Or.inl (lt_of_lt_of_not_lt hc hlt hcb)
  · rcases hbc with hlt | ⟨-, hpreferred'⟩
    · left
      by_contra hac
      exact hba (lt_of_lt_of_not_lt ha hlt hac)
    · refine Or.inr ⟨fun hca => hcb (lt_of_lt_of_not_lt hb hca hba), ?_⟩
      unfold FormatScore.Preferred at *
      omega

/-- The order does not distinguish equal scores. -/
theorem Precedes.congr_right (hb : b.Finite) (hc : c.Finite) (hsame : b.Same c)
    (h : a.Precedes b) : a.Precedes c := by
  obtain ⟨hbc, hcb, hstream, hsubtype⟩ := hsame
  rcases h with hlt | ⟨hnot, hpreferred⟩
  · exact Or.inl (lt_of_lt_of_not_lt hc hlt hcb)
  · refine Or.inr ⟨fun hca => hcb (lt_of_lt_of_not_lt hb hca hnot), ?_⟩
    rwa [FormatScore.Preferred, ← hstream, ← hsubtype]

/-- A mode that comes before another one and has another score is better. -/
theorem isBetterCandidate_of_precedes (ha : a.Finite) (hb : b.Finite) (h : a.Precedes b) :
    isBetterCandidate a b = true := by
  rw [isBetterCandidate_iff]
  rcases h with hlt | ⟨hnot, hpreferred⟩
  · exact Or.inl hlt
  · by_cases hlt : a.fpsError < b.fpsError
    · exact Or.inl hlt
    · exact Or.inr ⟨LawfulGap.gap_self ha hb hlt hnot, hpreferred⟩

/-- Better modes are so for every mode of the same score. -/
theorem isBetterCandidate_congr_right (ha : a.Finite) (hb : b.Finite) (hc : c.Finite)
    (hsame : b.Same c) (h : isBetterCandidate a b = true) : isBetterCandidate a c = true := by
  obtain ⟨hbc, hcb, hstream, hsubtype⟩ := hsame
  rw [isBetterCandidate_iff] at h ⊢
  rcases h with hlt | ⟨hnear, hpreferred⟩
  · exact Or.inl (lt_of_lt_of_not_lt hc hlt hcb)
  · refine Or.inr ⟨LawfulGap.gap_congr hb hc ha hbc hcb hnear, ?_⟩
    rwa [FormatScore.Preferred, ← hstream, ← hsubtype]

end Order

/-! ## The selection from a list -/

section Selection

variable {F α : Type} [FloatOps F] [LawfulGap F] {score : α → FormatScore F} {l l' : List α}

/-- Every frame rate error of the list is a number. -/
def AllFinite (score : α → FormatScore F) (l : List α) : Prop := ∀ c ∈ l, (score c).Finite

/-- No mode of the list comes before the given one. -/
def First (score : α → FormatScore F) (l : List α) (s : α) : Prop :=
  s ∈ l ∧ ∀ c ∈ l, ¬ (score c).Precedes (score s)

/-- Whether both lists select modes of the same score, or none. -/
def SameChoice (score : α → FormatScore F) : Option α → Option α → Prop
  | none, none => True
  | some a, some b => (score a).Same (score b)
  | _, _ => False

/-- The selection from a list is the same for every order of the list, and no mode of the
list is better than the selected one. -/
def OrderIndependent (score : α → FormatScore F) (l : List α) : Prop :=
  ∀ l' : List α, l'.Perm l → SameChoice score (selectBest score l') (selectBest score l) ∧
    ∀ s, selectBest score l' = some s → ∀ c ∈ l, isBetterCandidate (score c) (score s) = false

/-- A mode of the list has almost the smallest frame rate error and better ranks than the
first mode. -/
def Disputed (score : α → FormatScore F) (l : List α) : Prop :=
  ∃ s, First score l s ∧ ∃ c ∈ l, nearEqual (score c).fpsError (score s).fpsError = true ∧
    (score c).Preferred (score s)

omit [LawfulGap F] in
/-- The best of a list with one more mode is decided between the best of the list and that mode. -/
theorem selectBest_concat (l : List α) (c : α) :
    selectBest score (l ++ [c]) = consider score (selectBest score l) c := List.foldl_concat ..

variable (score) in
omit [LawfulGap F] in
/-- The selected mode is one of the list, and there is one unless the list is empty. The selection
never puts anything else than a visited mode into its place. -/
theorem selectBest_cases (l : List α) :
    l = [] ∧ selectBest score l = none ∨ ∃ s ∈ l, selectBest score l = some s := by
  induction l using List.reverseRecOn with
  | nil => exact Or.inl ⟨rfl, rfl⟩
  | append_singleton l c ih =>
    right
    rw [selectBest_concat]
    have hlast : c ∈ l ++ [c] := List.mem_append_right _ (List.mem_singleton_self _)
    rcases ih with ⟨-, hnone⟩ | ⟨s, hs, hsome⟩
    · rw [hnone]
      exact ⟨c, hlast, rfl⟩
    · rw [hsome, consider]
      split
      · exact ⟨c, hlast, rfl⟩
      · exact ⟨s, List.mem_append_left _ hs, rfl⟩

/-- A list that is not empty has a first mode. It is found by going through the list, as the order
decides between any two scores. -/
theorem exists_first (hfinite : AllFinite score l) (hne : l ≠ []) : ∃ s, First score l s := by
  induction l with
  | nil => exact absurd rfl hne
  | cons c l ih =>
    have hc := hfinite c List.mem_cons_self
    have hself : ¬ (score c).Precedes (score c) := by
      rintro (hlt | ⟨-, hpreferred⟩)
      · exact not_lt_self hc hlt
      · unfold FormatScore.Preferred at hpreferred
        omega
    by_cases hnil : l = []
    · subst hnil
      exact ⟨c, List.mem_cons_self, by simpa using hself⟩
    · obtain ⟨s, hs, hfirst⟩ := ih (fun x hx => hfinite x (List.mem_cons_of_mem c hx)) hnil
      have hs_finite := hfinite s (List.mem_cons_of_mem c hs)
      by_cases hbefore : (score c).Precedes (score s)
      · refine ⟨c, List.mem_cons_self, fun x hx hprecedes => ?_⟩
        rcases List.mem_cons.mp hx with rfl | hmem
        · exact hself hprecedes
        · exact hfirst x hmem (hprecedes.trans (hfinite x hx) hc hs_finite hbefore)
      · refine ⟨s, List.mem_cons_of_mem c hs, fun x hx => ?_⟩
        rcases List.mem_cons.mp hx with rfl | hmem
        · exact hbefore
        · exact hfirst x hmem

/-- A first mode is better than every mode of another score. -/
theorem First.better {s c : α} (hfirst : First score l s) (hfinite : AllFinite score l) (hc : c ∈ l)
    (hother : ¬ (score c).Same (score s)) : isBetterCandidate (score s) (score c) = true := by
  rcases precedes_or_same (score s) (score c) with h | h | h
  · exact isBetterCandidate_of_precedes (hfinite s hfirst.1) (hfinite c hc) h
  · exact absurd h (hfirst.2 c hc)
  · exact absurd h.symm hother

omit [LawfulGap F] in
/-- Without a dispute no mode is better than a first one. -/
theorem First.not_better {s c : α} (hfirst : First score l s) (hclear : ¬ Disputed score l)
    (hc : c ∈ l) : isBetterCandidate (score c) (score s) = false := by
  refine Bool.eq_false_iff.mpr fun hbetter => ?_
  rcases isBetterCandidate_iff.mp hbetter with hlt | ⟨hnear, hpreferred⟩
  · exact hfirst.2 c hc (Or.inl hlt)
  · exact hclear ⟨s, hfirst, c, hc, hnear, hpreferred⟩

/-- A mode with the score of a first mode is a first mode. -/
theorem First.of_same {s c : α} (hfirst : First score l s) (hfinite : AllFinite score l)
    (hc : c ∈ l) (hsame : (score c).Same (score s)) : First score l c :=
  ⟨hc, fun x hx hprecedes => hfirst.2 x hx
    (Precedes.congr_right (hfinite c hc) (hfinite s hfirst.1) hsame hprecedes)⟩

/-- Without a dispute the selection ends with a first mode, whatever the order. The invariant of
the induction says that a mode with the first score stays once it was visited. -/
theorem selectBest_first {s : α} (hfirst : First score l s) (hfinite : AllFinite score l)
    (hclear : ¬ Disputed score l) {pre : List α} (hpre : pre ⊆ l)
    (hvisited : ∃ c ∈ pre, (score c).Same (score s)) :
    ∃ b, selectBest score pre = some b ∧ b ∈ l ∧ (score b).Same (score s) := by
  induction pre using List.reverseRecOn with
  | nil =>
    obtain ⟨c, hc, -⟩ := hvisited
    cases hc
  | append_singleton pre c ih =>
    have hpre' : pre ⊆ l := fun x hx => hpre (List.mem_append_left _ hx)
    have hc : c ∈ l := hpre (List.mem_append_right _ (List.mem_singleton_self _))
    rw [selectBest_concat]
    by_cases hbefore : ∃ x ∈ pre, (score x).Same (score s)
    · obtain ⟨b, hb, hmem, hsame⟩ := ih hpre' hbefore
      have hkeeps := (hfirst.of_same hfinite hmem hsame).not_better hclear hc
      exact ⟨b, by simp [consider, hb, hkeeps], hmem, hsame⟩
    · obtain ⟨x, hx, hsame⟩ := hvisited
      have hlast : (score c).Same (score s) := by
        rcases List.mem_append.mp hx with hold | hnew
        · exact absurd ⟨x, hold, hsame⟩ hbefore
        · exact List.mem_singleton.mp hnew ▸ hsame
      refine ⟨c, ?_, hc, hlast⟩
      rcases selectBest_cases score pre with ⟨-, hnone⟩ | ⟨b, hb, hsome⟩
      · simp [consider, hnone]
      · have hother : ¬ (score b).Same (score c) := by
          intro h
          exact hbefore ⟨b, hb, h.trans (hfinite c hc) hlast⟩
        have hbetter := (hfirst.of_same hfinite hc hlast).better hfinite (hpre' hb) hother
        simp [consider, hsome, hbetter]

/-- Visiting a first mode at the end selects a mode of its score. A mode that the first one does
not beat has the same score. -/
theorem consider_first {s : α} (hfirst : First score l s) (hfinite : AllFinite score l)
    {pre : List α} (hpre : pre ⊆ l) :
    ∃ b, selectBest score (pre ++ [s]) = some b ∧ b ∈ l ∧ (score b).Same (score s) := by
  rw [selectBest_concat]
  rcases selectBest_cases score pre with ⟨-, hnone⟩ | ⟨b, hb, hsome⟩
  · exact ⟨s, by simp [consider, hnone], hfirst.1, (hfinite s hfirst.1).same⟩
  · rw [hsome, consider]
    split
    · exact ⟨s, rfl, hfirst.1, (hfinite s hfirst.1).same⟩
    · rename_i hkeeps
      refine ⟨b, rfl, hpre hb, ?_⟩
      by_contra hother
      exact hkeeps (hfirst.better hfinite (hpre hb) hother)

/-- The selection does not depend on the order of the modes exactly when no mode with almost
the smallest frame rate error has better ranks than the first mode. -/
theorem orderIndependent_iff (hfinite : AllFinite score l) :
    OrderIndependent score l ↔ ¬ Disputed score l := by
  constructor
  · rintro hindependent ⟨s, hfirst, c, hc, hnear, hpreferred⟩
    obtain ⟨pre, post, rfl⟩ := List.append_of_mem hfirst.1
    have hperm : (pre ++ post ++ [s]).Perm (pre ++ s :: post) := by
      rw [List.append_assoc]
      exact List.Perm.append_left pre List.perm_append_comm
    have hrest : pre ++ post ⊆ pre ++ s :: post := fun x hx => by
      rcases List.mem_append.mp hx with h | h
      · exact List.mem_append_left _ h
      · exact List.mem_append_right _ (List.mem_cons_of_mem s h)
    obtain ⟨b, hselected, hb, hsame⟩ := consider_first hfirst hfinite hrest
    have hbetter : isBetterCandidate (score c) (score s) = true :=
      isBetterCandidate_iff.mpr (Or.inr ⟨hnear, hpreferred⟩)
    have hbetter' :=
      isBetterCandidate_congr_right (hfinite c hc) (hfinite s hfirst.1) (hfinite b hb)
      hsame.symm hbetter
    rw [(hindependent _ hperm).2 b hselected c hc] at hbetter'
    cases hbetter'
  · intro hclear l' hperm
    by_cases hnil : l = []
    · subst hnil
      rw [List.perm_nil.mp hperm]
      exact ⟨trivial, nofun⟩
    · obtain ⟨s, hfirst⟩ := exists_first hfinite hnil
      have hself := (hfinite s hfirst.1).same
      obtain ⟨b, hselected, hb, hsame⟩ := selectBest_first hfirst hfinite hclear hperm.subset
        ⟨s, hperm.symm.subset hfirst.1, hself⟩
      obtain ⟨b', hselected', -, hsame'⟩ := selectBest_first hfirst hfinite hclear
        (List.Subset.refl l) ⟨s, hfirst.1, hself⟩
      rw [hselected, hselected']
      refine ⟨hsame.trans (hfinite s hfirst.1) hsame'.symm, ?_⟩
      rintro _ ⟨⟩ c hc
      exact (hfirst.of_same hfinite hb hsame).not_better hclear hc

end Selection

/-- A mode of the preview stream and one of the record stream, with almost equal rates. -/
def sampleScores : List (FormatScore Float) :=
  [⟨lit 0.50005, 0, 50⟩, ⟨lit 0.5, 1, 0⟩]

/-- The errors of the sample are numbers. -/
theorem sampleScores_finite : AllFinite id sampleScores := by
  have hbound : isFinite (lit 0.50005 : Float) = true ∧ isFinite (lit 0.5 : Float) = true := by
    decide +kernel
  intro c hc
  rcases List.mem_pair.mp hc with rfl | rfl
  · exact hbound.1
  · exact hbound.2

/-- Each of the two modes is selected when it is visited last. Their streams differ, so the two
selections are not of one score. -/
theorem sampleScores_dependent : ¬ OrderIndependent id sampleScores := by
  intro hindependent
  have hforward : (selectBest id sampleScores).map (·.stream) = some 1 := by decide +kernel
  have hbackward : (selectBest id sampleScores.reverse).map (·.stream) = some 0 := by
    decide +kernel
  have hchoice := (hindependent sampleScores.reverse (List.reverse_perm _)).1
  obtain ⟨a, ha, hastream⟩ := Option.map_eq_some_iff.mp hforward
  obtain ⟨b, hb, hbstream⟩ := Option.map_eq_some_iff.mp hbackward
  rw [ha, hb] at hchoice
  have hsame : b.stream = a.stream := hchoice.2.2.1
  omega

/-- The selection depends on the order in which the driver lists the two modes. -/
theorem selection_depends_on_order :
    ¬ (AllFinite id sampleScores → OrderIndependent id sampleScores) := fun h =>
  sampleScores_dependent (h sampleScores_finite)

/-- The preview mode has almost the smallest error and the better rank. -/
theorem sampleScores_disputed : Disputed id sampleScores := by
  by_contra hclear
  exact sampleScores_dependent ((orderIndependent_iff sampleScores_finite).mpr hclear)

end EdgeClient.Camera
