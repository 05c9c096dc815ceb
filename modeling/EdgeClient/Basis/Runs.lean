import EdgeClient.Basis.Literals

/-!
# Runs of a state machine

A state machine is a step function on states, and a run is the list of its inputs.
Each step may also write a line into a transcript. An invariant of the step holds
after every run, together with the transcript; a relation between two machines
that their steps preserve relates the ends of two runs.
-/

namespace Basis

variable {σ τ ι κ ω : Type}

/-- The state after a run. -/
def runFrom (step : ι → σ → σ) (s : σ) (inputs : List ι) : σ :=
  inputs.foldl (fun s input => step input s) s

/-- What the steps of a run write, in order. -/
def transcript (step : ι → σ → σ) (out : ι → σ → List ω) : σ → List ι → List ω
  | _, [] => []
  | s, input :: inputs => out input s ++ transcript step out (step input s) inputs

/-- A condition on input and state holds in front of every step of a run. -/
def Throughout (step : ι → σ → σ) (P : ι → σ → Prop) : σ → List ι → Prop
  | _, [] => True
  | s, input :: inputs => P input s ∧ Throughout step P (step input s) inputs

/-- Whether a property holds throughout a run is found by running it. -/
instance decidableThroughout (step : ι → σ → σ) (P : ι → σ → Prop)
    [∀ input s, Decidable (P input s)] : ∀ s inputs, Decidable (Throughout step P s inputs)
  | _, [] => isTrue trivial
  | s, input :: inputs =>
    haveI := decidableThroughout step P (step input s) inputs
    inferInstanceAs (Decidable (P input s ∧ Throughout step P (step input s) inputs))

section Machine

variable {step : ι → σ → σ} {s : σ}

/-- A run without inputs stays where it is. -/
@[simp] theorem runFrom_nil : runFrom step s [] = s := rfl

/-- A run takes the step of its first input and goes on with the others. -/
@[simp] theorem runFrom_cons (input : ι) (inputs : List ι) :
    runFrom step s (input :: inputs) = runFrom step (step input s) inputs := rfl

/-- A run in two parts. -/
theorem runFrom_append (earlier later : List ι) :
    runFrom step s (earlier ++ later) = runFrom step (runFrom step s earlier) later :=
  List.foldl_append

/-- A condition throughout a run in two parts. -/
theorem throughout_append {P : ι → σ → Prop} {earlier later : List ι} :
    Throughout step P s (earlier ++ later) ↔
      Throughout step P s earlier ∧ Throughout step P (runFrom step s earlier) later := by
  induction earlier generalizing s with
  | nil => exact (and_iff_right trivial).symm
  | cons input inputs ih =>
    rw [List.cons_append, Throughout, ih, Throughout, runFrom_cons, and_assoc]

/-- An invariant that every step preserves under the condition holds after a run
that meets the condition throughout, and relates the state to the transcript. -/
theorem run_invariant {out : ι → σ → List ω} {P : ι → σ → Prop} (I : List ω → σ → Prop)
    (hstep : ∀ written s input, P input s → I written s →
      I (written ++ out input s) (step input s))
    {inputs : List ι} (hinit : I [] s) (hall : Throughout step P s inputs) :
    I (transcript step out s inputs) (runFrom step s inputs) := by
  suffices h : ∀ written, I written s →
      I (written ++ transcript step out s inputs) (runFrom step s inputs) by
    simpa only [List.nil_append] using h [] hinit
  clear hinit
  induction inputs generalizing s with
  | nil =>
    intro written hinv
    simpa only [transcript, List.append_nil, runFrom_nil] using hinv
  | cons input inputs ih =>
    intro written hinv
    have hnext := ih hall.2 _ (hstep written s input hall.1 hinv)
    simpa only [transcript, List.append_assoc, runFrom_cons] using hnext

/-- A run of a machine that keeps notes besides its state goes through the same states. -/
theorem runFrom_fst {step' : ι → σ × τ → σ × τ}
    (hsame : ∀ input x, (step' input x).1 = step input x.1)
    (inputs : List ι) (x : σ × τ) : (runFrom step' x inputs).1 = runFrom step x.1 inputs := by
  induction inputs generalizing x with
  | nil => rfl
  | cons input inputs ih => rw [runFrom_cons, ih, hsame, runFrom_cons]

/-- An invariant that every step preserves holds after every run. -/
theorem run_preserves {I : σ → Prop} (hstep : ∀ input s, I s → I (step input s))
    (inputs : List ι) (hinit : I s) : I (runFrom step s inputs) := by
  induction inputs generalizing s with
  | nil => exact hinit
  | cons input inputs ih => exact ih (hstep input s hinit)

/-- An invariant that every step preserves under the condition holds after a run that meets
the condition throughout. -/
theorem run_maintains {P : ι → σ → Prop} {I : σ → Prop}
    (hstep : ∀ input s, P input s → I s → I (step input s)) {inputs : List ι} (hinit : I s)
    (hall : Throughout step P s inputs) : I (runFrom step s inputs) := by
  induction inputs generalizing s with
  | nil => exact hinit
  | cons input inputs ih => exact ih (hstep input s hall.1 hinit) hall.2

/-- What an invariant implies for every input holds throughout a run that keeps it. -/
theorem throughout_of_maintains {P Q : ι → σ → Prop} {I : σ → Prop}
    (hstep : ∀ input s, P input s → I s → I (step input s)) (hgoal : ∀ input s, I s → Q input s)
    {inputs : List ι} (hinit : I s) (hall : Throughout step P s inputs) :
    Throughout step Q s inputs := by
  induction inputs generalizing s with
  | nil => trivial
  | cons input inputs ih =>
    exact ⟨hgoal input s hinit, ih (hstep input s hall.1 hinit) hall.2⟩

/-- When a step keeps an invariant just under the condition, the invariant holds in every
state of a run just when the condition holds in front of every step. -/
theorem throughout_iff {P : ι → σ → Prop} {I : σ → Prop}
    (hstep : ∀ input s, I s → (I (step input s) ↔ P input s)) {inputs : List ι} (hinit : I s) :
    Throughout step (fun _ s => I s) s inputs ∧ I (runFrom step s inputs) ↔
      Throughout step P s inputs := by
  induction inputs generalizing s with
  | nil => exact iff_of_true ⟨trivial, hinit⟩ trivial
  | cons input inputs ih =>
    constructor
    · rintro ⟨⟨-, hrest⟩, hlast⟩
      have hnext : I (step input s) := by
        cases inputs with
        | nil => exact hlast
        | cons input' inputs => exact hrest.1
      exact ⟨(hstep input s hinit).mp hnext, (ih hnext).mp ⟨hrest, hlast⟩⟩
    · rintro ⟨hfirst, hrest⟩
      obtain ⟨hstates, hlast⟩ := (ih ((hstep input s hinit).mpr hfirst)).mpr hrest
      exact ⟨⟨hinit, hstates⟩, hlast⟩

/-- A condition on the inputs alone holds throughout every run of such inputs. -/
theorem throughout_of_forall {P : ι → Prop} {inputs : List ι} (h : ∀ input ∈ inputs, P input)
    (s : σ) : Throughout step (fun input _ => P input) s inputs := by
  induction inputs generalizing s with
  | nil => trivial
  | cons input inputs ih =>
    rw [List.forall_mem_cons] at h
    exact ⟨h.1, ih h.2 (step input s)⟩

/-- A condition may be weakened throughout a run. -/
theorem Throughout.imp {P Q : ι → σ → Prop} {inputs : List ι} (hall : Throughout step P s inputs)
    (h : ∀ input s, P input s → Q input s) : Throughout step Q s inputs := by
  induction inputs generalizing s with
  | nil => trivial
  | cons input inputs ih => exact ⟨h input s hall.1, ih hall.2⟩

end Machine

/-- A relation between the states of two machines that related inputs preserve, under a
condition on each machine, relates the ends of two runs, and relates their transcripts
line by line when each pair of steps does. -/
theorem run_relates {ω' : Type} {step : ι → σ → σ} {step' : κ → τ → τ} {out : ι → σ → List ω}
    {out' : κ → τ → List ω'} {R : σ → τ → Prop} {S : ι → κ → Prop} {T : ω → ω' → Prop}
    {P : ι → σ → Prop} {P' : κ → τ → Prop}
    (hstep : ∀ input input' s s', S input input' → P input s → P' input' s' → R s s' →
      R (step input s) (step' input' s') ∧ List.Forall₂ T (out input s) (out' input' s'))
    {inputs : List ι} {inputs' : List κ} {s : σ} {s' : τ}
    (hinputs : List.Forall₂ S inputs inputs') (hall : Throughout step P s inputs)
    (hall' : Throughout step' P' s' inputs') (hinit : R s s') :
    R (runFrom step s inputs) (runFrom step' s' inputs') ∧
      List.Forall₂ T (transcript step out s inputs) (transcript step' out' s' inputs') := by
  induction hinputs generalizing s s' with
  | nil => exact ⟨hinit, .nil⟩
  | cons hhead _ ih =>
    obtain ⟨hnext, hlines⟩ := hstep _ _ _ _ hhead hall.1 hall'.1 hinit
    obtain ⟨hend, hrest⟩ := ih hall.2 hall'.2 hnext
    exact ⟨hend, List.rel_append hlines hrest⟩

end Basis
