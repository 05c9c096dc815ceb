import EdgeClient.Basis.Runs
import EdgeClient.Basis.StatefulPrograms

/-!
# Programs that share a world

A program is a tree of calls. Each call is one atomic operation on a world that the
program does not own, and it answers or throws. Between two calls the other parties may
change the world. What a program is assured of is therefore asked for after every
interference that it has to reckon with, and an assurance that is computed once, from
the text of the program, holds along every interleaving.
-/

namespace Basis

variable {ε : Type} {Op : Type} {Answer : Op → Type} {σ α β : Type}

/-- A program: a value, an exception, or a call with what follows each of its answers. -/
inductive Program (ε : Type) {Op : Type} (Answer : Op → Type) (α : Type) : Type
  /-- The program returns. -/
  | done (a : α)
  /-- The program throws. -/
  | thrown (e : ε)
  /-- The program calls an operation and goes on with the answer. -/
  | call (op : Op) (next : Except ε (Answer op) → Program ε Answer α)

namespace Program

/-- Go on with the value of a program. -/
def bind (p : Program ε Answer α) (f : α → Program ε Answer β) : Program ε Answer β :=
  match p with
  | done a => f a
  | thrown e => thrown e
  | call op next => call op fun answer => (next answer).bind f

/-- Go on with the exception of a program. -/
def handle (p : Program ε Answer α) (f : ε → Program ε Answer α) : Program ε Answer α :=
  match p with
  | done a => done a
  | thrown e => f e
  | call op next => call op fun answer => (next answer).handle f

/-- Programs are composed one after the other. A failure ends the program at once. -/
instance : Monad (Program ε Answer) where
  pure := done
  bind := bind

/-- A program may throw, and a handler may continue in its place. -/
instance : MonadExceptOf ε (Program ε Answer) where
  throw := thrown
  tryCatch := handle

/-- The end of a program whose outcome is known. -/
def ofExcept : Except ε α → Program ε Answer α
  | .ok a => done a
  | .error e => thrown e

/-- Call an operation. -/
def perform (op : Op) : Program ε Answer (Answer op) := call op ofExcept

/-- To return is to be done. -/
@[simp] theorem pure_eq (a : α) : (pure a : Program ε Answer α) = done a := rfl

/-- To throw is to be a program that has thrown. -/
@[simp] theorem throw_eq (e : ε) : (throw e : Program ε Answer α) = thrown e := rfl

/-- A finished program continues with the next one. -/
@[simp] theorem done_bind (a : α) (f : α → Program ε Answer β) : done a >>= f = f a := rfl

/-- After a failure nothing else is run. -/
@[simp] theorem thrown_bind (e : ε) (f : α → Program ε Answer β) : thrown e >>= f = thrown e := rfl

/-- The rest of a program waits for the answer to the call in front of it. -/
@[simp] theorem call_bind (op : Op) (next : Except ε (Answer op) → Program ε Answer α)
    (f : α → Program ε Answer β) :
    call op next >>= f = call op fun answer => next answer >>= f := rfl

/-- `try` and `catch` are the handler of the program. -/
@[simp] theorem tryCatch_eq (p : Program ε Answer α) (f : ε → Program ε Answer α) :
    tryCatch p f = p.handle f := rfl

/-- A program that is done needs no handler. -/
@[simp] theorem handle_done (a : α) (f : ε → Program ε Answer α) : (done a).handle f = done a := rfl

/-- A failure is given to the handler. -/
@[simp] theorem handle_thrown (e : ε) (f : ε → Program ε Answer α) :
    (thrown e : Program ε Answer α).handle f = f e := rfl

/-- The handler stays in force after a call is answered. -/
@[simp] theorem handle_call (op : Op) (next : Except ε (Answer op) → Program ε Answer α)
    (f : ε → Program ε Answer α) :
    (call op next).handle f = call op fun answer => (next answer).handle f := rfl

/-- A result that is at hand is a finished program. -/
@[simp] theorem ofExcept_ok (a : α) : (ofExcept (.ok a) : Program ε Answer α) = done a := rfl

/-- An error that is at hand is a failed program. -/
@[simp] theorem ofExcept_error (e : ε) : (ofExcept (.error e) : Program ε Answer α) = thrown e :=
  rfl

/-- Composition is associative, and returning is neutral for it. The proofs are inductions over
the tree of calls. -/
instance : LawfulMonad (Program ε (Answer : Op → Type)) := by
  refine LawfulMonad.mk' _ ?_ (fun _ _ => rfl) ?_
  · intro α p
    change p.bind done = p
    induction p with
    | done a => rfl
    | thrown e => rfl
    | call op next ih => exact congrArg (call op) (funext ih)
  · intro α β γ p f g
    change (p.bind f).bind g = p.bind fun a => (f a).bind g
    induction p with
    | done a => rfl
    | thrown e => rfl
    | call op next ih => exact congrArg (call op) (funext ih)

/-! ## A program alone -/

/-- Run a program on a world that nobody else changes. -/
def run (answer : ∀ op, σ → Except ε (Answer op) × σ) :
    Program ε Answer α → σ → Except ε α × σ
  | done a, s => (.ok a, s)
  | thrown e, s => (.error e, s)
  | call op next, s => run answer (next (answer op s).1) (answer op s).2

section Run

variable {answer : ∀ op, σ → Except ε (Answer op) × σ}

/-- A finished program has its result and leaves the state alone. -/
@[simp] theorem run_done (a : α) (s : σ) :
    run answer (done a : Program ε Answer α) s = (.ok a, s) := rfl

/-- A failed program has its error and leaves the state alone. -/
@[simp] theorem run_thrown (e : ε) (s : σ) :
    run answer (thrown e : Program ε Answer α) s = (.error e, s) := rfl

/-- A call is answered in the state, and the rest of the program runs after it. -/
@[simp] theorem run_call (op : Op) (next : Except ε (Answer op) → Program ε Answer α) (s : σ) :
    run answer (call op next) s = run answer (next (answer op s).1) (answer op s).2 := rfl

/-- A sequence runs the first part, and the second one unless the first threw. By induction on the
first program: its calls are made in the same states. -/
theorem run_bind (p : Program ε Answer α) (f : α → Program ε Answer β) (s : σ) :
    run answer (p >>= f) s =
      match run answer p s with
      | (.ok a, t) => run answer (f a) t
      | (.error e, t) => (.error e, t) := by
  induction p generalizing s with
  | done a => rfl
  | thrown e => rfl
  | call op next ih => exact ih _ _

end Run

/-! ## A program among others -/

/-- What a program needs and promises when others change the world between its calls:
`rely` is the interference it reckons with, `demand` must hold in front of each call,
and `promise` relates the worlds in front of and behind a call. -/
structure Contract (Op σ : Type) where
  /-- A change by others between two calls. -/
  rely : σ → σ → Prop
  /-- What must hold in front of a call. -/
  demand : Op → σ → Prop
  /-- What a call does to the world. -/
  promise : Op → σ → σ → Prop
  /-- Others may leave the world as it is. -/
  rely_refl : ∀ s, rely s s
  /-- Two changes by others are one. -/
  rely_trans : ∀ {s t u}, rely s t → rely t u → rely s u

variable (effect : ∀ op, σ → Except ε (Answer op) → σ → Prop) (K : Contract Op σ)

/-- A program keeps a contract from a world on and ends with `Q`. -/
def Assured : Program ε Answer α → (Except ε α → σ → Prop) → σ → Prop
  | done a, Q, s => ∀ t, K.rely s t → Q (.ok a) t
  | thrown e, Q, s => ∀ t, K.rely s t → Q (.error e) t
  | call op next, Q, s => ∀ t, K.rely s t → K.demand op t ∧
      ∀ answer u, effect op t answer u → K.promise op t u ∧ Assured (next answer) Q u

section Assured

variable {effect K} {Q R : Except ε α → σ → Prop} {s t : σ} {p : Program ε Answer α}

/-- An assurance outlives the interference. -/
theorem Assured.of_rely (h : Assured effect K p Q s) (hrely : K.rely s t) :
    Assured effect K p Q t := by
  cases p with
  | done a => exact fun u hu => h u (K.rely_trans hrely hu)
  | thrown e => exact fun u hu => h u (K.rely_trans hrely hu)
  | call op next => exact fun u hu => h u (K.rely_trans hrely hu)

/-- The end may be described more weakly. The calls and their promises stay the same, only the end
changes. -/
theorem Assured.mono (h : Assured effect K p Q s) (hQ : ∀ result t, Q result t → R result t) :
    Assured effect K p R s := by
  induction p generalizing s with
  | done a => exact fun t ht => hQ _ t (h t ht)
  | thrown e => exact fun t ht => hQ _ t (h t ht)
  | call op next ih =>
    intro t ht
    obtain ⟨hdemand, hcall⟩ := h t ht
    refine ⟨hdemand, fun answer u hu => ?_⟩
    obtain ⟨hpromise, hnext⟩ := hcall answer u hu
    exact ⟨hpromise, ih answer hnext⟩

/-- A sequence is assured when the second part is assured at the end of the first. What is asked
of the first part is that the second one is assured wherever it returns. -/
theorem Assured.bind {f : α → Program ε Answer β} {Q : Except ε β → σ → Prop}
    (h : Assured effect K p (fun result t =>
      match result with
      | .ok a => Assured effect K (f a) Q t
      | .error e => Q (.error e) t) s) : Assured effect K (p >>= f) Q s := by
  induction p generalizing s with
  | done a => exact h s (K.rely_refl s)
  | thrown e => exact h
  | call op next ih =>
    intro t ht
    obtain ⟨hdemand, hcall⟩ := h t ht
    refine ⟨hdemand, fun answer u hu => ?_⟩
    obtain ⟨hpromise, hnext⟩ := hcall answer u hu
    exact ⟨hpromise, ih answer hnext⟩

/-- A handled program is assured when the handler is assured behind each exception. What is asked
of the program in front is that its exceptions leave a state in which the handler is assured. -/
theorem Assured.handle {f : ε → Program ε Answer α}
    (h : Assured effect K p (fun result t =>
      match result with
      | .ok a => Q (.ok a) t
      | .error e => Assured effect K (f e) Q t) s) : Assured effect K (p.handle f) Q s := by
  induction p generalizing s with
  | done a => exact h
  | thrown e => exact h s (K.rely_refl s)
  | call op next ih =>
    intro t ht
    obtain ⟨hdemand, hcall⟩ := h t ht
    refine ⟨hdemand, fun answer u hu => ?_⟩
    obtain ⟨hpromise, hnext⟩ := hcall answer u hu
    exact ⟨hpromise, ih answer hnext⟩

/-- The next call meets its demand. -/
theorem Assured.demand {op : Op} {next : Except ε (Answer op) → Program ε Answer α}
    (h : Assured effect K (call op next) Q s) : K.demand op s := (h s (K.rely_refl s)).1

/-- A call keeps its promise, and what follows is assured. -/
theorem Assured.step {op : Op} {next : Except ε (Answer op) → Program ε Answer α}
    {answer : Except ε (Answer op)} (h : Assured effect K (call op next) Q s)
    (hcall : effect op s answer t) : K.promise op s t ∧ Assured effect K (next answer) Q t :=
  (h s (K.rely_refl s)).2 answer t hcall

/-- A program that ended meets its description. -/
theorem Assured.ended {result : Except ε α} (h : Assured effect K (ofExcept result) Q s) :
    Q result s := by
  cases result with
  | ok a => exact h s (K.rely_refl s)
  | error e => exact h s (K.rely_refl s)

end Assured

end Program

/-- A world and what remains of a program that runs in it. -/
structure Running (ε : Type) {Op : Type} (Answer : Op → Type) (σ α : Type) where
  /-- The world. -/
  world : σ
  /-- What remains to be done. -/
  program : Program ε Answer α

namespace Running

/-- The next call of the program, if it has not ended. -/
def nextCall (r : Running ε Answer σ α) : Option Op :=
  match r.program with
  | .call op _ => some op
  | _ => none

/-- Let the program make its next call. -/
def advance (answer : ∀ op, σ → Except ε (Answer op) × σ) (r : Running ε Answer σ α) :
    Running ε Answer σ α :=
  match r.program with
  | .call op next => ⟨(answer op r.world).2, next (answer op r.world).1⟩
  | _ => r

/-- Let the others change the world. -/
def interfere (f : σ → σ) (r : Running ε Answer σ α) : Running ε Answer σ α :=
  { r with world := f r.world }

variable {effect : ∀ op, σ → Except ε (Answer op) → σ → Prop} {K : Program.Contract Op σ}
  {Q : Except ε α → σ → Prop} {r : Running ε Answer σ α}

/-- The program of a running system is assured. -/
def Sound (effect : ∀ op, σ → Except ε (Answer op) → σ → Prop) (K : Program.Contract Op σ)
    (Q : Except ε α → σ → Prop) (r : Running ε Answer σ α) : Prop :=
  r.program.Assured effect K Q r.world

/-- The next call meets its demand. A program that has ended makes no call. -/
theorem Sound.demand {op : Op} (h : r.Sound effect K Q) (hcall : r.nextCall = some op) :
    K.demand op r.world := by
  obtain ⟨world, program⟩ := r
  cases program with
  | done a => cases hcall
  | thrown e => cases hcall
  | call op' next =>
    cases hcall
    exact Program.Assured.demand h

/-- A call keeps its promise, and the system stays sound. Either nothing was called, or the
promise is that of the operation that was. -/
theorem Sound.advance {answer : ∀ op, σ → Except ε (Answer op) × σ}
    (hanswer : ∀ op s, effect op s (answer op s).1 (answer op s).2) (h : r.Sound effect K Q) :
    (r.advance answer).Sound effect K Q ∧
      ((r.nextCall = none ∧ r.advance answer = r) ∨
        ∃ op, r.nextCall = some op ∧ (r.advance answer).world = (answer op r.world).2 ∧
          K.promise op r.world (r.advance answer).world) := by
  obtain ⟨world, program⟩ := r
  cases program with
  | done a => exact ⟨h, Or.inl ⟨rfl, rfl⟩⟩
  | thrown e => exact ⟨h, Or.inl ⟨rfl, rfl⟩⟩
  | call op next =>
    obtain ⟨hpromise, hnext⟩ := Program.Assured.step h (hanswer op world)
    exact ⟨hnext, Or.inr ⟨op, rfl, rfl, hpromise⟩⟩

/-- An interference that the program reckons with keeps the system sound. -/
theorem Sound.interfere {f : σ → σ} (h : r.Sound effect K Q) (hrely : K.rely r.world (f r.world)) :
    (r.interfere f).Sound effect K Q := Program.Assured.of_rely h hrely

end Running

end Basis
