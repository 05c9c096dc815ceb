import EdgeClient.Basis.Runs
import EdgeClient.Basis.StatefulPrograms
import EdgeClient.Storage.Database

/-!
# Reconnecting the device channel

The worker of the device channel makes one connection attempt after another. Behind each
attempt it waits for a time that doubles with a counter of failures. The counter goes back
to zero at the end of a long connection, in code that an exception jumps over: a long
connection that ends by an exception counts as one more failure.
-/

namespace EdgeClient.Sync.DeviceChannel

open Basis Storage

/-! ## One attempt -/

/-- Seconds on the steady clock, which counts nanoseconds. -/
def seconds (n : ℤ) : ℤ := n * 1000000000

/-- The end of a wait of 100 ms in which an operation did not finish. -/
structure Poll where
  /-- Whether the worker is asked to stop. -/
  stop : Bool
  /-- The clock. -/
  now : ℤ

/-- An asynchronous operation of the socket. -/
structure Operation where
  /-- The clock when the wait for it begins. -/
  started : ℤ
  /-- The waits in which it did not finish. -/
  polls : List Poll
  /-- What `GetResults` says when it has finished. -/
  result : Except Thrown Unit

/-- The loop of `finish`. -/
def pollUntil (deadline : ℤ) (result : Except Thrown Unit) : List Poll → Except Thrown Unit
  | [] => result
  | p :: polls =>
    if p.stop ∨ deadline ≤ p.now then
      throw (.runtimeError "Device channel operation cancelled or timed out")
    else pollUntil deadline result polls

/-- `finish`: wait for an operation. -/
def finish (operation : Operation) (timeout : ℤ) : Except Thrown Unit :=
  pollUntil (operation.started + timeout) operation.result operation.polls

/-- What one round of the loop of a connection meets. The callbacks of the socket set flags at any
time, which is why they are an input. -/
structure Round where
  /-- What `reconcile` does when the server has asked for it. -/
  reconcile : Option (Except Thrown Unit)
  /-- The clock. -/
  now : ℤ
  /-- When the server was heard last. -/
  lastServer : ℤ
  /-- What `unprotect_token` says. -/
  token : Except Thrown String
  /-- What `pending_count` says. -/
  pendingCount : Except Thrown ℤ
  /-- What `dead_count` says. -/
  deadCount : Except Thrown ℤ
  /-- Sending the report. -/
  store : Operation

/-- One round: the time of the next report, or nothing when the credential has changed. The
credential is read again for each report, and a report is due every ten seconds. -/
def round (token : String) (due : ℤ) (r : Round) : Except Thrown (Option ℤ) := do
  if let some outcome := r.reconcile then outcome
  if seconds 35 < r.now - r.lastServer then
    throw (.runtimeError "Device channel acknowledgement expired")
  if due ≤ r.now then
    if (← r.token) ≠ token then return none
    let _ ← r.pendingCount
    let _ ← r.deadCount
    finish r.store (seconds 5)
    return some (r.now + seconds 10)
  else return some due

/-- The loop of a connection. It ends when the peer has closed the connection or the worker
is asked to stop, when the credential has changed, or by an exception. -/
def serve (token : String) : ℤ → List Round → Except Thrown Unit
  | _, [] => return ()
  | due, r :: rounds => do
    match ← round token due r with
    | none => return ()
    | some due => serve token due rounds

/-- A connection attempt, with the clock and everything it meets. An attempt that throws is one
that ends with an exception, at any of its calls. -/
structure Attempt where
  /-- What `unprotect_token` and `validate_token` say. -/
  token : Except Thrown String
  /-- Creating the socket and its request header. -/
  socket : Except Thrown Unit
  /-- `ConnectAsync`. -/
  connect : Operation
  /-- The clock when the connection is up. -/
  connectedAt : ℤ
  /-- What `reconcile` does then. -/
  reconcile : Except Thrown Unit
  /-- The clock when the loop begins. -/
  due : ℤ
  /-- The rounds of the loop. -/
  rounds : List Round
  /-- The clock when the connection ends. -/
  endedAt : ℤ
  /-- The number drawn for the jitter. -/
  random : ℕ

namespace Attempt

/-- The attempt up to the connection. -/
def establish (a : Attempt) : Except Thrown String := do
  let token ← a.token
  a.socket
  finish a.connect (seconds 10)
  return token

/-- The whole attempt, inside the `try` block. -/
def run (a : Attempt) : Except Thrown Unit := do
  let token ← a.establish
  a.reconcile
  serve token a.due a.rounds

/-- Whether the connection stayed up for more than thirty seconds. -/
def healthy (a : Attempt) : Bool := a.establish.isOk ∧ seconds 30 < a.endedAt - a.connectedAt

/-- Whether the attempt ends by an exception. -/
def throws (a : Attempt) : Bool := ¬ a.run.isOk

end Attempt

/-! ## The worker -/

/-- The worker between two attempts. -/
structure Worker where
  /-- `failures`, a 32-bit counter. -/
  failures : ℕ := 0
  /-- Whether an attempt was made. -/
  attempted : Bool := false

/-- The counter behind an attempt: the `try` block resets it at its end. -/
def Worker.counted (a : Attempt) (s : Worker) : ℕ :=
  match a.run with
  | .ok _ => if seconds 30 < a.endedAt - a.connectedAt then 0 else s.failures
  | .error _ => s.failures

/-- The delay behind an attempt, in milliseconds. -/
def Worker.delay (a : Attempt) (s : Worker) : ℕ :=
  1000 * 2 ^ min (s.counted a) 5 + a.random % 1000

/-- An attempt with its delay. -/
def Worker.step (a : Attempt) (s : Worker) : Worker where
  failures := (s.counted a + 1) % 2 ^ 32
  attempted := true

/-- What an attempt shows: whether the connection was healthy, and the delay behind it. -/
def Worker.shows (a : Attempt) (s : Worker) : List (Bool × ℕ) := [(a.healthy, s.delay a)]

/-- The number of the delay behind an attempt, after the number of the attempt before. -/
def backoffNumber (healthy : Bool) : Option ℕ → ℕ
  | none => 0
  | some k => if healthy then 0 else k + 1

/-- The delays behind attempts start over behind a healthy connection and double behind
every other one. -/
def FollowsBackoff : Option ℕ → List (Bool × ℕ) → Prop
  | _, [] => True
  | before, (healthy, delay) :: shown =>
    (∃ jitter < 1000, delay = 1000 * 2 ^ min (backoffNumber healthy before) 5 + jitter) ∧
      FollowsBackoff (some (backoffNumber healthy before)) shown

/-- A healthy connection that ends by an exception finds the counter at zero, and behind the
first attempt no other attempt does. -/
def Worker.Counts (a : Attempt) (s : Worker) : Prop :=
  (a.healthy = true → a.throws = true → s.failures = 0) ∧
    (a.healthy = false → s.attempted = true → s.failures ≠ 0)

/-- The delay has the number `k` just when the counter does, up to the last doubling. The random
part is below a second, so the power of two can be read off. -/
theorem delay_iff {a : Attempt} {s : Worker} {k : ℕ} :
    (∃ jitter < 1000, s.delay a = 1000 * 2 ^ min k 5 + jitter) ↔ min (s.counted a) 5 = min k 5 := by
  have hrandom := Nat.mod_lt a.random (by decide : 0 < 1000)
  constructor
  · rintro ⟨jitter, hjitter, hdelay⟩
    unfold Worker.delay at hdelay
    have hpower : 2 ^ min (s.counted a) 5 = 2 ^ min k 5 := by omega
    exact Nat.pow_right_injective le_rfl hpower
  · intro heq
    exact ⟨a.random % 1000, hrandom, by rw [Worker.delay, heq]⟩

/-- The counter behind an attempt. -/
theorem counted_eq (a : Attempt) (s : Worker) :
    s.counted a = if a.healthy = true ∧ a.throws = false then 0 else s.failures := by
  unfold Worker.counted Attempt.healthy Attempt.throws
  cases hrun : a.run with
  | error e => simp [Except.isOk, Except.toBool]
  | ok value =>
    obtain ⟨token, hestablish, -⟩ := bind_eq_ok.mp hrun
    simp [hestablish, Except.isOk, Except.toBool]

/-- The counter of the worker agrees with the number of the delay before. -/
def Worker.Agrees (before : Option ℕ) (s : Worker) : Prop :=
  match before with
  | none => s.failures = 0 ∧ s.attempted = false
  | some k => s.failures = (k + 1) % 2 ^ 32 ∧ k < 2 ^ 32 ∧ s.attempted = true

/-- While counter and number agree, the next delay is as it should be just when the attempt
counts, and then they agree again. -/
theorem Worker.Agrees.step {before : Option ℕ} {s : Worker} (hs : s.Agrees before) (a : Attempt) :
    ((∃ jitter < 1000, s.delay a = 1000 * 2 ^ min (backoffNumber a.healthy before) 5 + jitter) ↔
      s.Counts a) ∧
    (s.Counts a → (s.step a).Agrees (some (backoffNumber a.healthy before))) := by
  rw [delay_iff, Worker.Counts]
  have hcounted := counted_eq a s
  cases before with
  | none =>
    obtain ⟨hfailures, hattempted⟩ := hs
    have hzero : s.counted a = 0 := by
      rw [hcounted, hfailures]
      exact ite_self 0
    simp [backoffNumber, hzero, hfailures, hattempted, Worker.Agrees, Worker.step]
  | some k =>
    obtain ⟨hfailures, hk, hattempted⟩ := hs
    simp only [Worker.Agrees, Worker.step, backoffNumber]
    cases hhealthy : a.healthy with
    | true =>
      cases hthrows : a.throws with
      | true =>
        rw [hcounted]
        simp only [hhealthy, hthrows, Bool.true_eq_false, and_false, if_false, if_true,
          true_implies, false_implies, and_true]
        omega
      | false =>
        rw [hcounted]
        simp [hhealthy, hthrows]
    | false =>
      rw [hcounted]
      simp only [hhealthy, hattempted, Bool.false_eq_true, false_and, if_false, true_implies,
        false_implies, true_and, and_true]
      omega

/-- For all attempts, whatever their durations and endings, the delays follow the law if and
only if every attempt counts. -/
theorem follows_backoff_iff (attempts : List Attempt) :
    FollowsBackoff none (transcript Worker.step Worker.shows {} attempts) ↔
      Throughout Worker.step Worker.Counts {} attempts := by
  suffices h : ∀ before s, s.Agrees before →
      (FollowsBackoff before (transcript Worker.step Worker.shows s attempts) ↔
        Throughout Worker.step Worker.Counts s attempts) from h none {} ⟨rfl, rfl⟩
  induction attempts with
  | nil => exact fun _ _ _ => Iff.rfl
  | cons a attempts ih =>
    intro before s hs
    obtain ⟨hdelay, hnext⟩ := hs.step a
    change (_ ∧ _) ↔ (_ ∧ _)
    rw [hdelay]
    exact and_congr_right fun hcounts => ih _ _ (hnext hcounts)

/-! ## A long connection that breaks -/

/-- The server cannot be reached. The socket is made and the attempt to connect throws. -/
def unreachable : Attempt where
  token := .ok "token"
  socket := .ok ()
  connect := ⟨0, [], .error (.runtimeError "ConnectAsync")⟩
  connectedAt := 0
  reconcile := .ok ()
  due := 0
  rounds := []
  endedAt := 0
  random := 7

/-- The round after `n` tenths of a second of a connection that began at one minute. The server
has just been heard, and a report that is due is sent. -/
def liveRound (n : ℕ) : Round where
  reconcile := none
  now := seconds 60 + n * 100000000
  lastServer := seconds 60 + n * 100000000
  token := .ok "token"
  pendingCount := .ok 0
  deadCount := .ok 0
  store := ⟨seconds 60 + n * 100000000, [], .ok ()⟩

/-- A connection that works for forty seconds, until a report cannot be sent. The rounds before
the last one all succeed, a hundred milliseconds apart. -/
def brokenAfterForty : Attempt where
  token := .ok "token"
  socket := .ok ()
  connect := ⟨seconds 60, [], .ok ()⟩
  connectedAt := seconds 60
  reconcile := .ok ()
  due := seconds 60
  rounds := (List.range 400).map liveRound ++
    [{ liveRound 400 with store := ⟨seconds 100, [], .error (.runtimeError "StoreAsync")⟩ }]
  endedAt := seconds 100
  random := 7

/-- The delay behind the long connection is twice as long as behind the failure before it. The
reset that should follow the long connection is skipped, and the number goes on counting. -/
theorem broken_connection_doubles :
    transcript Worker.step Worker.shows {} [unreachable, brokenAfterForty] =
        [(false, 1007), (true, 2007)] ∧
      ¬ FollowsBackoff none
        (transcript Worker.step Worker.shows {} [unreachable, brokenAfterForty]) := by
  have hshown : transcript Worker.step Worker.shows {} [unreachable, brokenAfterForty] =
      [(false, 1007), (true, 2007)] := by decide +kernel
  refine ⟨hshown, ?_⟩
  rw [hshown]
  rintro ⟨-, ⟨jitter, hjitter, hdelay⟩, -⟩
  simp [backoffNumber] at hdelay
  omega

end EdgeClient.Sync.DeviceChannel
