/-!
Bounded reconnecting. A failed attempt is followed by another one after a fixed delay, up to a greatest
number of consecutive failures; a success starts the count anew. A run of such attempts takes place on a
clock that counts milliseconds from its start, and may be cancelled from outside.
-/
namespace ClassScope

structure RetryPolicy where
  maxAttempts : Nat := 10
  delayMs : Nat := 5000
  deriving Repr, DecidableEq

inductive RetryState where
  | idle
  | connected
  /-- Waiting before the reconnect with this number, counted from one. -/
  | waiting (attempt : Nat)
  | exhausted
  deriving Repr, DecidableEq

/-- Counts consecutive failures against a policy. -/
structure Reconnector where
  policy : RetryPolicy
  state : RetryState := .idle
  attempts : Nat := 0
  deriving Repr, DecidableEq

namespace Reconnector

def onConnected (r : Reconnector) : Reconnector :=
  { r with state := .connected, attempts := 0 }

def onFailure (r : Reconnector) : Reconnector :=
  if r.attempts < r.policy.maxAttempts then
    { r with state := .waiting (r.attempts + 1), attempts := r.attempts + 1 }
  else
    { r with state := .exhausted }

end Reconnector

namespace Retry

/-- What one connection attempt does: it takes some time and then succeeds or fails. -/
structure Call (ε α : Type) where
  durationMs : Nat
  result : Except ε α

inductive Cancellation where
  | never
  | beforeStart
  | atTime (ms : Nat)
  /-- Inside the call with this number, counted from zero, just before it returns. -/
  | duringCall (index : Nat)
  deriving Repr, DecidableEq

inductive Error (ε : Type) where
  | cancelled
  | exhausted (attempts : Nat) (last : ε)
  deriving Repr, DecidableEq

def Error.message {ε : Type} (describe : ε → String) : Error ε → String
  | .cancelled => "reconnect cancelled"
  | .exhausted attempts last => s!"gave up after {attempts} reconnect attempts: " ++ describe last

/-- A call that was made: the number of reconnects before it and when it began. -/
structure Made where
  attempt : Nat
  atMs : Nat
  deriving Repr, DecidableEq

structure Run (ε α : Type) where
  calls : List Made
  elapsedMs : Nat
  result : Except (Error ε) α

/-- The moment from which a cancellation is seen, given that call `index` has just ended at `now`. -/
def Cancellation.seenFrom (c : Cancellation) (index now : Nat) : Option Nat :=
  match c with
  | .never => none
  | .beforeStart => some 0
  | .atTime ms => some ms
  | .duringCall i => if i ≤ index then some now else none

/-- The moment at which the delay from `ended` to `next` is cut off, if it is. -/
def Cancellation.cutsDelay (c : Cancellation) (index ended next : Nat) : Option Nat :=
  ((c.seenFrom index ended).filter (· ≤ next)).map (max ended)

/-- The calls from number `index` on, the first of them at `now`. The last argument is how many
reconnects the policy still allows. -/
def attemptsFrom {ε α : Type} (delayMs : Nat) (cancellation : Cancellation)
    (call : Nat → Call ε α) (index now : Nat) : Nat → Run ε α
  | 0 =>
      let ended := now + (call index).durationMs
      match (call index).result with
      | .ok value => ⟨[⟨index, now⟩], ended, .ok value⟩
      | .error failure => ⟨[⟨index, now⟩], ended, .error (.exhausted index failure)⟩
  | left + 1 =>
      let ended := now + (call index).durationMs
      match (call index).result with
      | .ok value => ⟨[⟨index, now⟩], ended, .ok value⟩
      | .error _ =>
          let next := ended + delayMs
          match cancellation.cutsDelay index ended next with
          | some moment => ⟨[⟨index, now⟩], moment, .error .cancelled⟩
          | none =>
              let later := attemptsFrom delayMs cancellation call (index + 1) next left
              { later with calls := ⟨index, now⟩ :: later.calls }

/-- Calls until one succeeds, the policy allows no more, or the run is cancelled. A cancellation is
noticed before the first call and during a delay, which it ends; a call is never cut short. -/
def run {ε α : Type} (policy : RetryPolicy) (cancellation : Cancellation)
    (call : Nat → Call ε α) : Run ε α :=
  if cancellation = .beforeStart then ⟨[], 0, .error .cancelled⟩
  else attemptsFrom policy.delayMs cancellation call 0 0 policy.maxAttempts

end Retry

end ClassScope
