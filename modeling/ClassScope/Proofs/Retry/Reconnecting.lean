import ClassScope.Proofs.Retry.Calls
import Mathlib.Data.List.Induction

/-!
# What a reconnector has counted

The state of a reconnector is told by the attempts since the last success: how many failed, and whether there was a
success or an attempt at all. A run counts its failed calls as a reconnector does.
-/

namespace ClassScope

namespace Reconnector

/-- How an attempt to connect went. -/
inductive Attempt where
  | connected
  | failed
  deriving Repr, DecidableEq

variable {policy : RetryPolicy} {es : List Attempt}

def record (r : Reconnector) : Attempt → Reconnector
  | .connected => r.onConnected
  | .failed => r.onFailure

/-- A new reconnector once these attempts were made. -/
def after (policy : RetryPolicy) (es : List Attempt) : Reconnector :=
  es.foldl record { policy }

/-- How many attempts failed since the last one that succeeded. -/
def failures (es : List Attempt) : Nat :=
  (es.reverse.takeWhile (· = .failed)).length

/-! ## One more attempt -/

theorem after_concat (policy : RetryPolicy) (es : List Attempt) (e : Attempt) :
    after policy (es ++ [e]) = (after policy es).record e :=
  List.foldl_append

@[simp] theorem failures_nil : failures [] = 0 := rfl

@[simp] theorem failures_connected (es : List Attempt) : failures (es ++ [.connected]) = 0 := by
  simp [failures]

@[simp] theorem failures_failed (es : List Attempt) : failures (es ++ [.failed]) = failures es + 1 := by
  simp [failures]

theorem failures_replicate (n : Nat) : failures (List.replicate n .failed) = n := by
  simp [failures]

/-! ## What attempts lead to -/

/-- The state in which a policy has a reconnector after some attempts. -/
inductive LeadsTo (policy : RetryPolicy) (es : List Attempt) : RetryState → Prop where
  | idle (untried : es = []) : LeadsTo policy es .idle
  | connected (last : es.getLast? = some .connected) (none : failures es = 0) : LeadsTo policy es .connected
  | waiting (last : es.getLast? = some .failed) (le : failures es ≤ policy.maxAttempts) :
      LeadsTo policy es (.waiting (failures es))
  | exhausted (last : es.getLast? = some .failed) (lt : policy.maxAttempts < failures es) :
      LeadsTo policy es .exhausted

/-- A reconnector that has counted the failures since the last success, up to the bound, and is in the state that the
attempts lead to. -/
structure Counts (policy : RetryPolicy) (es : List Attempt) (r : Reconnector) : Prop where
  policy_eq : r.policy = policy
  attempts : r.attempts = min (failures es) policy.maxAttempts
  state : LeadsTo policy es r.state

theorem Counts.failed {r : Reconnector} (h : Counts policy es r) : Counts policy (es ++ [.failed]) r.onFailure := by
  have last : (es ++ [Attempt.failed]).getLast? = some .failed := List.getLast?_concat
  rw [onFailure, h.policy_eq, h.attempts]
  by_cases hlt : failures es < policy.maxAttempts
  · -- nothing was cut from the count so far
    have hmin : min (failures es) policy.maxAttempts = failures es := Nat.min_eq_left (Nat.le_of_lt hlt)
    rw [hmin, if_pos hlt]
    have hle : failures (es ++ [.failed]) ≤ policy.maxAttempts := by
      rw [failures_failed]
      exact hlt
    have waiting : LeadsTo policy (es ++ [.failed]) (.waiting (failures es + 1)) := by
      rw [← failures_failed]
      exact .waiting last hle
    refine ⟨rfl, ?_, waiting⟩
    rw [Nat.min_eq_left hle, failures_failed]
  · have hle : policy.maxAttempts ≤ failures es := Nat.le_of_not_lt hlt
    rw [Nat.min_eq_right hle, if_neg (Nat.lt_irrefl _)]
    have hmore : policy.maxAttempts < failures (es ++ [.failed]) := by
      rw [failures_failed]
      exact Nat.lt_succ_of_le hle
    exact ⟨rfl, (Nat.min_eq_right (Nat.le_of_lt hmore)).symm, .exhausted last hmore⟩

theorem after_counts (policy : RetryPolicy) (es : List Attempt) : Counts policy es (after policy es) := by
  induction es using List.reverseRecOn with
  | nil => exact ⟨rfl, (Nat.zero_min _).symm, .idle rfl⟩
  | append_singleton es e ih =>
      rw [after_concat]
      cases e with
      | connected =>
          refine ⟨ih.policy_eq, ?_, .connected List.getLast?_concat (failures_connected es)⟩
          rw [failures_connected, Nat.zero_min]
          rfl
      | failed => exact ih.failed

/-! ## Reading the state -/

namespace LeadsTo

variable {state : RetryState} (h : LeadsTo policy es state)

include h

theorem eq_idle_iff : state = .idle ↔ es = [] := by
  cases h with
  | idle untried => simp [untried]
  | connected last _ => simp [List.ne_nil_of_mem (List.mem_of_getLast? last)]
  | waiting last _ => simp [List.ne_nil_of_mem (List.mem_of_getLast? last)]
  | exhausted last _ => simp [List.ne_nil_of_mem (List.mem_of_getLast? last)]

theorem eq_connected_iff : state = .connected ↔ es.getLast? = some .connected := by
  cases h with
  | idle untried => simp [untried]
  | connected last _ => simp [last]
  | waiting last _ => simp [last]
  | exhausted last _ => simp [last]

theorem eq_waiting_iff (n : Nat) : state = .waiting n ↔
    es.getLast? = some .failed ∧ n = failures es ∧ failures es ≤ policy.maxAttempts := by
  cases h with
  | idle untried => simp [untried]
  | connected last _ => simp [last]
  | waiting last le => simp [last, le, eq_comm]
  | exhausted last lt => simp [Nat.not_le_of_lt lt]

theorem eq_exhausted_iff : state = .exhausted ↔ policy.maxAttempts < failures es := by
  cases h with
  | idle untried => simp [untried]
  | connected _ none => simp [none]
  | waiting _ le => simp [Nat.not_lt_of_le le]
  | exhausted _ lt => simp [lt]

end LeadsTo

/-- The count of a reconnector is that of the failures since the last success, cut to the bound of its policy; so where
the bound has 32 bits, a sum of 32 bits counts one more failure right. The state is told by that number and by the last
attempt, and only a success ends the exhaustion. -/
theorem state_of_attempts (policy : RetryPolicy) (es : List Attempt) :
    let r := after policy es
    let f := failures es
    r.attempts = min f policy.maxAttempts ∧
    (policy.maxAttempts < UInt32.size → r.attempts < policy.maxAttempts →
      (UInt32.ofNat r.attempts + 1).toNat = r.onFailure.attempts) ∧
    (r.state = .idle ↔ es = []) ∧
    (r.state = .connected ↔ es.getLast? = some .connected) ∧
    (∀ n, r.state = .waiting n ↔ es.getLast? = some .failed ∧ n = f ∧ f ≤ policy.maxAttempts) ∧
    (r.state = .exhausted ↔ policy.maxAttempts < f) ∧
    (r.state = .exhausted → ∀ e, (r.record e).state ≠ .exhausted ↔ e = .connected) := by
  intro r f
  have counts : Counts policy es r := after_counts policy es
  refine ⟨counts.attempts, ?_, counts.state.eq_idle_iff, counts.state.eq_connected_iff, counts.state.eq_waiting_iff,
    counts.state.eq_exhausted_iff, ?_⟩
  · intro hsize hlt
    have hcounted : r.onFailure.attempts = r.attempts + 1 := by
      rw [onFailure, counts.policy_eq, if_pos hlt]
    rw [hcounted, UInt32.toNat_add, UInt32.toNat_ofNat_of_lt' (Nat.lt_trans hlt hsize)]
    exact Nat.mod_eq_of_lt (Nat.lt_of_le_of_lt hlt hsize)
  · intro hexhausted e
    have hlt := counts.state.eq_exhausted_iff.mp hexhausted
    cases e with
    | connected => simp [record, onConnected]
    | failed =>
        have hstays : (r.record .failed).state = .exhausted := by
          apply counts.failed.state.eq_exhausted_iff.mpr
          rw [failures_failed]
          exact Nat.lt_succ_of_lt hlt
        simp [hstays]

/-- Two failures after a success, under a bound that fills its 32 bits and under one that allows no reconnect. -/
theorem state_of_attempts_at_bounds :
    let es : List Attempt := [.failed, .connected, .failed, .failed]
    (after ⟨4294967295, 5⟩ es).state = .waiting 2 ∧
    (UInt32.ofNat (after ⟨4294967295, 5⟩ es).attempts + 1).toNat =
      (after ⟨4294967295, 5⟩ es).onFailure.attempts ∧
    (after ⟨0, 5⟩ es).attempts = 0 ∧
    ((after ⟨0, 5⟩ es).record .failed).state = .exhausted := by
  intro es
  obtain ⟨-, sum, -, -, waiting, -, -⟩ := state_of_attempts ⟨4294967295, 5⟩ es
  obtain ⟨attempts, -, -, -, -, exhausted, stays⟩ := state_of_attempts ⟨0, 5⟩ es
  refine ⟨(waiting 2).mpr (by decide), sum (by decide) (by decide), attempts, ?_⟩
  by_contra hleft
  cases (stays (exhausted.mpr (by decide)) .failed).mp hleft

end Reconnector

namespace Retry

open Reconnector

variable {ε α : Type}

/-- A call is told as many attempts as a reconnector has counted after the failed calls before it, and a run gives up
when the reconnector is exhausted. -/
theorem run_counts (policy : RetryPolicy) (c : Cancellation) (call : Nat → Call ε α) :
    let counted (i : Nat) := after policy (List.replicate i .failed)
    (∀ i made, (run policy c call).calls[i]? = some made → made.attempt = (counted i).attempts) ∧
    ∀ n e, (run policy c call).result = .error (.exhausted n e) →
      (counted (run policy c call).calls.length).state = .exhausted ∧
        n = (counted (run policy c call).calls.length).attempts := by
  intro counted
  have attempts (i : Nat) : (counted i).attempts = min i policy.maxAttempts := by
    have h := (after_counts policy (List.replicate i .failed)).attempts
    rw [failures_replicate] at h
    exact h
  unfold run
  split
  case isTrue => simp
  case isFalse =>
    obtain ⟨last, g⟩ : ∃ last, Goes policy c call 0 last
        (attemptsFrom policy.delayMs c call 0 0 policy.maxAttempts) := attemptsFrom_goes (Nat.zero_add _)
    constructor
    · intro i made hi
      have hlt : i < last + 1 := by
        rw [← g.length_eq]
        exact (List.getElem?_eq_some_iff.mp hi).1
      rw [g.calls, List.getElem?_map, Nat.sub_zero, List.getElem?_range' hlt] at hi
      obtain rfl := Option.some.inj hi
      rw [attempts, Nat.min_eq_left (Nat.le_trans (Nat.le_of_lt_succ hlt) g.bound)]
      simp [madeAt]
    · intro n e hresult
      obtain ⟨hlength, -, rfl, -⟩ := (g.result_eq_exhausted_iff n e).mp hresult
      rw [attempts, hlength, (after_counts policy _).state.eq_exhausted_iff, failures_replicate]
      exact ⟨Nat.lt_succ_self _, (Nat.min_eq_right (Nat.le_succ _)).symm⟩

end Retry

end ClassScope
