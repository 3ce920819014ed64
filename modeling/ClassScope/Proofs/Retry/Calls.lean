import ClassScope.Retry

/-!
# The calls of a run

Which calls a run makes and when, how it ends, and what a cancellation changes. Calls are made one after the
other, each a whole delay after the failure of the one before, for as long as they fail, the policy allows
another one and nobody has cancelled the run.
-/

namespace ClassScope.Retry

variable {ε α : Type} {policy : RetryPolicy} {c : Cancellation} {call : Nat → Call ε α}
  {delay index left : Nat} {r : Run ε α}

def Call.Fails (x : Call ε α) : Prop :=
  ∃ e, x.result = .error e

/-- When a call begins before which there were nothing but failed calls and whole delays. -/
def startAt (delay : Nat) (call : Nat → Call ε α) : Nat → Nat
  | 0 => 0
  | i + 1 => startAt delay call i + (call i).durationMs + delay

def endAt (delay : Nat) (call : Nat → Call ε α) (i : Nat) : Nat :=
  startAt delay call i + (call i).durationMs

def madeAt (delay : Nat) (call : Nat → Call ε α) (i : Nat) : Made :=
  ⟨i, startAt delay call i⟩

/-- The run has been cancelled before a call is due. -/
def Cancellation.Precedes (index due : Nat) : Cancellation → Prop
  | never => False
  | beforeStart => True
  | atTime ms => ms < due
  | duringCall i => i < index

/-! ## Cancellations -/

theorem startAt_le_endAt (delay : Nat) (call : Nat → Call ε α) (i : Nat) :
    startAt delay call i ≤ endAt delay call i :=
  Nat.le_add_right _ _

theorem endAt_le_startAt (delay : Nat) (call : Nat → Call ε α) (i : Nat) :
    endAt delay call i ≤ startAt delay call (i + 1) :=
  Nat.le_add_right _ _

theorem startAt_mono {i j : Nat} (h : i ≤ j) : startAt delay call i ≤ startAt delay call j := by
  induction h with
  | refl => exact Nat.le_refl _
  | @step j _ ih =>
      exact Nat.le_trans ih (Nat.le_trans (startAt_le_endAt delay call j) (endAt_le_startAt delay call j))

theorem Cancellation.Precedes.mono {i j : Nat} (h : c.Precedes i (startAt delay call i)) (hij : i ≤ j) :
    c.Precedes j (startAt delay call j) := by
  cases c with
  | never => exact h
  | beforeStart => trivial
  | atTime ms => exact Nat.lt_of_lt_of_le h (startAt_mono hij)
  | duringCall k => exact Nat.lt_of_lt_of_le h hij

/-- A delay is cut off if the run has been cancelled before it is over. -/
theorem Cancellation.cutsDelay_eq_none_iff {ended due : Nat} (h : ended ≤ due) (hc : c ≠ .atTime due) :
    c.cutsDelay index ended due = none ↔ ¬ c.Precedes (index + 1) due := by
  cases c with
  | never => simp [cutsDelay, seenFrom, Precedes]
  | beforeStart => simp [cutsDelay, seenFrom, Precedes]
  | atTime ms =>
      have hne : ms ≠ due := fun he => hc (he ▸ rfl)
      simp [cutsDelay, seenFrom, Precedes]
      omega
  | duringCall i =>
      by_cases hi : i ≤ index
      · have hlt : i < index + 1 := Nat.lt_succ_of_le hi
        simp [cutsDelay, seenFrom, Precedes, hi, hlt, h]
      · have hlt : ¬ i < index + 1 := fun hl => hi (Nat.le_of_lt_succ hl)
        simp [cutsDelay, seenFrom, Precedes, hi, hlt]

/-! ## How a run goes and ends -/

/-- How a run ends with its last call, or in the delay after it. -/
inductive Ends (policy : RetryPolicy) (c : Cancellation) (call : Nat → Call ε α) (last : Nat) (r : Run ε α) : Prop
  | succeeded {value : α} (ok : (call last).result = .ok value) (result : r.result = .ok value)
  | exhausted {e : ε} (full : last = policy.maxAttempts) (failed : (call last).result = .error e)
      (result : r.result = .error (.exhausted last e))
  | cancelled (lt : last < policy.maxAttempts) (failed : (call last).Fails)
      (cut : c.cutsDelay last (endAt policy.delayMs call last) (startAt policy.delayMs call (last + 1)) =
        some r.elapsedMs)
      (result : r.result = .error .cancelled)

/-- The calls from a number on: all but the last one fail, and no delay between them is cut off. -/
structure Goes (policy : RetryPolicy) (c : Cancellation) (call : Nat → Call ε α) (index last : Nat)
    (r : Run ε α) : Prop where
  le : index ≤ last
  bound : last ≤ policy.maxAttempts
  calls : r.calls = (List.range' index (last + 1 - index)).map (madeAt policy.delayMs call)
  failed : ∀ i, index ≤ i → i < last → (call i).Fails
  uncut : ∀ i, index ≤ i → i < last →
    c.cutsDelay i (endAt policy.delayMs call i) (startAt policy.delayMs call (i + 1)) = none
  ends : Ends policy c call last r

/-- A run that ends with its first call, or in the delay after it. -/
theorem Ends.goes (h : Ends policy c call index r) (hle : index ≤ policy.maxAttempts)
    (hr : r.calls = [madeAt policy.delayMs call index]) : Goes policy c call index index r where
  le := Nat.le_refl _
  bound := hle
  calls := by simp [hr]
  failed i hi hlt := absurd hi (Nat.not_le_of_lt hlt)
  uncut i hi hlt := absurd hi (Nat.not_le_of_lt hlt)
  ends := h

/-- A call that fails, and a whole delay, come before what follows. -/
theorem Goes.before {last : Nat} (g : Goes policy c call (index + 1) last r) (failed : (call index).Fails)
    (uncut : c.cutsDelay index (endAt policy.delayMs call index) (startAt policy.delayMs call (index + 1)) = none) :
    Goes policy c call index last { r with calls := madeAt policy.delayMs call index :: r.calls } where
  le := Nat.le_of_succ_le g.le
  bound := g.bound
  calls := by
    have hlen : last + 1 - index = (last + 1 - (index + 1)) + 1 := by
      have := g.le
      omega
    simp [hlen, List.range'_succ, g.calls]
  failed i hi hlt := by
    rcases Nat.eq_or_lt_of_le hi with rfl | hi
    · exact failed
    · exact g.failed i hi hlt
  uncut i hi hlt := by
    rcases Nat.eq_or_lt_of_le hi with rfl | hi
    · exact uncut
    · exact g.uncut i hi hlt
  ends := by
    cases g.ends with
    | succeeded ok result => exact .succeeded ok result
    | exhausted full failed result => exact .exhausted full failed result
    | cancelled lt failed cut result => exact .cancelled lt failed cut result

theorem attemptsFrom_of_error {e : ε} (h : (call index).result = .error e) :
    attemptsFrom delay c call index (startAt delay call index) (left + 1) =
      match c.cutsDelay index (endAt delay call index) (startAt delay call (index + 1)) with
      | some moment => ⟨[madeAt delay call index], moment, .error .cancelled⟩
      | none =>
          let later := attemptsFrom delay c call (index + 1) (startAt delay call (index + 1)) left
          { later with calls := madeAt delay call index :: later.calls } := by
  rw [attemptsFrom, h]
  rfl

theorem attemptsFrom_goes (h : index + left = policy.maxAttempts) :
    ∃ last, Goes policy c call index last
      (attemptsFrom policy.delayMs c call index (startAt policy.delayMs call index) left) := by
  have hle : index ≤ policy.maxAttempts := by omega
  induction left generalizing index with
  | zero =>
      unfold attemptsFrom
      cases hcall : (call index).result with
      | ok value => exact ⟨index, Ends.goes (.succeeded hcall rfl) hle rfl⟩
      | error e => exact ⟨index, Ends.goes (.exhausted h hcall rfl) hle rfl⟩
  | succ left ih =>
      cases hcall : (call index).result with
      | ok value =>
          unfold attemptsFrom
          rw [hcall]
          exact ⟨index, Ends.goes (.succeeded hcall rfl) hle rfl⟩
      | error e =>
          rw [attemptsFrom_of_error hcall]
          cases hcut : c.cutsDelay index (endAt policy.delayMs call index)
              (startAt policy.delayMs call (index + 1)) with
          | some moment =>
              have hlt : index < policy.maxAttempts := by omega
              exact ⟨index, Ends.goes (.cancelled hlt ⟨e, hcall⟩ hcut rfl) hle rfl⟩
          | none =>
              have hnext : index + 1 + left = policy.maxAttempts := by omega
              obtain ⟨last, g⟩ := ih hnext (by omega)
              exact ⟨last, g.before ⟨e, hcall⟩ hcut⟩

/-! ## Whole runs -/

/-- The cancellation does not fall on the very end of a delay between calls. -/
def Clear (policy : RetryPolicy) (c : Cancellation) (call : Nat → Call ε α) : Prop :=
  ∀ i < policy.maxAttempts, (∀ j ≤ i, (call j).Fails) → c ≠ .atTime (startAt policy.delayMs call (i + 1))

/-- What a run makes of its policy, its cancellation and the outcomes of its calls. -/
structure Obeys (policy : RetryPolicy) (c : Cancellation) (call : Nat → Call ε α) (r : Run ε α) : Prop where
  /-- The calls are numbered in turn, and each starts a whole delay after the one before has failed. -/
  calls : r.calls = (List.range r.calls.length).map (madeAt policy.delayMs call)
  /-- A call is made as long as the policy allows it, all calls before fail and nobody has cancelled. -/
  made : ∀ i, i < r.calls.length ↔ i ≤ policy.maxAttempts ∧ (∀ j < i, (call j).Fails) ∧
    ¬ c.Precedes i (startAt policy.delayMs call i)
  succeeded : ∀ value, r.result = .ok value ↔ ∃ i, r.calls.length = i + 1 ∧ (call i).result = .ok value
  exhausted : ∀ k e, r.result = .error (.exhausted k e) ↔
    r.calls.length = policy.maxAttempts + 1 ∧ (∀ i < r.calls.length, (call i).Fails) ∧
      k = policy.maxAttempts ∧ (call policy.maxAttempts).result = .error e
  cancelled : r.result = .error .cancelled ↔
    r.calls.length ≤ policy.maxAttempts ∧ ∀ i < r.calls.length, (call i).Fails
  /-- A cancellation during a delay ends the run at that moment. -/
  interrupted : ∀ i ms, c = .atTime ms → i < r.calls.length → i < policy.maxAttempts → (call i).Fails →
    endAt policy.delayMs call i ≤ ms → ms < startAt policy.delayMs call (i + 1) →
    r.calls.length = i + 1 ∧ r.elapsedMs = ms

theorem Call.not_fails {x : Call ε α} {value : α} (h : x.result = .ok value) : ¬ x.Fails := by
  rintro ⟨e, he⟩
  simp [h] at he

namespace Goes

variable {last : Nat} (g : Goes policy c call 0 last r) (hclear : Clear policy c call)

include g

theorem length_eq : r.calls.length = last + 1 := by
  simp [g.calls]

theorem fails_of_lt {i : Nat} (hi : i < last) : (call i).Fails :=
  g.failed i (Nat.zero_le _) hi

theorem all_fail (hlast : (call last).Fails) : ∀ i < r.calls.length, (call i).Fails := by
  intro i hi
  rw [g.length_eq] at hi
  rcases Nat.lt_succ_iff_lt_or_eq.mp hi with h | rfl
  · exact g.fails_of_lt h
  · exact hlast

include hclear in
/-- The delay after a failed call is cut off by just the cancellations before the next call is due. -/
theorem cutsDelay_eq_none_iff {i : Nat} (hi : i ≤ last) (hfails : (call i).Fails) (hlt : i < policy.maxAttempts) :
    c.cutsDelay i (endAt policy.delayMs call i) (startAt policy.delayMs call (i + 1)) = none ↔
      ¬ c.Precedes (i + 1) (startAt policy.delayMs call (i + 1)) := by
  refine Cancellation.cutsDelay_eq_none_iff (endAt_le_startAt _ _ _) (hclear i hlt fun j hj => ?_)
  rcases Nat.eq_or_lt_of_le hj with rfl | hj
  · exact hfails
  · exact g.fails_of_lt (Nat.lt_of_lt_of_le hj hi)

include hclear in
theorem made_iff (hc : c ≠ .beforeStart) (i : Nat) :
    i < r.calls.length ↔ i ≤ policy.maxAttempts ∧ (∀ j < i, (call j).Fails) ∧
      ¬ c.Precedes i (startAt policy.delayMs call i) := by
  rw [g.length_eq]
  constructor
  · intro hi
    have hle : i ≤ last := Nat.le_of_lt_succ hi
    refine ⟨Nat.le_trans hle g.bound, fun j hj => g.fails_of_lt (Nat.lt_of_lt_of_le hj hle), ?_⟩
    cases i with
    | zero => cases c <;> simp_all [Cancellation.Precedes, startAt]
    | succ i =>
        have hlt : i < last := hle
        exact (g.cutsDelay_eq_none_iff hclear (Nat.le_of_lt hlt) (g.fails_of_lt hlt)
          (Nat.lt_of_lt_of_le hlt g.bound)).mp (g.uncut i (Nat.zero_le _) hlt)
  · rintro ⟨hle, hfails, hprec⟩
    refine Nat.lt_succ_of_le (Nat.le_of_not_lt fun hlast => ?_)
    cases g.ends with
    | succeeded ok result => exact Call.not_fails ok (hfails last hlast)
    | exhausted full failed result => omega
    | cancelled lt failed cut result =>
        have hnone := (g.cutsDelay_eq_none_iff hclear (Nat.le_refl _) failed lt).mpr
          fun h => hprec (h.mono hlast)
        simp [hnone] at cut

theorem result_eq_ok_iff (value : α) :
    r.result = .ok value ↔ ∃ i, r.calls.length = i + 1 ∧ (call i).result = .ok value := by
  simp only [g.length_eq, Nat.add_right_cancel_iff, exists_eq_left']
  cases g.ends with
  | succeeded ok result => simp [ok, result]
  | exhausted full failed result => simp [failed, result]
  | cancelled lt failed cut result =>
      obtain ⟨e, failed⟩ := failed
      simp [failed, result]

theorem result_eq_exhausted_iff (k : Nat) (e : ε) :
    r.result = .error (.exhausted k e) ↔
      r.calls.length = policy.maxAttempts + 1 ∧ (∀ i < r.calls.length, (call i).Fails) ∧
        k = policy.maxAttempts ∧ (call policy.maxAttempts).result = .error e := by
  cases g.ends with
  | succeeded ok result =>
      have hnot : ¬ ∀ i < r.calls.length, (call i).Fails := fun h =>
        Call.not_fails ok (h last (by simp [g.length_eq]))
      simp [result, hnot]
  | exhausted full failed result =>
      have hall := g.all_fail ⟨_, failed⟩
      subst full
      simp only [g.length_eq] at hall
      simp only [result, g.length_eq, failed, Except.error.injEq, Error.exhausted.injEq, true_and]
      exact ⟨fun ⟨hk, he⟩ => ⟨hall, hk.symm, he⟩, fun ⟨_, hk, he⟩ => ⟨hk.symm, he⟩⟩
  | cancelled lt failed cut result =>
      have hne : last ≠ policy.maxAttempts := Nat.ne_of_lt lt
      simp [result, g.length_eq, hne]

theorem result_eq_cancelled_iff :
    r.result = .error .cancelled ↔
      r.calls.length ≤ policy.maxAttempts ∧ ∀ i < r.calls.length, (call i).Fails := by
  cases g.ends with
  | succeeded ok result =>
      have hnot : ¬ ∀ i < r.calls.length, (call i).Fails := fun h =>
        Call.not_fails ok (h last (by simp [g.length_eq]))
      simp [result, hnot]
  | exhausted full failed result =>
      have hlen : ¬ r.calls.length ≤ policy.maxAttempts := by
        rw [g.length_eq]
        omega
      simp [result, hlen]
  | cancelled lt failed cut result =>
      have hlen : r.calls.length ≤ policy.maxAttempts := by
        rw [g.length_eq]
        exact lt
      simp only [result, true_iff]
      exact ⟨hlen, g.all_fail failed⟩

include hclear in
theorem interrupted {i ms : Nat} (hc : c = .atTime ms) (hi : i < r.calls.length) (hlt : i < policy.maxAttempts)
    (hfails : (call i).Fails) (hended : endAt policy.delayMs call i ≤ ms)
    (hms : ms < startAt policy.delayMs call (i + 1)) : r.calls.length = i + 1 ∧ r.elapsedMs = ms := by
  subst hc
  have hnext : ¬ i + 1 < r.calls.length := fun h => ((g.made_iff hclear (by simp) _).mp h).2.2 hms
  have hlast : i = last := by
    rw [g.length_eq] at hi hnext
    omega
  subst hlast
  refine ⟨g.length_eq, ?_⟩
  cases g.ends with
  | succeeded ok result => exact absurd hfails (Call.not_fails ok)
  | exhausted full failed result => omega
  | cancelled lt failed cut result =>
      simp [Cancellation.cutsDelay, Cancellation.seenFrom] at cut
      omega

include hclear in
theorem obeys (hc : c ≠ .beforeStart) : Obeys policy c call r where
  calls := by
    rw [g.length_eq, List.range_eq_range']
    exact g.calls
  made := g.made_iff hclear hc
  succeeded := g.result_eq_ok_iff
  exhausted := g.result_eq_exhausted_iff
  cancelled := g.result_eq_cancelled_iff
  interrupted _ _ hc hi hlt hfails hended hms := g.interrupted hclear hc hi hlt hfails hended hms

end Goes

/-- A run obeys its policy and its cancellation. -/
theorem run_obeys (policy : RetryPolicy) (c : Cancellation) (call : Nat → Call ε α) (hclear : Clear policy c call) :
    Obeys policy c call (run policy c call) := by
  unfold run
  split
  case isTrue hc =>
    subst hc
    constructor <;> simp [Cancellation.Precedes]
  case isFalse hc =>
    obtain ⟨last, g⟩ : ∃ last, Goes policy c call 0 last
        (attemptsFrom policy.delayMs c call 0 0 policy.maxAttempts) := attemptsFrom_goes (Nat.zero_add _)
    exact g.obeys hclear hc

/-- Calls of two milliseconds that always fail. -/
def refused (_ : Nat) : Call String Nat :=
  ⟨2, .error "refused"⟩

theorem startAt_refused (i : Nat) : startAt 5 refused i = 7 * i := by
  induction i with
  | zero => rfl
  | succ i ih =>
      simp only [startAt, refused, ih]
      omega

/-- A run that is cancelled in its second delay, from nine to fourteen milliseconds. -/
theorem run_obeys_interrupted :
    Obeys ⟨3, 5⟩ (.atTime 11) refused ⟨[⟨0, 0⟩, ⟨1, 7⟩], 11, .error .cancelled⟩ :=
  run_obeys ⟨3, 5⟩ (.atTime 11) refused (by
    intro i _ _ h
    rw [startAt_refused, Cancellation.atTime.injEq] at h
    omega)

end ClassScope.Retry
