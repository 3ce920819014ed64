import ClassScope.Analysis.Get

/-!
# Requests that wait for answers

Services and contexts are asked for in the same way. A request begins, and it either ends at once or asks a
question; the question is answered, and with the answer the request goes on. Any number of requests are on
their way at the same time. What is said here is common to all of them, whatever they are for.
-/

namespace ClassScope

variable {α σ : Type}

/-- What was asked for a module, and how far it has come. -/
structure Ticket (α σ : Type) where
  module : ModuleId
  progress : Course α σ
  /-- What its question has been answered with, once it has. -/
  reply : Option Answer := none

namespace Ticket

def Waits (r : Ticket α σ) : Prop :=
  match r.progress with
  | .asks _ _ => True
  | _ => False

def Found (r : Ticket α σ) (m : ModuleId) (x : α) : Prop :=
  r.module = m ∧ r.progress = .found x

def Failed (r : Ticket α σ) : Prop :=
  match r.progress with
  | .failed _ => True
  | _ => False

instance (r : Ticket α σ) : Decidable r.Waits := by
  unfold Waits
  split <;> infer_instance

instance [DecidableEq α] [DecidableEq σ] (r : Ticket α σ) (m : ModuleId) (x : α) : Decidable (r.Found m x) :=
  inferInstanceAs (Decidable (_ ∧ _))

instance (r : Ticket α σ) : Decidable r.Failed := by
  unfold Failed
  split <;> infer_instance

theorem Found.not_waits {r : Ticket α σ} {m : ModuleId} {x : α} (h : r.Found m x) : ¬ r.Waits := by
  rw [Waits, h.2]
  exact id

end Ticket

namespace Row

variable {rs rs' : Row (Ticket α σ)} {k : Nat} {m : ModuleId} {x : α}

/-- Some request for a module has returned something, maybe long ago. -/
def Returned (rs : Row (Ticket α σ)) (m : ModuleId) (x : α) : Prop :=
  ∃ k, ∃ r ∈ rs.get? k, r.Found m x

/-- A request that is not there yet or waits has returned something in the later row. -/
def Returns (rs rs' : Row (Ticket α σ)) (k : Nat) (m : ModuleId) (x : α) : Prop :=
  (∀ r ∈ rs.get? k, r.Waits) ∧ ∃ r ∈ rs'.get? k, r.Found m x

instance [DecidableEq α] [DecidableEq σ] (rs rs' : Row (Ticket α σ)) (k : Nat) (m : ModuleId) (x : α) :
    Decidable (rs.Returns rs' k m x) :=
  inferInstanceAs (Decidable (_ ∧ _))

end Row

/-- How requests of one kind begin, and how they go on with an answer. -/
structure Desk (α σ : Type) where
  begin (m : ModuleId) (a : Analysis) : Course α σ × Analysis
  resume (m : ModuleId) (stage : σ) (reply : Answer) (a : Analysis) : Course α σ × Analysis

namespace Desk

variable {d : Desk α σ} {a b : Analysis} {rs rs' : Row (Ticket α σ)} {k : Nat} {m : ModuleId} {x : α}
  {r : Ticket α σ}

/-- A request begins or goes on, and that is how far it comes and what it leaves behind. -/
inductive Goes (d : Desk α σ) (a : Analysis) (rs : Row (Ticket α σ)) (k : Nat) (m : ModuleId) :
    Course α σ × Analysis → Prop where
  | start (new : k = rs.size) (lt : m < a.modules.size) : Goes d a rs k m (d.begin m a)
  | resume {q : Question} {stage : σ} {reply : Answer} (waits : rs.get? k = some ⟨m, .asks q stage, some reply⟩) :
      Goes d a rs k m (d.resume m stage reply a)

/-- Something happens that leaves the requests alone, the question of one is answered, or one begins or goes
on. -/
inductive Step (d : Desk α σ) (a : Analysis) (rs : Row (Ticket α σ)) : Analysis → Row (Ticket α σ) → Prop where
  | aside (b : Analysis) : Step d a rs b rs
  | answer {k : Nat} {m : ModuleId} {q : Question} {stage : σ} {reply : Option Answer}
      (waits : rs.get? k = some ⟨m, .asks q stage, reply⟩) :
      Step d a rs a (rs.modify k fun _ => ⟨m, .asks q stage, some (a.answer q)⟩)
  | start {m : ModuleId} (lt : m < a.modules.size) :
      Step d a rs (d.begin m a).2 (rs.push { module := m, progress := (d.begin m a).1 })
  | resume {k : Nat} {m : ModuleId} {q : Question} {stage : σ} {reply : Answer}
      (waits : rs.get? k = some ⟨m, .asks q stage, some reply⟩) :
      Step d a rs (d.resume m stage reply a).2
        (rs.modify k fun _ => { module := m, progress := (d.resume m stage reply a).1 })

/-- What becomes of a request in a step. -/
inductive Becomes (d : Desk α σ) (a b : Analysis) (rs : Row (Ticket α σ)) (k : Nat) : Ticket α σ → Prop where
  | same {r : Ticket α σ} (old : rs.get? k = some r) : Becomes d a b rs k r
  | answered {m : ModuleId} {q : Question} {stage : σ} {reply : Option Answer}
      (old : rs.get? k = some ⟨m, .asks q stage, reply⟩) (eq : b = a) :
      Becomes d a b rs k ⟨m, .asks q stage, some (a.answer q)⟩
  | goes {m : ModuleId} {p : Course α σ} (g : d.Goes a rs k m (p, b)) :
      Becomes d a b rs k { module := m, progress := p }

namespace Step

theorem becomes (s : d.Step a rs b rs') (hk : rs'.get? k = some r) : d.Becomes a b rs k r := by
  -- Either the request that has been changed is looked at, or another one.
  have modified {i : Nat} {f f' : Ticket α σ} (hi : rs.get? i = some f)
      (new : d.Becomes a b rs i f') (h : (rs.modify i fun _ => f').get? k = some r) : d.Becomes a b rs k r := by
    rw [Row.get?_modify] at h
    split at h
    case isTrue he =>
        subst he
        rw [hi] at h
        cases h
        exact new
    case isFalse => exact .same h
  cases s with
  | aside b => exact .same hk
  | answer waits => exact modified waits (.answered waits rfl) hk
  | start lt =>
      by_cases hn : k = rs.size
      · subst hn
        rw [Row.get?_push_self] at hk
        cases hk
        exact .goes (.start rfl lt)
      · rw [Row.get?_push_of_ne hn] at hk
        exact .same hk
  | resume waits => exact modified waits (.goes (.resume waits)) hk

/-- A request that has come to its end stays there. -/
theorem get?_of_not_waits (s : d.Step a rs b rs') (hk : rs.get? k = some r) (hr : ¬ r.Waits) :
    rs'.get? k = some r := by
  have modified {i : Nat} {f f' : Ticket α σ} (hi : rs.get? i = some f) (waits : f.Waits) :
      (rs.modify i fun _ => f').get? k = some r := by
    have hne : i ≠ k := by
      rintro rfl
      cases hk.symm.trans hi
      exact hr waits
    rw [Row.get?_modify, if_neg hne]
    exact hk
  cases s with
  | aside b => exact hk
  | answer waits => exact modified waits trivial
  | start lt => exact (Row.get?_push_of_lt (Row.lt_of_get? hk)).trans hk
  | resume waits => exact modified waits trivial

theorem returned (s : d.Step a rs b rs') (h : rs.Returned m x) : rs'.Returned m x := by
  obtain ⟨k, r, hk, hr⟩ := h
  exact ⟨k, r, s.get?_of_not_waits hk hr.not_waits, hr⟩

/-- Whatever has been returned after a step was returned before, or the step returns it. -/
theorem returned_or_returns (s : d.Step a rs b rs') (h : rs'.Returned m x) :
    rs.Returned m x ∨ ∃ k, rs.Returns rs' k m x := by
  obtain ⟨k, r, hk, hr⟩ := h
  by_cases hw : ∀ f ∈ rs.get? k, f.Waits
  · exact Or.inr ⟨k, hw, r, hk, hr⟩
  · left
    obtain ⟨f, hf, hnot⟩ : ∃ f, rs.get? k = some f ∧ ¬ f.Waits := by simpa using hw
    cases hk.symm.trans (s.get?_of_not_waits hf hnot)
    exact ⟨k, r, hf, hr⟩

/-- Only a request that begins or goes on returns something. -/
theorem goes_of_returns (s : d.Step a rs b rs') (h : rs.Returns rs' k m x) : d.Goes a rs k m (.found x, b) := by
  obtain ⟨waits, r, hk, rfl, hfound⟩ := h
  cases s.becomes hk with
  | same old => exact absurd (waits r old) (Ticket.Found.not_waits ⟨rfl, hfound⟩)
  | answered _ _ => cases hfound
  | goes g =>
      subst hfound
      exact g

end Step

end Desk

/-- A module that is asked for both kinds of entries. -/
def platformModule : Module :=
  { name := "app", path := ⟨[]⟩, settings := { kind := .platform, compile := [⟨[0x61]⟩], boot := [⟨[0x62]⟩] } }

end ClassScope
