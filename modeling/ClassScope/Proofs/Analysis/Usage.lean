import ClassScope.Proofs.Analysis.Parts
import ClassScope.Proofs.Analysis.Session
import Mathlib.Data.List.Induction

/-!
# Services in use

Holders of services have them read their boot classes anew and list the classes of their modules, and for that
the services may ask their modules first. Between a question and its answer anything may happen. What a service
goes on with is what its module has told at some moment of that call.
-/

namespace ClassScope

variable {s : ServiceId}

/-! ## Holders that ask their services -/

/-- What a service asks its module for, with the answer once there is one. -/
inductive Inquiry where
  | boot (s : ServiceId) (reply : Option Answer)
  | sources (s : ServiceId) (reply : Option (Except ModuleError ClassNameSet))
  | closed

/-- A session whose services are asked something. -/
structure Usage where
  session : Session
  inquiries : Row Inquiry := {}

/-- Events that stand for an answer of a service. -/
def Event.Asks : Event → Prop
  | .refresh _ _ => True
  | .types _ _ => True
  | _ => False

/-- What holders of services do, and what else may happen. Contexts and the caches below may be used directly;
then a request for a context may go on from anywhere. -/
inductive Act where
  | event (e : Event) (other : ¬ e.Asks)
  | refresh (s : ServiceId)
  | types (s : ServiceId)
  /-- The module answers; the service does not go on yet. -/
  | answer (inquiry : Nat)
  | conclude (inquiry : Nat)
  | context (m : ModuleId) (stage : ContextStage) (reply : Answer)
  | destroyContext (c : ContextId)
  | purgeContexts
  | clearContexts
  | scans (d : Disk) (boot : BootIndex) (dependencies : Dependencies)

def Act.apply (a : Analysis) : Act → Analysis
  | .context m stage reply => (a.resumeContext m stage reply).2
  | .destroyContext c => a.destroyContext c
  | .purgeContexts => a.purgeContexts.2
  | .clearContexts => a.clearContexts
  | .scans disk boot dependencies => { a with disk, boot, dependencies }
  | _ => a

namespace Analysis

/-- What the module of a service answers about its boot entries. -/
def bootReply (a : Analysis) (s : ServiceId) : Answer :=
  (a.service s).module.elim (.ok []) fun m => (a.module m).boot

/-- What the module of a service answers about its sources. -/
def sourcesReply (a : Analysis) (s : ServiceId) : Except ModuleError ClassNameSet :=
  (a.service s).module.elim (.ok ∅) fun m => (a.module m).sources

end Analysis

namespace Inquiry

/-- A service waits for its module, or it has the answer and has not gone on yet. -/
def Keeps (s : ServiceId) : Inquiry → Prop
  | boot t _ => t = s
  | sources t _ => t = s
  | closed => False

def Answered : Inquiry → Prop
  | boot _ (some _) => True
  | sources _ (some _) => True
  | _ => False

def answered (a : Analysis) : Inquiry → Inquiry
  | boot s _ => boot s (some (a.bootReply s))
  | sources s _ => sources s (some (a.sourcesReply s))
  | closed => closed

def concluded : Inquiry → Inquiry
  | boot _ (some _) => closed
  | sources _ (some _) => closed
  | q => q

theorem eq_of_answered_concluded {q : Inquiry} (h : q.concluded.Answered) : q.concluded = q := by
  match q with
  | boot _ (some _) => exact h.elim
  | boot _ none => rfl
  | sources _ (some _) => exact h.elim
  | sources _ none => rfl
  | closed => rfl

end Inquiry

namespace Session

/-- What an event makes a service read as its boot classes. -/
def read? (x : Session) (s : ServiceId) : Event → Option ClassNameSet
  | .refresh t declared => if t = s then some (x.analysis.bootRead s declared) else none
  | _ => none

/-- What an event makes a service list, and what its module has answered about its sources. -/
def listed? (x : Session) (s : ServiceId) : Event → Option (Except ModuleError ClassNameSet × ClassNameSet)
  | .types t sources => if t = s then some (sources, (x.analysis.types s sources).1) else none
  | _ => none

end Session

namespace Usage

def analysis (x : Usage) : Analysis :=
  x.session.analysis

/-- Only the services of platform modules ask for boot entries. -/
def asksBoot (x : Usage) (s : ServiceId) : Bool :=
  match (x.analysis.service s).module with
  | some m => (x.analysis.module m).kind = .platform
  | none => false

/-- What an act comes to at once: most of them to an event, questions and failures to none. -/
def event? (x : Usage) : Act → Option Event
  | .event e _ => some e
  | .refresh s => if x.asksBoot s then none else some (.refresh s none)
  | .types s =>
      match (x.analysis.service s).module with
      | some _ => none
      | none => some (.types s (.ok ∅))
  | .conclude k =>
      match x.inquiries.get? k with
      | some (.boot s (some (.ok paths))) => some (.refresh s (some paths))
      | some (.sources s (some reply)) => some (.types s reply)
      | _ => none
  | _ => none

def inquiriesAfter (x : Usage) : Act → Row Inquiry
  | .refresh s => if x.asksBoot s then x.inquiries.push (.boot s none) else x.inquiries
  | .types s =>
      match (x.analysis.service s).module with
      | some _ => x.inquiries.push (.sources s none)
      | none => x.inquiries
  | .answer k => x.inquiries.modify k (Inquiry.answered x.analysis)
  | .conclude k => x.inquiries.modify k Inquiry.concluded
  | _ => x.inquiries

def step (x : Usage) (act : Act) : Usage :=
  { session := match x.event? act with
      | some e => x.session.step e
      | none => x.session.update (Act.apply · act)
    inquiries := x.inquiriesAfter act }

def run (x : Usage) (acts : List Act) : Usage :=
  acts.foldl step x

def ofConfig (c : Config) (env : Environment) (d : Disk) : Usage :=
  { session := .ofConfig c env d }

/-- What a service reads as its boot classes, if an act makes it read them and that succeeds. -/
def refreshed? (x : Usage) (s : ServiceId) (act : Act) : Option ClassNameSet :=
  (x.event? act).bind (x.session.read? s)

/-- What a service lists with an act, and what its module has answered about its sources. -/
def listed? (x : Usage) (s : ServiceId) (act : Act) : Option (Except ModuleError ClassNameSet × ClassNameSet) :=
  (x.event? act).bind (x.session.listed? s)

/-- At such a moment the call of a service that an act ends has begun and not ended, or it begins and ends there. -/
def During (y : Usage) (s : ServiceId) : Act → Prop
  | .refresh t => t = s
  | .types t => t = s
  | .conclude k => ∃ q ∈ y.inquiries.get? k, q.Keeps s
  | _ => False

/-- At such a moment the module of a service tells its boot entries, or it is not asked for any. -/
def Declares (y : Usage) (s : ServiceId) : Option (List Path) → Prop
  | some paths => y.analysis.bootReply s = .ok paths
  | none => y.asksBoot s = false

/-- A run goes through a state. -/
def Visits (x : Usage) (acts : List Act) (y : Usage) : Prop :=
  ∃ before after, acts = before ++ after ∧ x.run before = y

/-- A service does not succeed in reading its boot classes anew in a run. -/
def Unrefreshed (s : ServiceId) (x : Usage) : List Act → Prop
  | [] => True
  | act :: acts => x.refreshed? s act = none ∧ Unrefreshed s (x.step act) acts

instance decidableUnrefreshed (s : ServiceId) : (x : Usage) → (acts : List Act) → Decidable (Unrefreshed s x acts)
  | _, [] => .isTrue trivial
  | x, act :: acts => @instDecidableAnd _ _ _ (decidableUnrefreshed s (x.step act) acts)

end Usage

/-! ## Moments of answers -/

namespace Session

variable {x : Session} {e : Event}

theorem eq_refresh_of_read? {classes : ClassNameSet} (h : x.read? s e = some classes) :
    ∃ declared, e = .refresh s declared ∧ classes = x.analysis.bootRead s declared := by
  cases e with
  | refresh t declared =>
      simp only [read?] at h
      split at h
      case isTrue ht =>
          cases h
          exact ⟨declared, ht ▸ rfl, rfl⟩
      case isFalse => cases h
  | _ => cases h

theorem eq_types_of_listed? {sources : Except ModuleError ClassNameSet} {classes : ClassNameSet}
    (h : x.listed? s e = some (sources, classes)) :
    e = .types s sources ∧ classes = (x.analysis.types s sources).1 := by
  cases e with
  | types t told =>
      simp only [listed?] at h
      split at h
      case isTrue ht =>
          cases h
          exact ⟨ht ▸ rfl, rfl⟩
      case isFalse => cases h
  | _ => cases h

end Session

namespace Usage

variable {x : Usage}

theorem run_append (x : Usage) (acts after : List Act) : x.run (acts ++ after) = (x.run acts).run after :=
  List.foldl_append

theorem visits_run (x : Usage) (acts : List Act) : x.Visits acts (x.run acts) :=
  ⟨acts, [], (List.append_nil acts).symm, rfl⟩

theorem Visits.concat {y : Usage} {acts : List Act} (h : x.Visits acts y) (act : Act) :
    x.Visits (acts ++ [act]) y := by
  obtain ⟨before, after, rfl, hy⟩ := h
  exact ⟨before, after ++ [act], List.append_assoc _ _ _, hy⟩

/-- What has been answered was so before, or its module answers now. -/
theorem inquiry_step {k : Nat} {q : Inquiry} (hq : (x.step act).inquiries.get? k = some q) (ha : q.Answered) :
    x.inquiries.get? k = some q ∨
      ∃ q₀, x.inquiries.get? k = some q₀ ∧ q = q₀.answered x.analysis := by
  have pushed {q' : Inquiry} (hpush : (x.inquiries.push q').get? k = some q) (hq' : ¬ q'.Answered) :
      x.inquiries.get? k = some q := by
    by_cases hk : k = x.inquiries.size
    · subst hk
      cases (Row.get?_push_self _ _).symm.trans hpush
      exact absurd ha hq'
    · exact (Row.get?_push_of_ne hk).symm.trans hpush
  cases act with
  | refresh t =>
      simp only [step, inquiriesAfter] at hq
      split at hq
      · exact Or.inl (pushed hq id)
      · exact Or.inl hq
  | types t =>
      simp only [step, inquiriesAfter] at hq
      split at hq
      · exact Or.inl (pushed hq id)
      · exact Or.inl hq
  | answer i =>
      simp only [step, inquiriesAfter, Row.get?_modify] at hq
      split at hq
      · obtain ⟨q₀, hq₀, rfl⟩ := Option.map_eq_some_iff.mp hq
        exact Or.inr ⟨q₀, hq₀, rfl⟩
      · exact Or.inl hq
  | conclude i =>
      simp only [step, inquiriesAfter, Row.get?_modify] at hq
      split at hq
      · obtain ⟨q₀, hq₀, rfl⟩ := Option.map_eq_some_iff.mp hq
        rw [Inquiry.eq_of_answered_concluded ha]
        exact Or.inl hq₀
      · exact Or.inl hq
  | _ => exact Or.inl hq

/-- What has been answered in a run is what the module has told at some moment since it was asked. -/
theorem answered_run (hx : x.inquiries = {}) (acts : List Act) {k : Nat} {q : Inquiry}
    (hq : (x.run acts).inquiries.get? k = some q) (ha : q.Answered) :
    ∃ y q₀, x.Visits acts y ∧ y.inquiries.get? k = some q₀ ∧ q = q₀.answered y.analysis := by
  induction acts using List.reverseRecOn with
  | nil =>
      rw [run, List.foldl_nil, hx] at hq
      cases hq
  | append_singleton acts act ih =>
      rw [run_append] at hq
      rcases inquiry_step hq ha with hold | ⟨q₀, hq₀, rfl⟩
      · obtain ⟨y, q₀, hy, hq₀, he⟩ := ih hold
        exact ⟨y, q₀, hy.concat act, hq₀, he⟩
      · exact ⟨x.run acts, q₀, (visits_run x acts).concat act, hq₀, rfl⟩

/-- A service reads its boot classes anew without asking, or when it has been answered. -/
theorem event?_eq_refresh {act : Act} {declared : Option (List Path)}
    (h : x.event? act = some (.refresh s declared)) :
    (act = .refresh s ∧ declared = none ∧ x.asksBoot s = false) ∨
      ∃ k paths, act = .conclude k ∧ declared = some paths ∧
        x.inquiries.get? k = some (.boot s (some (.ok paths))) := by
  cases act with
  | event e other =>
      cases h
      exact absurd trivial other
  | refresh t =>
      simp only [event?] at h
      split at h
      case isTrue => cases h
      case isFalse hasks =>
          cases h
          exact Or.inl ⟨rfl, rfl, Bool.eq_false_iff.mpr hasks⟩
  | types t =>
      simp only [event?] at h
      split at h
      · cases h
      · cases h
  | conclude k =>
      simp only [event?] at h
      split at h
      case h_1 hk =>
          cases h
          exact Or.inr ⟨k, _, rfl, rfl, hk⟩
      case h_2 => cases h
      case h_3 => cases h
  | _ => cases h

theorem event?_eq_types {act : Act} {sources : Except ModuleError ClassNameSet}
    (h : x.event? act = some (.types s sources)) :
    (act = .types s ∧ sources = x.analysis.sourcesReply s) ∨
      ∃ k, act = .conclude k ∧ x.inquiries.get? k = some (.sources s (some sources)) := by
  cases act with
  | event e other =>
      cases h
      exact absurd trivial other
  | refresh t =>
      simp only [event?] at h
      split at h
      · cases h
      · cases h
  | types t =>
      simp only [event?] at h
      split at h
      case h_1 => cases h
      case h_2 hm =>
          cases h
          refine Or.inl ⟨rfl, ?_⟩
          rw [Analysis.sourcesReply, hm]
          rfl
  | conclude k =>
      simp only [event?] at h
      split at h
      case h_1 => cases h
      case h_2 hk =>
          cases h
          exact Or.inr ⟨k, rfl, hk⟩
      case h_3 => cases h
  | _ => cases h

/-- A service reads its boot classes anew from what its module has declared during that call. -/
theorem refreshed_run (hx : x.inquiries = {}) (acts : List Act) {act : Act} {classes : ClassNameSet}
    (h : (x.run acts).refreshed? s act = some classes) :
    ∃ y declared, x.Visits acts y ∧ y.During s act ∧ y.Declares s declared ∧
      classes = (x.run acts).analysis.bootRead s declared := by
  obtain ⟨e, he, hread⟩ := Option.bind_eq_some_iff.mp h
  obtain ⟨declared, rfl, rfl⟩ := Session.eq_refresh_of_read? hread
  rcases event?_eq_refresh he with ⟨rfl, rfl, hasks⟩ | ⟨k, paths, rfl, rfl, hk⟩
  · exact ⟨x.run acts, none, visits_run x acts, rfl, hasks, rfl⟩
  · obtain ⟨y, q, hy, hq, hanswered⟩ := answered_run hx acts hk trivial
    cases q with
    | boot t reply =>
        obtain ⟨rfl, hreply⟩ := Inquiry.boot.inj hanswered
        exact ⟨y, some paths, hy, ⟨_, hq, rfl⟩, (Option.some.inj hreply).symm, rfl⟩
    | sources t reply => cases hanswered
    | closed => cases hanswered

/-- What a service lists as its module's sources is what its module has told during that call. -/
theorem listed_run (hx : x.inquiries = {}) (acts : List Act) {act : Act}
    {sources : Except ModuleError ClassNameSet} {classes : ClassNameSet}
    (h : (x.run acts).listed? s act = some (sources, classes)) :
    (∃ y, x.Visits acts y ∧ y.During s act ∧ sources = y.analysis.sourcesReply s) ∧
      classes = ((x.run acts).analysis.types s sources).1 := by
  obtain ⟨e, he, hlisted⟩ := Option.bind_eq_some_iff.mp h
  obtain ⟨rfl, hclasses⟩ := Session.eq_types_of_listed? hlisted
  refine ⟨?_, hclasses⟩
  rcases event?_eq_types he with ⟨rfl, hsources⟩ | ⟨k, rfl, hk⟩
  · exact ⟨x.run acts, visits_run x acts, rfl, hsources⟩
  · obtain ⟨y, q, hy, hq, hanswered⟩ := answered_run hx acts hk trivial
    cases q with
    | boot t reply => cases hanswered
    | sources t reply =>
        obtain ⟨rfl, hreply⟩ := Inquiry.sources.inj hanswered
        exact ⟨y, hy, ⟨_, hq, rfl⟩, Option.some.inj hreply⟩
    | closed => cases hanswered

end Usage

end ClassScope
