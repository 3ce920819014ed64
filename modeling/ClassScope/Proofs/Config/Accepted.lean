import ClassScope.Config
import ClassScope.Proofs.Toml.Bounds

/-!
# Configurations that are accepted

What is read from a document can be written into one: its paths are texts, and its numbers fit.
-/

namespace ClassScope

def Path.IsText (p : Path) : Prop :=
  ∃ s, p = Path.ofString s

/-- A configuration that a document can hold. -/
structure Config.Printable (c : Config) : Prop where
  home : ∀ p ∈ c.platformHome, p.IsText
  boot : ∀ p ∈ c.defaultBoot, p.IsText
  dir : ∀ p ∈ c.index.dir, p.IsText
  attempts : c.reconnect.maxAttempts < 0x100000000
  delay : c.reconnect.delayMs ≤ 0x7FFFFFFFFFFFFFFF

namespace Toml.Value

variable {v : Value} {α ε σ : Type}

/-! ## Values that fit -/

theorem isText_of_asPath {p : Path} (h : v.asPath = .ok p) : p.IsText := by
  cases v with
  | text s => cases h; exact ⟨s, rfl⟩
  | _ => cases h

theorem forall_of_mapM_ok {f : α → Except ε σ} {P : σ → Prop} (hf : ∀ {a b}, f a = .ok b → P b) {as : List α}
    {bs : List σ} (h : as.mapM f = .ok bs) : ∀ b ∈ bs, P b := by
  induction as generalizing bs with
  | nil => cases h; exact fun _ h => nomatch h
  | cons a as ih =>
      rw [List.mapM_cons] at h
      cases ha : f a with
      | error e => rw [ha] at h; cases h
      | ok b =>
          rw [ha] at h
          cases has : as.mapM f with
          | error e => rw [has] at h; cases h
          | ok bs =>
              rw [has] at h
              cases h
              exact List.forall_mem_cons.mpr ⟨hf ha, ih has⟩

theorem isText_of_asPaths {ps : List Path} (h : v.asList asPath = .ok ps) : ∀ p ∈ ps, p.IsText := by
  unfold asList at h
  split at h
  · exact forall_of_mapM_ok isText_of_asPath h
  · cases h

/-- A natural number is below the bound that is asked for, and no larger than an integer can be. -/
theorem bounds_of_asNatural {bits n : Nat} (hv : v.Bounded) (h : v.asNatural bits = .ok n) :
    n < 1 <<< bits ∧ n ≤ 0x7FFFFFFFFFFFFFFF := by
  cases hv with
  | integer hrange =>
      simp only [asNatural] at h
      split at h
      case isTrue hbounds =>
          cases h
          simp only [Number.inRange, Bool.decide_and, Bool.and_eq_true, decide_eq_true_eq] at hrange
          exact ⟨hbounds.2, by omega⟩
      case isFalse => cases h
  | _ => cases h

theorem Bounded.items? (h : v.Bounded) {vs : List Value} (hvs : v.items? = some vs) : ∀ w ∈ vs, w.Bounded := by
  cases h with
  | array hvs' => cases hvs; exact hvs'
  | tables hitems =>
      cases hvs
      intro w hw
      obtain ⟨es, hes, rfl⟩ := List.mem_map.mp hw
      exact .table (hitems es hes)
  | _ => cases hvs

/-! ## Records -/

theorem foldlM_keeps {f : σ → α → Except ε σ} {P : σ → Prop} {as : List α}
    (hf : ∀ a ∈ as, ∀ {s s'}, P s → f s a = .ok s' → P s') {s s' : σ} (hs : P s)
    (h : as.foldlM f s = .ok s') : P s' := by
  induction as generalizing s with
  | nil => cases h; exact hs
  | cons a as ih =>
      rw [List.foldlM_cons] at h
      cases hfa : f s a with
      | error e => rw [hfa] at h; cases h
      | ok next =>
          rw [hfa] at h
          exact ih (fun x hx => hf x (List.mem_cons_of_mem a hx)) (hf a List.mem_cons_self hs hfa) h

/-- A field keeps what holds of a record. -/
def Field.Keeps (P : σ → Prop) (field : Field σ) : Prop :=
  ∀ {v s s'}, v.Bounded → P s → field.2 v s = .ok s' → P s'

/-- What holds of a record at the start and is kept by its fields holds of the record that is read. -/
theorem asRecord_keeps {name : String} {fields : List (Field σ)} {P : σ → Prop}
    (hfields : ∀ field ∈ fields, field.Keeps P) (hv : v.Bounded) {start s : σ} (hstart : P start)
    (h : v.asRecord name fields start = .ok s) : P s := by
  unfold asRecord at h
  split at h
  case h_1 origin entries _ =>
      refine foldlM_keeps ?_ hstart h
      rintro ⟨key, w⟩ hmem s s' hs hset
      cases hv with
      | table hes =>
          dsimp only at hset
          split at hset
          case h_1 set hlookup =>
              obtain ⟨before, after, rfl, -⟩ := List.lookup_eq_some_iff.mp hlookup
              exact hfields (key, set) (List.mem_append_right _ List.mem_cons_self) (hes _ hmem) hs hset
          case h_2 => cases hset; exact hs
  case h_2 => cases h; exact hstart
  case h_3 vs hitems =>
      refine foldlM_keeps ?_ hstart h
      rintro ⟨field, w⟩ hmem s s' hs hset
      have hzip := List.of_mem_zip hmem
      exact hfields field hzip.1 (hv.items? hitems w hzip.2) hs hset
  case h_4 => cases h

end Toml.Value

/-! ## The fields of a configuration -/

namespace Config

open Toml

theorem exists_of_map_ok {ε α β : Type} {x : Except ε α} {f : α → β} {b : β} (h : x.map f = .ok b) :
    ∃ a, x = .ok a ∧ b = f a := by
  cases x with
  | error e => cases h
  | ok a => cases h; exact ⟨a, rfl, rfl⟩

theorem indexFields_keep : ∀ field ∈ indexFields, field.Keeps fun c => ∀ p ∈ c.dir, p.IsText := by
  refine List.forall_mem_cons.mpr ⟨?_, List.forall_mem_cons.mpr ⟨?_, nofun⟩⟩
  · intro v c c' _ hc h
    obtain ⟨enabled, -, rfl⟩ := exists_of_map_ok h
    exact hc
  · intro v c c' _ hc h
    obtain ⟨dir, hdir, rfl⟩ := exists_of_map_ok h
    rintro p ⟨⟩
    exact Value.isText_of_asPath hdir

theorem reconnectFields_keep : ∀ field ∈ reconnectFields,
    field.Keeps fun c => c.maxAttempts < 0x100000000 ∧ c.delayMs ≤ 0x7FFFFFFFFFFFFFFF := by
  refine List.forall_mem_cons.mpr ⟨?_, List.forall_mem_cons.mpr ⟨?_, nofun⟩⟩
  · intro v c c' hv hc h
    obtain ⟨n, hn, rfl⟩ := exists_of_map_ok h
    exact ⟨(Value.bounds_of_asNatural hv hn).1, hc.2⟩
  · intro v c c' hv hc h
    obtain ⟨n, hn, rfl⟩ := exists_of_map_ok h
    exact ⟨hc.1, (Value.bounds_of_asNatural hv hn).2⟩

theorem fields_keep : ∀ field ∈ fields, field.Keeps Printable := by
  simp only [fields, List.forall_mem_cons]
  refine ⟨?_, ?_, ?_, ?_, ?_, nofun⟩
  · intro v c c' _ hc h
    obtain ⟨home, hhome, rfl⟩ := exists_of_map_ok h
    refine { hc with home := ?_ }
    rintro p ⟨⟩
    exact Value.isText_of_asPath hhome
  · intro v c c' _ hc h
    obtain ⟨boot, hboot, rfl⟩ := exists_of_map_ok h
    exact { hc with boot := Value.isText_of_asPaths hboot }
  · intro v c c' _ hc h
    obtain ⟨stale, -, rfl⟩ := exists_of_map_ok h
    exact { hc with }
  · intro v c c' hv hc h
    obtain ⟨index, hindex, rfl⟩ := exists_of_map_ok h
    have start : ∀ p ∈ ({} : IndexConfig).dir, p.IsText := fun _ hp => nomatch hp
    exact { hc with dir := Value.asRecord_keeps indexFields_keep hv start hindex }
  · intro v c c' hv hc h
    obtain ⟨reconnect, hreconnect, rfl⟩ := exists_of_map_ok h
    have hbounds := Value.asRecord_keeps reconnectFields_keep hv (by decide) hreconnect
    exact { hc with attempts := hbounds.1, delay := hbounds.2 }

theorem printable_default : Printable {} where
  home := nofun
  boot := nofun
  dir := nofun
  attempts := by decide
  delay := by decide

/-- Every configuration that is read from a document can be written into one. -/
theorem printable_of_ofToml {text : String} {c : Config} (h : ofToml text = .ok c) : c.Printable := by
  unfold ofToml at h
  split at h
  case h_2 => cases h
  case h_1 entries hread =>
      cases hd : decode (.table .header entries) with
      | error e => rw [hd] at h; cases h
      | ok c' =>
          rw [hd] at h
          cases h
          exact Value.asRecord_keeps fields_keep (.table (Entries.bounded_of_read? hread)) printable_default hd

end Config

end ClassScope
