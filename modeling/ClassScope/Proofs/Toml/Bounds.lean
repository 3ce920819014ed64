import ClassScope.Toml.Document

/-!
# Integers of a document

Every integer that a document holds has 64 bits, wherever it stands.
-/

namespace ClassScope.Toml

/-- All integers in a value have 64 bits. -/
inductive Value.Bounded : Value → Prop
  | text (s : String) : Bounded (.text s)
  | integer {n : Int} (h : Number.inRange n = true) : Bounded (.integer n)
  | real (x : Double) : Bounded (.real x)
  | boolean (b : Bool) : Bounded (.boolean b)
  | moment : Bounded .moment
  | array {vs : List Value} (h : ∀ v ∈ vs, Bounded v) : Bounded (.array vs)
  | table {origin : Origin} {es : List (String × Value)} (h : ∀ e ∈ es, Bounded e.2) : Bounded (.table origin es)
  | tables {items : List (List (String × Value))} (h : ∀ es ∈ items, ∀ e ∈ es, Bounded e.2) :
      Bounded (.tables items)

def Entries.Bounded (es : Entries) : Prop :=
  ∀ e ∈ es, e.2.Bounded

variable {v : Value} {vs : List Value} {cs rest : List Char} {es es' sub : Entries} {name : String}
  {path : List String} {depth bound : Nat}

/-! ## Entries -/

namespace Entries

theorem bounded_nil : Bounded [] :=
  fun _ h => nomatch h

theorem Bounded.append (h : Bounded es) (h' : Bounded es') : Bounded (es ++ es') := by
  intro e he
  rcases List.mem_append.mp he with he | he
  · exact h e he
  · exact h' e he

theorem bounded_singleton (h : v.Bounded) : Bounded [(name, v)] := by
  intro e he
  rw [List.mem_singleton.mp he]
  exact h

theorem Bounded.find? (h : Bounded es) (hv : find? name es = some v) : v.Bounded := by
  obtain ⟨before, after, rfl, -⟩ := List.lookup_eq_some_iff.mp hv
  exact h (name, v) (List.mem_append_right _ List.mem_cons_self)

theorem Bounded.replace (h : Bounded es) (hv : v.Bounded) : Bounded (replace name v es) := by
  intro e he
  obtain ⟨e, hmem, rfl⟩ := List.mem_map.mp he
  split
  · exact hv
  · exact h e hmem

theorem Bounded.erase (h : Bounded es) : Bounded (erase name es) :=
  fun e he => h e (List.mem_filter.mp he).1

/-- A table that is put in the place of the last one of some tables. -/
theorem bounded_replaceLast {items : List Entries} (h : (Value.tables items).Bounded) (hsub : Bounded sub) :
    (Value.tables (items.dropLast ++ [sub])).Bounded := by
  cases h with
  | tables h =>
      refine .tables fun es hes => ?_
      rcases List.mem_append.mp hes with hes | hes
      · exact h es ((List.dropLast_sublist items).subset hes)
      · rw [List.mem_singleton.mp hes]
        exact hsub

theorem bounded_of_getLast? {items : List Entries} (h : (Value.tables items).Bounded)
    (hsub : items.getLast? = some sub) : Bounded sub := by
  cases h with
  | tables h => exact h sub (List.mem_of_getLast? hsub)

theorem bounded_of_table {origin : Origin} (h : (Value.table origin es).Bounded) : Bounded es := by
  cases h with
  | table h => exact h

theorem Bounded.assign (hv : v.Bounded) (hes : Bounded es) (h : assign name v path es = some es') :
    Bounded es' := by
  induction path generalizing es es' with
  | nil =>
      simp only [Entries.assign] at h
      split at h
      · cases h
      · cases h
        exact hes.append (bounded_singleton hv)
  | cons parent path ih =>
      rw [Entries.assign] at h
      split at h
      case h_1 =>
          obtain ⟨sub, hsub, rfl⟩ := Option.map_eq_some_iff.mp h
          exact hes.append (bounded_singleton (.table (ih bounded_nil hsub)))
      case h_2 origin sub hfound =>
          split at h
          case isFalse => cases h
          case isTrue =>
              obtain ⟨sub', hsub, rfl⟩ := Option.map_eq_some_iff.mp h
              exact hes.replace (.table (ih (bounded_of_table (hes.find? hfound)) hsub))
      case h_3 items hfound =>
          split at h
          case h_2 => cases h
          case h_1 sub hlast =>
              obtain ⟨sub', hsub, rfl⟩ := Option.map_eq_some_iff.mp h
              have hitems := hes.find? hfound
              exact hes.replace (bounded_replaceLast hitems (ih (bounded_of_getLast? hitems hlast) hsub))
      case h_4 => cases h

/-- What holds of all that is done to the table a header names holds of the whole document. -/
theorem Bounded.within {α : Type} {f : Entries → Option (α × Entries)} {P : α → Prop}
    (hf : ∀ {es a es'}, Bounded es → f es = some (a, es') → P a ∧ Bounded es') {a : α} (hes : Bounded es)
    (h : within f path es = some (a, es')) : P a ∧ Bounded es' := by
  induction path generalizing es es' with
  | nil => exact hf hes h
  | cons parent path ih =>
      rw [Entries.within] at h
      split at h
      case h_1 =>
          obtain ⟨⟨b, sub⟩, hsub, he⟩ := Option.map_eq_some_iff.mp h
          cases he
          obtain ⟨ha, hbounded⟩ := ih bounded_nil hsub
          exact ⟨ha, hes.append (bounded_singleton (.table hbounded))⟩
      case h_2 => cases h
      case h_3 origin sub _ hfound =>
          obtain ⟨⟨b, sub'⟩, hsub, he⟩ := Option.map_eq_some_iff.mp h
          cases he
          obtain ⟨ha, hbounded⟩ := ih (bounded_of_table (hes.find? hfound)) hsub
          exact ⟨ha, hes.replace (.table hbounded)⟩
      case h_4 items hfound =>
          split at h
          case h_2 => cases h
          case h_1 sub hlast =>
              obtain ⟨⟨b, sub'⟩, hsub, he⟩ := Option.map_eq_some_iff.mp h
              cases he
              have hitems := hes.find? hfound
              obtain ⟨ha, hbounded⟩ := ih (bounded_of_getLast? hitems hlast) hsub
              exact ⟨ha, hes.replace (bounded_replaceLast hitems hbounded)⟩
      case h_5 => cases h

end Entries

/-! ## Values -/

namespace Number

theorem bounded_of_integer? (h : integer? cs = some (v, rest)) : v.Bounded := by
  have checked {n : Int} {after : List Char}
      (h : (if inRange n then some (Value.integer n, after) else none) = some (v, rest)) : v.Bounded := by
    split at h
    case isTrue hrange => cases h; exact .integer hrange
    case isFalse => cases h
  unfold integer? at h
  dsimp only at h
  split at h
  all_goals
    obtain ⟨⟨ds, after⟩, -, h⟩ := Option.bind_eq_some_iff.mp h
    exact checked h

theorem bounded_of_real? (h : real? cs = some (v, rest)) : v.Bounded := by
  unfold real? at h
  dsimp only at h
  split at h
  case h_1 => cases h; exact .real _
  case h_2 => cases h; exact .real _
  case h_3 =>
      obtain ⟨⟨whole, cs⟩, -, h⟩ := Option.bind_eq_some_iff.mp h
      obtain ⟨⟨places, n, after⟩, -, h⟩ := Option.bind_eq_some_iff.mp h
      dsimp only at h
      split at h
      case isTrue => cases h
      case isFalse => cases h; exact .real _

theorem bounded_of_moment? (h : moment? cs = some (v, rest)) : v.Bounded := by
  have moment {r : Option (List Char)} (hr : r.map (Value.moment, ·) = some (v, rest)) : v.Bounded := by
    obtain ⟨after, -, he⟩ := Option.map_eq_some_iff.mp hr
    cases he
    exact .moment
  unfold moment? at h
  split at h
  case h_1 =>
      split at h
      · split at h
        · exact moment h
        · cases h; exact .moment
      · cases h; exact .moment
  case h_2 => cases h; exact .moment
  case h_3 => exact moment h

theorem bounded_of_read? (h : read? cs = some (v, rest)) : v.Bounded := by
  unfold read? at h
  cases hm : moment? cs with
  | some r =>
      rw [hm] at h
      cases h
      exact bounded_of_moment? hm
  | none =>
      rw [hm] at h
      cases hr : real? cs with
      | some r =>
          rw [hr] at h
          cases h
          exact bounded_of_real? hr
      | none =>
          rw [hr] at h
          exact bounded_of_integer? h

end Number

namespace Statement

/-- A reader of values that finds only such whose integers have 64 bits. -/
def Bounds (item : List Char → Option (Value × List Char)) : Prop :=
  ∀ cs v rest, item cs = some (v, rest) → v.Bounded

variable {item : List Char → Option (Value × List Char)}

theorem Bounds.items? (hitem : Bounds item) (h : items? item bound cs = some (vs, rest)) :
    ∀ v ∈ vs, v.Bounded := by
  induction bound generalizing cs vs rest with
  | zero => cases h
  | succ bound ih =>
      rw [Statement.items?] at h
      split at h
      case h_1 => cases h; exact fun _ h => nomatch h
      case h_2 =>
          obtain ⟨⟨v, after⟩, hv, h⟩ := Option.bind_eq_some_iff.mp h
          have hbounded := hitem _ _ _ hv
          dsimp only at h
          split at h
          case h_1 =>
              cases h
              exact List.forall_mem_singleton.mpr hbounded
          case h_2 =>
              obtain ⟨⟨more, last⟩, hmore, h⟩ := Option.bind_eq_some_iff.mp h
              cases h
              exact List.forall_mem_cons.mpr ⟨hbounded, ih hmore⟩
          case h_3 => cases h

theorem Bounds.pair? (hitem : Bounds item) {pair : Key × Value} (h : pair? item cs = some (pair, rest)) :
    pair.2.Bounded := by
  obtain ⟨⟨key, after⟩, -, h⟩ := Option.bind_eq_some_iff.mp h
  obtain ⟨after, -, h⟩ := Option.bind_eq_some_iff.mp h
  obtain ⟨⟨v, last⟩, hv, h⟩ := Option.bind_eq_some_iff.mp h
  cases h
  exact hitem _ _ _ hv

theorem Bounds.pairs? (hitem : Bounds item) {pairs : List (Key × Value)}
    (h : pairs? item bound cs = some (pairs, rest)) : ∀ p ∈ pairs, p.2.Bounded := by
  induction bound generalizing cs pairs rest with
  | zero => cases h
  | succ bound ih =>
      obtain ⟨⟨pair, after⟩, hpair, h⟩ := Option.bind_eq_some_iff.mp h
      have hbounded := hitem.pair? hpair
      dsimp only at h
      split at h
      case h_1 =>
          cases h
          exact List.forall_mem_singleton.mpr hbounded
      case h_2 =>
          obtain ⟨⟨more, last⟩, hmore, h⟩ := Option.bind_eq_some_iff.mp h
          cases h
          exact List.forall_mem_cons.mpr ⟨hbounded, ih hmore⟩
      case h_3 => cases h

theorem bounded_of_inlineTable? {pairs : List (Key × Value)} (hpairs : ∀ p ∈ pairs, p.2.Bounded)
    (h : inlineTable? pairs = some v) : v.Bounded := by
  obtain ⟨es, hes, rfl⟩ := Option.map_eq_some_iff.mp h
  clear h
  refine .table ?_
  have start : Entries.Bounded [] := Entries.bounded_nil
  generalize ([] : Entries) = es₀ at hes start
  induction pairs generalizing es₀ with
  | nil => cases hes; exact start
  | cons p pairs ih =>
      obtain ⟨hp, hpairs⟩ := List.forall_mem_cons.mp hpairs
      rw [List.foldlM_cons] at hes
      obtain ⟨es₁, hstep, hes⟩ := Option.bind_eq_some_iff.mp hes
      exact ih hpairs es₁ hes (Entries.Bounded.assign hp start hstep)

theorem bounds_value?_of (smaller : ∀ k < depth, Bounds (value? k)) : Bounds (value? depth) := by
  intro cs v rest h
  rw [value?.eq_def] at h
  dsimp only at h
  split at h
  case h_1 | h_2 =>
      obtain ⟨⟨s, after⟩, -, he⟩ := Option.map_eq_some_iff.mp h
      cases he
      exact .text _
  case h_3 =>
      cases depth with
      | zero => cases h
      | succ depth =>
          obtain ⟨⟨vs, after⟩, hvs, he⟩ := Option.map_eq_some_iff.mp h
          cases he
          exact .array ((smaller depth (Nat.lt_succ_self depth)).items? hvs)
  case h_4 =>
      cases depth with
      | zero => cases h
      | succ depth =>
          dsimp only at h
          split at h
          case h_1 => cases h; exact .table (fun _ he => nomatch he)
          case h_2 =>
              obtain ⟨⟨pairs, after⟩, hpairs, h⟩ := Option.bind_eq_some_iff.mp h
              obtain ⟨table, htable, he⟩ := Option.map_eq_some_iff.mp h
              cases he
              exact bounded_of_inlineTable? ((smaller depth (Nat.lt_succ_self depth)).pairs? hpairs) htable
  case h_5 | h_6 => cases h; exact .boolean _
  case h_7 => exact Number.bounded_of_read? h

theorem bounds_value? (depth : Nat) : Bounds (value? depth) := by
  induction depth using Nat.strongRecOn with
  | _ depth ih => exact bounds_value?_of ih

/-! ## Documents -/

def Bounded : Statement → Prop
  | .assign _ v => v.Bounded
  | _ => True

theorem bounded_of_statement? {s : Statement} (h : statement? cs = some (s, rest)) : s.Bounded := by
  have ended (s' : Statement) {after : List Char} (hs : s'.Bounded)
      (h : (do let rest ← lineEnd? false after; some (s', rest)) = some (s, rest)) : s.Bounded := by
    obtain ⟨last, -, he⟩ := Option.bind_eq_some_iff.mp h
    cases he
    exact hs
  unfold statement? at h
  dsimp only at h
  split at h
  case h_1 =>
      obtain ⟨⟨key, after⟩, -, h⟩ := Option.bind_eq_some_iff.mp h
      obtain ⟨after, -, h⟩ := Option.bind_eq_some_iff.mp h
      obtain ⟨after, -, h⟩ := Option.bind_eq_some_iff.mp h
      exact ended (.item key) trivial h
  case h_2 =>
      obtain ⟨⟨key, after⟩, -, h⟩ := Option.bind_eq_some_iff.mp h
      obtain ⟨after, -, h⟩ := Option.bind_eq_some_iff.mp h
      exact ended (.header key) trivial h
  case h_3 =>
      obtain ⟨⟨⟨key, v⟩, after⟩, hpair, h⟩ := Option.bind_eq_some_iff.mp h
      exact ended (.assign key v) ((bounds_value? _).pair? hpair) h

theorem bounded_of_lines? {ss : List Statement} (h : lines? bound cs = some ss) : ∀ s ∈ ss, s.Bounded := by
  induction bound generalizing cs ss with
  | zero =>
      cases cs with
      | nil => cases h; exact fun _ h => nomatch h
      | cons c cs => cases h
  | succ bound ih =>
      cases cs with
      | nil => cases h; exact fun _ h => nomatch h
      | cons c cs =>
          simp only [lines?] at h
          split at h
          case h_1 => exact ih h
          case h_2 =>
              obtain ⟨⟨s, after⟩, hs, h⟩ := Option.bind_eq_some_iff.mp h
              obtain ⟨more, hmore, h⟩ := Option.bind_eq_some_iff.mp h
              cases h
              exact List.forall_mem_cons.mpr ⟨bounded_of_statement? hs, ih hmore⟩

end Statement

namespace Draft

/-- All integers that a draft holds have 64 bits. -/
structure Bounded (d : Draft) : Prop where
  finished : Entries.Bounded d.finished
  entries : Entries.Bounded d.entries

variable {d d' : Draft}

theorem Bounded.finish (h : d.Bounded) (hes : d.finish = some es) : Entries.Bounded es := by
  unfold Draft.finish at hes
  split at hes
  case h_1 => cases hes; exact h.entries
  case h_2 key _ =>
      obtain ⟨⟨u, es'⟩, hwithin, rfl⟩ := Option.map_eq_some_iff.mp hes
      refine (h.finished.within (P := fun _ => True) (fun {es a es'} hbounded hplace => ⟨trivial, ?_⟩) hwithin).2
      split at hplace
      · cases hplace
      · cases hplace
        exact hbounded.append (Entries.bounded_singleton (.table h.entries))
  case h_3 key _ =>
      obtain ⟨⟨u, es'⟩, hwithin, rfl⟩ := Option.map_eq_some_iff.mp hes
      refine (h.finished.within (P := fun _ => True) (fun {es a es'} hbounded hplace => ⟨trivial, ?_⟩) hwithin).2
      split at hplace
      case h_1 items hfound =>
          cases hplace
          refine hbounded.replace (.tables fun es hes => ?_)
          rcases List.mem_append.mp hes with hes | hes
          · cases hbounded.find? hfound with
            | tables hitems => exact hitems es hes
          · rw [List.mem_singleton.mp hes]
            exact h.entries
      case h_2 => cases hplace

theorem Bounded.openHeader (h : d.Bounded) {key : Key} (hd : d.openHeader key = some d') : d'.Bounded := by
  obtain ⟨finished, hfinish, hd⟩ := Option.bind_eq_some_iff.mp hd
  obtain ⟨⟨entries, finished'⟩, hwithin, hd⟩ := Option.bind_eq_some_iff.mp hd
  cases hd
  obtain ⟨hentries, hfinished⟩ := (h.finish hfinish).within (P := Entries.Bounded)
    (fun {es a es'} hbounded htake => by
      split at htake
      case h_1 => cases htake; exact ⟨Entries.bounded_nil, hbounded⟩
      case h_2 sub hfound =>
          cases htake
          exact ⟨Entries.bounded_of_table (hbounded.find? hfound), hbounded.erase⟩
      case h_3 => cases htake) hwithin
  exact ⟨hfinished, hentries⟩

theorem Bounded.openItem (h : d.Bounded) {key : Key} (hd : d.openItem key = some d') : d'.Bounded := by
  obtain ⟨finished, hfinish, hd⟩ := Option.bind_eq_some_iff.mp hd
  obtain ⟨⟨u, finished'⟩, hwithin, hd⟩ := Option.bind_eq_some_iff.mp hd
  cases hd
  obtain ⟨-, hfinished⟩ := (h.finish hfinish).within (P := fun _ => True)
    (fun {es a es'} hbounded hreserve => by
      refine ⟨trivial, ?_⟩
      split at hreserve
      case h_1 =>
          cases hreserve
          exact hbounded.append (Entries.bounded_singleton (.tables fun _ h => nomatch h))
      case h_2 => cases hreserve; exact hbounded
      case h_3 => cases hreserve) hwithin
  exact ⟨hfinished, Entries.bounded_nil⟩

theorem Bounded.add (h : d.Bounded) {s : Statement} (hs : s.Bounded) (hd : d.add s = some d') : d'.Bounded := by
  cases s with
  | assign key v =>
      obtain ⟨entries, hentries, rfl⟩ := Option.map_eq_some_iff.mp hd
      exact ⟨h.finished, Entries.Bounded.assign hs h.entries hentries⟩
  | header key => exact h.openHeader hd
  | item key => exact h.openItem hd

theorem Bounded.addAll (h : d.Bounded) {ss : List Statement} (hss : ∀ s ∈ ss, s.Bounded)
    (hd : ss.foldlM Draft.add d = some d') : d'.Bounded := by
  induction ss generalizing d with
  | nil => cases hd; exact h
  | cons s ss ih =>
      obtain ⟨hs, hss⟩ := List.forall_mem_cons.mp hss
      rw [List.foldlM_cons] at hd
      obtain ⟨next, hnext, hd⟩ := Option.bind_eq_some_iff.mp hd
      exact ih (h.add hs hnext) hss hd

end Draft

/-- All integers of a document have 64 bits. -/
theorem Entries.bounded_of_read? {text : String} (h : Entries.read? text = some es) : Bounded es := by
  obtain ⟨ss, hss, h⟩ := Option.bind_eq_some_iff.mp h
  obtain ⟨d, hd, hfinish⟩ := Option.bind_eq_some_iff.mp h
  have start : Draft.Bounded {} := ⟨bounded_nil, bounded_nil⟩
  exact (start.addAll (Statement.bounded_of_lines? hss) hd).finish hfinish

end ClassScope.Toml
