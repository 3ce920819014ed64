import ClassScope.Proofs.ClassIndex.RoundTrip

/-!
# One set for the same names

However a set of class names is made, it is told by the names that were put into it: they stand in ascending order,
each of them once, and neither their order nor their repetition nor the way they came in is left to see.
-/

namespace ClassScope

namespace ClassIndex

/-- The bytes of a list of names, in its order and with its repetitions. -/
def encodeNames (names : List String) : Bytes :=
  Bytes.ofNat 8 names.length ++ names.flatMap encodeText

/-- As many names, and as long ones, as the fields for their number and lengths hold, and none longer than the room
for it. -/
structure NamesFit (room : Nat) (names : List String) : Prop where
  count : names.length < Bytes.capacity 8
  each : ∀ name ∈ names, TextFits room name

theorem decodes_names {room : Nat} {names : List String} (fit : NamesFit room names) :
    Decodes (decodeClasses room) (encodeNames names) (.ofList names) :=
  decodes_classes fit.count fit.each

end ClassIndex

open ClassIndex

namespace ClassNameSet

variable {s t : ClassNameSet} {names others : List String}

/-! ## How sets are made -/

/-- A set that was made by any operations, and the names that were put into it. -/
inductive Made : ClassNameSet → List String → Prop where
  | empty : Made ∅ []
  /-- The names are those of a list, or of a list in a document. -/
  | ofList (names : List String) : Made (ofList names) names
  | add {s : ClassNameSet} {names : List String} (h : Made s names) (name : String) :
      Made (s.add name).2 (name :: names)
  | extend {s : ClassNameSet} {names : List String} (h : Made s names) (more : List String) :
      Made (s.extend more) (more ++ names)
  | merge {s t : ClassNameSet} {names others : List String} (h : Made s names) (ht : Made t others) :
      Made (s.merge t) (names ++ others)
  | union {sets : List (ClassNameSet × List String)} (h : ∀ x ∈ sets, Made x.1 x.2) :
      Made (union (sets.map (·.1))) (sets.flatMap (·.2))
  /-- A list of names is read from its bytes. -/
  | read {s : ClassNameSet} {room : Nat} {names : List String} {rest left : Bytes} (fit : NamesFit room names)
      (run : decodeClasses room (encodeNames names ++ rest) = .ok (s, left)) : Made s names

theorem Made.mem_iff (h : Made s names) (x : String) : x ∈ s ↔ x ∈ names := by
  induction h with
  | empty => simp [EmptyCollection.emptyCollection]
  | ofList names => exact mem_ofList
  | add _ name ih =>
      show x ∈ insert name _ ↔ _
      rw [mem_insert, List.mem_cons, ih]
  | extend _ more ih => rw [mem_extend, List.mem_append, ih]
  | merge _ _ ihs iht => rw [mem_merge, List.mem_append, ihs, iht]
  | union _ ih =>
      rw [mem_union, List.mem_flatMap]
      constructor
      · rintro ⟨s, hs, hx⟩
        obtain ⟨y, hy, rfl⟩ := List.mem_map.mp hs
        exact ⟨y, hy, (ih y hy).mp hx⟩
      · rintro ⟨y, hy, hx⟩
        exact ⟨y.1, List.mem_map_of_mem hy, (ih y hy).mpr hx⟩
  | read fit run =>
      rw [decodes_names fit] at run
      cases run
      exact mem_ofList

theorem Made.eq_of_same (h : Made s names) (ht : Made t others) (same : ∀ x, x ∈ names ↔ x ∈ others) : s = t :=
  eq_of_mem_iff fun x => by rw [h.mem_iff, ht.mem_iff, same]

/-! ## The order of code points -/

def codePoints (s : String) : List Nat :=
  s.toList.map Char.toNat

theorem codePoints_lt {a b : String} (h : a < b) : codePoints a < codePoints b :=
  List.map_lt (fun _ _ hlt => hlt) (String.lt_iff.mp h)

theorem pairwise_codePoints (s : ClassNameSet) : (s.toList.map codePoints).Pairwise (· < ·) :=
  List.pairwise_map.mpr (s.ascending.imp codePoints_lt)

/-! ## Unions and merges -/

theorem contains_eq_true_iff {x : String} : s.contains x = true ↔ x ∈ s := by
  rw [contains, decide_eq_true_iff]

theorem union_eq_of_same {sets sets' : List ClassNameSet} (same : ∀ s, s ∈ sets ↔ s ∈ sets') :
    union sets = union sets' :=
  eq_of_mem_iff fun x => by simp only [mem_union, same]

theorem union_map_union (groups : List (List ClassNameSet)) : union (groups.map union) = union groups.flatten := by
  apply eq_of_mem_iff
  intro x
  rw [mem_union, mem_union]
  constructor
  · rintro ⟨t, ht, hx⟩
    obtain ⟨group, hgroup, rfl⟩ := List.mem_map.mp ht
    obtain ⟨s, hs, hx⟩ := mem_union.mp hx
    exact ⟨s, List.mem_flatten.mpr ⟨group, hgroup, hs⟩, hx⟩
  · rintro ⟨s, hs, hx⟩
    obtain ⟨group, hgroup, hs⟩ := List.mem_flatten.mp hs
    exact ⟨union group, List.mem_map_of_mem hgroup, mem_union.mpr ⟨s, hs, hx⟩⟩

/-- Adds names one after the other. -/
def addAll (s : ClassNameSet) (names : List String) : ClassNameSet :=
  names.foldl (fun t name => (t.add name).2) s

theorem mem_addAll {x : String} (names : List String) : x ∈ s.addAll names ↔ x ∈ s ∨ x ∈ names := by
  induction names generalizing s with
  | nil => simp [addAll]
  | cons name names ih =>
      have hstep : s.addAll (name :: names) = (s.insert name).addAll names := rfl
      rw [hstep, ih, mem_insert, List.mem_cons, or_assoc, or_left_comm]

/-- An empty set that takes the other one over, and one that has names already, end up as if each name of the other one
had been added on its own. -/
theorem merge_eq_addAll {order : List String} (same : ∀ x, x ∈ order ↔ x ∈ t) : s.merge t = s.addAll order :=
  eq_of_mem_iff fun x => by rw [mem_merge, mem_addAll, same]

/-- A set holds just the names that were put into it, in ascending order of their code points, and says of each name
whether it was missing; put in in another way, the same names make the same set, which is written alike. Any list of
names can be read. A union takes the names of its sets, whatever their order, repetition and grouping, and a merge adds
the names of the other set one by one, to an empty set as well. -/
theorem made_canonical :
    (∀ s names, Made s names →
      (s.toList.map codePoints).Pairwise (· < ·) ∧
      (∀ x, s.contains x = true ↔ x ∈ names) ∧
      (∀ x, (s.add x).1 = true ↔ x ∉ names) ∧
      ∀ t others, Made t others → (∀ x, x ∈ names ↔ x ∈ others) →
        s = t ∧ s.toList = t.toList ∧ encodeClasses s = encodeClasses t) ∧
    (∀ room names rest, NamesFit room names →
      ∃ s, decodeClasses room (encodeNames names ++ rest) = .ok (s, rest) ∧ Made s names) ∧
    (∀ sets x, (union sets).contains x = true ↔ ∃ s ∈ sets, s.contains x = true) ∧
    (∀ sets sets', (∀ s, s ∈ sets ↔ s ∈ sets') → union sets = union sets') ∧
    (∀ groups : List (List ClassNameSet), union (groups.map union) = union groups.flatten) ∧
    (∀ (s t : ClassNameSet) (order : List String), (∀ x, x ∈ order ↔ t.contains x = true) →
      s.merge t = s.addAll order) := by
  refine ⟨?_, ?_, ?_, fun _ _ => union_eq_of_same, union_map_union, ?_⟩
  · intro s names h
    refine ⟨pairwise_codePoints s, fun x => ?_, fun x => ?_, ?_⟩
    · rw [contains_eq_true_iff, h.mem_iff]
    · rw [add_fst_eq_true_iff, h.mem_iff]
    · intro t others ht same
      obtain rfl := h.eq_of_same ht same
      exact ⟨rfl, rfl, rfl⟩
  · intro room names rest fit
    have run := decodes_names fit rest
    exact ⟨ofList names, run, .read fit run⟩
  · intro sets x
    simp only [contains_eq_true_iff, mem_union]
  · intro s t order same
    exact merge_eq_addAll fun x => (same x).trans contains_eq_true_iff

/-- Read from a list with a repetition, and put together in another order by a merge into an empty set. -/
theorem made_canonical_of_read :
    let s : ClassNameSet := (merge ∅ (ofList ["b.B"])).insert "a.A"
    decodeClasses 3 (encodeNames ["b.B", "a.A", "b.B"] ++ [0]) = .ok (s, [0]) ∧
    s.contains "a.A" = true ∧ (s.add "b.B").1 = false ∧ (s.add "A").1 = true ∧ s.toList = ["a.A", "b.B"] := by
  intro s
  obtain ⟨made, reads, -⟩ := made_canonical
  have put : Made s ["a.A", "b.B"] := .add (.merge .empty (.ofList ["b.B"])) "a.A"
  obtain ⟨-, contains, missing, alike⟩ := made s _ put
  have fit : NamesFit 3 ["b.B", "a.A", "b.B"] := ⟨by decide, by decide⟩
  obtain ⟨t, run, read⟩ := reads 3 _ [0] fit
  have same (x : String) : x ∈ ["a.A", "b.B"] ↔ x ∈ ["b.B", "a.A", "b.B"] := by
    simp only [List.mem_cons, List.not_mem_nil, or_false]
    grind
  obtain ⟨rfl, -, -⟩ := alike t _ read same
  refine ⟨run, (contains "a.A").mpr (by decide), ?_, (missing "A").mpr (by decide), by decide⟩
  rw [Bool.eq_false_iff, ne_eq, missing]
  decide

end ClassNameSet

end ClassScope
