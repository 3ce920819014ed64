import ClassScope.Toml.Document

/-!
# Documents with sections

Assignments under plain keys and headers of plain names, all of them different, make the table that they list.
-/

namespace ClassScope.Toml

variable {es top : Entries} {name : String} {v : Value} {d : Draft}

/-- The assignments that make some entries. -/
def assigns (es : Entries) : List Statement :=
  es.map fun e => .assign ⟨[], e.1⟩ e.2

/-- Assignments, and sections with assignments of their own. -/
def documentOf (top : Entries) (sections : List (String × Entries)) : List Statement :=
  assigns top ++ sections.flatMap fun s => .header ⟨[], s.1⟩ :: assigns s.2

namespace Entries

def names (es : Entries) : List String :=
  es.map (·.1)

@[simp] theorem names_append (es es' : Entries) : (es ++ es').names = es.names ++ es'.names :=
  List.map_append

theorem has_eq_false (h : name ∉ es.names) : has name es = false := by
  rw [has, List.any_eq_false]
  intro e he
  have hne : e.1 ≠ name := fun heq => h (heq ▸ List.mem_map_of_mem he)
  simpa using hne

theorem find?_eq_none (h : name ∉ es.names) : find? name es = none := by
  rw [find?, List.lookup_eq_none_iff]
  intro e he
  have hne : name ≠ e.1 := fun heq => h (heq ▸ List.mem_map_of_mem he)
  simpa using hne

end Entries

namespace Draft

theorem add_assign (h : name ∉ d.entries.names) :
    d.add (.assign ⟨[], name⟩ v) = some { d with entries := d.entries ++ [(name, v)] } := by
  simp [add, assign, Entries.assign, Entries.has_eq_false h]

theorem foldlM_assigns (h : (d.entries ++ es).names.Nodup) :
    (assigns es).foldlM add d = some { d with entries := d.entries ++ es } := by
  induction es generalizing d with
  | nil => simp [assigns]
  | cons e es ih =>
      obtain ⟨name, v⟩ := e
      have hnew : name ∉ d.entries.names := by
        rw [Entries.names_append, List.nodup_append] at h
        intro hmem
        exact h.2.2 name hmem name List.mem_cons_self rfl
      have hmore := ih (d := { d with entries := d.entries ++ [(name, v)] }) (by simpa using h)
      have hcons : assigns ((name, v) :: es) = .assign ⟨[], name⟩ v :: assigns es := rfl
      rw [hcons, List.foldlM_cons, add_assign hnew]
      simpa using hmore

theorem add_header (hfinish : d.finish = some es) (h : name ∉ es.names) :
    d.add (.header ⟨[], name⟩) = some ⟨es, .header ⟨[], name⟩, []⟩ := by
  simp [add, openHeader, hfinish, Entries.within, Entries.find?_eq_none h]

theorem finish_header {finished : Entries} (h : name ∉ finished.names) :
    (⟨finished, .header ⟨[], name⟩, es⟩ : Draft).finish = some (finished ++ [(name, .table .header es)]) := by
  simp [finish, Entries.within, Entries.has_eq_false h]

theorem foldlM_sections {sections : List (String × Entries)} (hfinish : d.finish = some es)
    (hnames : (es.names ++ sections.map (·.1)).Nodup) (hsections : ∀ s ∈ sections, s.2.names.Nodup) :
    ∃ d', (sections.flatMap fun s => .header ⟨[], s.1⟩ :: assigns s.2).foldlM add d = some d' ∧
      d'.finish = some (es ++ sections.map fun s => (s.1, .table .header s.2)) := by
  induction sections generalizing d es with
  | nil => exact ⟨d, rfl, by rw [List.map_nil, List.append_nil]; exact hfinish⟩
  | cons s sections ih =>
      obtain ⟨name, sub⟩ := s
      obtain ⟨hsub, hsections⟩ := List.forall_mem_cons.mp hsections
      have hnew : name ∉ es.names := by
        rw [List.nodup_append] at hnames
        intro hmem
        exact hnames.2.2 name hmem name List.mem_cons_self rfl
      have hassigns : (assigns sub).foldlM add ⟨es, .header ⟨[], name⟩, []⟩ =
          some ⟨es, .header ⟨[], name⟩, sub⟩ := foldlM_assigns hsub
      have hsection : (⟨es, .header ⟨[], name⟩, sub⟩ : Draft).finish = some (es ++ [(name, .table .header sub)]) :=
        finish_header hnew
      obtain ⟨d', hd', hfinish'⟩ := ih hsection (by simpa [Entries.names] using hnames) hsections
      refine ⟨d', ?_, by simpa using hfinish'⟩
      rw [List.flatMap_cons, List.cons_append, List.foldlM_cons, add_header hfinish hnew]
      simp only [Option.bind_eq_bind, Option.bind_some, List.foldlM_append, hassigns, hd']

end Draft

/-- Entries and sections under different names make the table that lists them. -/
theorem Entries.ofStatements?_documentOf {sections : List (String × Entries)}
    (hnames : (top.names ++ sections.map (·.1)).Nodup) (hsections : ∀ s ∈ sections, s.2.names.Nodup) :
    ofStatements? (documentOf top sections) =
      some (top ++ sections.map fun s => (s.1, .table .header s.2)) := by
  have htop : (assigns top).foldlM Draft.add {} = some { entries := top } :=
    Draft.foldlM_assigns (List.nodup_append.mp hnames).1
  obtain ⟨d, hd, hfinish⟩ := Draft.foldlM_sections (d := { entries := top }) rfl hnames hsections
  rw [ofStatements?, documentOf, List.foldlM_append, htop]
  simp only [Option.bind_eq_bind, Option.bind_some, hd, hfinish]

end ClassScope.Toml
