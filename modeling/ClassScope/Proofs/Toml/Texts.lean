import ClassScope.Toml.Text

/-!
# Texts in quotes

What is written between quotes shows the text: the reader goes over it and has the text when it comes to the
closing quotes. This holds of every text and of the form that is chosen for it.
-/

namespace ClassScope.Toml.Text

variable {form : Form} {state state' : State} {run : Nat} {c : Char} {cs out w t rest : List Char}

/-! ## Reading on -/

/-- Reads characters that leave a text open. -/
def passFrom (form : Form) : State → List Char → Option (List Char × State)
  | state, [] => some ([], state)
  | state, c :: cs =>
      match move form state c with
      | .on out state => (passFrom form state cs).map fun (text, state) => (out ++ text, state)
      | _ => none

theorem readFrom_of_pass (h : passFrom form state cs = some (out, state')) (rest : List Char) :
    readFrom form state (cs ++ rest) = (readFrom form state' rest).map fun (text, rest) => (out ++ text, rest) := by
  induction cs generalizing state out with
  | nil =>
      cases h
      rw [List.nil_append]
      cases readFrom form state' rest <;> rfl
  | cons c cs ih =>
      rw [passFrom] at h
      rw [List.cons_append, readFrom]
      cases hm : move form state c with
      | close out used => simp [hm] at h
      | fail => simp [hm] at h
      | on out' next =>
          simp only [hm, Option.map_eq_some_iff] at h
          obtain ⟨⟨text, last⟩, hpass, he⟩ := h
          cases he
          simp [ih hpass, Function.comp_def]

/-! ## Quotes inside a text -/

/-- Where a reader stands after some quotes in a row that belong to the text. -/
def afterQuotes (run : Nat) : State :=
  if run = 0 then .plain else .quotes run

/-- A character that is no quote makes the quotes before it part of the text. -/
theorem readFrom_afterQuotes (hc : c ≠ form.quote) (hrun : run < 3) (cs : List Char) :
    readFrom form (afterQuotes run) (c :: cs) =
      (readFrom form .plain (c :: cs)).map fun r => (List.replicate run form.quote ++ r.1, r.2) := by
  by_cases hzero : run = 0
  · subst hzero
    exact Option.map_id'.symm
  · rw [afterQuotes, if_neg hzero, readFrom, readFrom, move, move, quotesMove, if_neg hc, if_pos hrun]
    cases plainMove form c with
    | on out next => simp [Function.comp_def]
    | close out used => simp
    | fail => rfl

def closing (form : Form) : List Char :=
  List.replicate (if form.multiline then 3 else 1) form.quote

/-- Quotes right before the closing ones belong to the text. -/
theorem readFrom_closing (hrun : run ≤ form.quoteRun) (hrest : rest.head? ≠ some form.quote) :
    readFrom form (afterQuotes run) (closing form ++ rest) =
      some (List.replicate run form.quote, rest) := by
  obtain ⟨q, escapes, multiline⟩ := form
  cases multiline with
  | false =>
      obtain rfl : run = 0 := Nat.le_zero.mp hrun
      simp [closing, afterQuotes, readFrom, move, plainMove]
  | true =>
      have last {n : Nat} (hn : 3 ≤ n) (hrest : rest.head? ≠ some q) :
          readFrom ⟨q, escapes, true⟩ (.quotes n) rest = some (List.replicate (n - 3) q, rest) := by
        cases rest with
        | nil => simp [readFrom, Nat.not_lt.mpr hn]
        | cons c cs =>
            have hc : c ≠ q := fun he => hrest (by rw [he]; rfl)
            simp [readFrom, move, quotesMove, hc, Nat.not_lt.mpr hn]
      match run, hrun with
      | 0, _ => simp [closing, afterQuotes, readFrom, move, plainMove, quotesMove, List.replicate, last, hrest]
      | 1, _ => simp [closing, afterQuotes, readFrom, move, quotesMove, List.replicate, last, hrest]
      | 2, _ => simp [closing, afterQuotes, readFrom, move, quotesMove, List.replicate]

/-! ## What shows a text -/

/-- Such characters, after so many quotes, show a text: quotes up to the number that may stand in a row, characters
as they are, and escapes. -/
inductive Shows (form : Form) : Nat → List Char → List Char → Prop
  | nil {run : Nat} : Shows form run [] []
  | quote {run : Nat} {w t : List Char} (room : run < form.quoteRun) (more : Shows form (run + 1) w t) :
      Shows form run (form.quote :: w) (form.quote :: t)
  | plain {run : Nat} {c : Char} {w t : List Char} (other : c ≠ form.quote)
      (bare : form.escapes = true → c ≠ '\\') (held : isPlain c = true ∨ c = '\n' ∧ form.multiline = true)
      (more : Shows form 0 w t) : Shows form run (c :: w) (c :: t)
  | escape {run : Nat} {c : Char} {e w t : List Char} (escapes : form.escapes = true)
      (code : passFrom form .escape e = some ([c], .plain)) (plain : ∀ x ∈ e, isPlain x = true)
      (more : Shows form 0 w t) : Shows form run ('\\' :: (e ++ w)) (c :: t)

/-- Quotes are plain characters and no backslashes. -/
structure Form.Usual (form : Form) : Prop where
  plain : isPlain form.quote = true
  other : form.quote ≠ '\\'

theorem plainMove_of_held (other : c ≠ form.quote) (bare : form.escapes = true → c ≠ '\\')
    (held : isPlain c = true ∨ c = '\n' ∧ form.multiline = true) : plainMove form c = .on [c] .plain := by
  have hbare : ¬ (c = '\\' ∧ form.escapes = true) := fun h => bare h.2 h.1
  rw [plainMove, if_neg other, if_neg hbare]
  rcases held with hplain | ⟨rfl, hmulti⟩
  · rw [if_pos hplain]
  · rw [if_neg (by decide), if_pos ⟨rfl, hmulti⟩]

/-- What shows a text is read as that text, up to the closing quotes. -/
theorem Shows.readFrom_eq (h : Shows form run w t) (usual : form.Usual) (hrun : run ≤ form.quoteRun)
    (hrest : rest.head? ≠ some form.quote) :
    readFrom form (afterQuotes run) (w ++ (closing form ++ rest)) =
      some (List.replicate run form.quote ++ t, rest) := by
  have few : form.quoteRun < 3 := by
    unfold Form.quoteRun
    split <;> decide
  induction h with
  | nil => simpa using readFrom_closing hrun hrest
  | @quote run w t room more ih =>
      have hmulti : form.multiline = true := by
        cases hm : form.multiline with
        | true => rfl
        | false => simp [Form.quoteRun, hm] at room
      have hmove : move form (afterQuotes run) form.quote = .on [] (afterQuotes (run + 1)) := by
        unfold afterQuotes
        split
        case isTrue hzero => simp [move, plainMove, hmulti, hzero]
        case isFalse hpos =>
            have hfour : run < 4 := by omega
            simp [move, quotesMove, hfour]
      rw [List.cons_append, readFrom, hmove]
      simp only [ih room]
      simp [List.replicate_succ']
  | plain other bare held more ih =>
      rw [List.cons_append, readFrom_afterQuotes other (Nat.lt_of_le_of_lt hrun few), readFrom]
      simp only [move, plainMove_of_held other bare held]
      have hmore := ih (Nat.zero_le _)
      rw [afterQuotes, if_pos rfl] at hmore
      simp [hmore]
  | @escape run c e w t escapes code plain more ih =>
      have hmove : plainMove form '\\' = .on [] .escape := by
        rw [plainMove, if_neg (Ne.symm usual.other), if_pos ⟨rfl, escapes⟩]
      have hmore := ih (Nat.zero_le _)
      rw [afterQuotes, if_pos rfl] at hmore
      rw [List.cons_append, readFrom_afterQuotes (Ne.symm usual.other) (Nat.lt_of_le_of_lt hrun few), readFrom]
      simp only [move, hmove]
      rw [List.append_assoc, readFrom_of_pass code, hmore]
      simp

theorem Shows.not_mem_return (h : Shows form run w t) (usual : form.Usual) : '\r' ∉ w := by
  have plain {x : Char} (hx : isPlain x = true) : '\r' ≠ x := by
    rintro rfl
    exact absurd hx (by decide)
  induction h with
  | nil => exact List.not_mem_nil
  | quote room more ih => exact List.not_mem_cons_of_ne_of_not_mem (plain usual.plain) ih
  | plain other bare held more ih =>
      refine List.not_mem_cons_of_ne_of_not_mem ?_ ih
      rcases held with hplain | ⟨rfl, -⟩
      · exact plain hplain
      · decide
  | escape escapes code hplain more ih =>
      refine List.not_mem_cons_of_ne_of_not_mem (by decide) ?_
      rw [List.mem_append]
      rintro (he | hw)
      · exact plain (hplain _ he) rfl
      · exact ih hw

/-- Line ends are only shown as they are. -/
theorem Shows.mem_lineEnd (h : Shows form run w t) (usual : form.Usual) (hw : '\n' ∈ w) : '\n' ∈ t := by
  have plain {x : Char} (hx : isPlain x = true) : '\n' ≠ x := by
    rintro rfl
    exact absurd hx (by decide)
  induction h with
  | nil => exact hw
  | quote room more ih =>
      exact List.mem_cons_of_mem _ (ih ((List.mem_cons.mp hw).resolve_left (plain usual.plain)))
  | plain other bare held more ih =>
      rcases List.mem_cons.mp hw with rfl | hw
      · exact List.mem_cons_self
      · exact List.mem_cons_of_mem _ (ih hw)
  | escape escapes code hplain more ih =>
      rcases List.mem_append.mp ((List.mem_cons.mp hw).resolve_left (by decide)) with he | hw
      · exact absurd rfl (plain (hplain _ he))
      · exact List.mem_cons_of_mem _ (ih hw)

/-! ## What is written -/

/-- All that is no plain character, but the line end, is a control character. -/
theorem lt_of_not_isPlain (h : isPlain c = false) : c.toNat < 0x80 := by
  simp only [isPlain, Bool.or_eq_false_iff, Bool.and_eq_false_iff, decide_eq_false_iff_not, ne_eq,
    Decidable.not_not] at h
  rcases h.2 with hlow | rfl
  · have hlt : c < ' ' := Char.not_le.mp hlow
    have hnat : c.toNat < ' '.toNat := hlt
    exact Nat.lt_trans hnat (by decide)
  · decide

/-- Such characters after a backslash stand for a character. -/
def Stands (form : Form) (e : List Char) (c : Char) : Prop :=
  passFrom form .escape e = some ([c], .plain) ∧ ∀ x ∈ e, isPlain x = true

instance (form : Form) (e : List Char) (c : Char) : Decidable (Stands form e c) :=
  @instDecidableAnd _ _ inferInstance (List.decidableBAll _ e)

/-- A character's number stands for it. -/
theorem stands_number (h : form = basic ∨ form = basicBlock) (hc : c.toNat < 0x80) :
    Stands form ('u' :: hexDigits 4 c.toNat) c := by
  have all : ∀ n < 0x80, Stands basic ('u' :: hexDigits 4 n) (Char.ofNat n) ∧
      Stands basicBlock ('u' :: hexDigits 4 n) (Char.ofNat n) := by decide +kernel
  obtain ⟨hbasic, hblock⟩ := all c.toNat hc
  rw [Char.ofNat_toNat] at hbasic hblock
  rcases h with rfl | rfl
  · exact hbasic
  · exact hblock

theorem stands_of_escaped? (h : form = basic ∨ form = basicBlock) {e : List Char} (he : escaped? form c = some e) :
    ∃ e', e = '\\' :: e' ∧ Stands form e' c := by
  have simple {x y : Char} (hx : Stands basic [x] y ∧ Stands basicBlock [x] y) : Stands form [x] y := by
    rcases h with rfl | rfl
    · exact hx.1
    · exact hx.2
  unfold escaped? at he
  split at he
  case isTrue hc => subst hc; cases he; exact ⟨_, rfl, simple (by decide)⟩
  split at he
  case isTrue hc => subst hc; cases he; exact ⟨_, rfl, simple (by decide)⟩
  split at he
  case isTrue hc =>
      subst hc
      split at he
      · cases he
      · cases he; exact ⟨_, rfl, simple (by decide)⟩
  split at he
  case isTrue hc => subst hc; cases he; exact ⟨_, rfl, simple (by decide)⟩
  split at he
  case isTrue hc => subst hc; cases he; exact ⟨_, rfl, simple (by decide)⟩
  split at he
  case isTrue hc => subst hc; cases he; exact ⟨_, rfl, simple (by decide)⟩
  split at he
  case isTrue => cases he
  case isFalse hplain =>
      cases he
      exact ⟨_, rfl, stands_number h (lt_of_not_isPlain (Bool.eq_false_iff.mpr hplain))⟩

theorem held_of_escaped? (he : escaped? form c = none) :
    c ≠ '\\' ∧ (isPlain c = true ∨ c = '\n' ∧ form.multiline = true) := by
  unfold escaped? at he
  split at he
  case isTrue => cases he
  split at he
  case isTrue => cases he
  split at he
  case isTrue hc =>
      split at he
      case isTrue hmulti => exact ⟨by rw [hc]; decide, Or.inr ⟨hc, hmulti⟩⟩
      case isFalse => cases he
  split at he
  case isTrue => cases he
  split at he
  case isTrue => cases he
  split at he
  case isTrue => cases he
  case isFalse hbackslash =>
      split at he
      case isTrue hplain => exact ⟨hbackslash, Or.inl hplain⟩
      case isFalse => cases he

/-- With escapes, every text can be shown. -/
theorem shows_writeFrom (h : form = basic ∨ form = basicBlock) (run : Nat) (cs : List Char) :
    Shows form run (writeFrom form run cs) cs := by
  have escapes : form.escapes = true := by rcases h with rfl | rfl <;> rfl
  induction cs generalizing run with
  | nil => exact .nil
  | cons c cs ih =>
      rw [writeFrom, if_neg (not_not_intro escapes)]
      split
      case isTrue hc =>
          subst hc
          split
          case isTrue room => exact .quote room (ih _)
          case isFalse =>
              have stands : Stands form [form.quote] form.quote := by
                rcases h with rfl | rfl <;> decide
              exact .escape escapes stands.1 stands.2 (ih 0)
      case isFalse hc =>
          cases he : escaped? form c with
          | some e =>
              obtain ⟨e', rfl, code, plain⟩ := stands_of_escaped? h he
              exact .escape escapes code plain (ih 0)
          | none =>
              obtain ⟨bare, held⟩ := held_of_escaped? he
              exact .plain hc (fun _ => bare) held (ih 0)

theorem writeFrom_literal (h : form.escapes = false) (run : Nat) (cs : List Char) : writeFrom form run cs = cs := by
  induction cs generalizing run with
  | nil => rfl
  | cons c cs ih => rw [writeFrom, if_pos (by rw [h]; decide), ih]

theorem le_longestRun (q : Char) (run best : Nat) (cs : List Char) : best ≤ longestRun q run best cs := by
  induction cs generalizing run best with
  | nil => exact Nat.le_refl _
  | cons c cs ih => exact Nat.le_trans (Nat.le_max_left _ _) (ih _ _)

/-- Without escapes, a text shows itself as long as it holds no more quotes in a row than may stand there. -/
theorem shows_literal (h : form.escapes = false)
    (held : ∀ c ∈ cs, isPlain c = true ∨ c = '\n' ∧ form.multiline = true) {best : Nat}
    (hrun : longestRun form.quote run best cs ≤ form.quoteRun) : Shows form run cs cs := by
  induction cs generalizing run best with
  | nil => exact .nil
  | cons c cs ih =>
      have held' := fun x hx => held x (List.mem_cons_of_mem c hx)
      rw [longestRun] at hrun
      by_cases hc : c = form.quote
      · subst hc
        rw [if_pos rfl] at hrun
        have room : run + 1 ≤ form.quoteRun :=
          Nat.le_trans (Nat.le_trans (Nat.le_max_right _ _) (le_longestRun _ _ _ _)) hrun
        exact .quote room (ih held' hrun)
      · rw [if_neg hc] at hrun
        have bare : form.escapes = true → c ≠ '\\' := fun he => by rw [h] at he; cases he
        exact .plain hc bare (held c List.mem_cons_self) (ih held' hrun)

/-! ## The form that is chosen -/

/-- The form that is chosen for a text shows it. -/
theorem shows_formOf (cs : List Char) :
    formOf cs ∈ [basic, literal, basicBlock, literalBlock] ∧
      Shows (formOf cs) 0 (writeFrom (formOf cs) 0 cs) cs := by
  have verbatim {form : Form} (h : form.escapes = false)
      (control : ¬ (cs.any fun c => ¬ isPlain c ∧ c ≠ '\n') = true)
      (newline : cs.contains '\n' = true → form.multiline = true)
      (single : longestRun form.quote 0 0 cs ≤ form.quoteRun) :
      Shows form 0 (writeFrom form 0 cs) cs := by
    rw [writeFrom_literal h]
    refine shows_literal h (fun c hc => ?_) single
    by_cases hline : c = '\n'
    · exact Or.inr ⟨hline, newline (by simpa [hline] using hc)⟩
    · have hplain := List.any_eq_false.mp (Bool.eq_false_iff.mpr control) c hc
      exact Or.inl (by simpa [hline] using hplain)
  unfold formOf
  dsimp only
  split
  case isTrue => exact ⟨by decide, shows_writeFrom (Or.inl rfl) 0 cs⟩
  split
  case isTrue h => exact ⟨by decide, verbatim rfl h.1 (fun hn => absurd hn h.2.2) (Nat.le_of_eq h.2.1)⟩
  split
  case isTrue => exact ⟨by decide, shows_writeFrom (Or.inr rfl) 0 cs⟩
  split
  case isTrue h => exact ⟨by decide, verbatim rfl h.1 (fun _ => rfl) h.2⟩
  split
  case isTrue => exact ⟨by decide, shows_writeFrom (Or.inr rfl) 0 cs⟩
  case isFalse => exact ⟨by decide, shows_writeFrom (Or.inl rfl) 0 cs⟩

theorem usual_formOf (cs : List Char) : (formOf cs).Usual := by
  have all : ∀ form ∈ [basic, literal, basicBlock, literalBlock],
      isPlain form.quote = true ∧ form.quote ≠ '\\' := by decide
  obtain ⟨plain, other⟩ := all _ (shows_formOf cs).1
  exact ⟨plain, other⟩

/-! ## Written texts are read back -/

theorem write_eq (cs : List Char) :
    write cs = closing (formOf cs) ++
      ((if (formOf cs).multiline = true ∧ cs.contains '\n' = true then ['\n'] else []) ++
        (writeFrom (formOf cs) 0 cs ++ closing (formOf cs))) := by
  simp [write, closing]

theorem not_mem_return_write (cs : List Char) : '\r' ∉ write cs := by
  obtain ⟨-, hs⟩ := shows_formOf cs
  have usual := usual_formOf cs
  have hclosing : '\r' ∉ closing (formOf cs) := by
    intro h
    have hplain := usual.plain
    rw [← List.eq_of_mem_replicate h] at hplain
    exact absurd hplain (by decide)
  have hw := hs.not_mem_return usual
  rw [write_eq]
  simp only [List.mem_append, not_or]
  refine ⟨hclosing, ?_, hw, hclosing⟩
  split <;> decide

theorem dropLineEnd_of_head? (h : cs.head? ≠ some '\n') (h' : cs.head? ≠ some '\r') : dropLineEnd cs = cs := by
  unfold dropLineEnd
  split
  · exact absurd rfl h
  · exact absurd rfl h'
  · rfl

/-- The line end that a text of several lines starts with is dropped, and nothing else is. -/
theorem dropLineEnd_start (hs : Shows form 0 w t) (usual : form.Usual) (hmulti : form.multiline = true)
    (rest : List Char) :
    dropLineEnd ((if form.multiline = true ∧ t.contains '\n' = true then ['\n'] else []) ++
      (w ++ (closing form ++ rest))) = w ++ (closing form ++ rest) := by
  by_cases hline : t.contains '\n' = true
  · rw [if_pos ⟨hmulti, hline⟩]
    rfl
  · rw [if_neg fun h => hline h.2, List.nil_append]
    have head {x : Char} (hx : (w ++ (closing form ++ rest)).head? = some x) : x ∈ w ∨ x = form.quote := by
      cases w with
      | nil =>
          right
          simpa [closing, hmulti, List.replicate, eq_comm] using hx
      | cons y w =>
          cases hx
          exact Or.inl List.mem_cons_self
    have other {x : Char} (hw : x ∉ w) (hx : isPlain x = false) :
        (w ++ (closing form ++ rest)).head? ≠ some x := by
      intro h
      rcases head h with hmem | rfl
      · exact hw hmem
      · rw [usual.plain] at hx
        cases hx
    have hnone : '\n' ∉ w := fun hw => hline (by simpa using hs.mem_lineEnd usual hw)
    exact dropLineEnd_of_head? (other hnone (by decide)) (other (hs.not_mem_return usual) (by decide))

/-- What is shown on one line is not taken for the start of a text of several lines. -/
theorem read?_line (hs : Shows form 0 w t) (usual : form.Usual) (hrun : form.quoteRun = 0)
    (hrest : rest.head? ≠ some form.quote) :
    read? (form.quote :: (w ++ form.quote :: rest)) = readLine? (form.quote :: (w ++ form.quote :: rest)) := by
  have single (cs : List Char) : w ++ form.quote :: rest ≠ form.quote :: form.quote :: cs := by
    intro h
    cases hs with
    | nil =>
        simp only [List.nil_append, List.cons.injEq, true_and] at h
        exact hrest (by rw [h]; rfl)
    | quote room more => exact absurd room (by rw [hrun]; exact Nat.not_lt_zero _)
    | plain other bare held more => exact other (List.cons.inj h).1
    | escape escapes code plain more => exact usual.other (List.cons.inj h).1.symm
  unfold read?
  split
  case h_1 cs h =>
      obtain ⟨hq, htail⟩ := List.cons.inj h
      exact absurd (hq ▸ htail) (single cs)
  case h_2 cs h =>
      obtain ⟨hq, htail⟩ := List.cons.inj h
      exact absurd (hq ▸ htail) (single cs)
  case h_3 => rfl

theorem read?_write (cs : List Char) (hdouble : rest.head? ≠ some '"') (hsingle : rest.head? ≠ some '\'') :
    read? (write cs ++ rest) = some (cs, rest) := by
  obtain ⟨hform, hs⟩ := shows_formOf cs
  have usual := usual_formOf cs
  rw [write_eq]
  generalize formOf cs = form at hform hs usual
  have hrest : rest.head? ≠ some form.quote := by
    have all : ∀ form ∈ [basic, literal, basicBlock, literalBlock], form.quote = '"' ∨ form.quote = '\'' := by
      decide
    rcases all form hform with hq | hq
    · rw [hq]; exact hdouble
    · rw [hq]; exact hsingle
  have hread : readFrom form .plain (writeFrom form 0 cs ++ (closing form ++ rest)) = some (cs, rest) :=
    hs.readFrom_eq usual (Nat.zero_le _) hrest
  have hdrop (hmulti : form.multiline = true) := dropLineEnd_start hs usual hmulti rest
  have hline (hrun : form.quoteRun = 0) := read?_line hs usual hrun hrest
  simp only [List.mem_cons, List.not_mem_nil, or_false] at hform
  simp only [List.append_assoc]
  rcases hform with rfl | rfl | rfl | rfl
  · exact (hline rfl).trans hread
  · exact (hline rfl).trans hread
  · rw [← hdrop rfl] at hread
    exact hread
  · rw [← hdrop rfl] at hread
    exact hread

end ClassScope.Toml.Text
