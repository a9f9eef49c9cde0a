import JackStack.Comment
import JackStack.Proofs.Lexemes

/-!
# Proofs/Spelling — tokens written out are read back

Terminals that can be spelled out are written one after the other, with blanks between them, and
cutting that text into pieces gives the same terminals again. If a line feed follows each of them,
the text has no comments either, so it is a source with exactly these tokens.

* `Cut.first_written` — the piece in front of a blank is the terminal that is written there.
* `Laid.outcomes_piecesFrom` — a text in which terminals are laid out is cut into them.
* `Terminal.scan_strip_lines` — terminals on lines of their own are the tokens of a source.
-/

namespace JackStack

open Text (isBlank isBlank_of_isDigit)

/-! ## Classes of characters -/

theorem inWord_of_isBlank {c : Char} (h : isBlank c = true) : Cut.inWord c = false := by
  simp [Cut.inWord, h]

theorem isSymbol_of_isDigit {c : Char} (h : c.isDigit = true) : isSymbol c = false := by
  simp only [isSymbol, symbols, List.contains_eq_mem, decide_eq_false_iff_not, List.mem_cons,
    List.not_mem_nil, or_false]
  rintro (rfl | rfl | rfl | rfl | rfl | rfl | rfl | rfl | rfl | rfl | rfl | rfl | rfl | rfl | rfl |
    rfl | rfl | rfl | rfl) <;> simp [Char.isDigit] at h

theorem isBlank_of_isSymbol {c : Char} (h : isSymbol c = true) : isBlank c = false := by
  have hall : symbols.all (fun c => !isBlank c) = true := by decide
  have hc : c ∈ symbols := by simpa [isSymbol] using h
  simpa using List.all_eq_true.mp hall c hc

theorem inWord_of_isDigit {c : Char} (h : c.isDigit = true) : Cut.inWord c = true := by
  simp [Cut.inWord, isBlank_of_isDigit h, isSymbol_of_isDigit h]

/-- Cutting stops where the class of characters does. -/
theorem span_append {p : Char → Bool} {w rest : List Char} (hw : ∀ c ∈ w, p c = true)
    (hr : ∀ c ∈ rest.head?, p c = false) :
    (w ++ rest).takeWhile p = w ∧ (w ++ rest).dropWhile p = rest := by
  rw [List.takeWhile_append_of_pos hw, List.dropWhile_append_of_pos hw]
  cases rest with
  | nil => simp
  | cons c rest =>
    have hc : p c = false := hr c rfl
    simp [hc]

/-! ## One terminal -/

/-- **A terminal as it is written** in a source. -/
def Terminal.written : Terminal → List Char
  | .text body => '"' :: (body.toList ++ ['"'])
  | t => t.spelling.toList

namespace Cut

variable {rest : List Char}

/-- A word is cut off where a blank follows it. -/
theorem first_word {name : String} (hw : IsWord name)
    (hh : name.toList.head?.all opensName = true)
    (hr : ∀ c ∈ rest.head?, isBlank c = true) :
    ∃ c cs, name.toList ++ rest = c :: cs ∧ isBlank c = false ∧
      first c cs = ⟨name.toList, rest, .ok (wordTerminal name)⟩ := by
  obtain ⟨hne, hw⟩ := hw
  obtain ⟨c, w, hcw⟩ := List.exists_cons_of_ne_nil hne
  have hc : inWord c = true := hw c (hcw ▸ List.mem_cons_self)
  have hh : c ≠ '"' ∧ c.isDigit = false := by simpa [hcw, opensName] using hh
  obtain ⟨ht, hdrop⟩ := span_append hw fun d hd => inWord_of_isBlank (hr d hd)
  simp only [inWord, Bool.and_eq_true, Bool.not_eq_true'] at hc
  refine ⟨c, w ++ rest, by rw [hcw]; rfl, hc.1, ?_⟩
  rw [first, if_neg (by simp [hc.2]), if_neg hh.1, if_neg (by simp [hh.2]), word,
    ← List.cons_append, ← hcw, ht, hdrop, String.ofList_toList]

/-- A run of digits is cut off where no digit follows it, be it in range or not. -/
theorem first_run {digits : List Char} (hne : digits ≠ []) (hd : ∀ c ∈ digits, c.isDigit = true)
    (hr : ∀ c ∈ rest.head?, c.isDigit = false) :
    ∃ c cs, digits ++ rest = c :: cs ∧ isBlank c = false ∧
      first c cs = ⟨digits, rest,
        if Text.Decimal.value digits ≤ maxConstant then .ok (.integer (String.ofList digits))
        else .error (.integerTooLarge (String.ofList digits))⟩ := by
  obtain ⟨c, w, rfl⟩ := List.exists_cons_of_ne_nil hne
  have hc : c.isDigit = true := hd c List.mem_cons_self
  have hq : c ≠ '"' := fun h => by simp [h] at hc
  obtain ⟨ht, hdrop⟩ := span_append hd hr
  refine ⟨c, w ++ rest, rfl, isBlank_of_isDigit hc, ?_⟩
  rw [first, if_neg (by simp [isSymbol_of_isDigit hc]), if_neg hq, if_pos hc, integer,
    ← List.cons_append, ht, hdrop]

/-- An integer is cut off where a blank follows it. -/
theorem first_digits {digits : String} (hne : digits.toList ≠ [])
    (hd : ∀ c ∈ digits.toList, c.isDigit = true)
    (hv : Text.Decimal.value digits.toList ≤ maxConstant)
    (hr : ∀ c ∈ rest.head?, isBlank c = true) :
    ∃ c cs, digits.toList ++ rest = c :: cs ∧ isBlank c = false ∧
      first c cs = ⟨digits.toList, rest, .ok (.integer digits)⟩ := by
  have hstop : ∀ c ∈ rest.head?, c.isDigit = false := fun c hc =>
    Bool.eq_false_iff.mpr fun h => absurd (hr c hc) (by simp [isBlank_of_isDigit h])
  have hrun := first_run hne hd hstop
  rwa [if_pos hv, String.ofList_toList] at hrun

/-- A string is cut off at its closing quote. -/
theorem first_quoted {body : String}
    (h : ∀ c ∈ body.toList, inText c = true ∧ c.toNat ≤ maxConstant) (rest : List Char) :
    first '"' (body.toList ++ '"' :: rest) =
      ⟨'"' :: (body.toList ++ ['"']), rest, .ok (.text body)⟩ := by
  have hstop : ∀ c ∈ ('"' :: rest).head?, inText c = false := by simp [inText]
  obtain ⟨ht, hdrop⟩ := span_append (fun c hc => (h c hc).1) hstop
  have hnone : body.toList.find? (maxConstant < ·.toNat) = none :=
    List.find?_eq_none.mpr fun c hc => by simpa using (h c hc).2
  rw [first, if_neg (by decide), if_pos rfl, text, ht, hdrop]
  simp [textOutcome, hnone, String.ofList_toList]

/-- **The piece in front of a blank** is the terminal that is written there. -/
theorem first_written {t : Terminal} (h : t.Spelled) (hr : ∀ c ∈ rest.head?, isBlank c = true) :
    ∃ c cs, t.written ++ rest = c :: cs ∧ isBlank c = false ∧
      first c cs = ⟨t.written, rest, .ok t⟩ := by
  cases t with
  | keyword k =>
    have hk : IsWord k.text := by cases k <;> decide
    have hword := first_word hk (by cases k <;> decide) hr
    rwa [wordTerminal, Keyword.ofText?_text] at hword
  | symbol c =>
    have hs : isSymbol c = true := h
    refine ⟨c, rest, by simp [Terminal.written, Terminal.spelling], isBlank_of_isSymbol hs, ?_⟩
    rw [first, if_pos hs]
    simp [Terminal.written, Terminal.spelling]
  | integer digits => exact first_digits h.1 h.2.1 h.2.2 hr
  | text body =>
    refine ⟨'"', body.toList ++ '"' :: rest, ?_, by decide, first_quoted h rest⟩
    simp [Terminal.written]
  | identifier name =>
    have hword := first_word h.1 h.2.2 hr
    rwa [wordTerminal, h.2.1] at hword

end Cut

/-! ## Several terminals -/

/-- **A text in which terminals are laid out**, each in front of a blank or at the end, with any
blanks before them and behind. -/
inductive Laid : List Terminal → List Char → Prop
  | nil : Laid [] []
  | blank {c : Char} {ts : List Terminal} {cs : List Char} (hc : isBlank c = true)
    (h : Laid ts cs) : Laid ts (c :: cs)
  | token {t : Terminal} {ts : List Terminal} {cs : List Char} (ht : t.Spelled)
    (hc : ∀ c ∈ cs.head?, isBlank c = true) (h : Laid ts cs) : Laid (t :: ts) (t.written ++ cs)

/-- **A text in which terminals are laid out is cut into them.** -/
theorem Laid.outcomes_piecesFrom {ts : List Terminal} {cs : List Char} (h : Laid ts cs)
    (p : Text.Position) : (piecesFrom p cs).map Piece.outcome = ts.map .ok := by
  induction h generalizing p with
  | nil => simp [piecesFrom]
  | blank hc _ ih =>
    rw [piecesFrom, if_pos hc]
    exact ih _
  | token ht hc _ ih =>
    obtain ⟨c, cs', heq, hb, hcut⟩ := Cut.first_written ht hc
    rw [heq, piecesFrom, if_neg (by simp [hb])]
    simp only [hcut, List.map_cons]
    rw [ih]

/-- Pieces that are all tokens are the items of these. -/
theorem terminalsOf_items {ps : List Piece} {ts : List Terminal}
    (h : ps.map Piece.outcome = ts.map .ok) :
    Lookahead.terminalsOf (ps.map Piece.item) = ts ∧ ∀ e, Except.error e ∉ ps.map Piece.item := by
  induction ps generalizing ts with
  | nil =>
    cases ts with
    | nil => simp [Lookahead.terminalsOf]
    | cons t ts => cases h
  | cons p ps ih =>
    cases ts with
    | nil => cases h
    | cons t ts =>
      obtain ⟨hp, hps⟩ := List.cons.inj h
      have hitem : p.item = .ok ⟨t, p.span⟩ := by rw [Piece.item, hp]
      obtain ⟨ht, he⟩ := ih hps
      refine ⟨?_, fun e hm => ?_⟩
      · rw [List.map_cons, hitem]
        exact congrArg (t :: ·) ht
      · rw [List.map_cons, hitem, List.mem_cons] at hm
        exact he e (hm.resolve_left (by simp))

/-! ## Terminals on lines of their own -/

/-- **Terminals written on lines of their own.** -/
def Terminal.lines (ts : List Terminal) : String :=
  String.ofList (ts.flatMap fun t => t.written ++ ['\n'])

theorem laid_lines {ts : List Terminal} (h : ∀ t ∈ ts, t.Spelled) :
    Laid ts (ts.flatMap fun t => t.written ++ ['\n']) := by
  induction ts with
  | nil => exact .nil
  | cons t ts ih =>
    obtain ⟨ht, hts⟩ := List.forall_mem_cons.mp h
    rw [List.flatMap_cons, List.append_assoc]
    exact .token ht (by simp; decide) (.blank (by decide) (ih hts))

namespace Comment

/-- A word in front of a line feed stays as it is, even if quotes stand in it. -/
theorem stripFrom_word {w : List Char} (hw : ∀ c ∈ w, Cut.inWord c = true) (rest : List Char) :
    stripFrom .code (w ++ '\n' :: rest) = w ++ '\n' :: stripFrom .code rest ∧
      stripFrom .text (w ++ '\n' :: rest) = w ++ '\n' :: stripFrom .code rest := by
  induction w with
  | nil => simp [stripFrom]
  | cons c w ih =>
    obtain ⟨hc, htail⟩ := List.forall_mem_cons.mp hw
    have hs : c ≠ '/' := fun h => by rw [h] at hc; exact absurd hc (by decide)
    have hn : c ≠ '\n' := fun h => by rw [h] at hc; exact absurd hc (by decide)
    by_cases hq : c = '"'
    · subst hq
      simp [stripFrom, ih htail]
    · simp [stripFrom, hs, ih htail]

theorem stripFrom_quoted {body : List Char} (hb : ∀ c ∈ body, Cut.inText c = true)
    (rest : List Char) :
    stripFrom .text (body ++ '"' :: rest) = body ++ '"' :: stripFrom .code rest := by
  induction body with
  | nil => simp [stripFrom]
  | cons c body ih =>
    obtain ⟨hc, hb⟩ := List.forall_mem_cons.mp hb
    simp only [Cut.inText, Bool.and_eq_true, decide_eq_true_eq] at hc
    simp [stripFrom, hc.1, hc.2, ih hb]

/-- A terminal in front of a line feed stays as it is. -/
theorem stripFrom_written {t : Terminal} (h : t.Spelled) (rest : List Char) :
    stripFrom .code (t.written ++ '\n' :: rest) = t.written ++ '\n' :: stripFrom .code rest := by
  cases t with
  | keyword k =>
    have hk : IsWord k.text := by cases k <;> decide
    exact (stripFrom_word hk.2 rest).1
  | symbol c =>
    have hs : isSymbol c = true := h
    have hq : c ≠ '"' := fun h => by rw [h] at hs; exact absurd hs (by decide)
    simp only [Terminal.written, Terminal.spelling, String.toList_singleton, List.singleton_append]
    by_cases hc : c = '/'
    · subst hc
      simp [stripFrom]
    · simp [stripFrom, hc]
  | integer digits => exact (stripFrom_word (fun c hc => inWord_of_isDigit (h.2.1 c hc)) rest).1
  | text body =>
    have hb := stripFrom_quoted (fun c hc => (h c hc).1) ('\n' :: rest)
    simp [Terminal.written, stripFrom, hb]
  | identifier name => exact (stripFrom_word h.1.2 rest).1

theorem strip_lines {ts : List Terminal} (h : ∀ t ∈ ts, t.Spelled) :
    strip (Terminal.lines ts) = Terminal.lines ts := by
  rw [strip, Terminal.lines, String.toList_ofList]
  congr 1
  induction ts with
  | nil => simp [stripFrom]
  | cons t ts ih =>
    obtain ⟨ht, hts⟩ := List.forall_mem_cons.mp h
    simp only [List.flatMap_cons, List.append_assoc, List.singleton_append]
    rw [stripFrom_written ht, ih hts]

end Comment

/-- **Terminals on lines of their own are the tokens of a source.** -/
theorem Terminal.scan_strip_lines {ts : List Terminal} (h : ∀ t ∈ ts, t.Spelled) :
    Lookahead.terminalsOf (scan (Comment.strip (lines ts))) = ts ∧
      ∀ e, Except.error e ∉ scan (Comment.strip (lines ts)) := by
  rw [Comment.strip_lines h]
  refine terminalsOf_items ?_
  rw [pieces, lines, String.toList_ofList]
  exact (laid_lines h).outcomes_piecesFrom {}

end JackStack
