import JackStack.Proofs.Spelling

/-!
# Proofs/Skipping — comments skipped while scanning

Comments can be left out in two ways: blanked out before the source is scanned, or skipped by the
scanner itself where a piece would start. Blanking goes by quotes alone, each one opening a string
constant or closing it; scanning takes a quote inside a word for a part of it. So both read the same
pieces as long as the quotes in words come in pairs, and may differ behind the first word where they
do not.

    a"b"//c     the word a"b"           either way
    a"//b       the word a"             if comments are skipped
                a", /, / and b          if they are blanked out

* `skipping` — the pieces of a source, comments skipped.
* `readings_scan_strip` — blanking out comments reads the same up to the first odd word.
-/

namespace JackStack

open Text (Position isBlank)

/-! ## Scanning past comments -/

namespace Comment

/-- **A block comment** behind its opening mark: up to the first closing mark, or to the end. -/
def block : List Char → List Char
  | [] => []
  | '*' :: '/' :: _ => ['*', '/']
  | c :: cs => c :: block cs

/-- What stands behind a block comment. -/
def behindBlock : List Char → List Char
  | [] => []
  | '*' :: '/' :: cs => cs
  | _ :: cs => behindBlock cs

theorem length_behindBlock_le (cs : List Char) : (behindBlock cs).length ≤ cs.length := by
  fun_induction behindBlock cs with
  | case1 => exact Nat.le_refl _
  | case2 cs => exact Nat.le_trans (Nat.le_succ _) (Nat.le_succ _)
  | case3 c cs _ ih => exact Nat.le_trans ih (Nat.le_succ _)

/-- The characters of a line comment. -/
def inLine (c : Char) : Bool :=
  c ≠ '\n'

end Comment

/-- **The pieces of a text** that starts at `p`, comments skipped: a line comment up to the line
feed, a block comment to its end. -/
def skippingFrom (p : Position) : List Char → List Piece
  | [] => []
  | '/' :: '/' :: cs =>
    skippingFrom (p.after ('/' :: '/' :: cs.takeWhile Comment.inLine))
      (cs.dropWhile Comment.inLine)
  | '/' :: '*' :: cs =>
    skippingFrom (p.after ('/' :: '*' :: Comment.block cs)) (Comment.behindBlock cs)
  | c :: cs =>
    if isBlank c then skippingFrom (p.next c) cs
    else
      let cut := Cut.first c cs
      ⟨p, cut.taken, cut.outcome⟩ :: skippingFrom (p.after cut.taken) cut.rest
termination_by cs => cs.length
decreasing_by
  · have := (List.dropWhile_suffix Comment.inLine (l := cs)).length_le
    simp only [List.length_cons]
    omega
  · have := Comment.length_behindBlock_le cs
    simp only [List.length_cons]
    omega
  · simp
  · have := Cut.rest_length_le cs (Bool.eq_false_iff.mpr ‹_›)
    simp only [List.length_cons]
    omega

/-- **The pieces of a source**, comments skipped. -/
def skipping (source : String) : List Piece :=
  skippingFrom {} source.toList

/-- **The token sequence of a source**, comments skipped. -/
def scanSkipping (source : String) : List (Except CompileError Token) :=
  (skipping source).map Piece.item

/-- **What is read** at an item: a token with its line, or an error, which tells its own. -/
def reading (item : Except CompileError Token) : Except CompileError (Terminal × Nat) :=
  item.map fun token => (token.terminal, token.line)

/-- **The quotes of a piece come in pairs**, unless it starts with one and so is a string
constant. -/
def Piece.paired (p : Piece) : Bool :=
  p.taken.head? = some '"' || p.taken.count '"' % 2 = 0

/-- **How many pieces come before the first with an odd quote.** -/
def Piece.pairedCount (ps : List Piece) : Nat :=
  (ps.takeWhile paired).length

/-! ## Blanking out a comment -/

namespace Comment

/-- A line comment is blanked out up to the line feed. -/
theorem stripFrom_lineComment (cs : List Char) :
    stripFrom .lineComment cs = stripFrom .code (cs.dropWhile inLine) := by
  induction cs with
  | nil => simp [stripFrom]
  | cons c cs ih =>
    by_cases hc : c = '\n'
    · subst hc
      simp [stripFrom, inLine]
    · rw [List.dropWhile_cons_of_pos (by simp [inLine, hc]), ← ih]
      rw [stripFrom]
      exact hc

/-- A block comment leaves its line feeds. -/
theorem stripFrom_blockComment (cs : List Char) : stripFrom .blockComment cs =
    (block cs).filter (· = '\n') ++ stripFrom .code (behindBlock cs) := by
  fun_induction block cs with
  | case1 => simp [stripFrom, behindBlock]
  | case2 cs => simp [stripFrom, behindBlock]
  | case3 c cs hend ih =>
    rw [behindBlock]
    · by_cases hc : c = '\n'
      · subst hc
        simp [stripFrom, ih]
      · rw [stripFrom]
        · simp [hc, ih]
        · exact hend
        · exact hc
    · exact hend

/-- A string constant is kept to its closing quote or to the end of its line. -/
theorem stripFrom_text (cs : List Char) : stripFrom .text cs =
    cs.takeWhile Cut.inText ++ ((cs.dropWhile Cut.inText).take 1 ++
      stripFrom .code ((cs.dropWhile Cut.inText).drop 1)) := by
  induction cs with
  | nil => simp [stripFrom]
  | cons c cs ih =>
    by_cases hin : Cut.inText c = true
    · have hc := hin
      simp only [Cut.inText, Bool.and_eq_true, decide_eq_true_eq] at hc
      simp [stripFrom, hc.1, hc.2, hin, ih]
    · have hc := hin
      simp only [Cut.inText, Bool.and_eq_true, decide_eq_true_eq, not_and_or, not_not] at hc
      obtain rfl | rfl := hc <;> simp [stripFrom, Cut.inText]

/-- A character that opens neither a comment nor a string constant is kept. -/
theorem stripFrom_code_cons {c : Char} {cs : List Char} (hq : c ≠ '"')
    (hline : ∀ ds, c = '/' → cs = '/' :: ds → False)
    (hblock : ∀ ds, c = '/' → cs = '*' :: ds → False) :
    stripFrom .code (c :: cs) = c :: stripFrom .code cs := by
  rw [stripFrom]
  · exact hline
  · exact hblock
  · exact hq

/-- The mode behind some quotes, each of which opens a string constant or closes it. -/
def Mode.behind (quotes : Nat) : Mode :=
  if quotes % 2 = 0 then .code else .text

/-- **A word is kept**, and its quotes open and close string constants. -/
theorem stripFrom_behind {w : List Char} (hw : ∀ c ∈ w, Cut.inWord c = true) (rest : List Char)
    (n : Nat) : stripFrom (.behind n) (w ++ rest) =
      w ++ stripFrom (.behind (n + w.count '"')) rest := by
  induction w generalizing n with
  | nil => simp
  | cons c w ih =>
    obtain ⟨hc, htail⟩ := List.forall_mem_cons.mp hw
    have hs : c ≠ '/' := fun h => by rw [h] at hc; exact absurd hc (by decide)
    have hn : c ≠ '\n' := fun h => by rw [h] at hc; exact absurd hc (by decide)
    by_cases hq : c = '"'
    · subst hq
      have hnext : stripFrom (.behind n) ('"' :: (w ++ rest)) =
          '"' :: stripFrom (.behind (n + 1)) (w ++ rest) := by
        obtain h | h := Nat.mod_two_eq_zero_or_one n <;>
          simp [Mode.behind, h, Nat.add_mod, stripFrom]
      rw [List.cons_append, hnext, ih htail, List.count_cons_self, Nat.add_assoc,
        Nat.add_comm 1]
      rfl
    · have hnext : stripFrom (.behind n) (c :: (w ++ rest)) =
          c :: stripFrom (.behind n) (w ++ rest) := by
        obtain h | h := Nat.mod_two_eq_zero_or_one n <;> simp [Mode.behind, stripFrom, *]
      rw [List.cons_append, hnext, ih htail, List.count_cons_of_ne hq]
      rfl

/-- Outside of comments, what is left starts as the source does, or with a space for a comment. -/
theorem head_stripFrom {mode : Mode} (hm : mode = .code ∨ mode = .text) (cs : List Char) :
    ∀ c ∈ (stripFrom mode cs).head?, c = ' ' ∨ c ∈ cs.head? := by
  fun_cases stripFrom mode cs <;> simp_all

theorem Mode.behind_cases (n : Nat) : Mode.behind n = .code ∨ Mode.behind n = .text := by
  rw [Mode.behind]
  split
  · exact .inl rfl
  · exact .inr rfl

end Comment

/-! ## Cutting off a piece -/

namespace Cut

open Comment (stripFrom Mode)

/-- **A run of characters of a word** is cut off the same from what is left of a source. -/
theorem run_stripFrom {p : Char → Bool} (hp : ∀ c, p c = true → inWord c = true) {c : Char}
    (hc : p c = true) (cs : List Char) :
    ∃ ds, stripFrom .code (c :: cs) = c :: ds ∧ (c :: ds).takeWhile p = (c :: cs).takeWhile p ∧
      (((c :: cs).takeWhile p).count '"' % 2 = 0 →
        (c :: ds).dropWhile p = stripFrom .code ((c :: cs).dropWhile p)) := by
  generalize hw : (c :: cs).takeWhile p = w
  generalize hrest : (c :: cs).dropWhile p = rest
  have hcut : c :: cs = w ++ rest := by rw [← hw, ← hrest, List.takeWhile_append_dropWhile]
  have hin : ∀ d ∈ w, p d = true := fun d hd => List.mem_takeWhile_imp (hw ▸ hd)
  generalize hleft : stripFrom (.behind (w.count '"')) rest = left
  have hstrip : stripFrom .code (c :: cs) = w ++ left := by
    have := Comment.stripFrom_behind (fun d hd => hp d (hin d hd)) rest 0
    rwa [← hcut, Nat.zero_add, hleft] at this
  have hend : ∀ d ∈ left.head?, p d = false := by
    intro d hd
    rw [← hleft] at hd
    obtain rfl | hd := Comment.head_stripFrom (Mode.behind_cases _) _ d hd
    · exact Bool.eq_false_iff.2 fun h => absurd (hp ' ' h) (by decide)
    · have := List.head?_dropWhile_not p (c :: cs)
      rw [hrest, hd] at this
      exact this
  obtain ⟨w, rfl⟩ : ∃ v, w = c :: v := by
    rw [List.takeWhile_cons_of_pos hc] at hw
    exact ⟨_, hw.symm⟩
  obtain ⟨htake, hdrop⟩ := span_append hin hend
  refine ⟨w ++ left, hstrip, htake, fun heven => ?_⟩
  rw [← List.cons_append, hdrop, ← hleft, Mode.behind, if_pos heven]

/-- A string constant is cut off the same from what is left of a source. -/
theorem text_stripFrom (cs : List Char) :
    (text (stripFrom .text cs)).taken = (text cs).taken ∧
      (text (stripFrom .text cs)).outcome = (text cs).outcome ∧
      (text (stripFrom .text cs)).rest = stripFrom .code (text cs).rest := by
  have hin : ∀ d ∈ cs.takeWhile inText, inText d = true := fun d hd => List.mem_takeWhile_imp hd
  have hclose := List.head?_dropWhile_not inText cs
  rw [Comment.stripFrom_text]
  simp only [text]
  cases htail : cs.dropWhile inText with
  | nil =>
    have hend : ∀ e ∈ ([] : List Char).head?, inText e = false := by simp
    obtain ⟨htake, hdrop⟩ := span_append hin hend
    rw [List.append_nil] at htake hdrop
    simp [stripFrom, htake, hdrop]
  | cons d ds =>
    rw [htail] at hclose
    have hend : ∀ e ∈ (d :: stripFrom .code ds).head?, inText e = false := by
      rintro e ⟨⟩
      exact hclose
    obtain ⟨htake, hdrop⟩ := span_append hin hend
    simp [htake, hdrop]

/-- **A piece is cut off the same** from what is left of a source; if its quotes come in pairs, what
is left goes on behind it. -/
theorem first_stripFrom {c : Char} {cs : List Char} (hb : isBlank c = false)
    (hline : ∀ ds, c = '/' → cs = '/' :: ds → False)
    (hblock : ∀ ds, c = '/' → cs = '*' :: ds → False) :
    ∃ ds, stripFrom .code (c :: cs) = c :: ds ∧ (first c ds).taken = (first c cs).taken ∧
      (first c ds).outcome = (first c cs).outcome ∧
      ((first c cs).taken.head? = some '"' ∨ (first c cs).taken.count '"' % 2 = 0 →
        (first c ds).rest = stripFrom .code (first c cs).rest) := by
  by_cases hs : isSymbol c = true
  · have hq : c ≠ '"' := fun h => by rw [h] at hs; exact absurd hs (by decide)
    refine ⟨_, Comment.stripFrom_code_cons hq hline hblock, ?_⟩
    simp [first, hs]
  by_cases hq : c = '"'
  · subst hq
    obtain ⟨htaken, houtcome, hrest⟩ := text_stripFrom cs
    refine ⟨stripFrom .text cs, by simp [stripFrom], ?_⟩
    simp only [first, hs, Bool.false_eq_true, if_false, if_true]
    exact ⟨htaken, houtcome, fun _ => hrest⟩
  -- A run that starts with another character than a quote is no string constant.
  have even {p : Char → Bool} (hc : p c = true)
      (h : ((c :: cs).takeWhile p).head? = some '"' ∨ ((c :: cs).takeWhile p).count '"' % 2 = 0) :
      ((c :: cs).takeWhile p).count '"' % 2 = 0 := by
    refine h.resolve_left fun hhead => hq ?_
    rw [List.takeWhile_cons_of_pos hc] at hhead
    exact Option.some.inj hhead
  by_cases hd : c.isDigit = true
  · obtain ⟨ds, hstrip, htake, hdrop⟩ := run_stripFrom (fun _ => inWord_of_isDigit) hd cs
    refine ⟨ds, hstrip, ?_⟩
    simp only [first, hs, hq, hd, Bool.false_eq_true, if_false, if_true, integer, htake, true_and]
    exact fun h => hdrop (even hd h)
  · have hc : inWord c = true := by simp [inWord, hb, hs]
    obtain ⟨ds, hstrip, htake, hdrop⟩ := run_stripFrom (fun _ h => h) hc cs
    refine ⟨ds, hstrip, ?_⟩
    simp only [first, hs, hq, hd, Bool.false_eq_true, if_false, word, htake, true_and]
    exact fun h => hdrop (even hc h)

end Cut

/-! ## All pieces -/

/-- **Two lists of pieces agree** up to the first one of the second list with an odd quote. -/
inductive Piece.Agree : List Piece → List Piece → Prop where
  | nil : Agree [] []
  | cons {p q : Piece} {ps qs : List Piece} (ho : p.outcome = q.outcome)
    (hl : p.start.line = q.start.line) (ht : q.paired = true → Agree ps qs) :
    Agree (p :: ps) (q :: qs)

/-- Blanks are skipped. -/
theorem piecesFrom_append_of_blank {bs : List Char} (hb : ∀ c ∈ bs, isBlank c = true)
    (p : Position) (cs : List Char) : piecesFrom p (bs ++ cs) = piecesFrom (p.after bs) cs := by
  induction bs generalizing p with
  | nil => rfl
  | cons c bs ih =>
    obtain ⟨hc, hbs⟩ := List.forall_mem_cons.mp hb
    rw [List.cons_append, piecesFrom, if_pos hc, ih hbs]
    rfl

/-- **Blanking out comments and skipping them agree** up to the first word with an odd quote. -/
theorem agree_skippingFrom (p q : Position) (cs : List Char) (hl : p.line = q.line) :
    Piece.Agree (piecesFrom p (Comment.stripFrom .code cs)) (skippingFrom q cs) := by
  fun_induction skippingFrom q cs generalizing p with
  | case1 =>
    simp only [Comment.stripFrom, piecesFrom]
    exact .nil
  | case2 q cs ih =>
    have hfeed : '\n' ∉ cs.takeWhile Comment.inLine := fun h =>
      absurd (List.mem_takeWhile_imp h) (by decide)
    rw [Comment.stripFrom, piecesFrom, if_pos (by decide), Comment.stripFrom_lineComment]
    refine ih (p.next ' ') ?_
    simp [Text.Position.line_after, List.count_eq_zero.2 hfeed, Text.Position.next, hl]
  | case3 q cs ih =>
    have hblank : ∀ c ∈ ' ' :: (Comment.block cs).filter (· = '\n'), isBlank c = true := by
      simp only [List.forall_mem_cons, List.mem_filter, decide_eq_true_eq]
      refine ⟨by decide, ?_⟩
      rintro _ ⟨-, rfl⟩
      decide
    rw [Comment.stripFrom, Comment.stripFrom_blockComment, ← List.cons_append,
      piecesFrom_append_of_blank hblank]
    refine ih _ ?_
    simp [Text.Position.line_after, List.count_filter, Text.Position.next, hl]
  | case4 q c cs hline hblock hb ih =>
    have hq : c ≠ '"' := fun h => by rw [h] at hb; exact absurd hb (by decide)
    rw [Comment.stripFrom_code_cons hq hline hblock, piecesFrom, if_pos hb]
    refine ih (p.next c) ?_
    simp [Text.Position.next, hl]
  | case5 q c cs hline hblock hb cut ih =>
    obtain ⟨ds, hstrip, htaken, houtcome, hrest⟩ :=
      Cut.first_stripFrom (Bool.eq_false_iff.2 hb) hline hblock
    rw [hstrip, piecesFrom, if_neg hb]
    refine .cons houtcome hl fun hpaired => ?_
    have hpair := hrest (by simpa [Piece.paired] using hpaired)
    simp only [htaken, hpair]
    refine ih _ ?_
    rw [Text.Position.line_after, Text.Position.line_after, hl]

/-! ## What is read -/

namespace Piece

theorem reading_item_eq {p q : Piece} (ho : p.outcome = q.outcome)
    (hl : p.start.line = q.start.line) : reading p.item = reading q.item := by
  rw [item, item, ho]
  cases q.outcome with
  | ok terminal => simp [reading, Except.map, Token.line, span, hl]
  | error cause => simp [reading, Except.map, hl]

namespace Agree

variable {ps qs : List Piece}

/-- Pieces that agree are read the same up to the first one with an odd quote, and there too. -/
theorem take_readings (h : Agree ps qs) :
    (ps.map fun p => reading p.item).take (pairedCount qs + 1) =
      (qs.map fun q => reading q.item).take (pairedCount qs + 1) := by
  induction h with
  | nil => rfl
  | @cons p q ps qs ho hl _ ih =>
    have hhead := reading_item_eq ho hl
    by_cases hq : q.paired = true
    · simpa [pairedCount, hq, hhead] using ih hq
    · simp [pairedCount, hq, hhead]

theorem readings_eq (h : Agree ps qs) (hall : ∀ q ∈ qs, q.paired = true) :
    (ps.map fun p => reading p.item) = qs.map fun q => reading q.item := by
  induction h with
  | nil => rfl
  | cons ho hl _ ih =>
    rw [List.forall_mem_cons] at hall
    rw [List.map_cons, List.map_cons, reading_item_eq ho hl, ih hall.1 hall.2]

end Agree

end Piece

/-- **Blanking out comments reads what skipping them reads**, up to and with the first word whose
quotes do not come in pairs; so everything, if there is no such word. -/
theorem readings_scan_strip (source : String) :
    ((scan (Comment.strip source)).map reading).take (Piece.pairedCount (skipping source) + 1) =
        ((scanSkipping source).map reading).take (Piece.pairedCount (skipping source) + 1) ∧
      ((∀ q ∈ skipping source, q.paired = true) →
        (scan (Comment.strip source)).map reading = (scanSkipping source).map reading) := by
  have hagree := agree_skippingFrom {} {} source.toList rfl
  simp only [scan, scanSkipping, List.map_map, pieces, Comment.strip, String.toList_ofList]
  exact ⟨hagree.take_readings, hagree.readings_eq⟩

/-- **An odd quote in a word hides a comment** from being blanked out. -/
theorem readings_scan_strip_odd :
    (scanSkipping "a\"//b").map reading = [.ok (.identifier "a\"", 1)] ∧
      (scan (Comment.strip "a\"//b")).map reading = [.ok (.identifier "a\"", 1),
        .ok (.symbol '/', 1), .ok (.symbol '/', 1), .ok (.identifier "b", 1)] ∧
      (scan (Comment.strip "a\"//b")).map reading ≠ (scanSkipping "a\"//b").map reading := by
  decide +kernel

end JackStack
