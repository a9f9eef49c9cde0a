import JackStack.Proofs.Blanking
import JackStack.Proofs.Spelling
import JackStack.Token.Reader

/-!
# Proofs/Tiling — the tokens of a source tile it

A reader that is stepped through a source passes every character of it once. What it reports, be it
a token or an error, takes up a region of the source that is not empty; the regions come one after
the other, and only blanks are between them. So there are no more items than characters, and the
reader comes to its end.

The place of a token is that of its region: its bytes are those of the source from the start of the
token on, and its line counts the line feeds before.

* `Piece.occupies_first` — one piece takes up a region of the source.
* `tiled_piecesFrom` — all pieces together tile it.
* `Reader.next_steps` — stepping a reader gives one item after the other.
* `tiled_source` — what a reader gives tiles the source.
-/

namespace JackStack

open Text (isBlank byteLength Position)

/-! ## Tokens as they are written -/

namespace Cut

theorem taken_text {cs : List Char} {t : Terminal} (h : (text cs).outcome = .ok t) :
    (text cs).taken = t.written := by
  simp only [text, textOutcome] at h ⊢
  split at h
  · cases h
  · next hclose =>
    obtain ⟨rest, hrest⟩ := List.head?_eq_some_iff.mp (not_not.mp hclose)
    split at h
    · cases h
    · cases h
      simp [Terminal.written, hrest]

theorem taken_integer {cs : List Char} {t : Terminal} (h : (integer cs).outcome = .ok t) :
    (integer cs).taken = t.written := by
  simp only [integer] at h ⊢
  split at h
  · cases h
    simp [Terminal.written, Terminal.spelling]
  · cases h

theorem taken_word {cs : List Char} {t : Terminal} (h : (word cs).outcome = .ok t) :
    (word cs).taken = t.written := by
  simp only [word, wordTerminal] at h ⊢
  split at h
  · next k hk =>
    cases h
    simp [Terminal.written, Terminal.spelling, Keyword.text_of_ofText? hk]
  · cases h
    simp [Terminal.written, Terminal.spelling]

/-- **A piece that is a token** is the token as it is written. -/
theorem taken_first {c : Char} {cs : List Char} {t : Terminal}
    (h : (first c cs).outcome = .ok t) : (first c cs).taken = t.written := by
  revert h
  unfold first
  split
  · rintro ⟨⟩
    simp [Terminal.written, Terminal.spelling]
  split
  · exact taken_text
  split
  · exact taken_integer
  · exact taken_word

end Cut

/-! ## Regions -/

theorem byteLength_eq (cs : List Char) : byteLength cs = cs.utf8Encode.size := by
  induction cs with
  | nil => rfl
  | cons c cs ih =>
    rw [List.utf8Encode_cons, ByteArray.size_append, List.utf8Encode_singleton,
      List.size_toByteArray, String.length_utf8EncodeChar, ← ih, byteLength]

/-- **The piece takes up a region of the source**, between two parts of it. A token has the bounds
of the region in bytes and the line on which it starts, and is written there; an error has the
line. -/
structure Piece.Occupies (p : Piece) (source : String) (before behind : List Char) : Prop where
  source_eq : source.toList = before ++ (p.taken ++ behind)
  nonempty : p.taken ≠ []
  token {t : Token} : p.item = .ok t →
    t.span = ⟨before.utf8Encode.size, p.taken.utf8Encode.size, 1 + before.count '\n'⟩ ∧
    t.terminal.written = p.taken ∧
    source.toUTF8.extract t.span.start (t.span.start + t.span.size) = p.taken.utf8Encode
  error {e : CompileError} : p.item = .error e →
    ∃ cause, e = .lexical (1 + before.count '\n') cause

theorem extract_region {source : String} {before taken behind : List Char}
    (h : source.toList = before ++ (taken ++ behind)) :
    source.toUTF8.extract before.utf8Encode.size
      (before.utf8Encode.size + taken.utf8Encode.size) = taken.utf8Encode := by
  have hbytes : source.toUTF8 = before.utf8Encode ++ (taken.utf8Encode ++ behind.utf8Encode) := by
    rw [← List.utf8Encode_append, ← List.utf8Encode_append, ← h]
    exact String.utf8Encode_toList.symm
  calc source.toUTF8.extract before.utf8Encode.size
        (before.utf8Encode.size + taken.utf8Encode.size)
      = (taken.utf8Encode ++ behind.utf8Encode).extract 0 taken.utf8Encode.size := by
        rw [hbytes]
        exact ByteArray.extract_append_size_add (i := 0)
    _ = taken.utf8Encode := by
        rw [ByteArray.extract_append_size_left, ByteArray.extract_zero_size]

/-- **One piece takes up a region** of the source it is cut from. -/
theorem Piece.occupies_first {source : String} {before cs : List Char} {c : Char}
    (h : source.toList = before ++ c :: cs) (hc : isBlank c = false) :
    Occupies ⟨Position.after {} before, (Cut.first c cs).taken, (Cut.first c cs).outcome⟩ source
      before (Cut.first c cs).rest := by
  have hsource : source.toList = before ++ ((Cut.first c cs).taken ++ (Cut.first c cs).rest) := by
    rw [h, Cut.taken_append_rest]
  obtain ⟨taken, htaken⟩ := Cut.taken_eq_cons cs hc
  have hline : (Position.after {} before).line = 1 + before.count '\n' :=
    Position.line_after {} before
  have hoffset : (Position.after {} before).offset = before.utf8Encode.size := by
    rw [Position.offset_after, byteLength_eq, Nat.zero_add]
  refine ⟨hsource, by simp [htaken], fun {t} ht => ?_, fun {e} he => ?_⟩
  · rw [Piece.item] at ht
    split at ht
    · next terminal ho =>
      cases ht
      rw [Piece.span, hline, hoffset, byteLength_eq]
      exact ⟨rfl, (Cut.taken_first ho).symm, extract_region hsource⟩
    · cases ht
  · rw [Piece.item] at he
    split at he
    · cases he
    · next cause ho =>
      cases he
      exact ⟨cause, by rw [hline]⟩

/-! ## Tilings -/

/-- **Pieces tile a part of the source**, that behind `before`: each takes up a region, with only
blanks between it and the one before, and what is left at the end is blank. -/
inductive Tiled (source : String) : List Char → List Char → List Piece → Prop
  | blanks {before cs : List Char} (h : ∀ c ∈ cs, isBlank c = true) : Tiled source before cs []
  | piece {before gap behind : List Char} {p : Piece} {ps : List Piece}
    (hgap : ∀ c ∈ gap, isBlank c = true) (hp : p.Occupies source (before ++ gap) behind)
    (h : Tiled source (before ++ gap ++ p.taken) behind ps) :
    Tiled source before (gap ++ (p.taken ++ behind)) (p :: ps)

namespace Tiled

variable {source : String} {before cs : List Char} {ps : List Piece}

/-- A blank belongs to the gap before the next piece. -/
theorem blank {c : Char} (hc : isBlank c = true) (h : Tiled source (before ++ [c]) cs ps) :
    Tiled source before (c :: cs) ps := by
  cases h with
  | blanks h => exact .blanks (List.forall_mem_cons.mpr ⟨hc, h⟩)
  | @piece _ gap behind p ps hgap hp h =>
    have hassoc : before ++ [c] ++ gap = before ++ (c :: gap) := by simp
    rw [hassoc] at hp h
    exact .piece (List.forall_mem_cons.mpr ⟨hc, hgap⟩) hp h

/-- The gap before a piece may be empty. -/
theorem adjacent {p : Piece} {behind : List Char} (hp : p.Occupies source before behind)
    (h : Tiled source (before ++ p.taken) behind ps) :
    Tiled source before (p.taken ++ behind) (p :: ps) := by
  rw [← List.append_nil before] at hp h
  have hnone : ∀ c ∈ ([] : List Char), isBlank c = true := List.forall_mem_nil _
  simpa using Tiled.piece hnone hp h

theorem length_le (h : Tiled source before cs ps) : ps.length ≤ cs.length := by
  induction h with
  | blanks => exact Nat.zero_le _
  | piece hgap hp h ih =>
    have hpos := List.length_pos_iff.mpr hp.nonempty
    simp only [List.length_cons, List.length_append]
    omega

end Tiled

/-- **The pieces of a text tile it.** -/
theorem tiled_piecesFrom {source : String} {before cs : List Char}
    (h : source.toList = before ++ cs) :
    Tiled source before cs (piecesFrom (Position.after {} before) cs) := by
  -- what has been passed grows from step to step, and the position is always the one behind it
  generalize hp : Position.after {} before = p
  fun_induction piecesFrom p cs generalizing before with
  | case1 p => exact .blanks (List.forall_mem_nil _)
  | case2 p c cs hb ih =>
    refine .blank hb (ih (by simp [h]) ?_)
    rw [Position.after_append, hp]
    rfl
  | case3 p c cs hb cut =>
    rename_i ih
    subst hp
    have hfirst := Piece.occupies_first h (Bool.eq_false_iff.mpr hb)
    have hrest := ih (hfirst.source_eq.trans (List.append_assoc _ _ _).symm)
      (Position.after_append _ _ _)
    rw [← Cut.taken_append_rest c cs]
    exact .adjacent hfirst hrest

/-! ## Stepping through the items -/

namespace Reader

/-- **The reader after a number of steps.** -/
def steps : Nat → Reader → Reader
  | 0, r => r
  | n + 1, r => steps n r.next.2

theorem pending_next (r : Reader) : r.next.2.pending = r.pending.tail := by
  obtain ⟨current, pending⟩ := r
  rcases pending with _ | ⟨_ | token, rest⟩ <;> rfl

theorem next_eq (r : Reader) : r.next.1 = r.pending.head? := by
  obtain ⟨current, pending⟩ := r
  rcases pending with _ | ⟨_ | token, rest⟩ <;> rfl

/-- **Stepping gives one item after the other**, and nothing behind the last. -/
theorem next_steps (n : Nat) (r : Reader) : (r.steps n).next.1 = r.pending[n]? := by
  induction n generalizing r with
  | zero => rw [steps, next_eq, List.head?_eq_getElem?]
  | succ n ih => rw [steps, ih, pending_next, List.getElem?_tail]

end Reader

/-- **What a reader gives tiles the source.** The items that it gives, step by step, are those of
pieces that tile the source, and it is at its end behind them; there are no more than characters. -/
theorem tiled_source (source : String) :
    Tiled source [] source.toList (pieces source) ∧ (pieces source).length ≤ source.length ∧
      ∀ n, ((Reader.ofSource source).steps n).next.1 = (pieces source)[n]?.map Piece.item := by
  have htiled : Tiled source [] source.toList (pieces source) := tiled_piecesFrom rfl
  refine ⟨htiled, htiled.length_le.trans_eq String.length_toList, fun n => ?_⟩
  rw [Reader.next_steps, Reader.ofSource, scan, List.getElem?_map]

end JackStack
