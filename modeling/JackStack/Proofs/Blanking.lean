import JackStack.Comment
import JackStack.Token.Scan

/-!
# Proofs/Blanking — what is left of a source, and where it stood

Comments are blanked out in steps: one or two characters are read, and a character is copied, or a
space is written, or nothing. Every line feed is copied. So a piece that is cut from what is left
stands in the source itself, behind the characters read before it, and on the same line.

* `Comment.stepsFrom` — the steps of blanking out comments.
* `Piece.StartsBehind` — where a piece of what is left stands in the source.
* `Piece.StartsBehind.line` — its line is counted in the source.
-/

namespace JackStack

open Text (Position isBlank)

namespace Comment

/-! ## Steps -/

/-- **A step of blanking out comments**: the characters read, and what is written for them. -/
structure Step where
  read : List Char
  written : List Char
  deriving DecidableEq, Repr

/-- The step that copies a character. -/
def Step.copy (c : Char) : Step :=
  ⟨[c], [c]⟩

/-- **The steps of blanking out comments**, from a point inside `mode` on. -/
def stepsFrom : Mode → List Char → List Step
  | _, [] => []
  | .code, '/' :: '/' :: cs => ⟨['/', '/'], [' ']⟩ :: stepsFrom .lineComment cs
  | .code, '/' :: '*' :: cs => ⟨['/', '*'], [' ']⟩ :: stepsFrom .blockComment cs
  | .code, '"' :: cs => .copy '"' :: stepsFrom .text cs
  | .code, c :: cs => .copy c :: stepsFrom .code cs
  | .lineComment, '\n' :: cs => .copy '\n' :: stepsFrom .code cs
  | .lineComment, c :: cs => ⟨[c], []⟩ :: stepsFrom .lineComment cs
  | .blockComment, '*' :: '/' :: cs => ⟨['*', '/'], []⟩ :: stepsFrom .code cs
  | .blockComment, '\n' :: cs => .copy '\n' :: stepsFrom .blockComment cs
  | .blockComment, c :: cs => ⟨[c], []⟩ :: stepsFrom .blockComment cs
  | .text, '"' :: cs => .copy '"' :: stepsFrom .code cs
  | .text, '\n' :: cs => .copy '\n' :: stepsFrom .code cs
  | .text, c :: cs => .copy c :: stepsFrom .text cs

/-- **The steps of blanking out the comments** of a source. -/
def steps (source : String) : List Step :=
  stepsFrom .code source.toList

/-- The steps read the whole text. -/
theorem flatMap_read (mode : Mode) (cs : List Char) :
    (stepsFrom mode cs).flatMap Step.read = cs := by
  fun_induction stepsFrom mode cs <;> simp_all [Step.copy]

/-- The steps write what is left. -/
theorem flatMap_written (mode : Mode) (cs : List Char) :
    (stepsFrom mode cs).flatMap Step.written = stripFrom mode cs := by
  fun_induction stripFrom mode cs <;> simp_all [stepsFrom, Step.copy]

/-- **What a step can do**: copy a character, or write at most a space for others than line
feeds. -/
inductive Step.Allowed : Step → Prop
  | copy (c : Char) : Allowed (.copy c)
  | space {read : List Char} (hfeed : '\n' ∉ read) : Allowed ⟨read, [' ']⟩
  | nothing {read : List Char} (hfeed : '\n' ∉ read) : Allowed ⟨read, []⟩

theorem allowed_of_mem_stepsFrom (mode : Mode) (cs : List Char) :
    ∀ step ∈ stepsFrom mode cs, step.Allowed := by
  fun_induction stepsFrom mode cs with
  | case1 => exact nofun
  | case2 cs ih | case3 cs ih => exact List.forall_mem_cons.2 ⟨.space (by decide), ih⟩
  | case4 cs ih | case6 cs ih | case9 cs ih | case11 cs ih | case12 cs ih =>
    exact List.forall_mem_cons.2 ⟨.copy _, ih⟩
  | case5 c cs _ _ _ ih => exact List.forall_mem_cons.2 ⟨.copy c, ih⟩
  | case7 c cs hc ih =>
    exact List.forall_mem_cons.2 ⟨.nothing (by simpa using Ne.symm hc), ih⟩
  | case8 cs ih => exact List.forall_mem_cons.2 ⟨.nothing (by decide), ih⟩
  | case10 c cs _ hc ih =>
    exact List.forall_mem_cons.2 ⟨.nothing (by simpa using Ne.symm hc), ih⟩
  | case13 c cs _ _ ih => exact List.forall_mem_cons.2 ⟨.copy c, ih⟩

/-- **Steps keep line feeds**: as many are written as are read. -/
theorem count_read_eq {done : List Step} (h : ∀ step ∈ done, step.Allowed) :
    (done.flatMap Step.read).count '\n' = (done.flatMap Step.written).count '\n' := by
  induction done with
  | nil => rfl
  | cons step done ih =>
    obtain ⟨hstep, hdone⟩ := List.forall_mem_cons.mp h
    rw [List.flatMap_cons, List.flatMap_cons, List.count_append, List.count_append, ih hdone]
    congr 1
    cases hstep with
    | copy c => rfl
    | space hfeed => exact List.count_eq_zero.2 hfeed
    | nothing hfeed => exact List.count_eq_zero.2 hfeed

/-- **A character that is left was copied**, unless it is a space. -/
theorem exists_copy {todo : List Step} (h : ∀ step ∈ todo, step.Allowed) {before behind : List Char}
    {c : Char} (hw : todo.flatMap Step.written = before ++ c :: behind) (hc : c ≠ ' ') :
    ∃ done later, todo = done ++ .copy c :: later ∧ done.flatMap Step.written = before := by
  induction todo generalizing before with
  | nil => simp at hw
  | cons step todo ih =>
    obtain ⟨hstep, htodo⟩ := List.forall_mem_cons.mp h
    -- A step that writes nothing, or writes the head of what stands before, is done.
    have skip {rest : List Char} (hbefore : before = step.written ++ rest)
        (hrest : todo.flatMap Step.written = rest ++ c :: behind) :
        ∃ done later, step :: todo = done ++ .copy c :: later ∧
          done.flatMap Step.written = before := by
      obtain ⟨done, later, rfl, hdone⟩ := ih htodo hrest
      exact ⟨step :: done, later, rfl, by rw [List.flatMap_cons, hdone, hbefore]⟩
    rw [List.flatMap_cons] at hw
    cases hstep with
    | nothing _ => exact skip rfl hw
    | space _ =>
      cases before with
      | nil => exact absurd (List.cons.inj hw).1.symm hc
      | cons b before =>
        obtain ⟨rfl, hrest⟩ := List.cons.inj hw
        exact skip rfl hrest
    | copy d =>
      cases before with
      | nil =>
        obtain ⟨rfl, -⟩ := List.cons.inj hw
        exact ⟨[], todo, rfl, rfl⟩
      | cons b before =>
        obtain ⟨rfl, hrest⟩ := List.cons.inj hw
        exact skip rfl hrest

end Comment

/-! ## Pieces -/

theorem Cut.taken_eq_cons {c : Char} (cs : List Char) (h : isBlank c = false) :
    ∃ taken, (first c cs).taken = c :: taken := by
  have happend := taken_append_rest c cs
  cases htaken : (first c cs).taken with
  | nil =>
    have hlength := rest_length_le cs h
    rw [htaken, List.nil_append] at happend
    rw [happend, List.length_cons] at hlength
    omega
  | cons d taken =>
    rw [htaken, List.cons_append] at happend
    rw [(List.cons.inj happend).1]
    exact ⟨taken, rfl⟩

/-- **A piece stands in the text** that it is cut from, and does not start with a blank. -/
theorem Piece.exists_split {p : Position} {cs : List Char} {q : Piece} (h : q ∈ piecesFrom p cs) :
    ∃ before c taken behind, cs = before ++ c :: behind ∧ q.taken = c :: taken ∧
      isBlank c = false ∧ q.start = p.after before := by
  fun_induction piecesFrom p cs with
  | case1 => cases h
  | case2 p c cs hb ih =>
    obtain ⟨before, d, taken, behind, rfl, htaken, hd, hstart⟩ := ih h
    exact ⟨c :: before, d, taken, behind, rfl, htaken, hd, hstart⟩
  | case3 p c cs hb cut ih =>
    have hblank : isBlank c = false := Bool.eq_false_iff.mpr hb
    obtain rfl | h := List.mem_cons.1 h
    · obtain ⟨taken, htaken⟩ := Cut.taken_eq_cons cs hblank
      exact ⟨[], c, taken, cs, rfl, htaken, hblank, rfl⟩
    · obtain ⟨before, d, taken, behind, hrest, htaken, hd, hstart⟩ := ih h
      refine ⟨cut.taken ++ before, d, taken, behind, ?_, htaken, hd, ?_⟩
      · rw [List.append_assoc, ← hrest, Cut.taken_append_rest]
      · rw [hstart, Text.Position.after_append]

/-- **A piece of what is left of a source starts behind `before`** in the source itself: reading
that much leaves what stands in front of the piece, and its first character is copied next. -/
def Piece.StartsBehind (p : Piece) (source : String) (before : List Char) : Prop :=
  ∃ done c later, Comment.steps source = done ++ .copy c :: later ∧
    done.flatMap Comment.Step.read = before ∧ p.taken.head? = some c ∧
    p.start = Position.after {} (done.flatMap Comment.Step.written)

/-- **Every piece of what is left stands in the source.** -/
theorem Piece.exists_startsBehind {source : String} {p : Piece}
    (h : p ∈ pieces (Comment.strip source)) : ∃ before, p.StartsBehind source before := by
  obtain ⟨before, c, taken, behind, hcs, htaken, hb, hstart⟩ := exists_split h
  have hc : c ≠ ' ' := fun h => by rw [h] at hb; exact absurd hb (by decide)
  rw [Comment.strip, String.toList_ofList, ← Comment.flatMap_written] at hcs
  obtain ⟨done, later, hsteps, hdone⟩ :=
    Comment.exists_copy (Comment.allowed_of_mem_stepsFrom _ _) hcs hc
  exact ⟨_, done, c, later, hsteps, rfl, by rw [htaken]; rfl, by rw [hstart, hdone]⟩

namespace Piece.StartsBehind

variable {p : Piece} {source : String} {before : List Char}

/-- The first character of the piece is the one behind. -/
theorem source_eq (h : p.StartsBehind source before) :
    ∃ c behind, source.toList = before ++ c :: behind ∧ p.taken.head? = some c := by
  obtain ⟨done, c, later, hsteps, rfl, hc, -⟩ := h
  have hread := Comment.flatMap_read .code source.toList
  rw [← Comment.steps, hsteps, List.flatMap_append, List.flatMap_cons] at hread
  exact ⟨c, _, hread.symm, hc⟩

/-- **The line of a piece is counted in the source**: one more than the line feeds before it. -/
theorem line (h : p.StartsBehind source before) : p.start.line = 1 + before.count '\n' := by
  obtain ⟨done, c, later, hsteps, rfl, -, hstart⟩ := h
  have hallowed := Comment.allowed_of_mem_stepsFrom .code source.toList
  rw [← Comment.steps, hsteps, List.forall_mem_append] at hallowed
  rw [hstart, Text.Position.line_after, Comment.count_read_eq hallowed.1]

end Piece.StartsBehind

end JackStack
