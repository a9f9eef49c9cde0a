import JackStack.Proofs.Blanking

/-!
# Proofs/Residue — what is left of a source has no comments

A space stands where a comment stood, so a slash never comes to stand in front of a slash or a star
that was not behind it before, and quotes pair up as they did. Blanking out comments a second time
copies every character.

    a/ /**// b    a/ ␣/ b       the slashes stay apart
    "//" /* " */  "//" ␣        the quote in the comment opens nothing

* `Comment.stepsFrom_stripFrom` — what is left is copied, character by character.
* `Comment.exists_resume` — between two steps, what is left to do is blanking out the rest.
* `Comment.strip_settled` — nothing more is blanked out, and at every point as many line feeds have
  been written as read.
-/

namespace JackStack.Comment

/-! ## What is left is copied -/

/-- **Where what is left is read from**, when it was written from a point inside `mode` on: a
comment leaves nothing of itself, so it is read as code. -/
def Mode.left : Mode → Mode
  | .text => .text
  | .code | .lineComment | .blockComment => .code

variable {c : Char} {cs : List Char}

/-- **What is left of code starts as the code does**, unless with a space. -/
theorem head?_of_stripFrom_code (h : (stripFrom .code cs).head? = some c) (hc : c ≠ ' ') :
    cs.head? = some c := by
  revert h
  generalize hmode : Mode.code = mode
  fun_cases stripFrom mode cs <;> simp_all [eq_comm]

/-- A character of code is copied, if it is no quote and no comment starts there. -/
theorem stepsFrom_code_cons (hquote : c ≠ '"')
    (hopen : c = '/' → cs.head? ≠ some '/' ∧ cs.head? ≠ some '*') :
    stepsFrom .code (c :: cs) = .copy c :: stepsFrom .code cs := by
  rw [stepsFrom]
  · rintro rest rfl rfl
    exact (hopen rfl).1 rfl
  · rintro rest rfl rfl
    exact (hopen rfl).2 rfl
  · exact hquote

/-- **What is left is copied, character by character.** -/
theorem stepsFrom_stripFrom (mode : Mode) (cs : List Char) :
    stepsFrom mode.left (stripFrom mode cs) = (stripFrom mode cs).map Step.copy := by
  fun_induction stripFrom mode cs with
  | case1 mode => exact stepsFrom.eq_1 _
  | case2 cs ih | case3 cs ih | case6 cs ih | case9 cs ih =>
    rw [List.map_cons, ← ih]
    exact stepsFrom_code_cons (by decide) fun h => absurd h (by decide)
  | case4 cs ih | case11 cs ih | case12 cs ih =>
    rw [List.map_cons, ← ih]
    rfl
  | case5 c cs hline hblock hquote ih =>
    rw [List.map_cons, ← ih]
    refine stepsFrom_code_cons hquote ?_
    -- a mark that stands behind the slash now stood there before
    rintro rfl
    refine ⟨fun h => ?_, fun h => ?_⟩
    · obtain ⟨rest, rfl⟩ := List.head?_eq_some_iff.mp (head?_of_stripFrom_code h (by decide))
      exact hline rest rfl rfl
    · obtain ⟨rest, rfl⟩ := List.head?_eq_some_iff.mp (head?_of_stripFrom_code h (by decide))
      exact hblock rest rfl rfl
  | case7 c cs hc ih => exact ih
  | case8 cs ih => exact ih
  | case10 c cs hend hc ih => exact ih
  | case13 c cs hquote hfeed ih =>
    rw [List.map_cons, ← ih, Mode.left, stepsFrom]
    · exact hquote
    · exact hfeed

theorem steps_strip (source : String) :
    steps (strip source) = (strip source).toList.map Step.copy := by
  rw [steps, strip, String.toList_ofList]
  exact stepsFrom_stripFrom .code source.toList

/-! ## Between two steps -/

/-- What is left to do after the first step is blanking out the rest. -/
theorem exists_resume_first (mode : Mode) (cs : List Char) :
    ∃ mode' rest, (stepsFrom mode cs).drop 1 = stepsFrom mode' rest := by
  fun_cases stepsFrom mode cs
  · exact ⟨mode, [], (stepsFrom.eq_1 mode).symm⟩
  all_goals exact ⟨_, _, rfl⟩

/-- **Between two steps, what is left to do is blanking out the rest**, from inside some mode on. -/
theorem exists_resume (n : Nat) (mode : Mode) (cs : List Char) :
    ∃ mode' rest, (stepsFrom mode cs).drop n = stepsFrom mode' rest := by
  induction n generalizing mode cs with
  | zero => exact ⟨mode, cs, rfl⟩
  | succ n ih =>
    obtain ⟨mode₁, rest, hfirst⟩ := exists_resume_first mode cs
    obtain ⟨mode₂, rest₂, hrest⟩ := ih mode₁ rest
    rw [Nat.add_comm, ← List.drop_drop, hfirst]
    exact ⟨mode₂, rest₂, hrest⟩

/-- **Steps that have been done**, with what they have read and written, and what is left to do. -/
theorem exists_rest (source : String) (n : Nat) :
    ∃ mode rest, source.toList = ((steps source).take n).flatMap Step.read ++ rest ∧
      (strip source).toList =
        ((steps source).take n).flatMap Step.written ++ stripFrom mode rest := by
  obtain ⟨mode, rest, hrest⟩ := exists_resume n .code source.toList
  refine ⟨mode, rest, ?_, ?_⟩
  · rw [← flatMap_read mode rest, ← hrest, ← List.flatMap_append, steps, List.take_append_drop,
      flatMap_read]
  · rw [← flatMap_written mode rest, ← hrest, ← List.flatMap_append, steps, List.take_append_drop,
      flatMap_written, strip, String.toList_ofList]

/-- At every point as many line feeds have been written as read. -/
theorem count_take_steps (source : String) (n : Nat) :
    (((steps source).take n).flatMap Step.written).count '\n' =
      (((steps source).take n).flatMap Step.read).count '\n' :=
  (count_read_eq fun step hstep =>
    allowed_of_mem_stepsFrom .code source.toList step (List.mem_of_mem_take hstep)).symm

/-- **Blanking out comments settles a source, and keeps its line feeds.** A second time changes
nothing. After any number of steps a part of the source has been read and a part of what is left has
been written, the rest comes of the rest, and both parts have equally many line feeds; so have the
source and what is left of it. -/
theorem strip_settled (source : String) :
    strip (strip source) = strip source ∧
      (∀ n, ∃ mode rest, source.toList = ((steps source).take n).flatMap Step.read ++ rest ∧
        (strip source).toList =
          ((steps source).take n).flatMap Step.written ++ stripFrom mode rest ∧
        (((steps source).take n).flatMap Step.written).count '\n' =
          (((steps source).take n).flatMap Step.read).count '\n') ∧
      (strip source).toList.count '\n' = source.toList.count '\n' := by
  refine ⟨?_, fun n => ?_, ?_⟩
  · rw [← String.toList_inj, strip, String.toList_ofList, ← flatMap_written, ← steps, steps_strip]
    simp [List.flatMap_map, Step.copy]
  · obtain ⟨mode, rest, hread, hwritten⟩ := exists_rest source n
    exact ⟨mode, rest, hread, hwritten, count_take_steps source n⟩
  · have hall := count_take_steps source (steps source).length
    rw [List.take_length, steps, flatMap_read, flatMap_written] at hall
    rwa [strip, String.toList_ofList]

end JackStack.Comment
