import JackStack.Proofs.Placement
import JackStack.Proofs.Refinement

/-!
# Proofs/Extent — what a source of some length can hold

Every token takes at least one character, and a string constant takes its body and two quotes. So
the counts in the tree of a source (arguments of a call, characters of a string constant, declared
variables) are at most its length.

* `Parses.extent_le` — the tokens of a tree take no more characters than its source has.
* `Statement.listWithin_of_extent` — in a source of bounded length all counts are bounded.
-/

namespace JackStack

open Text.Decimal (wordBound)

/-! ## Characters of tokens -/

namespace Terminal

/-- **How many characters a terminal takes** at least. -/
def extent : Terminal → Nat
  | .text body => body.length + 2
  | _ => 1

/-- How many characters terminals take at least. -/
def totalExtent (ts : List Terminal) : Nat :=
  (ts.map extent).sum

@[simp] theorem totalExtent_nil : totalExtent [] = 0 := rfl

@[simp] theorem totalExtent_cons (t : Terminal) (ts : List Terminal) :
    totalExtent (t :: ts) = t.extent + totalExtent ts :=
  List.sum_cons

@[simp] theorem totalExtent_append (ts us : List Terminal) :
    totalExtent (ts ++ us) = totalExtent ts + totalExtent us := by
  rw [totalExtent, List.map_append, List.sum_append]
  rfl

theorem one_le_extent (t : Terminal) : 1 ≤ t.extent := by
  cases t <;> simp [extent]

theorem length_le_totalExtent (ts : List Terminal) : ts.length ≤ totalExtent ts := by
  induction ts with
  | nil => exact Nat.le_refl 0
  | cons t ts ih =>
    have := t.one_le_extent
    rw [List.length_cons, totalExtent_cons]
    omega

end Terminal

namespace Cut

theorem extent_text_le {cs : List Char} {t : Terminal} (h : (text cs).outcome = .ok t) :
    t.extent ≤ (text cs).taken.length := by
  simp only [text, textOutcome] at h ⊢
  split at h
  · cases h
  next hclose =>
  split at h
  · cases h
  · cases h
    rw [ne_eq, not_not, List.head?_eq_some_iff] at hclose
    obtain ⟨rest, htail⟩ := hclose
    simp [Terminal.extent, htail]

/-- **A token takes as many characters as it needs.** -/
theorem extent_le {c : Char} {cs : List Char} {t : Terminal} (hb : Text.isBlank c = false)
    (h : (first c cs).outcome = .ok t) : t.extent ≤ (first c cs).taken.length := by
  have hlength := congrArg List.length (taken_append_rest c cs)
  have hrest := rest_length_le cs hb
  rw [List.length_append, List.length_cons] at hlength
  have htaken : 1 ≤ (first c cs).taken.length := by omega
  cases t with
  | text body =>
    unfold first at h ⊢
    split at h
    · cases h
    split at h
    · next hs hq =>
      rw [if_neg hs, if_pos hq]
      exact extent_text_le h
    split at h
    · simp only [integer] at h
      split at h <;> cases h
    · simp only [word, wordTerminal] at h
      split at h <;> cases h
  | _ => exact htaken

end Cut

/-- The tokens of a text take no more characters than it has. -/
theorem totalExtent_piecesFrom (p : Text.Position) (cs : List Char) :
    Terminal.totalExtent (Lookahead.terminalsOf ((piecesFrom p cs).map Piece.item)) ≤
      cs.length := by
  fun_induction piecesFrom p cs with
  | case1 => exact Nat.zero_le _
  | case2 p c cs hb ih => exact Nat.le_trans ih (Nat.le_succ _)
  | case3 p c cs hb cut ih =>
    have hlength : cut.taken.length + cut.rest.length = (c :: cs).length := by
      rw [← List.length_append, Cut.taken_append_rest]
    rw [List.map_cons, Lookahead.terminalsOf, List.filterMap_cons, ← Lookahead.terminalsOf,
      Piece.item]
    cases ho : cut.outcome with
    | error cause => exact Nat.le_trans ih (by omega)
    | ok t =>
      have htaken : t.extent ≤ cut.taken.length := Cut.extent_le (Bool.eq_false_iff.mpr hb) ho
      change Terminal.totalExtent (t :: _) ≤ _
      rw [Terminal.totalExtent_cons]
      omega

/-- **The tokens of a tree take no more characters than its source has.** -/
theorem Parses.extent_le {source : String} {c : ClassDecl} (h : Parses source c) :
    Terminal.totalExtent c.terminals ≤ source.length := by
  rw [h.2]
  refine Nat.le_trans (totalExtent_piecesFrom {} _) ?_
  rw [Comment.strip, String.toList_ofList]
  exact Comment.length_stripFrom_le .code source.toList

/-! ## Counts in trees -/

/-- **The limits that operands of commands set.** -/
def wordLimits : Limits where
  name _ := true
  text body := body.length + 1 < wordBound
  call n := n + 1 < wordBound

open Terminal (totalExtent)

theorem Expression.one_le_extent (e : Expression) : 1 ≤ totalExtent e.terminals := by
  obtain ⟨first, rest, he, -⟩ := e.terminals_eq_cons
  have := first.one_le_extent
  rw [he, Terminal.totalExtent_cons]
  omega

/-- There are at most as many arguments as characters. -/
theorem Call.length_le_extent_more (arguments : List Expression) :
    arguments.length ≤ totalExtent (Call.moreArguments arguments) := by
  induction arguments with
  | nil => exact Nat.zero_le _
  | cons e rest ih =>
    simp only [Call.moreArguments, Terminal.totalExtent_cons, Terminal.totalExtent_append,
      Terminal.extent, List.length_cons]
    omega

theorem Call.length_le_extent (arguments : List Expression) :
    arguments.length ≤ totalExtent (Call.list arguments) := by
  cases arguments with
  | nil => exact Nat.zero_le _
  | cons e rest =>
    have := e.one_le_extent
    have := Call.length_le_extent_more rest
    rw [Call.list, Terminal.totalExtent_append, List.length_cons]
    omega

mutual

/-- **A term of bounded length keeps within the limits.** -/
theorem Term.within_of_extent (t : Term) (h : totalExtent t.terminals < wordBound) :
    t.within wordLimits = true := by
  cases t with
  | integer digits => rfl
  | text body =>
    have h : body.length + 2 < wordBound := h
    rw [Term.within]
    exact decide_eq_true (by omega)
  | constant k => rfl
  | «variable» name => rfl
  | element array index =>
    simp only [Term.terminals, Terminal.brackets, Terminal.totalExtent_cons,
      Terminal.totalExtent_append] at h
    rw [Term.within, index.within_of_extent (by omega)]
    rfl
  | call f =>
    rw [Term.terminals] at h
    rw [Term.within, f.within_of_extent h]
  | group inner =>
    simp only [Term.terminals, Terminal.parentheses, Terminal.totalExtent_cons,
      Terminal.totalExtent_append] at h
    rw [Term.within, inner.within_of_extent (by omega)]
  | unary op operand =>
    simp only [Term.terminals, Terminal.totalExtent_cons] at h
    rw [Term.within, operand.within_of_extent (by omega)]

/-- **An expression of bounded length keeps within the limits.** -/
theorem Expression.within_of_extent (e : Expression) (h : totalExtent e.terminals < wordBound) :
    e.within wordLimits = true := by
  obtain ⟨first, more⟩ := e
  rw [Expression.terminals, Terminal.totalExtent_append] at h
  rw [Expression.within, first.within_of_extent (by omega),
    Expression.moreWithin_of_extent more (by omega), Bool.and_self]

theorem Expression.moreWithin_of_extent (more : List (BinaryOp × Term))
    (h : totalExtent (Expression.moreTerms more) < wordBound) :
    Expression.moreWithin wordLimits more = true := by
  cases more with
  | nil => rfl
  | cons head rest =>
    obtain ⟨op, t⟩ := head
    rw [Expression.moreTerms, Terminal.totalExtent_cons, Terminal.totalExtent_append] at h
    rw [Expression.moreWithin, t.within_of_extent (by omega),
      Expression.moreWithin_of_extent rest (by omega), Bool.and_self]

/-- **A call of bounded length keeps within the limits.** -/
theorem Call.within_of_extent (f : Call) (h : totalExtent f.terminals < wordBound) :
    f.within wordLimits = true := by
  cases f with
  | own routine arguments =>
    have hlength := Call.length_le_extent arguments
    simp only [Call.terminals, Terminal.parentheses, Terminal.totalExtent_cons,
      Terminal.totalExtent_append, Terminal.extent] at h
    have hcall : wordLimits.call arguments.length = true := decide_eq_true (by omega)
    rw [Call.within, hcall, Call.listWithin_of_extent arguments (by omega), Bool.and_self]
  | on receiver routine arguments =>
    have hlength := Call.length_le_extent arguments
    simp only [Call.terminals, Terminal.parentheses, Terminal.totalExtent_cons,
      Terminal.totalExtent_append, Terminal.extent] at h
    have hcall : wordLimits.call arguments.length = true := decide_eq_true (by omega)
    rw [Call.within, hcall, Call.listWithin_of_extent arguments (by omega), Bool.and_self]
    rfl

theorem Call.listWithin_of_extent (arguments : List Expression)
    (h : totalExtent (Call.list arguments) < wordBound) :
    Call.listWithin wordLimits arguments = true := by
  cases arguments with
  | nil => rfl
  | cons e rest =>
    rw [Call.list, Terminal.totalExtent_append] at h
    rw [Call.listWithin, e.within_of_extent (by omega), Call.moreWithin_of_extent rest (by omega),
      Bool.and_self]

theorem Call.moreWithin_of_extent (arguments : List Expression)
    (h : totalExtent (Call.moreArguments arguments) < wordBound) :
    Call.listWithin wordLimits arguments = true := by
  cases arguments with
  | nil => rfl
  | cons e rest =>
    rw [Call.moreArguments, Terminal.totalExtent_cons, Terminal.totalExtent_append] at h
    rw [Call.listWithin, e.within_of_extent (by omega), Call.moreWithin_of_extent rest (by omega),
      Bool.and_self]

end

mutual

/-- **A statement of bounded length keeps within the limits.** -/
theorem Statement.within_of_extent (st : Statement) (h : totalExtent st.terminals < wordBound) :
    st.within wordLimits = true := by
  cases st with
  | assign name value =>
    simp only [Statement.terminals, Terminal.totalExtent_cons, Terminal.totalExtent_append] at h
    rw [Statement.within, value.within_of_extent (by omega)]
    rfl
  | assignElement array index value =>
    simp only [Statement.terminals, Terminal.brackets, Terminal.totalExtent_cons,
      Terminal.totalExtent_append] at h
    rw [Statement.within, index.within_of_extent (by omega), value.within_of_extent (by omega)]
    rfl
  | branch condition body otherwise =>
    simp only [Statement.terminals, Terminal.parentheses, Terminal.braces,
      Terminal.totalExtent_cons, Terminal.totalExtent_append] at h
    rw [Statement.within, condition.within_of_extent (by omega),
      Statement.listWithin_of_extent body (by omega),
      Statement.otherwiseWithin_of_extent otherwise (by omega)]
    rfl
  | loop condition body =>
    simp only [Statement.terminals, Terminal.parentheses, Terminal.braces,
      Terminal.totalExtent_cons, Terminal.totalExtent_append] at h
    rw [Statement.within, condition.within_of_extent (by omega),
      Statement.listWithin_of_extent body (by omega), Bool.and_self]
  | perform f =>
    rw [Statement.terminals, Terminal.totalExtent_cons, Terminal.totalExtent_append] at h
    rw [Statement.within, f.within_of_extent (by omega)]
  | «return» value =>
    cases value with
    | none => rfl
    | some e =>
      rw [Statement.terminals, Terminal.totalExtent_cons, Terminal.totalExtent_append] at h
      rw [Statement.within, e.within_of_extent (by omega)]

/-- **Statements of bounded length keep within the limits.** -/
theorem Statement.listWithin_of_extent (body : List Statement)
    (h : totalExtent (Statement.list body) < wordBound) :
    Statement.listWithin wordLimits body = true := by
  cases body with
  | nil => rfl
  | cons st rest =>
    rw [Statement.list, Terminal.totalExtent_append] at h
    rw [Statement.listWithin, st.within_of_extent (by omega),
      Statement.listWithin_of_extent rest (by omega), Bool.and_self]

theorem Statement.otherwiseWithin_of_extent (otherwise : Option (List Statement))
    (h : totalExtent (Statement.otherwise otherwise) < wordBound) :
    Statement.otherwiseWithin wordLimits otherwise = true := by
  cases otherwise with
  | none => rfl
  | some body =>
    simp only [Statement.otherwise, Terminal.braces, Terminal.totalExtent_cons,
      Terminal.totalExtent_append] at h
    rw [Statement.otherwiseWithin, Statement.listWithin_of_extent body (by omega)]

end

/-! ## Declared variables -/

theorem length_flatMap_le {α β γ : Type} {f : α → List β} {g : α → List γ} (l : List α)
    (h : ∀ x, (f x).length ≤ (g x).length) : (l.flatMap f).length ≤ (l.flatMap g).length := by
  induction l with
  | nil => exact Nat.le_refl 0
  | cons x l ih =>
    have := h x
    rw [List.flatMap_cons, List.flatMap_cons, List.length_append, List.length_append]
    omega

theorem VariableList.length_declarations_le (l : VariableList) (kind : VariableKind) :
    (l.declarations kind).length ≤ l.terminals.length := by
  have hmore : l.more.length ≤
      (l.more.flatMap fun name => [Terminal.symbol ',', .identifier name]).length := by
    induction l.more with
    | nil => exact Nat.le_refl 0
    | cons name rest ih =>
      rw [List.flatMap_cons, List.length_append, List.length_cons, List.length_cons]
      omega
  simp only [declarations, names, terminals, List.length_map, List.length_cons, List.length_append]
  omega

theorem Parameter.length_le (ps : List Parameter) : ps.length ≤ (Parameter.list ps).length := by
  cases ps with
  | nil => exact Nat.le_refl 0
  | cons p rest =>
    have := length_flatMap_le (f := fun q => [q]) (g := fun q : Parameter =>
      Terminal.symbol ',' :: q.terminals) rest fun q => Nat.succ_le_succ (Nat.zero_le _)
    simp only [Parameter.list, Parameter.terminals, List.length_append, List.length_cons,
      List.flatMap_singleton', List.length_nil] at this ⊢
    omega

/-- A class declares at most as many variables as it has tokens. -/
theorem ClassDecl.length_declarations_lt (c : ClassDecl) :
    c.declarations.length + 1 < totalExtent c.terminals := by
  have hmembers := length_flatMap_le (f := ClassVariables.declarations)
    (g := ClassVariables.terminals) c.members fun v => by
      cases v <;> exact Nat.le_succ_of_le (VariableList.length_declarations_le _ _)
  refine Nat.lt_of_lt_of_le ?_ (Terminal.length_le_totalExtent _)
  simp only [ClassDecl.declarations, ClassDecl.terminals, Terminal.braces, List.length_cons,
    List.length_append]
  omega

/-- A subroutine declares at most as many variables as it has tokens. -/
theorem RoutineDecl.length_declarations_lt (r : RoutineDecl) (className : String) :
    (r.declarations className).length < totalExtent r.terminals := by
  have hreceiver : (r.kind.receiver className).length ≤ 1 := by
    unfold RoutineKind.receiver
    split <;> simp
  have hparameters := Parameter.length_le r.parameters
  have hlocals := length_flatMap_le (f := fun l : VariableList => l.declarations .local)
    (g := fun l => Terminal.keyword .var :: l.terminals) r.locals fun l =>
      Nat.le_succ_of_le (l.length_declarations_le .local)
  refine Nat.lt_of_lt_of_le ?_ (Terminal.length_le_totalExtent _)
  simp only [RoutineDecl.declarations, RoutineDecl.terminals, RoutineDecl.bodyTerminals,
    Terminal.parentheses, Terminal.braces, List.length_cons, List.length_append, List.length_map]
  omega

theorem ClassDecl.extent_routine_le {c : ClassDecl} {r : RoutineDecl} (hr : r ∈ c.routines) :
    totalExtent r.terminals ≤ totalExtent c.terminals := by
  obtain ⟨before, behind, hsplit⟩ := List.append_of_mem hr
  simp only [ClassDecl.terminals, Terminal.braces, hsplit, List.flatMap_append, List.flatMap_cons,
    Terminal.totalExtent_cons, Terminal.totalExtent_append]
  omega

section Bounded

variable {c : ClassDecl} {r : RoutineDecl} (h : totalExtent c.terminals < wordBound)
include h

theorem ClassDecl.fieldCount_lt_of_extent : c.fieldCount + 1 < wordBound := by
  have hclass := c.length_declarations_lt
  have := List.countP_le_length (p := (·.kind = .field)) (l := c.declarations)
  rw [c.countP_field] at this
  omega

/-- There are fewer variables of a kind than characters. -/
theorem ClassDecl.count_lt_of_extent (hr : r ∈ c.routines) (kind : VariableKind) :
    r.count c kind < wordBound := by
  have hclass := c.length_declarations_lt
  have hlength := r.length_declarations_lt c.name
  have hextent := c.extent_routine_le hr
  cases kind with
  | static =>
    have := List.countP_le_length (p := (·.kind = .static)) (l := c.declarations)
    exact Nat.lt_of_le_of_lt this (by omega)
  | field => exact Nat.lt_of_succ_lt (c.fieldCount_lt_of_extent h)
  | argument =>
    have := List.countP_le_length (p := (·.kind = .argument)) (l := r.declarations c.name)
    rw [r.countP_argument] at this
    exact Nat.lt_of_le_of_lt this (by omega)
  | «local» =>
    have := List.countP_le_length (p := (·.kind = .local)) (l := r.declarations c.name)
    rw [r.countP_local] at this
    exact Nat.lt_of_le_of_lt this (by omega)

theorem ClassDecl.admits_of_extent (hw : ∀ x ∈ c.terminals, x.WellFormed) (hr : r ∈ c.routines) :
    (r.context c).Admits wordLimits :=
  c.admits hw hr (fun _ v _ _ => c.count_lt_of_extent h hr v.kind) (fun _ => of_decide_eq_true)
    fun _ => of_decide_eq_true

theorem ClassDecl.listWithin_of_extent (hr : r ∈ c.routines) :
    Statement.listWithin wordLimits r.body = true := by
  have := c.extent_routine_le hr
  refine Statement.listWithin_of_extent r.body (Nat.lt_of_le_of_lt ?_ h)
  simp only [RoutineDecl.terminals, RoutineDecl.bodyTerminals, Terminal.braces,
    Terminal.totalExtent_cons, Terminal.totalExtent_append] at this
  omega

end Bounded

/-- **A class of bounded length can be written.** -/
theorem ClassDecl.writable_of_extent {c : ClassDecl} (hw : ∀ x ∈ c.terminals, x.WellFormed)
    (hn : (c.routines.map RoutineDecl.name).Nodup) (h : totalExtent c.terminals < wordBound) :
    c.Writable where
  words := hw
  nodup := hn
  within _ hr := ⟨wordLimits, c.admits_of_extent h hw hr, c.listWithin_of_extent h hr⟩
  locals _ hr := c.count_lt_of_extent h hr .local
  fields _ _ _ := c.fieldCount_lt_of_extent h

end JackStack
