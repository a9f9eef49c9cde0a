import JackStack.Proofs.Tiling

/-!
# Proofs/RoundTrip — tokens are read back as they were written

The tokens of a language can be told by their looks alone: a terminal is one that some source has
exactly if it can be spelled out. Spelled out one after the other, with blanks between neighbours,
terminals make a source that a reader takes apart into just these terminals.

* `Terminal.laid_spaced` — terminals with blanks between them are laid out.
* `Reader.terminal_steps` — what a reader gives, step by step.
* `Terminal.read_spaced` — written and read, terminals are what they were; and whatever is read can
  be written.
-/

namespace JackStack

open Text (isBlank)

/-! ## Writing with blanks between -/

/-- **Terminals written in order**, each with the text that stands behind it. -/
def Terminal.spaced (ts : List (Terminal × List Char)) : List Char :=
  ts.flatMap fun t => t.1.written ++ t.2

@[simp] theorem Terminal.spaced_nil : spaced [] = [] := rfl

@[simp] theorem Terminal.spaced_cons (t : Terminal) (gap : List Char)
    (ts : List (Terminal × List Char)) :
    spaced ((t, gap) :: ts) = t.written ++ (gap ++ spaced ts) := by
  simp [spaced]

/-- **Gaps set terminals apart**: they are blank, and only behind the last terminal there may be
none. -/
structure SetsApart (ts : List (Terminal × List Char)) : Prop where
  blank : ∀ t ∈ ts, ∀ c ∈ t.2, isBlank c = true
  nonempty : ∀ t ∈ ts.dropLast, t.2 ≠ []

instance (ts : List (Terminal × List Char)) : Decidable (SetsApart ts) :=
  decidable_of_iff ((∀ t ∈ ts, t.2.all isBlank = true) ∧ ∀ t ∈ ts.dropLast, t.2 ≠ [])
    ⟨fun h => ⟨fun t ht => List.all_eq_true.1 (h.1 t ht), h.2⟩,
      fun h => ⟨fun t ht => List.all_eq_true.2 (h.blank t ht), h.nonempty⟩⟩

/-- Blanks in front make no difference. -/
theorem Laid.append {ts : List Terminal} {gap cs : List Char} (hgap : ∀ c ∈ gap, isBlank c = true)
    (h : Laid ts cs) : Laid ts (gap ++ cs) := by
  induction gap with
  | nil => exact h
  | cons c gap ih =>
    obtain ⟨hc, hgap⟩ := List.forall_mem_cons.mp hgap
    exact .blank hc (ih hgap)

theorem SetsApart.tail {t : Terminal × List Char} {ts : List (Terminal × List Char)}
    (h : SetsApart (t :: ts)) : SetsApart ts where
  blank := (List.forall_mem_cons.mp h.blank).2
  nonempty := fun u hu => h.nonempty u (by
    cases ts with
    | nil => cases hu
    | cons v ts => exact List.mem_cons_of_mem t hu)

/-- **Terminals with blanks between them are laid out** in their text. -/
theorem Terminal.laid_spaced {ts : List (Terminal × List Char)} (hs : ∀ t ∈ ts, t.1.Spelled)
    (ha : SetsApart ts) : Laid (ts.map Prod.fst) (spaced ts) := by
  induction ts with
  | nil => exact .nil
  | cons p ts ih =>
    obtain ⟨t, gap⟩ := p
    obtain ⟨ht, hs⟩ := List.forall_mem_cons.mp hs
    have hgap : ∀ c ∈ gap, isBlank c = true := (List.forall_mem_cons.mp ha.blank).1
    rw [List.map_cons, spaced_cons]
    refine .token ht ?_ ((ih hs ha.tail).append hgap)
    -- Behind the last terminal the text may end; behind another one the gap goes on.
    cases gap with
    | cons c gap =>
      rintro d ⟨⟩
      exact hgap c List.mem_cons_self
    | nil =>
      cases ts with
      | nil => rintro d ⟨⟩
      | cons u ts => exact absurd rfl (ha.nonempty (t, []) List.mem_cons_self)

/-! ## Reading -/

/-- The terminal of a piece that is a token. -/
theorem Piece.map_item {p : Piece} {t : Terminal} (h : p.outcome = .ok t) :
    p.item.map Token.terminal = .ok t := by
  rw [Piece.item, h]
  rfl

/-- **A reader gives terminal by terminal** what a source without bad pieces is cut into. -/
theorem Reader.terminal_steps {source : String} {ts : List Terminal}
    (h : (pieces source).map Piece.outcome = ts.map .ok) (n : Nat) :
    ((ofSource source).steps n).next.1.map (Except.map Token.terminal) = ts[n]?.map .ok := by
  have hn : (pieces source)[n]?.map Piece.outcome = ts[n]?.map .ok := by
    rw [← List.getElem?_map, h, List.getElem?_map]
  rw [next_steps, ofSource, scan, List.getElem?_map]
  cases ht : ts[n]? with
  | none =>
    rw [ht, Option.map_none, Option.map_eq_none_iff] at hn
    rw [hn]
    rfl
  | some t =>
    rw [ht, Option.map_some, Option.map_eq_some_iff] at hn
    obtain ⟨p, hp, ho⟩ := hn
    rw [hp, Option.map_some, Option.map_some, Piece.map_item ho]
    rfl

/-- A token that a reader gives is one of the source. -/
theorem Reader.mem_terminalsOf {source : String} {n : Nat} {token : Token}
    (h : ((ofSource source).steps n).next.1 = some (.ok token)) :
    token.terminal ∈ Lookahead.terminalsOf (scan source) := by
  rw [next_steps] at h
  exact List.mem_filterMap.mpr ⟨.ok token, List.mem_of_getElem? h, rfl⟩

/-- **Terminals are read as they were written, and written as they are read.** Terminals that are
spelled out in order, with blanks between neighbours, are what a reader gives, one after the other
and no error among them. And every token that a reader gives, of any source, can be spelled out. -/
theorem Terminal.read_spaced :
    (∀ ts : List (Terminal × List Char), (∀ t ∈ ts, t.1.Spelled) → SetsApart ts →
      ∀ n, ((Reader.ofSource (String.ofList (spaced ts))).steps n).next.1.map
        (Except.map Token.terminal) = ts[n]?.map fun t => .ok t.1) ∧
    ∀ source n token, ((Reader.ofSource source).steps n).next.1 = some (.ok token) →
      token.terminal.Spelled := by
  refine ⟨fun ts hs ha n => ?_, fun source n token h => ?_⟩
  · have hcut : (pieces (String.ofList (spaced ts))).map Piece.outcome =
        (ts.map Prod.fst).map .ok := by
      rw [pieces, String.toList_ofList]
      exact (laid_spaced hs ha).outcomes_piecesFrom {}
    rw [Reader.terminal_steps hcut, List.getElem?_map, Option.map_map]
    rfl
  · exact spelled_of_mem_scan (Reader.mem_terminalsOf h)

/-- Marks that would start a comment, a number with zeros in front, a name with a quote in it, a
string that looks like code, a keyword, and blanks of several kinds. -/
def spacedSample : List (Terminal × List Char) :=
  [(.symbol '/', [' ']), (.symbol '/', ['\t', '\n']), (.integer "007", ['\u3000']),
    (.identifier "a\"1", ['\r']), (.text "let x // ", ['\u0085', ' ']), (.keyword .while, [])]

theorem Terminal.read_spaced_sample :
    let source := "/ /\t\n007\u3000a\"1\r\"let x // \"\u0085 while"
    String.ofList (spaced spacedSample) = source ∧ (∀ t ∈ spacedSample, t.1.Spelled) ∧
      SetsApart spacedSample ∧
      ∃ token, ((Reader.ofSource source).steps 3).next.1 = some (.ok token) ∧
        token.terminal = .identifier "a\"1" ∧ token.terminal.Spelled := by
  intro source
  have hsource : String.ofList (spaced spacedSample) = source := by decide
  have hs : ∀ t ∈ spacedSample, t.1.Spelled := by decide
  have ha : SetsApart spacedSample := by decide
  have hread := read_spaced.1 spacedSample hs ha 3
  rw [hsource] at hread
  obtain ⟨item, hitem, ht⟩ := Option.map_eq_some_iff.1 hread
  cases item with
  | error e => cases ht
  | ok token =>
    exact ⟨hsource, hs, ha, token, hitem, Except.ok.inj ht, read_spaced.2 source 3 token hitem⟩

end JackStack
