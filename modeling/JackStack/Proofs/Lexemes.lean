import Mathlib.Data.List.TakeWhile
import JackStack.Proofs.Consumption
import JackStack.Token.Scan

/-!
# Proofs/Lexemes — what the tokens of a source look like

Cutting a source decides more about its tokens than their class: a name is a word of its own that is
no keyword, a constant is in range.

* `Terminal.spelled_of_mem_scan` — every token of a source is spelled as its class wants it.
-/

namespace JackStack

/-- **A word**: some characters, none of them blank or a symbol. -/
def IsWord (name : String) : Prop :=
  name.toList ≠ [] ∧ ∀ c ∈ name.toList, Cut.inWord c = true

instance (name : String) : Decidable (IsWord name) :=
  decidable_of_iff (name.toList ≠ [] ∧ name.toList.all Cut.inWord = true) (by
    rw [IsWord, List.all_eq_true])

/-- **A terminal is well-formed**: a name is a word that is no keyword, and a constant is in
range. -/
def Terminal.WellFormed : Terminal → Prop
  | .keyword _ => True
  | .symbol c => isSymbol c = true
  | .integer digits => Text.Decimal.value digits.toList ≤ maxConstant
  | .text body => ∀ c ∈ body.toList, c.toNat ≤ maxConstant
  | .identifier name => IsWord name ∧ Keyword.ofText? name = none

/-- **The characters that a name starts with**: neither a quote nor a digit. -/
def Cut.opensName (c : Char) : Bool :=
  c ≠ '"' && !c.isDigit

/-- **A terminal can be spelled out** as a piece of a source: beside being well-formed, an integer
is some digits, a string has neither quotes nor line feeds in it, and a name starts with neither a
quote nor a digit. -/
def Terminal.Spelled : Terminal → Prop
  | .keyword _ => True
  | .symbol c => isSymbol c = true
  | .integer digits => digits.toList ≠ [] ∧ (∀ c ∈ digits.toList, c.isDigit = true) ∧
      Text.Decimal.value digits.toList ≤ maxConstant
  | .text body => ∀ c ∈ body.toList, Cut.inText c = true ∧ c.toNat ≤ maxConstant
  | .identifier name => IsWord name ∧ Keyword.ofText? name = none ∧
      name.toList.head?.all Cut.opensName = true

instance (t : Terminal) : Decidable t.Spelled :=
  match t with
  | .keyword _ => isTrue trivial
  | .symbol c => inferInstanceAs (Decidable (isSymbol c = true))
  | .integer digits =>
    decidable_of_iff (digits.toList ≠ [] ∧ digits.toList.all Char.isDigit = true ∧
      Text.Decimal.value digits.toList ≤ maxConstant) (by rw [List.all_eq_true]; rfl)
  | .text body =>
    decidable_of_iff (body.toList.all (fun c => Cut.inText c && c.toNat ≤ maxConstant) = true)
      (by simp [Terminal.Spelled])
  | .identifier name => inferInstanceAs (Decidable (IsWord name ∧ Keyword.ofText? name = none ∧
      name.toList.head?.all Cut.opensName = true))

theorem Terminal.Spelled.wellFormed {t : Terminal} (h : t.Spelled) : t.WellFormed := by
  cases t with
  | keyword k => trivial
  | symbol c => exact h
  | integer digits => exact h.2.2
  | text body => exact fun c hc => (h c hc).2
  | identifier name => exact ⟨h.1, h.2.1⟩

namespace Cut

theorem spelled_text {cs : List Char} {t : Terminal} (h : (text cs).outcome = .ok t) :
    t.Spelled := by
  simp only [text, textOutcome] at h
  split at h
  · cases h
  split at h
  · cases h
  · next hn =>
    cases h
    intro c hc
    rw [String.toList_ofList] at hc
    exact ⟨List.mem_takeWhile_imp hc, by simpa using List.find?_eq_none.mp hn c hc⟩

theorem spelled_integer {c : Char} {cs : List Char} {t : Terminal} (hc : c.isDigit = true)
    (h : (integer (c :: cs)).outcome = .ok t) : t.Spelled := by
  simp only [integer] at h
  split at h
  · next hv =>
    cases h
    refine ⟨by simp [hc], fun d hd => ?_, by simpa using hv⟩
    rw [String.toList_ofList] at hd
    exact List.mem_takeWhile_imp hd
  · cases h

theorem spelled_word {c : Char} {cs : List Char} {t : Terminal} (hc : inWord c = true)
    (hq : c ≠ '"') (hd : c.isDigit = false) (h : (word (c :: cs)).outcome = .ok t) :
    t.Spelled := by
  simp only [word, wordTerminal] at h
  split at h
  · cases h
    trivial
  · next hk =>
    cases h
    refine ⟨⟨?_, ?_⟩, hk, ?_⟩
    · simp [hc]
    · intro d hd
      rw [String.toList_ofList] at hd
      exact List.mem_takeWhile_imp hd
    · simp [hc, opensName, hq, hd]

/-- **The piece at a character that is not blank is spelled** if it is a token. -/
theorem spelled_first {c : Char} {cs : List Char} {t : Terminal} (hb : Text.isBlank c = false)
    (h : (first c cs).outcome = .ok t) : t.Spelled := by
  unfold first at h
  split at h
  · next hs =>
    cases h
    exact hs
  split at h
  · exact spelled_text h
  split at h
  · next hd => exact spelled_integer hd h
  · next hs hq hd =>
    exact spelled_word (by simp [inWord, hb, hs]) hq (Bool.eq_false_iff.mpr hd) h

end Cut

theorem Piece.spelled_of_mem {p : Text.Position} {cs : List Char} {q : Piece} {t : Terminal}
    (hq : q ∈ piecesFrom p cs) (h : q.outcome = .ok t) : t.Spelled := by
  fun_induction piecesFrom p cs with
  | case1 => cases hq
  | case2 p c cs hb ih => exact ih hq
  | case3 p c cs hb cut ih =>
    cases List.mem_cons.mp hq with
    | inl he =>
      subst he
      exact Cut.spelled_first (Bool.eq_false_iff.mpr hb) h
    | inr hm => exact ih hm

/-- **Every token of a source is spelled out** in it. -/
theorem Terminal.spelled_of_mem_scan {source : String} {t : Terminal}
    (h : t ∈ Lookahead.terminalsOf (scan source)) : t.Spelled := by
  obtain ⟨item, hi, ht⟩ := List.mem_filterMap.mp h
  obtain ⟨q, hq, rfl⟩ := List.mem_map.mp hi
  refine Piece.spelled_of_mem hq ?_
  simp only [Piece.item] at ht
  split at ht
  · next terminal ho =>
    cases ht
    exact ho
  · cases ht

/-- **Every token of a source is well-formed.** -/
theorem Terminal.wellFormed_of_mem_scan {source : String} {t : Terminal}
    (h : t ∈ Lookahead.terminalsOf (scan source)) : t.WellFormed :=
  (Terminal.spelled_of_mem_scan h).wellFormed

end JackStack
