import JackStack.Proofs.Following
import JackStack.Proofs.Refinement

/-!
# Proofs/Descent — every way back to a production consumes a token

Doing a goal leaves other goals. In a loop the goal itself is among them, and where the grammar is
recursive, so is one that leads back to it. Neither can go on without tokens: a goal that consumes
none leaves lighter goals only, so on the way from a goal to another one of its production a token
has been consumed. What the tokens are, and whether they can be compiled, does not matter.

To speak of such ways, the goals of an agenda remember the goals that they come from.

    ( - x )     term        4 tokens left, comes from nothing here
                expression  3, from term
                term        3, from expression, term        a token less than the first
                term        2, from term, expression, term  a token less again

* `Heir`, `Session.Inherits` — goals with their ancestors, and how an agenda of them is worked off.
* `Heir.Descends`, `Session.Inherits.descends` — the invariant: ancestors had more tokens left, or
  as many and more weight.
* `Session.runFor` — an agenda worked off with so many goals at most.
* `Session.run_descends` — no way back without a token, so a number of goals in proportion to that
  of tokens is enough.
-/

namespace JackStack

/-! ## Productions -/

namespace Goal

/-- **Goals of one production** differ in their parameters only. -/
def Akin (g h : Goal) : Prop :=
  g.ctorIdx = h.ctorIdx

/-- A goal of each production that weighs more than one. -/
def heavy : List Goal :=
  [.moreVariables .static "", .parameters, .expression, .call "", .moreArguments "" 0,
    .reference "" 0, .returned, .assignment default, .arguments "" 0, .receiver "" "", .conditional,
    .loop]

theorem weight_eq_heavy (g : Goal) :
    g.weight = ((heavy.find? (·.ctorIdx = g.ctorIdx)).map weight).getD 1 := by
  cases g <;> rfl

/-- The weight of a goal is that of its production. -/
theorem Akin.weight_eq {g h : Goal} (hgh : g.Akin h) : g.weight = h.weight := by
  rw [weight_eq_heavy, weight_eq_heavy h, hgh]

theorem weight_le (g : Goal) : g.weight ≤ 14 := by
  fun_cases weight g <;> decide

theorem weight_le_weights {g : Goal} {gs : List Goal} (h : g ∈ gs) : g.weight ≤ weights gs := by
  induction gs with
  | nil => cases h
  | cons g' gs ih =>
    rw [weights_cons]
    rcases List.mem_cons.mp h with rfl | h
    · exact Nat.le_add_right _ _
    · exact Nat.le_add_left_of_le (ih h)

end Goal

namespace Session

variable {g : Goal} {gs goals rest : List Goal} {s s' t : Session}

/-- **A goal that is done consumes a token, or leaves lighter goals only.** -/
theorem perform_descends (h : perform g s = .ok gs s') :
    s'.input.remaining < s.input.remaining ∨
      s'.input.remaining = s.input.remaining ∧ ∀ g' ∈ gs, g'.weight < g.weight := by
  have hpays := perform_pays g h
  have hweight := g.weight_le
  simp only [cost, tokenWeight] at hpays
  by_cases hless : s'.input.remaining < s.input.remaining
  · exact .inl hless
  · refine .inr ⟨by omega, fun g' hg' => ?_⟩
    have := Goal.weight_le_weights hg'
    omega

end Session

/-! ## Goals that remember -/

/-- **A goal with its ancestors**: the goals that it comes from, the latest first, and how many
tokens were left when each of these was taken up. -/
structure Heir where
  goal : Goal
  ancestors : List (Goal × Nat)

namespace Heir

/-- A goal that comes from no other. -/
def root (g : Goal) : Heir :=
  ⟨g, []⟩

theorem map_goal_root (gs : List Goal) : (gs.map root).map goal = gs := by
  simp [root, Function.comp_def]

/-- **The goals that are left** by doing one when so many tokens were left. -/
def heirs (x : Heir) (remaining : Nat) (goals : List Goal) : List Heir :=
  goals.map (⟨·, (x.goal, remaining) :: x.ancestors⟩)

theorem map_goal_heirs (x : Heir) (remaining : Nat) (goals : List Goal) :
    (x.heirs remaining goals).map goal = goals := by
  simp [heirs, Function.comp_def]

/-- **The ancestors had more tokens left, or as many and more weight.** -/
def Descends (x : Heir) (remaining : Nat) : Prop :=
  ∀ a ∈ x.ancestors, remaining < a.2 ∨ remaining = a.2 ∧ x.goal.weight < a.1.weight

theorem descends_root (g : Goal) (remaining : Nat) : (root g).Descends remaining :=
  List.forall_mem_nil _

theorem Descends.mono {x : Heir} {m n : Nat} (h : x.Descends n) (hmn : m ≤ n) : x.Descends m := by
  intro a ha
  rcases h a ha with hless | ⟨rfl, hweight⟩
  · exact .inl (Nat.lt_of_le_of_lt hmn hless)
  · exact (Nat.lt_or_eq_of_le hmn).imp_right fun heq => ⟨heq, hweight⟩

end Heir

namespace Session

variable {g : Goal} {gs hs goals rest : List Goal} {s s' t : Session} {x : Heir} {xs ys : List Heir}

/-- **The step**: what doing a goal leaves descends from it, and from its ancestors. -/
theorem descends_heirs (hx : x.Descends s.input.remaining) (h : perform x.goal s = .ok goals s') :
    ∀ y ∈ x.heirs s.input.remaining goals, y.Descends s'.input.remaining := by
  intro y hy
  obtain ⟨g, hg, rfl⟩ := List.mem_map.mp hy
  rintro a ha
  rcases perform_descends h with hless | ⟨heq, hlighter⟩
  · rcases List.mem_cons.mp ha with rfl | ha
    · exact .inl hless
    · exact .inl (by rcases hx a ha with h | ⟨h, -⟩ <;> omega)
  · have hg := hlighter g hg
    rcases List.mem_cons.mp ha with rfl | ha
    · exact .inr ⟨heq, hg⟩
    · rw [heq]
      exact (hx a ha).imp_right fun h => ⟨h.1, Nat.lt_trans hg h.2⟩

/-- **An agenda that remembers leads to another**, its goals being done one by one. -/
inductive Inherits : List Heir → Session → List Heir → Session → Prop
  | refl (xs : List Heir) (s : Session) : Inherits xs s xs s
  | step {x : Heir} {rest ys : List Heir} {goals : List Goal} {s s₁ t : Session}
    (h : perform x.goal s = .ok goals s₁)
    (hn : Inherits (x.heirs s.input.remaining goals ++ rest) s₁ ys t) : Inherits (x :: rest) s ys t

/-- **The run**: all goals of the agenda descend from their ancestors. -/
theorem Inherits.descends (h : Inherits xs s ys t) (hs : ∀ x ∈ xs, x.Descends s.input.remaining) :
    ∀ y ∈ ys, y.Descends t.input.remaining := by
  induction h with
  | refl => exact hs
  | @step x rest ys goals s s₁ t hp hn ih =>
    obtain ⟨hx, hrest⟩ := List.forall_mem_cons.mp hs
    refine ih (List.forall_mem_append.mpr ⟨descends_heirs hx hp, fun y hy => ?_⟩)
    refine (hrest y hy).mono ?_
    rcases perform_descends hp with hless | ⟨heq, -⟩
    · exact Nat.le_of_lt hless
    · exact Nat.le_of_eq heq

/-- **Every run can be remembered.** -/
theorem Proceeds.inherits {ts : List Terminal} (h : Proceeds gs s ts hs t)
    (hxs : xs.map Heir.goal = gs) : ∃ ys, ys.map Heir.goal = hs ∧ Inherits xs s ys t := by
  induction h generalizing xs with
  | refl gs s => exact ⟨xs, hxs, .refl xs s⟩
  | @step g rest goals hs s s₁ t ts us hp hr hn ih =>
    obtain ⟨x, xs, rfl, rfl, rfl⟩ := List.map_eq_cons_iff.mp hxs
    have hnext : (x.heirs s.input.remaining goals ++ xs).map Heir.goal
        = goals ++ xs.map Heir.goal := by
      rw [List.map_append, x.map_goal_heirs]
    obtain ⟨ys, hys, hinherits⟩ := ih hnext
    exact ⟨ys, hys, .step hp hinherits⟩

/-! ## How many goals are done -/

/-- **Works through an agenda with so many goals at most**, each of them done by `act`; nothing, if
that is not enough. -/
def runFor (act : Goal → Action Session (List Goal)) :
    Nat → List Goal → Session → Option (Result Unit)
  | _, [], s => some (.ok () s)
  | 0, _ :: _, _ => none
  | n + 1, g :: rest, s =>
    match act g s with
    | .ok goals s' => runFor act n (goals ++ rest) s'
    | .error e s' => some (.error e s')

/-- **The cost of an agenda bounds the number of goals.** -/
theorem runFor_eq_run {fuel : Nat} (h : cost gs s ≤ fuel) :
    runFor perform fuel gs s = some (run gs s) := by
  induction fuel generalizing gs s with
  | zero =>
    cases gs with
    | nil => rw [runFor, run]
    | cons g rest =>
      have : 0 < g.weight := by fun_cases Goal.weight g <;> decide
      simp only [cost, Goal.weights_cons] at h
      omega
  | succ fuel ih =>
    cases gs with
    | nil => rw [runFor, run]
    | cons g rest =>
      rw [runFor]
      cases hp : perform g s with
      | ok goals s' =>
        have hpays := perform_pays g hp
        rw [run_of_perform hp]
        refine ih ?_
        simp only [cost, Goal.weights_append, Goal.weights_cons] at *
        omega
      | error e s' => rw [run_of_perform_error hp]

end Session

theorem Lookahead.remaining_ofItems {items : List (Except CompileError Token)} {input : Lookahead}
    (h : ofItems items = .ok input) : input.remaining = items.length := by
  match items, h with
  | [], rfl => rfl
  | .ok token :: rest, rfl => rfl

/-- **Every way back to a production consumes a token**, whatever the tokens are. A run of a class
can be followed with every goal remembering those that it comes from. Where a goal is taken up again
in a loop or inside another one of its production, fewer tokens are left than were left for that.
So the run is over after sixteen goals for each token and eight more. -/
theorem Session.run_descends {items : List (Except CompileError Token)} {input : Lookahead}
    (sink : Sink) (h : Lookahead.ofItems items = .ok input) :
    (∀ ts gs t, Proceeds Goal.classGoals (start input sink) ts gs t →
      ∃ ys, ys.map Heir.goal = gs ∧
        Inherits (Goal.classGoals.map .root) (start input sink) ys t) ∧
    (∀ x rest t, Inherits (Goal.classGoals.map .root) (start input sink) (x :: rest) t →
      ∀ a ∈ x.ancestors, a.1.Akin x.goal → t.input.remaining < a.2) ∧
    ∀ fuel, 16 * items.length + 8 ≤ fuel →
      runFor perform fuel Goal.classGoals (start input sink)
        = some (run Goal.classGoals (start input sink)) := by
  refine ⟨fun ts gs t hp => hp.inherits (Heir.map_goal_root _), fun x rest t hi a ha hakin => ?_,
    fun fuel hfuel => runFor_eq_run ?_⟩
  · have hroots : ∀ y ∈ Goal.classGoals.map Heir.root,
        y.Descends (start input sink).input.remaining := by
      intro y hy
      obtain ⟨g, -, rfl⟩ := List.mem_map.mp hy
      exact Heir.descends_root g _
    rcases hi.descends hroots x List.mem_cons_self a ha with hless | ⟨-, hweight⟩
    · exact hless
    · rw [hakin.weight_eq] at hweight
      exact absurd hweight (Nat.lt_irrefl _)
  · have hclass : Goal.weights Goal.classGoals = 8 := rfl
    have hremaining := Lookahead.remaining_ofItems h
    simp only [cost, tokenWeight, hclass, start, hremaining]
    omega

/-- A class that breaks off in its second variable: `class A { static int x, y "`. -/
def brokenOff : List (Except CompileError Token) :=
  [.keyword .class, .identifier "A", .symbol '{', .keyword .static, .keyword .int, .identifier "x",
    .symbol ',', .identifier "y"].map (fun t => .ok ⟨t, default⟩) ++
    [.error (.lexical 1 .unterminatedString)]

def brokenOffInput : Lookahead :=
  ⟨some ⟨.keyword .class, default⟩, brokenOff.tail, 1⟩

theorem Session.run_descends_brokenOff :
    Lookahead.ofItems brokenOff = .ok brokenOffInput ∧
      runFor perform 152 Goal.classGoals (start brokenOffInput {})
        = some (run Goal.classGoals (start brokenOffInput {})) ∧
      ∃ x rest t, Inherits (Goal.classGoals.map .root) (start brokenOffInput {}) (x :: rest) t ∧
        x.goal = .variableName .static "int" ∧ (.variableName .static "int", 4) ∈ x.ancestors ∧
        t.input.remaining < 4 := by
  have hitems : Lookahead.ofItems brokenOff = .ok brokenOffInput := rfl
  obtain ⟨-, hback, hfuel⟩ := run_descends {} hitems
  -- the second variable comes from the comma behind the first one
  have hloop : ∃ x rest t,
      Inherits (Goal.classGoals.map .root) (start brokenOffInput {}) (x :: rest) t ∧
        x.goal = .variableName .static "int" ∧ (.variableName .static "int", 4) ∈ x.ancestors :=
    ⟨_, _, _, .step rfl (.step rfl (.step rfl (.step rfl (.step rfl (.step rfl (.step rfl
      (.step rfl (.refl _ _)))))))), rfl, List.mem_cons_of_mem _ List.mem_cons_self⟩
  obtain ⟨x, rest, t, hi, hx, ha⟩ := hloop
  exact ⟨hitems, hfuel 152 (by decide), x, rest, t, hi, hx, ha,
    hback x rest t hi _ ha (by rw [hx]; rfl)⟩

end JackStack
