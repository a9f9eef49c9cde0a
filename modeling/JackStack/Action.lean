import JackStack.Error

/-!
# Action — operations that may fail and keep what they did

An action on a state either returns a value or stops with a compile error. Either way the state it
leaves is kept: a failed write has used up its sink, a bad token has been passed.

* `Action.bind_eq_ok` — a sequence succeeds exactly if its parts do, one after the other.
-/

namespace JackStack

/-- **An action on a state of type `σ`.** -/
abbrev Action (σ : Type) := EStateM CompileError σ

namespace Action

variable {σ α β : Type}

theorem bind_eq_ok {a : Action σ α} {f : α → Action σ β} {s s' : σ} {y : β} :
    (a >>= f) s = .ok y s' ↔ ∃ x t, a s = .ok x t ∧ f x t = .ok y s' := by
  show EStateM.bind a f s = _ ↔ _
  unfold EStateM.bind
  cases a s <;> simp [and_assoc]

end Action

end JackStack
