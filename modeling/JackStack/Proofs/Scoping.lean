import Mathlib.Data.List.Basic
import JackStack.Proofs.GoalStep

/-!
# Proofs/Scoping — the scopes are a function of the declarations

Whatever order declarations are made in, the scopes they lead to can be written down: the entries of
the class, the entries of the subroutine, and how many there are of each kind. So a name means in a
session what it means in the tree.

* `Scopes.lookup_ofDeclarations` — a name means its latest declaration, the subroutine's first.
* `RoutineDecl.context_eq` — a session with these scopes translates in the context of the tree.
-/

namespace JackStack

namespace Declaration

/-- **The entries of declarations**, the latest first. -/
def entries : List Declaration → Scope
  | [] => []
  | d :: earlier =>
    (d.name, ⟨d.type, d.kind, earlier.countP (·.kind = d.kind)⟩) :: entries earlier

theorem lookup_entries (name : String) (ds : List Declaration) :
    (entries ds).lookup name = find? name ds := by
  induction ds with
  | nil => rfl
  | cons d earlier ih =>
    by_cases h : d.name = name
    · simp [entries, find?, h]
    · have hb : (name == d.name) = false := beq_false_of_ne (Ne.symm h)
      simp [entries, find?, List.lookup_cons, h, hb, ih]

theorem isSome_find?_iff {name : String} {ds : List Declaration} :
    (find? name ds).isSome ↔ name ∈ ds.map Declaration.name := by
  induction ds with
  | nil => simp [find?]
  | cons d earlier ih =>
    by_cases h : d.name = name
    · simp [find?, h]
    · simp [find?, h, ih, Ne.symm h]

end Declaration

/-! ## Scopes -/

namespace Scopes

/-- **The scopes that declarations lead to**, those of the class and those of a subroutine. -/
def ofDeclarations (cs rs : List Declaration) : Scopes where
  classScope := Declaration.entries cs.reverse
  routineScope := Declaration.entries rs.reverse
  statics := cs.countP (·.kind = .static)
  fields := cs.countP (·.kind = .field)
  arguments := rs.countP (·.kind = .argument)
  locals := rs.countP (·.kind = .local)

variable {cs rs ds : List Declaration}

theorem ofDeclarations_nil : ofDeclarations [] [] = {} := rfl

theorem enterRoutine_ofDeclarations :
    (ofDeclarations cs rs).enterRoutine = ofDeclarations cs [] := rfl

theorem declare_class {d : Declaration} (h : d.kind.ofClass = true) :
    (ofDeclarations cs rs).declare d.name d.type d.kind = ofDeclarations (cs ++ [d]) rs := by
  obtain ⟨name, type, kind⟩ := d
  cases kind with
  | static | field =>
    simp [ofDeclarations, declare, countUp, fresh, count, VariableKind.ofClass,
      Declaration.entries]
  | argument | «local» => cases h

theorem declare_routine {d : Declaration} (h : d.kind.ofClass = false) :
    (ofDeclarations cs rs).declare d.name d.type d.kind = ofDeclarations cs (rs ++ [d]) := by
  obtain ⟨name, type, kind⟩ := d
  cases kind with
  | argument | «local» =>
    simp [ofDeclarations, declare, countUp, fresh, count, VariableKind.ofClass,
      Declaration.entries]
  | static | field => cases h

theorem declareAll_class (h : ∀ d ∈ ds, d.kind.ofClass = true) :
    (ofDeclarations cs rs).declareAll ds = ofDeclarations (cs ++ ds) rs := by
  induction ds generalizing cs with
  | nil => simp [declareAll]
  | cons d ds ih =>
    obtain ⟨hd, h⟩ := List.forall_mem_cons.mp h
    have ih := @ih (cs ++ [d]) h
    rw [List.append_assoc, List.singleton_append] at ih
    rw [← ih, declareAll, List.foldl_cons, declare_class hd, declareAll]

theorem declareAll_routine (h : ∀ d ∈ ds, d.kind.ofClass = false) :
    (ofDeclarations cs rs).declareAll ds = ofDeclarations cs (rs ++ ds) := by
  induction ds generalizing rs with
  | nil => simp [declareAll]
  | cons d ds ih =>
    obtain ⟨hd, h⟩ := List.forall_mem_cons.mp h
    have ih := @ih (rs ++ [d]) h
    rw [List.append_assoc, List.singleton_append] at ih
    rw [← ih, declareAll, List.foldl_cons, declare_routine hd, declareAll]

/-- **A name means its latest declaration**, the subroutine's before the class's. -/
theorem lookup_ofDeclarations (name : String) :
    (ofDeclarations cs rs).lookup name =
      (Declaration.find? name rs.reverse).or (Declaration.find? name cs.reverse) := by
  simp only [lookup, ofDeclarations, Declaration.lookup_entries]

end Scopes

/-! ## The declarations of a tree -/

theorem ClassDecl.ofClass_declarations (c : ClassDecl) :
    ∀ d ∈ c.declarations, d.kind.ofClass = true := by
  intro d hd
  obtain ⟨v, -, hd⟩ := List.mem_flatMap.mp hd
  cases v with
  | statics l | fields l =>
    obtain ⟨name, -, rfl⟩ := List.mem_map.mp hd
    rfl

theorem RoutineDecl.ofClass_declarations (r : RoutineDecl) (className : String) :
    ∀ d ∈ r.declarations className, d.kind.ofClass = false := by
  intro d hd
  rw [RoutineDecl.declarations, List.mem_append, List.mem_append] at hd
  obtain (hd | hd) | hd := hd
  · unfold RoutineKind.receiver at hd
    split at hd
    · rw [List.mem_singleton.mp hd]
      rfl
    · cases hd
  · obtain ⟨p, -, rfl⟩ := List.mem_map.mp hd
    rfl
  · obtain ⟨l, -, hd⟩ := List.mem_flatMap.mp hd
    obtain ⟨name, -, rfl⟩ := List.mem_map.mp hd
    rfl

/-- The fields of a class are its declarations of that kind. -/
theorem ClassDecl.countP_field (c : ClassDecl) :
    c.declarations.countP (·.kind = .field) = c.fieldCount := by
  obtain ⟨name, vs, rs⟩ := c
  simp only [ClassDecl.declarations, ClassDecl.fieldCount]
  induction vs with
  | nil => rfl
  | cons v vs ih =>
    rw [List.flatMap_cons, List.countP_append, ih, List.map_cons, List.sum_cons]
    congr 1
    cases v with
    | statics l =>
      simp [ClassVariables.declarations, VariableList.declarations, ClassVariables.fieldCount]
    | fields l =>
      simp [ClassVariables.declarations, VariableList.declarations, ClassVariables.fieldCount]

/-- The locals of a subroutine are its declarations of that kind. -/
theorem RoutineDecl.countP_local (r : RoutineDecl) (className : String) :
    (r.declarations className).countP (·.kind = .local) = r.localCount := by
  have hr : (r.kind.receiver className).countP (·.kind = .local) = 0 := by
    unfold RoutineKind.receiver
    split <;> rfl
  have hp : (r.parameters.map Parameter.declaration).countP (·.kind = .local) = 0 := by
    simp [List.countP_eq_zero, Parameter.declaration]
  have hl : (r.locals.flatMap (·.declarations .local)).countP (·.kind = .local)
      = r.localCount := by
    simp only [RoutineDecl.localCount]
    induction r.locals with
    | nil => rfl
    | cons l ls ih =>
      rw [List.flatMap_cons, List.countP_append, ih, List.flatMap_cons, List.length_append]
      simp [VariableList.declarations]
  rw [RoutineDecl.declarations, List.countP_append, List.countP_append, hr, hp, hl]
  omega

theorem ClassDecl.map_name_declarations (c : ClassDecl) :
    c.declarations.map Declaration.name = c.names := by
  rw [ClassDecl.declarations, ClassDecl.names, List.map_flatMap]
  congr 1
  funext v
  cases v <;> simp [ClassVariables.declarations, VariableList.declarations, ClassVariables.list,
    Function.comp_def]

theorem RoutineDecl.mem_map_name_declarations {r : RoutineDecl} {className name : String}
    (h : name ≠ "this") :
    name ∈ (r.declarations className).map Declaration.name ↔ name ∈ r.names := by
  have hr : name ∉ (r.kind.receiver className).map Declaration.name := by
    unfold RoutineKind.receiver
    split <;> simp [h]
  have hp : (r.parameters.map Parameter.declaration).map Declaration.name
      = r.parameters.map Parameter.name := by
    simp [Parameter.declaration, Function.comp_def]
  have hl : (r.locals.flatMap (·.declarations .local)).map Declaration.name
      = r.locals.flatMap VariableList.names := by
    simp [List.map_flatMap, VariableList.declarations, Function.comp_def]
  simp only [RoutineDecl.declarations, RoutineDecl.names, List.map_append, List.mem_append, hp, hl,
    hr, false_or]

/-- **A name is resolved exactly if it is declared**, the object of a method apart. -/
theorem RoutineDecl.isSome_resolve_iff {r : RoutineDecl} {c : ClassDecl} {name : String}
    (h : name ≠ "this") :
    ((r.context c).resolve name).isSome ↔ name ∈ c.names ∨ name ∈ r.names := by
  simp only [RoutineDecl.context, Option.isSome_or, Bool.or_eq_true, Declaration.isSome_find?_iff,
    List.map_reverse, List.mem_reverse, ClassDecl.map_name_declarations,
    RoutineDecl.mem_map_name_declarations h]
  exact Or.comm

/-- **The scopes of a subroutine translate in its context.** -/
theorem RoutineDecl.context_eq {r : RoutineDecl} {c : ClassDecl} {s : Session}
    (hs : s.scopes = .ofDeclarations c.declarations (r.declarations c.name))
    (hc : s.className = c.name) (hr : s.routine.returnsVoid = r.returnType.isNone) :
    s.context = r.context c := by
  simp only [Session.context, RoutineDecl.context, hs, hc, hr]
  congr 1
  funext name
  exact Scopes.lookup_ofDeclarations name

/-- **The scopes of a subroutine give its prologue.** -/
theorem RoutineDecl.prologueCode_eq {r : RoutineDecl} {c : ClassDecl} {s : Session}
    (hs : s.scopes = .ofDeclarations c.declarations (r.declarations c.name))
    (hc : s.className = c.name) (hk : s.routine.kind = r.kind) (hn : s.routine.name = r.name) :
    s.prologueCode = r.prologue c := by
  have hl : s.scopes.count .local = r.localCount := by
    rw [hs]
    exact r.countP_local c.name
  have hf : s.scopes.count .field = c.fieldCount := by
    rw [hs]
    exact c.countP_field
  rw [Session.prologueCode, RoutineDecl.prologue, hc, hk, hn, hl, hf]
  cases r.kind <;> rfl

end JackStack
