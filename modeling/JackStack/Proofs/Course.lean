import JackStack.Proofs.Completion
import JackStack.Proofs.Following
import JackStack.Proofs.Refinement

/-!
# Proofs/Course — what reading leads to

Doing goals one after the other changes a session in few ways: it declares names that it reads, and
the object of a method, and its agenda stays one that can be finished. The variable of an assignment
comes up in the agenda exactly where `let` has just been read.

* `Session.effect_perform` — what one goal can do.
* `Session.Proceeds.settled` — right behind the last token read, the agenda is settled by the tokens
  read alone.
-/

namespace JackStack

open Vm (Command)

namespace Goal

variable {lined : Bool} {gs hs : List Goal}

/-! ## What agendas that are alike share -/

theorem fills_map_unlined (gs : List Goal) : fills (gs.map unlined) = fills gs := by
  induction gs with
  | nil => rfl
  | cons g gs ih =>
    have hg : g.unlined.fill = g.fill := by cases g <;> rfl
    rw [List.map_cons, fills_cons, fills_cons, hg, ih]

theorem Alike.fills_eq (h : Alike lined gs hs) : fills gs = fills hs := by
  rw [← fills_map_unlined gs, h.1, fills_map_unlined]

theorem assigned_mem_map_unlined : .assigned ∈ gs.map unlined ↔ .assigned ∈ gs := by
  rw [List.mem_map]
  constructor
  · rintro ⟨g, hg, hu⟩
    cases g with
    | assigned => exact hg
    | _ => cases hu
  · exact fun h => ⟨_, h, rfl⟩

theorem Alike.assigned_mem (h : Alike lined gs hs) : .assigned ∈ gs ↔ .assigned ∈ hs := by
  rw [← assigned_mem_map_unlined, h.1, assigned_mem_map_unlined]

theorem Alike.eq_assigned (h : Alike lined (.assigned :: gs) hs) :
    ∃ hs', hs = .assigned :: hs' ∧ Alike lined gs hs' := by
  obtain ⟨g, hs', rfl, hg, hgs⟩ := h.of_cons
  rcases hg.cases with rfl | ⟨name, line, line', hname, -⟩
  · exact ⟨hs', rfl, hgs⟩
  · cases hname

/-- The text of an agenda can be spelled out. -/
theorem Ready.spelled_fills (h : Ready gs) : ∀ t ∈ fills gs, t.Spelled := by
  induction gs with
  | nil => exact fun t ht => nomatch ht
  | cons g gs ih =>
    obtain ⟨hw, -, hr⟩ := h
    rw [fills_cons, List.forall_mem_append]
    refine ⟨?_, ih hr⟩
    cases g with
    | symbol c => exact List.forall_mem_singleton.mpr hw
    | keyword k => exact List.forall_mem_singleton.mpr trivial
    | _ =>
      simp only [fill]
      decide

end Goal

namespace Scopes

theorem lookup_declare (s : Scopes) {name other type : String} {kind : VariableKind}
    (h : ((s.declare name type kind).lookup other).isSome) :
    (s.lookup other).isSome ∨ other = name := by
  by_cases hn : other = name
  · exact .inr hn
  · rw [lookup_declare_of_ne hn] at h
    exact .inl h

theorem lookup_enterRoutine (s : Scopes) {name : String}
    (h : (s.enterRoutine.lookup name).isSome) : (s.lookup name).isSome := by
  simp only [enterRoutine, lookup, List.lookup_nil, Option.none_or] at h
  simp [lookup, h]

end Scopes

namespace Session

open JackStack.Action (Returns)

variable {s s' s₁ t : Session} {g : Goal} {gs rest : List Goal} {ts us : List Terminal}

/-! ## What one goal can do -/

/-- **What doing a goal can do**: the variable of an assignment comes up exactly behind `let`, the
names declared are among those read, but for the object of a method, and the sink gets no limit. -/
structure Effect (gs : List Goal) (s s' : Session) (ts : List Terminal) : Prop where
  assigned : .assigned ∈ gs ↔ ts = [.keyword .let]
  scopes : ∀ name, (s'.scopes.lookup name).isSome →
    (s.scopes.lookup name).isSome ∨ name = "this" ∨ .identifier name ∈ ts
  unlimited : s.Unlimited → s'.Unlimited

/-- A goal stays where it is. -/
theorem effect_stay (hr : s.input.Reads ts s'.input) (hi : s'.input = s.input)
    (hsc : s'.scopes = s.scopes) (hu : s.Unlimited → s'.Unlimited) (hgs : .assigned ∉ gs) :
    Effect gs s s' ts := by
  rw [hi] at hr
  obtain rfl := hr.eq_nil
  exact ⟨iff_of_false hgs nofun, fun name h => .inl (hsc ▸ h), hu⟩

/-- A goal stays where it is and writes. -/
theorem effect_write {code : List Command} (hr : s.input.Reads ts (s.wrote code).input)
    (hgs : .assigned ∉ gs) : Effect gs s (s.wrote code) ts :=
  effect_stay hr rfl rfl unlimited_after.mpr hgs

/-- A goal takes a token other than `let`, and declares no other name than that token. -/
theorem effect_take {x : Terminal} (hr : s.input.Reads ts s'.input) (ht : s.Takes x s₁)
    (hi : s'.input = s₁.input)
    (hsc : ∀ name, (s'.scopes.lookup name).isSome →
      (s₁.scopes.lookup name).isSome ∨ name = "this" ∨ .identifier name = x)
    (hu : s₁.Unlimited → s'.Unlimited) (hx : x ≠ .keyword .let) (hgs : .assigned ∉ gs) :
    Effect gs s s' ts := by
  obtain ⟨i, hreads, rfl⟩ := takes_iff.mp ht
  rw [hi] at hr
  obtain rfl := hr.left_unique hreads
  exact ⟨iff_of_false hgs (by simpa using hx), by simpa using hsc, hu⟩

/-- A goal takes a token other than `let` and declares nothing. -/
theorem effect_pass {x : Terminal} (hr : s.input.Reads ts s'.input) (ht : s.Takes x s')
    (hx : x ≠ .keyword .let) (hgs : .assigned ∉ gs) : Effect gs s s' ts :=
  effect_take hr ht rfl (fun _ => .inl) id hx hgs

/-- A goal takes a token other than `let` and writes. -/
theorem effect_pass_write {x : Terminal} {code : List Command}
    (hr : s.input.Reads ts (s₁.wrote code).input) (ht : s.Takes x s₁) (hx : x ≠ .keyword .let)
    (hgs : .assigned ∉ gs) : Effect gs s (s₁.wrote code) ts :=
  effect_take hr ht rfl (fun _ => .inl) unlimited_after.mpr hx hgs

/-- A goal takes a name and declares it. -/
theorem effect_declare {name type : String} {kind : VariableKind}
    (hr : s.input.Reads ts (s₁.declared [⟨name, type, kind⟩]).input)
    (ht : s.Takes (.identifier name) s₁) (hgs : .assigned ∉ gs) :
    Effect gs s (s₁.declared [⟨name, type, kind⟩]) ts := by
  refine effect_take hr ht rfl (fun other h => ?_) id nofun hgs
  have h : ((s₁.scopes.declare name type kind).lookup other).isSome := h
  exact (Scopes.lookup_declare _ h).imp_right fun h => .inr (congrArg _ h)

/-- Behind `let` comes the variable of an assignment. -/
theorem effect_let (hr : s.input.Reads ts s'.input) (ht : s.Takes (.keyword .let) s')
    (hgs : .assigned ∈ gs) : Effect gs s s' ts := by
  obtain ⟨i, hreads, rfl⟩ := takes_iff.mp ht
  obtain rfl := hr.left_unique hreads
  exact ⟨iff_of_true hgs rfl, fun name h => .inl h, id⟩

/-- **What doing a goal does** to the agenda and to the scopes. -/
theorem effect_perform (hg : g ≠ .keyword .let) (hp : Returns (perform g) s gs s')
    (hr : s.input.Reads ts s'.input) : Effect gs s s' ts := by
  cases g with
  | symbol c =>
    obtain ⟨ht, rfl⟩ := perform_symbol.mp hp
    exact effect_pass hr ht (by simp) (by simp)
  | keyword k =>
    obtain ⟨ht, rfl⟩ := perform_keyword.mp hp
    exact effect_pass hr ht (by simpa using hg) (by simp)
  | write commands =>
    obtain ⟨⟨-, rfl⟩, rfl⟩ := perform_write.mp hp
    exact effect_write hr (by simp)
  | operate operator unary =>
    obtain ⟨⟨c, -, -, rfl⟩, rfl⟩ := perform_operate.mp hp
    exact effect_write hr (by simp)
  | className =>
    obtain ⟨name, s₁, ht, rfl, rfl⟩ := perform_className.mp hp
    exact effect_take hr ht rfl (fun _ => .inl) id (by simp) (by simp)
  | announceClass =>
    obtain ⟨rfl, rfl⟩ := perform_announceClass.mp hp
    exact effect_stay hr rfl rfl id (by simp)
  | classVariables =>
    rcases perform_classVariables.mp hp with ⟨ht, rfl⟩ | ⟨ht, rfl⟩ | ⟨-, rfl, rfl⟩
    · exact effect_pass hr ht (by simp) (by simp)
    · exact effect_pass hr ht (by simp) (by simp)
    · exact effect_stay hr rfl rfl id (by simp)
  | routines =>
    rcases perform_routines.mp hp with ⟨kind, s₁, ht, rfl, rfl⟩ | ⟨-, rfl, rfl⟩
    · exact effect_take hr ht rfl (fun name h => .inl (Scopes.lookup_enterRoutine _ h)) id
        (by cases kind <;> decide) (by simp)
    · exact effect_stay hr rfl rfl id (by simp)
  | sourceEnd =>
    obtain ⟨-, rfl, rfl⟩ := perform_sourceEnd.mp hp
    exact effect_stay hr rfl rfl id (by simp)
  | variableType kind =>
    obtain ⟨type, ht, rfl⟩ := perform_variableType.mp hp
    exact effect_pass hr ht (by cases type <;> simp [TypeName.terminal]) (by simp)
  | variableName kind type =>
    obtain ⟨name, s₁, ht, rfl, rfl⟩ := perform_variableName.mp hp
    exact effect_declare hr ht (by simp)
  | moreVariables kind type =>
    rcases perform_moreVariables.mp hp with ⟨ht, rfl⟩ | ⟨-, rfl, rfl⟩
    · exact effect_pass hr ht (by simp) (by simp)
    · exact effect_stay hr rfl rfl id (by simp)
  | returnType kind =>
    obtain ⟨type, ht, rfl⟩ := perform_returnType.mp hp
    refine effect_pass hr ht ?_ (by simp)
    cases type with
    | none => simp [TypeName.returned]
    | some type => cases type <;> simp [TypeName.returned, TypeName.terminal]
  | routineName kind returnsVoid =>
    obtain ⟨name, s₁, ht, rfl, rfl⟩ := perform_routineName.mp hp
    refine effect_take hr ht rfl (fun other h => ?_) id (by simp) (by simp [routineGoals])
    cases kind with
    | method =>
      have h : ((s₁.scopes.declare "this" s₁.className .argument).lookup other).isSome := h
      exact (Scopes.lookup_declare _ h).imp_right .inl
    | _ => exact .inl h
  | parameters =>
    obtain ⟨rfl, ⟨-, rfl⟩ | ⟨-, rfl⟩⟩ := perform_parameters.mp hp
    · exact effect_stay hr rfl rfl id (by simp)
    · exact effect_stay hr rfl rfl id (by simp)
  | parameterType =>
    obtain ⟨type, ht, rfl⟩ := perform_parameterType.mp hp
    exact effect_pass hr ht (by cases type <;> simp [TypeName.terminal]) (by simp)
  | parameterName type =>
    obtain ⟨name, s₁, ht, rfl, rfl⟩ := perform_parameterName.mp hp
    exact effect_declare hr ht (by simp)
  | moreParameters =>
    rcases perform_moreParameters.mp hp with ⟨ht, rfl⟩ | ⟨-, rfl, rfl⟩
    · exact effect_pass hr ht (by simp) (by simp)
    · exact effect_stay hr rfl rfl id (by simp)
  | announceRoutine =>
    obtain ⟨rfl, rfl⟩ := perform_announceRoutine.mp hp
    exact effect_stay hr rfl rfl id (by simp)
  | localVariables =>
    rcases perform_localVariables.mp hp with ⟨ht, rfl⟩ | ⟨-, rfl, rfl⟩
    · exact effect_pass hr ht (by simp) (by simp)
    · exact effect_stay hr rfl rfl id (by simp)
  | prologue =>
    obtain ⟨⟨-, rfl⟩, rfl⟩ := perform_prologue.mp hp
    exact effect_write hr (by simp)
  | epilogue =>
    obtain ⟨hc, rfl⟩ := perform_epilogue.mp hp
    obtain ⟨w, rfl, hw⟩ := Closes.eq hc
    exact effect_stay hr rfl rfl hc.unlimited (by simp)
  | statements =>
    rcases perform_statements.mp hp with ⟨k, goals, hk, ht, rfl⟩ | ⟨-, rfl, rfl⟩
    · cases k with
      | «let» =>
        cases hk
        exact effect_let hr ht (by simp)
      | «if» | «while» | «do» | «return» =>
        cases hk
        exact effect_pass hr ht (by simp) (by simp)
      | _ => cases hk
    · exact effect_stay hr rfl rfl id (by simp)
  | assigned =>
    obtain ⟨name, v, ht, -, rfl⟩ := perform_assigned.mp hp
    exact effect_pass hr ht (by simp) (by simp)
  | assignment target =>
    rcases perform_assignment.mp hp with ⟨ht, rfl⟩ | ⟨-, rfl, rfl⟩
    · exact effect_pass hr ht (by simp) (by simp)
    · exact effect_stay hr rfl rfl id (by simp)
  | conditional =>
    obtain ⟨rfl, rfl⟩ := perform_conditional.mp hp
    exact effect_stay hr rfl rfl id (by simp [Goal.condition, Goal.block])
  | loop =>
    obtain ⟨rfl, rfl⟩ := perform_loop.mp hp
    exact effect_stay hr rfl rfl id (by simp [Goal.condition, Goal.block])
  | otherwise =>
    rcases perform_otherwise.mp hp with ⟨ht, rfl⟩ | ⟨-, rfl, rfl⟩
    · exact effect_pass hr ht (by simp) (by simp [Goal.block])
    · exact effect_stay hr rfl rfl id (by simp)
  | performed =>
    obtain ⟨name, ht, rfl⟩ := perform_performed.mp hp
    exact effect_pass hr ht (by simp) (by simp)
  | returned =>
    obtain ⟨rfl, ⟨-, rfl⟩ | ⟨-, rfl⟩⟩ := perform_returned.mp hp
    · exact effect_stay hr rfl rfl id (by simp)
    · exact effect_stay hr rfl rfl id (by simp)
  | expression =>
    obtain ⟨rfl, rfl⟩ := perform_expression.mp hp
    exact effect_stay hr rfl rfl id (by simp)
  | moreTerms =>
    rcases perform_moreTerms.mp hp with ⟨op, ht, rfl⟩ | ⟨-, rfl, rfl⟩
    · exact effect_pass hr ht (by simp) (by simp)
    · exact effect_stay hr rfl rfl id (by simp)
  | term =>
    rcases perform_term_cases hp with ⟨digits, h⟩ | ⟨body, h⟩ | ⟨c, h⟩ | h | ⟨op, h⟩ | ⟨name, h⟩
    · obtain ⟨s₁, ht, ⟨-, rfl⟩, rfl⟩ := (perform_term_integer h).mp hp
      exact effect_pass_write hr ht (by simp) (by simp)
    · obtain ⟨s₁, ht, ⟨-, rfl⟩, rfl⟩ := (perform_term_text h).mp hp
      exact effect_pass_write hr ht (by simp) (by simp)
    · obtain ⟨_, ⟨-, rfl⟩, ht, rfl⟩ := (perform_term_constant h).mp hp
      obtain ⟨hasg, hsc, hu⟩ := effect_pass (s := s.wrote c.code) hr ht (by cases c <;> decide)
        (List.not_mem_nil (a := Goal.assigned))
      exact ⟨hasg, hsc, fun h => hu (unlimited_after.mpr h)⟩
    · obtain ⟨ht, rfl⟩ := (perform_term_group h).mp hp
      exact effect_pass hr ht (by simp) (by simp)
    · obtain ⟨ht, rfl⟩ := (perform_term_unary h).mp hp
      exact effect_pass hr ht (by simp) (by simp)
    · obtain ⟨line, hiff⟩ := perform_term_identifier h
      obtain ⟨ht, rfl⟩ := hiff.mp hp
      exact effect_pass hr ht (by simp) (by simp)
  | reference name line =>
    rcases perform_reference.mp hp with
      ⟨-, rfl, rfl⟩ | ⟨v, s₁, -, ht, ⟨-, rfl⟩, rfl⟩ | ⟨-, v, -, ⟨-, rfl⟩, rfl⟩
    · exact effect_stay hr rfl rfl id (by simp)
    · exact effect_pass_write hr ht (by simp) (by simp)
    · exact effect_write hr (by simp)
  | call name =>
    rcases perform_call.mp hp with ⟨s₁, ht, ⟨-, rfl⟩, rfl⟩ | ⟨-, rfl, rfl⟩
    · exact effect_pass_write hr ht (by simp) (by simp)
    · exact effect_stay hr rfl rfl id (by simp)
  | callee receiver =>
    obtain ⟨routine, ht, rfl⟩ := perform_callee.mp hp
    exact effect_pass hr ht (by simp) (by simp)
  | receiver name routine =>
    rcases perform_receiver.mp hp with ⟨v, -, ⟨-, rfl⟩, rfl⟩ | ⟨-, rfl, rfl⟩
    · exact effect_write hr (by simp)
    · exact effect_stay hr rfl rfl id (by simp)
  | arguments routine count =>
    obtain ⟨rfl, ⟨-, rfl⟩ | ⟨-, rfl⟩⟩ := perform_arguments.mp hp
    · exact effect_stay hr rfl rfl id (by simp)
    · exact effect_stay hr rfl rfl id (by simp)
  | moreArguments routine count =>
    rcases perform_moreArguments.mp hp with ⟨ht, rfl⟩ | ⟨-, rfl, rfl⟩
    · exact effect_pass hr ht (by simp) (by simp)
    · exact effect_stay hr rfl rfl id (by simp)

/-! ## What several goals can do -/

variable {hs as : List Goal} {u : Session} {sink : Sink} {input : Lookahead}

theorem Proceeds.ready (h : Proceeds gs s ts hs t) (hr : Goal.Ready gs) : Goal.Ready hs := by
  induction h with
  | refl => exact hr
  | step hp _ _ ih => exact ih (hr.perform hp)

/-- **Names are declared by reading them**, but for the object of a method. -/
theorem Proceeds.scopes (h : Proceeds gs s ts hs t) (hr : Goal.Ready gs) {name : String}
    (hn : (t.scopes.lookup name).isSome) :
    (s.scopes.lookup name).isSome ∨ name = "this" ∨ .identifier name ∈ ts := by
  induction h with
  | refl => exact .inl hn
  | step hp hreads _ ih =>
    rcases ih (hr.perform hp) hn with h | h | h
    · rcases (effect_perform hr.ne_let hp hreads).scopes name h with h | h | h
      · exact .inl h
      · exact .inr (.inl h)
      · exact .inr (.inr (List.mem_append_left _ h))
    · exact .inr (.inl h)
    · exact .inr (.inr (List.mem_append_right _ h))

theorem Proceeds.unlimited (h : Proceeds gs s ts hs t) (hr : Goal.Ready gs) (hs : s.Unlimited) :
    t.Unlimited := by
  induction h with
  | refl => exact hs
  | step hp hreads _ ih =>
    exact ih (hr.perform hp) ((effect_perform hr.ne_let hp hreads).unlimited hs)

/-- **Right behind the last token that was read**, the agenda is settled by the tokens read alone,
and its first goal is the variable of an assignment exactly if that token was `let`. -/
theorem Proceeds.settled (h : Proceeds gs s ts hs t) (hr : Goal.Ready gs) (hn : .assigned ∉ gs) :
    ∃ as u, Proceeds gs s ts as u ∧ Proceeds as u [] hs t ∧
      (.assigned ∈ as ↔ ts.getLast? = some (.keyword .let)) ∧
      ∀ j j', j.Reads ts j' →
        ∃ as', Goal.Alike false as as' ∧ Proceeds gs (s.reading j) ts as' (u.reading j') := by
  -- the goals done after the last token may depend on what is shown next, so the run is cut at the
  -- goal that read it
  rcases h.eq_nil_or_last with rfl | ⟨us, x, g, rest, goals, s₀, s₁, rfl, hus, hp, hx, hlast⟩
  · refine ⟨gs, s, .refl gs s, h, by simp [hn], fun j j' hj => ?_⟩
    obtain rfl := hj
    exact ⟨gs, .refl gs, .refl gs _⟩
  · have hready : Goal.Ready (g :: rest) := hus.ready hr
    have hrest : .assigned ∉ rest := hready.2.1
    have heff := effect_perform hready.ne_let hp hx
    refine ⟨goals ++ rest, s₁, hus.trans (.last hp hx), hlast, ?_, fun j j' hj => ?_⟩
    · simp [hrest, heff.assigned]
    · obtain ⟨j₀, hj₀, hj'⟩ := Lookahead.reads_append.mp hj
      have hshow : s₀.input.terminal? = j₀.terminal? := by rw [hx.terminal?, hj'.terminal?]
      obtain ⟨_, halike, hus'⟩ := hus.follow (.refl gs) hj₀ hshow
      obtain ⟨g', rest', rfl, hg', hrest'⟩ := halike.of_cons
      obtain ⟨goals', hgoals, hp'⟩ := perform_follows hg' ⟨hshow, nofun⟩ hp hx hj'
      exact ⟨goals' ++ rest', hgoals.append hrest', hus'.trans (.last hp' hj')⟩

end Session

end JackStack
