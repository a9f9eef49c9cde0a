import JackStack.Proofs.Emission
import JackStack.Proofs.Refinement

/-!
# Proofs/Operands — the operands of pushes and pops

Each segment that a subroutine uses has so many places: one for each variable that is declared for
it, and a few fixed ones. A variable that a name means has its place among these, so the commands of
a block never reach behind the end of a segment, and nothing is popped into a constant.

* `RoutineDecl.places` — how many places each segment has.
* `compileText_bounded` — in the blocks of what is compiled, operands stay below that.
-/

namespace JackStack

open Vm (Command Segment)

/-- **How many places a segment has** in the code of a subroutine. A constant is no place, and any
number may be pushed. -/
def RoutineDecl.places (r : RoutineDecl) (c : ClassDecl) : Segment → Option Nat
  | .local => some r.localCount
  | .argument => some r.arity
  | .this => some c.fieldCount
  | .static => some c.staticCount
  | .pointer => some 2
  | .temp | .that => some 1
  | .constant => none

/-- **A command stays in bounds**: what it pushes from a segment with places is one of them, and so
is what it pops into. -/
def Vm.Command.InBounds (places : Segment → Option Nat) : Command → Prop
  | .push segment index => ∀ n, places segment = some n → index < n
  | .pop segment index => ∃ n, places segment = some n ∧ index < n
  | _ => True

namespace RoutineDecl

variable {r : RoutineDecl} {c : ClassDecl}

/-- **The operands of a block are in bounds**, its header counts the locals, and a constructor
allocates room for the fields. -/
structure Bounded (r : RoutineDecl) (c : ClassDecl) (block : List Command) : Prop where
  header : block.head? = some (.function (qualifiedName c.name r.name) r.localCount)
  inBounds : ∀ command ∈ block, command.InBounds (r.places c)
  allocates : r.kind = .constructor →
    [.push .constant c.fieldCount, .call "Memory.alloc" 1, .pop .pointer 0] <+: block.tail

theorem places_segment (r : RoutineDecl) (c : ClassDecl) (kind : VariableKind) :
    r.places c kind.segment = some (r.count c kind) := by
  cases kind <;> rfl

/-- The places that belong to no variable are the same in every subroutine. -/
theorem inBounds_placeCommands (r : RoutineDecl) (c : ClassDecl) :
    ∀ command ∈ placeCommands, command.InBounds (r.places c) := by
  simp [placeCommands, Command.InBounds, places]

theorem inBounds_of_issues {command : Command} (h : (r.context c).Issues command) :
    command.InBounds (r.places c) := by
  cases h with
  | constant n => exact fun k hk => nomatch hk
  | load h =>
    rintro n hn
    obtain rfl := Option.some.inj ((r.places_segment c _).symm.trans hn)
    exact (resolve_eq_some h).2
  | store h => exact ⟨_, r.places_segment c _, (resolve_eq_some h).2⟩
  | place h => exact r.inBounds_placeCommands c _ h
  | arith op => trivial
  | call name n => trivial

theorem inBounds_inner (m n : Nat) :
    ∀ command ∈ r.inner c m n, command.InBounds (r.places c) := by
  intro command h
  obtain h | h | ⟨hk, rfl⟩ := r.issues_inner c m n command h
  · exact inBounds_of_issues h
  · cases command with
    | push | pop => cases h
    | _ => trivial
  -- A method has its object as an argument, whatever its parameters are.
  · rintro k hn
    obtain rfl : r.arity = k := Option.some.inj hn
    rw [arity, if_pos hk]
    exact Nat.succ_pos _

theorem bounded (m n : Nat) : r.Bounded c (r.code c m n) := by
  refine ⟨rfl, ?_, fun hk => ?_⟩
  · rw [code_eq_cons, List.forall_mem_cons]
    exact ⟨trivial, inBounds_inner m n⟩
  · rw [code_eq_cons, List.tail_cons, inner_eq_append, prologue, List.tail_cons, hk]
    exact List.prefix_append _ _

end RoutineDecl

/-- **Operands stay in bounds in what is compiled**, for the block of every subroutine. -/
theorem compileText_bounded {source text : String} (h : compileText source = .ok text) :
    ∃ c : ClassDecl, Parses source c ∧ text = Vm.programText c.code ∧
      List.Forall₂ (fun r block => r.Bounded c block) c.routines (Vm.blocks c.code) := by
  obtain ⟨c, hp, -, rfl⟩ := compileText_eq_ok_iff.1 h
  exact ⟨c, hp, rfl, RoutineDecl.forall₂_blocks (fun r _ m n => RoutineDecl.bounded m n) 0 0⟩

/-- A constructor and a method of a class with all kinds of variables. -/
theorem compileText_bounded_point :
    let source := "class P\x7bfield int x,y;static P last;constructor P new(int a)\x7bvar int i,j;"
      ++ "let x=a;let last=this;return this;\x7dmethod int get()\x7breturn x+y;\x7d\x7d"
    let text := "function P.new 2\npush constant 2\ncall Memory.alloc 1\npop pointer 0\n"
      ++ "push argument 0\npop this 0\npush pointer 0\npop static 0\npush pointer 0\nreturn\n"
      ++ "function P.get 0\npush argument 0\npop pointer 0\npush this 0\npush this 1\nadd\nreturn\n"
    compileText source = .ok text ∧ ∃ c : ClassDecl, Parses source c ∧
      text = Vm.programText c.code ∧
      List.Forall₂ (fun r block => r.Bounded c block) c.routines (Vm.blocks c.code) := by
  intro source text
  have h : compileText source = .ok text := by decide +kernel
  exact ⟨h, compileText_bounded h⟩

end JackStack
