import Mathlib.Data.List.Nodup
import JackStack.Proofs.Emission
import JackStack.Proofs.Simulation

/-!
# Proofs/Placement — where loaded code lies

A program is a sequence of functions, each a header and the commands behind it. If the labels of
each function differ, its jumps go to them, and the functions have different names, then loading
succeeds, and every function is found in the code, linked.

* `Machine.load_program` — a program is loaded, and its functions are in their places.
* `Machine.load_programs` — so are those of several programs loaded one after the other.
-/

namespace JackStack

open Vm (Command)
open Machine (functionAfter functionPlaces labelPlaces staticsFrom linkAll)
open Text.Decimal (wordBound)

/-! ## Functions and programs -/

/-- **A function**: its name, the number of its locals, and the commands behind the header. -/
structure Procedure where
  name : String
  locals : Nat
  inner : List Command

namespace Procedure

/-- The commands of a function. -/
def code (f : Procedure) : List Command :=
  .function f.name f.locals :: f.inner

/-- **A function is sound**: its commands can be read back, no other function starts among them, its
labels differ, and its jumps go to them. -/
structure Sound (f : Procedure) : Prop where
  legible : ∀ command ∈ f.code, command.Legible
  inner : ∀ command ∈ f.inner, command.function? = none
  nodup : (f.inner.filterMap Command.label?).Nodup
  closed : ∀ name ∈ f.inner.filterMap Command.target?, name ∈ f.inner.filterMap Command.label?

end Procedure

/-- The commands of functions in sequence. -/
def procedureCode (fs : List Procedure) : List Command :=
  fs.flatMap Procedure.code

/-! ## Names inside functions -/

/-- **Names together with the function that they stand in.** -/
def located (g : Command → Option String) : String → List Command → List (String × String)
  | _, [] => []
  | function, c :: rest =>
    ((g c).map fun name => (function, name)).toList ++ located g (functionAfter function c) rest

section Located

variable {g : Command → Option String}

theorem located_append (function : String) (xs ys : List Command) :
    located g function (xs ++ ys) =
      located g function xs ++ located g (xs.foldl functionAfter function) ys := by
  induction xs generalizing function with
  | nil => rfl
  | cons c rest ih =>
    rw [List.cons_append, located, located, ih, List.append_assoc, List.foldl_cons]

theorem functionAfter_of_inner {c : Command} (h : c.function? = none) (function : String) :
    functionAfter function c = function := by
  cases c with
  | function name locals => cases h
  | _ => rfl

theorem located_of_inner {cs : List Command} (h : ∀ c ∈ cs, c.function? = none)
    (function : String) :
    located g function cs = (cs.filterMap g).map fun name => (function, name) := by
  induction cs with
  | nil => rfl
  | cons c rest ih =>
    rw [List.forall_mem_cons] at h
    rw [located, functionAfter_of_inner h.1, ih h.2, List.filterMap_cons]
    cases g c <;> rfl

/-- **The names in functions**, each with its own function. -/
theorem located_procedureCode (hg : ∀ name locals, g (.function name locals) = none)
    {fs : List Procedure} (h : ∀ f ∈ fs, f.Sound) (function : String) :
    located g function (procedureCode fs) =
      fs.flatMap fun f => (f.inner.filterMap g).map fun name => (f.name, name) := by
  induction fs generalizing function with
  | nil => rfl
  | cons f rest ih =>
    rw [List.forall_mem_cons] at h
    rw [procedureCode, List.flatMap_cons, located_append, List.flatMap_cons, ← procedureCode,
      ih h.2, Procedure.code, located, hg, Option.map_none, Option.toList_none, List.nil_append,
      functionAfter, located_of_inner h.1.inner]

end Located

theorem map_fst_labelPlaces (function : String) (place : Nat) (cs : List Command) :
    (labelPlaces function place cs).map Prod.fst = located Command.label? function cs := by
  induction cs generalizing function place with
  | nil => rfl
  | cons c rest ih =>
    rw [labelPlaces, List.map_append, ih, located]
    cases c.label? <;> rfl

theorem map_fst_functionPlaces (place : Nat) (cs : List Command) :
    (functionPlaces place cs).map Prod.fst = cs.filterMap Command.function? := by
  induction cs generalizing place with
  | nil => rfl
  | cons c rest ih =>
    rw [functionPlaces, List.map_append, ih, List.filterMap_cons]
    cases c.function? <;> rfl

theorem functionPlaces_append (place : Nat) (xs ys : List Command) :
    functionPlaces place (xs ++ ys) =
      functionPlaces place xs ++ functionPlaces (place + xs.length) ys := by
  induction xs generalizing place with
  | nil => rfl
  | cons c rest ih =>
    rw [List.cons_append, functionPlaces, functionPlaces, ih, List.append_assoc, List.length_cons,
      Nat.add_assoc, Nat.add_comm 1]

theorem filterMap_function?_procedureCode {fs : List Procedure} (h : ∀ f ∈ fs, f.Sound) :
    (procedureCode fs).filterMap Command.function? = fs.map Procedure.name := by
  induction fs with
  | nil => rfl
  | cons f rest ih =>
    rw [List.forall_mem_cons] at h
    have hf : f.code.filterMap Command.function? = [f.name] := by
      have hinner := List.filterMap_eq_nil_iff.2 h.1.inner
      simp [Procedure.code, Command.function?, hinner]
    rw [procedureCode, List.flatMap_cons, List.filterMap_append, ← procedureCode, ih h.2, hf]
    rfl

/-- Where keys differ, an entry is found under its key. -/
theorem lookup_of_mem {α β : Type} [BEq α] [LawfulBEq α] {l : List (α × β)} {key : α} {x : β}
    (hl : (l.map Prod.fst).Nodup) (h : (key, x) ∈ l) : l.lookup key = some x := by
  obtain ⟨before, behind, rfl⟩ := List.append_of_mem h
  refine List.lookup_eq_some_iff.2 ⟨before, behind, rfl, fun p hp => ?_⟩
  rw [List.map_append, List.nodup_append] at hl
  have := hl.2.2 p.1 (List.mem_map_of_mem hp) key (by simp)
  simpa using Ne.symm this

/-- The labels of a program differ. -/
theorem nodup_located_label {fs : List Procedure} (h : ∀ f ∈ fs, f.Sound)
    (hn : (fs.map Procedure.name).Nodup) (function : String) :
    (located Command.label? function (procedureCode fs)).Nodup := by
  rw [located_procedureCode (fun _ _ => rfl) h, List.nodup_flatMap]
  refine ⟨fun f hf => ?_, ?_⟩
  · exact ((h f hf).nodup).map fun x y hxy => (Prod.mk.inj hxy).2
  · refine (List.pairwise_map.1 hn).imp fun hne => ?_
    intro key hkey hkey'
    obtain ⟨x, -, rfl⟩ := List.mem_map.1 hkey
    obtain ⟨y, -, hxy⟩ := List.mem_map.1 hkey'
    exact hne (Prod.mk.inj hxy).1.symm

/-- Every jump of a program goes to a label of its function. -/
theorem mem_located_label {fs : List Procedure} (h : ∀ f ∈ fs, f.Sound) (function : String)
    {key : String × String} (hk : key ∈ located Command.target? function (procedureCode fs)) :
    key ∈ located Command.label? function (procedureCode fs) := by
  rw [located_procedureCode (fun _ _ => rfl) h] at hk ⊢
  obtain ⟨f, hf, hk⟩ := List.mem_flatMap.1 hk
  obtain ⟨name, hname, rfl⟩ := List.mem_map.1 hk
  exact List.mem_flatMap.2 ⟨f, hf, List.mem_map_of_mem ((h f hf).closed name hname)⟩

/-! ## Linking -/

theorem staticsFrom_cons (n : Nat) (c : Command) (cs : List Command) :
    staticsFrom n (c :: cs) =
      staticsFrom ((c.static?.map fun index => max n (index + 1)).getD n) cs :=
  rfl

theorem staticsFrom_le {n k : Nat} {cs : List Command} (hn : n ≤ k)
    (h : ∀ c ∈ cs, ∀ index, c.static? = some index → index < k) : staticsFrom n cs ≤ k := by
  induction cs generalizing n with
  | nil => exact hn
  | cons c rest ih =>
    rw [List.forall_mem_cons] at h
    rw [staticsFrom_cons]
    refine ih ?_ h.2
    cases hc : c.static? with
    | none => exact hn
    | some index => exact Nat.max_le.2 ⟨hn, h.1 index hc⟩

theorem le_staticsFrom (n : Nat) (cs : List Command) : n ≤ staticsFrom n cs := by
  induction cs generalizing n with
  | nil => exact Nat.le_refl n
  | cons c rest ih =>
    rw [staticsFrom_cons]
    refine Nat.le_trans ?_ (ih _)
    cases c.static? with
    | none => exact Nat.le_refl n
    | some index => exact Nat.le_max_left _ _

/-- Statics in use are below their number. -/
theorem lt_staticsFrom {n index : Nat} {c : Command} {cs : List Command} (hc : c ∈ cs)
    (hi : c.static? = some index) : index < staticsFrom n cs := by
  induction cs generalizing n with
  | nil => cases hc
  | cons d rest ih =>
    rw [staticsFrom_cons]
    obtain rfl | hc := List.mem_cons.1 hc
    · refine Nat.lt_of_lt_of_le ?_ (le_staticsFrom _ rest)
      rw [hi]
      exact Nat.le_max_right n (index + 1)
    · exact ih hc

section Link

variable {labels : List ((String × String) × Nat)} {statics : Nat}

/-- A command is linked if its label is known and its static has a cell. -/
theorem exists_link {function : String} {c : Command}
    (ht : ∀ name, c.target? = some name → ∃ place, labels.lookup (function, name) = some place)
    (hs : ∀ index, c.static? = some index → index + statics < wordBound) :
    ∃ i, Machine.link labels statics function c = .ok i := by
  have hadd : ∀ index, index + statics < wordBound →
      Machine.addSize index statics = .ok (index + statics) := fun _ h => if_pos h
  cases c with
  | push segment index | pop segment index =>
    cases segment with
    | static =>
      rw [Machine.link, hadd index (hs index rfl)]
      exact ⟨_, rfl⟩
    | _ => exact ⟨_, rfl⟩
  | goto name | ifGoto name =>
    obtain ⟨place, hplace⟩ := ht name rfl
    rw [Machine.link, Machine.link.find, hplace]
    exact ⟨_, rfl⟩
  | _ => exact ⟨_, rfl⟩

theorem linkAll_cons_eq_ok {function : String} {c : Command} {rest : List Command}
    {code : List Instr} :
    linkAll labels statics function (c :: rest) = .ok code ↔
      ∃ i more, Machine.link labels statics (functionAfter function c) c = .ok i ∧
        linkAll labels statics (functionAfter function c) rest = .ok more ∧ code = i :: more := by
  rw [linkAll]
  cases Machine.link labels statics (functionAfter function c) c with
  | error e =>
    constructor
    · rintro ⟨⟩
    · rintro ⟨i, more, ⟨⟩, -⟩
  | ok i =>
    cases linkAll labels statics (functionAfter function c) rest with
    | error e =>
      constructor
      · rintro ⟨⟩
      · rintro ⟨i, more, -, ⟨⟩, -⟩
    | ok more =>
      constructor
      · rintro ⟨⟩
        exact ⟨i, more, rfl, rfl, rfl⟩
      · rintro ⟨i, more, ⟨⟩, ⟨⟩, rfl⟩
        rfl

/-- **Commands are linked** if all their labels are known and all their statics have cells. -/
theorem exists_linkAll {cs : List Command} {function : String}
    (ht : ∀ key ∈ located Command.target? function cs, ∃ place, labels.lookup key = some place)
    (hs : ∀ c ∈ cs, ∀ index, c.static? = some index → index + statics < wordBound) :
    ∃ code, linkAll labels statics function cs = .ok code ∧ code.length = cs.length := by
  induction cs generalizing function with
  | nil => exact ⟨[], rfl, rfl⟩
  | cons c rest ih =>
    rw [located, List.forall_mem_append] at ht
    rw [List.forall_mem_cons] at hs
    obtain ⟨code, hcode, hlength⟩ := ih ht.2 hs.2
    have htarget : ∀ name, c.target? = some name →
        ∃ place, labels.lookup (functionAfter function c, name) = some place := by
      intro name hn
      have hinner : c.function? = none := by
        cases c with
        | function _ _ => cases hn
        | _ => rfl
      rw [functionAfter_of_inner hinner]
      exact ht.1 (function, name) (by rw [hn]; exact List.mem_cons_self)
    obtain ⟨i, hi⟩ := exists_link htarget hs.1
    exact ⟨i :: code, linkAll_cons_eq_ok.2 ⟨i, code, hi, hcode, rfl⟩, congrArg (· + 1) hlength⟩

end Link

/-! ## Code in its places -/

/-- **A program is found in the code** from a place on, each command linked in its function. -/
def Image.Holds (I : Image) (labels : List ((String × String) × Nat)) (className : String) :
    String → Nat → List Command → Prop
  | _, _, [] => True
  | function, place, c :: rest =>
    I.Has ⟨labels, functionAfter function c, className⟩ place c ∧
      I.Holds labels className (functionAfter function c) (place + 1) rest

namespace Image

variable {I : Image} {labels : List ((String × String) × Nat)} {className : String}

/-- **What is linked is found**, if its labels lie where they are noted. -/
theorem holds_of_linkAll {cs : List Command} {code : List Instr} {function : String} {place : Nat}
    (hl : linkAll labels (I.base className) function cs = .ok code)
    (hcode : ∀ j, j < code.length → I.code[place + j]? = code[j]?)
    (hlabels : ∀ key p, (key, p) ∈ labelPlaces function place cs → labels.lookup key = some p)
    (hs : ∀ c ∈ cs, ∀ index, c.static? = some index → index < I.size className) :
    I.Holds labels className function place cs := by
  induction cs generalizing function place code with
  | nil => trivial
  | cons c rest ih =>
    obtain ⟨i, more, hi, hmore, rfl⟩ := linkAll_cons_eq_ok.1 hl
    rw [List.forall_mem_cons] at hs
    refine ⟨⟨⟨i, hi, hcode 0 (Nat.succ_pos _)⟩, ?_, hs.1⟩, ih hmore ?_ ?_ hs.2⟩
    · rintro name rfl
      exact hlabels (function, name) place List.mem_cons_self
    · intro j hj
      have := hcode (j + 1) (Nat.succ_lt_succ hj)
      rwa [Nat.add_comm j, ← Nat.add_assoc, Nat.add_comm 1 j] at this
    · exact fun key p h => hlabels key p (List.mem_append_right _ h)

theorem holds_append {function : String} {place : Nat} {xs ys : List Command} :
    I.Holds labels className function place (xs ++ ys) ↔
      I.Holds labels className function place xs ∧
        I.Holds labels className (xs.foldl functionAfter function) (place + xs.length) ys := by
  induction xs generalizing function place with
  | nil => simp [Holds]
  | cons c rest ih =>
    rw [List.cons_append, Holds, Holds, ih, and_assoc, List.foldl_cons, List.length_cons,
      Nat.add_assoc, Nat.add_comm 1]

theorem Holds.placed {function : String} {place : Nat} {cs : List Command}
    (h : ∀ c ∈ cs, c.function? = none) (hh : I.Holds labels className function place cs) :
    I.Placed ⟨labels, function, className⟩ place cs := by
  induction cs generalizing place with
  | nil => trivial
  | cons c rest ih =>
    rw [List.forall_mem_cons] at h
    rw [Holds, functionAfter_of_inner h.1] at hh
    exact ⟨hh.1, ih h.2 hh.2⟩

end Image

/-! ## Loading programs -/

/-- **A program**: the functions of a class. -/
structure Program where
  className : String
  functions : List Procedure

namespace Program

/-- The commands of a program. -/
def code (p : Program) : List Command :=
  procedureCode p.functions

/-- The text of a program. -/
def text (p : Program) : String :=
  Vm.programText p.code

/-- How many cells the statics of a program take. -/
def statics (p : Program) : Nat :=
  staticsFrom 0 p.code

/-- The names of the functions of a program. -/
def names (p : Program) : List String :=
  p.functions.map Procedure.name

/-- **A program is sound**: its functions are, and have different names. -/
structure Sound (p : Program) : Prop where
  functions : ∀ f ∈ p.functions, f.Sound
  nodup : p.names.Nodup

theorem Sound.legible {p : Program} (h : p.Sound) : ∀ c ∈ p.code, c.Legible := by
  intro c hc
  obtain ⟨f, hf, hc⟩ := List.mem_flatMap.1 hc
  exact (h.functions f hf).legible c hc

end Program

namespace Image

/-- **The code contains what a machine has loaded**, and maybe more. -/
structure Covers (I : Image) (m : Machine) : Prop where
  code : ∃ more, I.code = m.code ++ more
  functions : ∀ entry ∈ m.functions, entry ∈ I.functions

/-- **The code provides a program**: its functions are known and found in their places. -/
def Provides (I : Image) (p : Program) : Prop :=
  ∀ f ∈ p.functions, ∃ labels place, (f.name, place) ∈ I.functions ∧
    I.Placed ⟨labels, f.name, p.className⟩ place f.code

/-- **The statics of programs lie one behind the other**, from a cell on. -/
def Lays (I : Image) : Nat → List Program → Prop
  | _, [] => True
  | cell, p :: rest =>
    (I.base p.className = cell ∧ p.statics ≤ I.size p.className) ∧ I.Lays (cell + p.statics) rest

end Image

/-- **A machine has loaded programs**: nothing but its code, functions and statics has changed, and
the code provides the programs. -/
structure Loaded (ps : List Program) (m m' : Machine) : Prop where
  memory : m'.memory = m.memory
  heap : m'.heap = m.heap
  pc : m'.pc = m.pc
  nextStatic : m'.nextStatic = m.nextStatic + (ps.map Program.statics).sum
  size : m'.code.size = m.code.size + (ps.map (·.code.length)).sum
  names : (m'.functions.map Prod.fst).Perm (ps.flatMap Program.names ++ m.functions.map Prod.fst)
  covers : ∀ I : Image, I.Covers m' → I.Covers m
  provides : ∀ I : Image, I.Covers m' → I.Lays m.nextStatic ps → ∀ p ∈ ps, I.Provides p

namespace Loaded

theorem nil (m : Machine) : Loaded [] m m where
  memory := rfl
  heap := rfl
  pc := rfl
  nextStatic := rfl
  size := rfl
  names := List.Perm.refl _
  covers _ h := h
  provides _ _ _ := nofun

theorem cons {p : Program} {ps : List Program} {m m' m'' : Machine} (h : Loaded [p] m m')
    (h' : Loaded ps m' m'') : Loaded (p :: ps) m m'' where
  memory := h'.memory.trans h.memory
  heap := h'.heap.trans h.heap
  pc := h'.pc.trans h.pc
  nextStatic := by
    rw [h'.nextStatic, h.nextStatic]
    simp [Nat.add_assoc]
  size := by
    rw [h'.size, h.size]
    simp [Nat.add_assoc]
  names := by
    refine h'.names.trans ?_
    refine (List.Perm.append_left _ h.names).trans ?_
    rw [List.flatMap_singleton, List.flatMap_cons, List.append_assoc]
    exact List.perm_append_comm_assoc _ _ _
  covers I hI := h.covers I (h'.covers I hI)
  provides I hI hl := by
    have hfirst := h.provides I (h'.covers I hI) ⟨hl.1, trivial⟩ p List.mem_cons_self
    have hnext : m'.nextStatic = m.nextStatic + p.statics := by simp [h.nextStatic]
    rw [List.forall_mem_cons]
    exact ⟨hfirst, h'.provides I hI (hnext ▸ hl.2)⟩

end Loaded

/-- **The functions of a program that is found are in their places.** -/
theorem Image.Holds.provides {I : Image} {labels : List ((String × String) × Nat)} {p : Program}
    {place : Nat} (hp : p.Sound) (h : I.Holds labels p.className "" place p.code)
    (hf : ∀ entry ∈ functionPlaces place p.code, entry ∈ I.functions) : I.Provides p := by
  intro f hmem
  obtain ⟨before, behind, hsplit⟩ := List.append_of_mem hmem
  have hcode : p.code = procedureCode before ++ (f.code ++ procedureCode behind) := by
    rw [Program.code, hsplit, procedureCode, List.flatMap_append, List.flatMap_cons]
    rfl
  rw [hcode] at h hf
  rw [functionPlaces_append, functionPlaces_append] at hf
  rw [Image.holds_append, Image.holds_append] at h
  refine ⟨labels, place + (procedureCode before).length, hf _ ?_, ?_⟩
  · exact List.mem_append_right _ (List.mem_append_left _ List.mem_cons_self)
  · exact ⟨h.2.1.1, Image.Holds.placed (hp.functions f hmem).inner h.2.1.2⟩

namespace Machine

/-- **A sound program is loaded**, and its functions are in their places. -/
theorem load_program {p : Program} (hp : p.Sound) (m : Machine)
    (hs : m.nextStatic + p.statics < wordBound) :
    ∃ m', m.load p.text = .ok m' ∧ Loaded [p] m m' := by
  have hlabels : ((labelPlaces "" m.code.size p.code).reverse.map Prod.fst).Nodup := by
    rw [List.map_reverse, map_fst_labelPlaces, List.nodup_reverse]
    exact nodup_located_label hp.functions hp.nodup ""
  have hlookup : ∀ key place, (key, place) ∈ labelPlaces "" m.code.size p.code →
      (labelPlaces "" m.code.size p.code).reverse.lookup key = some place := fun key place h =>
    lookup_of_mem hlabels (List.mem_reverse.2 h)
  have htargets : ∀ key ∈ located Command.target? "" p.code,
      ∃ place, (labelPlaces "" m.code.size p.code).reverse.lookup key = some place := by
    intro key hk
    have hk := mem_located_label hp.functions "" hk
    rw [← map_fst_labelPlaces "" m.code.size] at hk
    obtain ⟨⟨key, place⟩, hmem, rfl⟩ := List.mem_map.1 hk
    exact ⟨place, hlookup key place hmem⟩
  have hstatics : ∀ c ∈ p.code, ∀ index, c.static? = some index →
      index + m.nextStatic < wordBound := by
    intro c hc index hi
    have : index < p.statics := lt_staticsFrom hc hi
    omega
  obtain ⟨code, hcode, hlength⟩ := exists_linkAll htargets hstatics
  refine ⟨_, load_programText hp.legible m hs hcode, rfl, rfl, rfl, ?_, ?_, ?_, ?_, ?_⟩
  · simp [Program.statics]
  · simp [hlength]
  · rw [List.map_append, List.map_reverse, map_fst_functionPlaces, List.flatMap_singleton,
      Program.names, ← filterMap_function?_procedureCode hp.functions]
    exact (List.reverse_perm _).append_right _
  · rintro I ⟨⟨more, hmore⟩, hfunctions⟩
    exact ⟨⟨code.toArray ++ more, by rw [hmore, Array.append_assoc]⟩,
      fun entry h => hfunctions entry (List.mem_append_right _ h)⟩
  · rintro I ⟨⟨more, hmore⟩, hfunctions⟩ ⟨⟨hbase, hsize⟩, -⟩
    have hholds : I.Holds (labelPlaces "" m.code.size p.code).reverse p.className ""
        m.code.size p.code := by
      refine Image.holds_of_linkAll (hbase ▸ hcode) (fun j hj => ?_) hlookup ?_
      · simp [hmore, Array.getElem?_append, hj]
      · exact fun c hc index hi => Nat.lt_of_lt_of_le (lt_staticsFrom hc hi) hsize
    rw [List.forall_mem_singleton]
    refine hholds.provides hp fun entry h => ?_
    exact hfunctions entry (List.mem_append_left _ (List.mem_reverse.2 h))

/-- **Sound programs are loaded** one after the other. -/
theorem load_programs {ps : List Program} (hp : ∀ p ∈ ps, p.Sound) (m : Machine)
    (hs : m.nextStatic + (ps.map Program.statics).sum < wordBound) :
    ∃ m', (ps.map Program.text).foldlM load m = .ok m' ∧ Loaded ps m m' := by
  induction ps generalizing m with
  | nil => exact ⟨m, rfl, Loaded.nil m⟩
  | cons p rest ih =>
    rw [List.forall_mem_cons] at hp
    rw [List.map_cons, List.sum_cons] at hs
    obtain ⟨m₁, hload, h₁⟩ := load_program hp.1 m (by omega)
    have hnext : m₁.nextStatic = m.nextStatic + p.statics := by simp [h₁.nextStatic]
    obtain ⟨m₂, hloads, h₂⟩ := ih hp.2 m₁ (by omega)
    refine ⟨m₂, ?_, h₁.cons h₂⟩
    rw [List.map_cons, List.foldlM_cons, hload]
    exact hloads

end Machine

/-! ## Statics of several programs -/

/-- **The first cell of the statics of a class and their number**, where those of programs lie one
behind the other from a cell on. -/
def staticCells : Nat → List Program → String → Nat × Nat
  | _, [], _ => (0, 0)
  | cell, p :: rest, className =>
    if p.className = className then (cell, p.statics)
    else staticCells (cell + p.statics) rest className

section StaticCells

variable {ps : List Program} {cell : Nat}

theorem staticCells_bounds {c : String} {i : Nat} (h : i < (staticCells cell ps c).2) :
    cell ≤ (staticCells cell ps c).1 ∧
      (staticCells cell ps c).1 + i < cell + (ps.map Program.statics).sum := by
  induction ps generalizing cell with
  | nil => exact absurd h (Nat.not_lt_zero i)
  | cons p rest ih =>
    rw [staticCells] at h ⊢
    rw [List.map_cons, List.sum_cons]
    by_cases hp : p.className = c
    · rw [if_pos hp] at h ⊢
      dsimp only at h ⊢
      omega
    · rw [if_neg hp] at h ⊢
      have := ih h
      omega

/-- The statics of two classes do not overlap. -/
theorem staticCells_inj {c d : String} {i j : Nat} (hi : i < (staticCells cell ps c).2)
    (hj : j < (staticCells cell ps d).2)
    (h : (staticCells cell ps c).1 + i = (staticCells cell ps d).1 + j) : c = d ∧ i = j := by
  induction ps generalizing cell with
  | nil => exact absurd hi (Nat.not_lt_zero i)
  | cons p rest ih =>
    rw [staticCells] at hi hj h
    rw [staticCells] at h
    by_cases hc : p.className = c
    · rw [if_pos hc] at hi h
      by_cases hd : p.className = d
      · rw [if_pos hd] at h
        exact ⟨hc.symm.trans hd, by dsimp only at h; omega⟩
      · rw [if_neg hd] at hj h
        have := staticCells_bounds hj
        dsimp only at hi h
        omega
    · rw [if_neg hc] at hi h
      by_cases hd : p.className = d
      · rw [if_pos hd] at hj h
        have := staticCells_bounds hi
        dsimp only at hj h
        omega
      · rw [if_neg hd] at hj h
        exact ih hi hj h

/-- Statics with these cells lie one behind the other. -/
theorem Image.lays_of_staticCells {I : Image} (hn : (ps.map Program.className).Nodup)
    (h : ∀ p ∈ ps, (I.base p.className, I.size p.className) = staticCells cell ps p.className) :
    I.Lays cell ps := by
  induction ps generalizing cell with
  | nil => trivial
  | cons p rest ih =>
    rw [List.map_cons, List.nodup_cons] at hn
    rw [List.forall_mem_cons] at h
    have hp := h.1
    rw [staticCells, if_pos rfl] at hp
    obtain ⟨hbase, hsize⟩ := Prod.mk.inj hp
    refine ⟨⟨hbase, Nat.le_of_eq hsize.symm⟩, ih hn.2 fun q hq => ?_⟩
    have hne : p.className ≠ q.className := fun he =>
      hn.1 (he ▸ List.mem_map_of_mem hq)
    rw [h.2 q hq, staticCells, if_neg hne]

end StaticCells

/-- **What a machine has loaded**, with the statics of programs one behind the other. -/
def Machine.image (m : Machine) (ps : List Program)
    (h : Layout.static + (ps.map Program.statics).sum ≤ Layout.stack) : Image where
  code := m.code
  functions := m.functions
  base c := (staticCells Layout.static ps c).1
  size c := (staticCells Layout.static ps c).2
  static_le _ _ hi := Nat.le_trans (staticCells_bounds hi).1 (Nat.le_add_right _ _)
  static_lt _ _ hi := Nat.lt_of_lt_of_le (staticCells_bounds hi).2 h
  static_inj _ _ _ _ hi hj he := staticCells_inj hi hj he

/-! ## Classes -/

/-- **A subroutine as a function**, with the numbers of its first labels. -/
def RoutineDecl.procedure (r : RoutineDecl) (c : ClassDecl) (m n : Nat) : Procedure :=
  ⟨qualifiedName c.name r.name, r.localCount, r.inner c m n⟩

/-- The functions of subroutines in sequence. -/
def RoutineDecl.procedures (c : ClassDecl) (m n : Nat) : List RoutineDecl → List Procedure
  | [] => []
  | r :: rest =>
    r.procedure c m n :: procedures c (m + Statement.listConditions r.body)
      (n + Statement.listLoops r.body) rest

/-- **A class as a program.** -/
def ClassDecl.program (c : ClassDecl) : Program :=
  ⟨c.name, RoutineDecl.procedures c 0 0 c.routines⟩

namespace RoutineDecl

variable {c : ClassDecl} {r : RoutineDecl} {rs : List RoutineDecl}

theorem procedureCode_procedures (c : ClassDecl) (m n : Nat) (rs : List RoutineDecl) :
    procedureCode (procedures c m n rs) = listCode c m n rs := by
  induction rs generalizing m n with
  | nil => rfl
  | cons r rest ih =>
    rw [procedures, procedureCode, List.flatMap_cons, ← procedureCode, ih, listCode]
    rfl

theorem map_name_procedures (c : ClassDecl) (m n : Nat) (rs : List RoutineDecl) :
    (procedures c m n rs).map Procedure.name = rs.map fun r => qualifiedName c.name r.name := by
  induction rs generalizing m n with
  | nil => rfl
  | cons r rest ih => rw [procedures, List.map_cons, ih, List.map_cons, procedure]

theorem exists_mem_procedures (h : r ∈ rs) (m n : Nat) :
    ∃ m' n', r.procedure c m' n' ∈ procedures c m n rs := by
  induction rs generalizing m n with
  | nil => cases h
  | cons q rest ih =>
    obtain rfl | h := List.mem_cons.1 h
    · exact ⟨m, n, List.mem_cons_self⟩
    · obtain ⟨m', n', hmem⟩ := ih h _ _
      exact ⟨m', n', List.mem_cons_of_mem _ hmem⟩

theorem eq_of_mem_procedures {f : Procedure} {m n : Nat} (h : f ∈ procedures c m n rs) :
    ∃ r ∈ rs, ∃ m' n', f = r.procedure c m' n' := by
  induction rs generalizing m n with
  | nil => cases h
  | cons q rest ih =>
    obtain rfl | h := List.mem_cons.1 h
    · exact ⟨q, List.mem_cons_self, m, n, rfl⟩
    · obtain ⟨r, hr, he⟩ := ih h
      exact ⟨r, List.mem_cons_of_mem _ hr, he⟩

/-- **A subroutine that makes up code is a sound function.** -/
theorem sound_procedure {m m' n n' : Nat} (hw : (r.context c).Writes m m' n n' (r.inner c m n))
    (hname : Unbroken (qualifiedName c.name r.name)) (hl : r.localCount < wordBound) :
    (r.procedure c m n).Sound where
  legible := List.forall_mem_cons.2 ⟨⟨hname, hl⟩, fun command h => (hw.fits command h).legible⟩
  inner command h := (hw.fits command h).function?
  nodup := hw.numbered.nodup
  closed := hw.closed

/-- A static that a command uses is one of the class. -/
theorem static_lt {command : Command} {index : Nat} (h : (r.context c).Fits command)
    (hi : command.static? = some index) : index < c.staticCount := by
  obtain ⟨name, v, hv, hk, rfl⟩ := h.static? index hi
  have := (resolve_eq_some hv).2
  rwa [hk] at this

end RoutineDecl

namespace ClassDecl

variable {c : ClassDecl}

/-- **The code of a class can be written**: its subroutines have different names and keep within
limits that their contexts admit. -/
structure Writable (c : ClassDecl) : Prop where
  words : ∀ x ∈ c.terminals, x.WellFormed
  nodup : (c.routines.map RoutineDecl.name).Nodup
  within : ∀ r ∈ c.routines, ∃ p : Limits, (r.context c).Admits p ∧
    Statement.listWithin p r.body = true
  locals : ∀ r ∈ c.routines, r.localCount < wordBound
  fields : ∀ r ∈ c.routines, r.kind = .constructor → c.fieldCount + 1 < wordBound

theorem code_program (c : ClassDecl) : c.program.code = c.code :=
  RoutineDecl.procedureCode_procedures c 0 0 c.routines

theorem text_program (c : ClassDecl) : c.program.text = Vm.programText c.code := by
  rw [Program.text, code_program]

theorem names_program (c : ClassDecl) :
    c.program.names = c.routines.map fun r => qualifiedName c.name r.name :=
  RoutineDecl.map_name_procedures c 0 0 c.routines

namespace Writable

theorem writes (h : c.Writable) {r : RoutineDecl} (hr : r ∈ c.routines) (m n : Nat) :
    (r.context c).Writes m (m + Statement.listConditions r.body) n
      (n + Statement.listLoops r.body) (r.inner c m n) := by
  obtain ⟨p, hc, hb⟩ := h.within r hr
  exact RoutineDecl.writes hc (c.wellFormed_routine h.words hr) hb (h.fields r hr) m n

/-- **A class is a sound program.** -/
theorem sound (h : c.Writable) : c.program.Sound where
  functions f hf := by
    obtain ⟨r, hr, m, n, rfl⟩ := RoutineDecl.eq_of_mem_procedures hf
    exact RoutineDecl.sound_procedure (h.writes hr m n)
      (unbroken_qualifiedName (c.isWord_name h.words) (c.isWord_routine h.words hr))
      (h.locals r hr)
  nodup := by
    have hinj : Function.Injective (qualifiedName c.name) := fun x y hxy =>
      (qualifiedName_inj (c.isWord_name h.words) (c.isWord_name h.words) hxy).2
    have := h.nodup.map hinj
    rw [List.map_map] at this
    rwa [names_program]

/-- A class uses no more statics than it declares. -/
theorem statics_le (h : c.Writable) : c.program.statics ≤ c.staticCount := by
  refine staticsFrom_le (Nat.zero_le _) fun command hc index hi => ?_
  obtain ⟨f, hf, hc⟩ := List.mem_flatMap.1 hc
  obtain ⟨r, hr, m, n, rfl⟩ := RoutineDecl.eq_of_mem_procedures hf
  obtain rfl | hc := List.mem_cons.1 hc
  · cases hi
  · exact RoutineDecl.static_lt ((h.writes hr m n).fits command hc) hi

end Writable

end ClassDecl

end JackStack
