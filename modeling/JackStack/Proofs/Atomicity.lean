import JackStack.Proofs.Building
import JackStack.Proofs.Trees

/-!
# Proofs/Atomicity — a source file is compiled whole or not at all

Compiling a source file puts all its commands at the path of its output file, or fails and leaves
every file as it was. Nothing shows that the commands are written one by one: they may as well go
into a temporary file beside the output file, which takes its place when the class is complete and
is removed when anything fails.

* `FileTree.erase_insert` — a file that was put at a free place is removed without a trace.
* `Batch.compileStaged` — compiling with a temporary file.
* `Batch.compileStaged_eq` — it comes to the same as compiling at once.
* `Batch.compileSource_atomic` — all or nothing.
-/

namespace JackStack

/-! ## A file that comes and goes -/

namespace FileTree

variable {t : FileTree} {here : Location}

theorem target_of_stage {path : String} (h : t.stage path = .ok here) :
    ∃ name, t.target path = .ok (here, name) := by
  rw [stage] at h
  simp only [] at h
  split at h
  · cases h
  · cases ht : t.target path with
    | error fault =>
      rw [ht] at h
      cases h
    | ok place =>
      rw [ht] at h
      cases h
      exact ⟨place.2, rfl⟩

theorem filter_of_entry?_none (h : t.entry? here = none) :
    t.entries.filter (·.1 ≠ here) = t.entries := by
  rw [List.filter_eq_self]
  intro entry hentry
  have hne : here ≠ [] := by
    rintro rfl
    cases h
  rw [entry?_of_ne_nil hne] at h
  have hkey := List.lookup_eq_none_iff.1 h entry hentry
  exact decide_eq_true fun heq => bne_iff_ne.1 hkey heq.symm

/-- **A file at a free place is removed without a trace.** -/
theorem erase_insert (h : t.entry? here = none) (e : Entry) : (t.insert here e).erase here = t := by
  rw [erase, insert, List.filter_cons_of_neg (by simp), erase, filter_of_entry?_none h,
    filter_of_entry?_none h]

/-- What is put at a place last is what stands there. -/
theorem insert_insert (t : FileTree) (here : Location) (e e' : Entry) :
    (t.insert here e).insert here e' = t.insert here e' := by
  rw [insert, insert, erase, insert, erase, List.filter_cons_of_neg (by simp), List.filter_filter]
  simp

end FileTree

/-! ## Compiling with a temporary file -/

namespace Workspace

variable {α β : Type}

/-- The workspace with a file that holds some bytes. -/
def fill (w : Workspace) (place : Location) (content : ByteArray) : Workspace :=
  { w with files := w.files.insert place (.file content) }

/-- **Compiles a text into a file**, command by command. Where the class is not complete, the file
holds the commands up to there. -/
def compileTo (place : Location) (text : String) : Action Workspace String := fun w =>
  let outcome := compileInto text {}
  let w := { w with log := w.log ++ outcome.writer.log }.fill place outcome.writer.sink.bytes
  match outcome.result with
  | .ok name => .ok name w
  | .error e => .error e w

/-- **Moves a file to a path**, in place of a file that was there. -/
def persist (place : Location) (path : String) : Action Workspace Unit :=
  update fun files =>
    match files.entry? place with
    | some (.file content) => (files.erase place).replace path content
    | _ => .error .notFound

/-- **An action that holds a temporary file**, which is removed if the action fails. -/
def holding (place : Location) (a : Action Workspace α) : Action Workspace α := fun w =>
  match a w with
  | .ok x w => .ok x w
  | .error e w => .error e { w with files := w.files.erase place }

variable {w : Workspace} {place : Location}

theorem query_bind_congr {f : FileTree → Except FileFault β} {k k' : β → Action Workspace α}
    (h : ∀ b, f w.files = .ok b → k b w = k' b w) : (query f >>= k) w = (query f >>= k') w := by
  rw [Action.bind_apply, Action.bind_apply, query]
  cases hf : f w.files with
  | error fault => rfl
  | ok b => exact h b hf

theorem query_bind_discard {f : FileTree → Except FileFault β} {k : β → Action Workspace α}
    {k' : PUnit → Action Workspace α} (h : ∀ b, f w.files = .ok b → k b w = k' () w) :
    (query f >>= k) w = (discard (query f) >>= k') w := by
  rw [Action.bind_apply, Action.bind_apply]
  have hd : discard (query f) w = Action.andThen (query f w) fun _ => pure () :=
    Action.bind_apply _ _ w
  rw [hd, query]
  cases hf : f w.files with
  | error fault => rfl
  | ok b => exact h b hf

theorem compileTo_fill (text : String) (content : ByteArray) :
    compileTo place text (w.fill place content) =
      match compile text w with
      | .ok (name, sink) w => .ok name (w.fill place sink.bytes)
      | .error e w => .error e (w.fill place (compileInto text {}).writer.sink.bytes) := by
  simp only [compileTo, compile, fill, FileTree.insert_insert]
  cases (compileInto text {}).result <;> rfl

/-- A file at a free place is removed without a trace from a workspace. -/
theorem unfill (h : w.files.entry? place = none) (content : ByteArray) :
    { w.fill place content with files := (w.fill place content).files.erase place } = w := by
  simp only [fill, FileTree.erase_insert h]

theorem persist_fill (h : w.files.entry? place = none) (path : String) (content : ByteArray) :
    persist place path (w.fill place content) =
      match w.files.replace path content with
      | .ok files => .ok () { w with files }
      | .error fault => .error (.file fault) (w.fill place content) := by
  have hne : place ≠ [] := by
    rintro rfl
    cases h
  cases hr : w.files.replace path content <;>
    simp only [persist, update, fill, FileTree.entry?_insert_self hne, FileTree.erase_insert h, hr]

/-- **A temporary file is moved or removed**: in the end it is as if the bytes had been put at the
path at once. What is done after that does not fail. -/
theorem holding_persist (h : w.files.entry? place = none) (path : String) (content : ByteArray)
    {k : Action Workspace α} (hk : ∀ w, ∃ x w', k w = .ok x w') :
    holding place (persist place path >>= fun _ => k) (w.fill place content) =
      (update (·.replace path content) >>= fun _ => k) w := by
  rw [holding, Action.bind_apply, Action.bind_apply, persist_fill h, update]
  cases w.files.replace path content with
  | ok files =>
    obtain ⟨x, w', hw⟩ := hk { w with files }
    simp only [Action.andThen, hw]
  | error fault => exact congrArg _ (unfill h _)

/-- **What is done with a temporary file is done without**, if the place for it is free. -/
theorem holding_compileTo (h : w.files.entry? place = none) (text path : String)
    (events : String → List Event)
    {k : Action Workspace α} (hk : ∀ w, ∃ x w', k w = .ok x w') :
    holding place (do
        let name ← compileTo place text
        modify (·.noteAll (events name))
        persist place path
        k) (w.fill place ByteArray.empty) =
      (do
        let (name, sink) ← compile text
        modify (·.noteAll (events name))
        update (·.replace path sink.bytes)
        k : Action Workspace α) w := by
  cases hc : compile text w with
  | error e w₁ =>
    rw [← ((spares_compile text).error hc).1] at h
    rw [holding, Action.bind_apply, Action.bind_apply, compileTo_fill, hc]
    exact congrArg _ (unfill h _)
  | ok p w₁ =>
    obtain ⟨name, sink⟩ := p
    have hfree : (w₁.noteAll (events name)).files.entry? place = none := by
      rw [← (spares_compile text).ok hc] at h
      exact h
    rw [holding, Action.bind_apply, Action.bind_apply, compileTo_fill, hc]
    exact holding_persist hfree path sink.bytes hk

end Workspace

namespace Batch

open Workspace

variable {c : BatchConfig} {source target scratch : String} {w w' : Workspace}

/-- **Compiles one source file with a temporary file** in the directory of its output file. -/
def compileStaged (c : BatchConfig) (scratch source : String) : Action Workspace String := do
  let target ← query fun _ => outputOf c source
  let text ← query (·.readText source)
  let directory ← query (·.stage target)
  let place := directory ++ [scratch]
  modify (·.fill place ByteArray.empty)
  holding place do
    let name ← compileTo place text
    modify (·.noteAll (mismatch name source))
    persist place target
    modify (·.note (.fileCompiled source target))
    return target

/-- **A name is free** for a temporary file beside the output file of a source file. -/
def Free (c : BatchConfig) (source scratch : String) (files : FileTree) : Prop :=
  ∀ target directory name, outputOf c source = .ok target →
    files.target target = .ok (directory, name) → files.entry? (directory ++ [scratch]) = none

/-- **A temporary file makes no difference.** -/
theorem compileStaged_eq (h : Free c source scratch w.files) :
    compileStaged c scratch source w = compileSource c source w := by
  refine query_bind_congr fun target ho => query_bind_congr fun text _ => ?_
  refine query_bind_discard fun directory hstage => ?_
  obtain ⟨name, ht⟩ := FileTree.target_of_stage hstage
  exact holding_compileTo (h target directory name ho ht) text target
    (mismatch · source) fun _ => ⟨_, _, rfl⟩

/-! ## All or nothing -/

/-- **A source file is compiled whole or not at all.** A failure leaves every file as it was. A
success puts the commands of the source at the path of the output file, and changes no other file.
It succeeds exactly if the source is read and compiles, a temporary file can be made, and the output
file can be put at its path. A temporary file with a free name makes no difference. -/
theorem compileSource_atomic (c : BatchConfig) (source : String) (w : Workspace) :
    (∀ cause w', compileSource c source w = .error cause w' → w'.files = w.files) ∧
      (∀ target w', compileSource c source w = .ok target w' →
        outputOf c source = .ok target ∧ ∃ text code here,
          w.files.readText source = .ok text ∧ compileText text = .ok code ∧
          w'.files.lookup target = .ok (here, .file code.toUTF8) ∧
          ∀ there, there ≠ here → w'.files.entry? there = w.files.entry? there) ∧
      ((∃ target w', compileSource c source w = .ok target w') ↔
        ∃ target files', Builds c source target w.files files') ∧
      ∀ scratch, Free c source scratch w.files →
        compileStaged c scratch source w = compileSource c source w := by
  refine ⟨fun cause w' h => (compileSource_error h).1, fun target w' h => ?_, ⟨?_, ?_⟩,
    fun scratch => compileStaged_eq⟩
  · have hb := builds_of_compileSource h
    obtain ⟨text, code, directory, name, hread, hcode, -, -, -, hfiles, hlookup⟩ := hb.exists_place
    refine ⟨hb.output, text, code, directory ++ [name], hread, hcode, hlookup, fun there hne => ?_⟩
    rw [hfiles, FileTree.entry?_insert_of_ne hne]
  · rintro ⟨target, w', h⟩
    exact ⟨target, w'.files, builds_of_compileSource h⟩
  · rintro ⟨target, files', hb⟩
    obtain ⟨w', h, -⟩ := hb.compileSource
    exact ⟨target, w', h⟩

/-- Two source files that have been compiled before. The second one now breaks off behind its first
subroutine. -/
def brokenOff : FileTree :=
  { entries :=
    [(["A.jack"], .file "class A \x7b function int f() \x7b return 7; \x7d \x7d".toUTF8),
     (["A.vm"], .file "old".toUTF8),
     (["B.jack"], .file "class B \x7b function void f() \x7b \x7d function".toUTF8),
     (["B.vm"], .file "old".toUTF8)] }

/-- The first file is replaced; the second fails when commands have been written, and stays. -/
theorem compileSource_atomic_brokenOff :
    (compileInto "class B \x7b function void f() \x7b \x7d function" {}).writer.sink.contents =
      "function B.f 0\npush constant 0\nreturn\n" ∧
    (∃ cause w', compileSource {} "B.jack" ⟨brokenOff, #[]⟩ = .error cause w' ∧
      w'.files = brokenOff) ∧
    (∃ w', compileSource {} "A.jack" ⟨brokenOff, #[]⟩ = .ok "A.vm" w' ∧
      ∃ text code here, brokenOff.readText "A.jack" = .ok text ∧ compileText text = .ok code ∧
        w'.files.lookup "A.vm" = .ok (here, .file code.toUTF8) ∧
        ∀ there, there ≠ here → w'.files.entry? there = brokenOff.entry? there) ∧
    Free {} "A.jack" ".tmp" brokenOff ∧
    compileStaged {} ".tmp" "A.jack" ⟨brokenOff, #[]⟩ =
      compileSource {} "A.jack" ⟨brokenOff, #[]⟩ := by
  have hB : (compileSource {} "B.jack").run' ⟨brokenOff, #[]⟩ = none := by decide +kernel
  have hA : (compileSource {} "A.jack").run' ⟨brokenOff, #[]⟩ = some "A.vm" := by decide +kernel
  have hfree : Free {} "A.jack" ".tmp" brokenOff := by
    intro target directory name ho ht
    obtain rfl : "A.vm" = target := Except.ok.inj ho
    obtain ⟨rfl, -⟩ : [] = directory ∧ "A.vm" = name := Prod.mk.inj (Except.ok.inj ht)
    rfl
  refine ⟨by decide +kernel, ?_, ?_, hfree,
    (compileSource_atomic {} "A.jack" ⟨brokenOff, #[]⟩).2.2.2 ".tmp" hfree⟩
  · delta EStateM.run' EStateM.run at hB
    cases h : compileSource {} "B.jack" ⟨brokenOff, #[]⟩ with
    | ok target w' =>
      rw [h] at hB
      cases hB
    | error cause w' =>
      exact ⟨cause, w', rfl, (compileSource_atomic {} "B.jack" ⟨brokenOff, #[]⟩).1 cause w' h⟩
  · delta EStateM.run' EStateM.run at hA
    cases h : compileSource {} "A.jack" ⟨brokenOff, #[]⟩ with
    | ok target w' =>
      rw [h] at hA
      obtain rfl := Option.some.inj hA
      exact ⟨w', rfl, ((compileSource_atomic {} "A.jack" ⟨brokenOff, #[]⟩).2.1 _ w' h).2⟩
    | error cause w' =>
      rw [h] at hA
      cases hA

end Batch

end JackStack
