import JackStack.Batch
import JackStack.Proofs.ErrorLine
import JackStack.Proofs.Trees

/-!
# Proofs/Building — source files are built one after the other

A source file is built if its text is read and compiles, a temporary file can be made, and the
commands are put at the path of its output. A failure leaves the files as they were. So a batch that
stops at the first failure goes the same way as one that keeps going, up to the first file that
fails there.

* `Batch.Builds` — a source file is built.
* `Batch.Builds.exists_place` — its output file is found where it was put.
* `Batch.compileSources_cases` — all files of a list are built, or one is the first to fail.
* `Batch.run_cases` — the same for all files that a path stands for.
-/

namespace JackStack

open JackStack.Action (Returns returns_bind returns_pure returns_modify returns_discard)

/-! ## Commands as bytes -/

/-- What has been written without a limit is a text. -/
theorem bytes_compileInto {source name : String}
    (h : (compileInto source {}).result = .ok name) :
    (compileInto source {}).writer.sink.bytes
      = (compileInto source {}).writer.sink.contents.toUTF8 := by
  rw [compileInto] at h ⊢
  cases hi : Lookahead.ofSource (Comment.strip source) with
  | error e =>
    rw [hi] at h
    cases h
  | ok input =>
    rw [hi] at h
    simp only [compileTokens] at h ⊢
    cases hr : Session.run Goal.classGoals { input, writer := { sink := {} } } with
    | error e s =>
      rw [hr] at h
      cases h
    | ok u s =>
      have hstart : Session.run Goal.classGoals (Session.start input {}) = .ok () s := hr
      obtain ⟨c, -, -, hw⟩ := Session.run_class_sound hstart
      simp only [hw]
      exact ByteArray.append_empty

theorem compileText_eq_ok {source code : String} :
    compileText source = .ok code ↔ ∃ name, (compileInto source {}).result = .ok name ∧
      (compileInto source {}).writer.sink.contents = code := by
  rw [compileText]
  cases (compileInto source {}).result with
  | error e => simp [Except.map]
  | ok name => simp [Except.map]

/-- A text does not compile for what it says, never for what was asked. -/
theorem isMisuse_compileInto {source : String} {e : CompileError}
    (h : (compileInto source {}).result = .error e) : e.isMisuse = false := by
  have hlocated (e : CompileError) (he : e.Located source) : e.isMisuse = false := by
    cases he <;> rfl
  rcases compileInto_eq_error_iff_run.mp h with hi | ⟨input, s, hi, hrun⟩
  · obtain ⟨rest, hitems⟩ := Lookahead.exists_of_ofItems_eq_error hi
    exact hlocated e (.of_item [] hitems)
  · cases Session.halts_of_run rfl hrun with
    | unexpected hr he => rw [he]; rfl
    | @malformed _ _ token _ hr hc hp =>
      obtain ⟨read, -, hs⟩ := (Lookahead.stands_ofItems hi).reads hr
      have hitems := hs.items_of_current hc
      rw [hp] at hitems
      exact hlocated e (.of_item (read ++ [token]) (by simpa using hitems))
    | undefined hr hn he => rw [he]; rfl

/-! ## Faults of files -/

namespace FileTree

variable {α β : Type} {t : FileTree}

/-- **The fault, if there is one, is not with an extension.** -/
def Regular (x : Except FileFault α) : Prop :=
  ∀ extension, x ≠ .error (.slashInExtension extension)

theorem Regular.bind {x : Except FileFault α} {f : α → Except FileFault β} (hx : Regular x)
    (hf : ∀ a, Regular (f a)) : Regular (x >>= f) := by
  cases x with
  | ok a => exact hf a
  | error fault =>
    rintro extension ⟨⟩
    exact hx extension rfl

theorem regular_checkName (name : String) : Regular (checkName name) := by
  rw [checkName]
  split <;> rintro _ ⟨⟩

theorem regular_checkPath {fault : FileFault} (path : String)
    (h : ∀ extension, fault ≠ .slashInExtension extension) : Regular (checkPath fault path) := by
  rw [checkPath]
  split
  · rintro extension ⟨⟩
    exact h extension rfl
  · split <;> rintro _ ⟨⟩

theorem regular_walk (t : FileTree) (here : Location) (pieces : List String) :
    Regular (t.walk here pieces) := by
  induction pieces generalizing here with
  | nil => rintro _ ⟨⟩
  | cons piece rest ih =>
    rw [walk]
    split
    · rintro _ ⟨⟩
    · rintro _ ⟨⟩
    · split
      · exact ih here
      · split
        · exact ih _
        · exact (regular_checkName piece).bind fun _ => ih _

theorem regular_lookup (t : FileTree) (path : String) : Regular (t.lookup path) := by
  rw [lookup]
  split
  · rintro _ ⟨⟩
  · refine (regular_checkPath path ?_).bind fun _ => (regular_walk t _ _).bind fun here => ?_
    · rintro _ ⟨⟩
    · split <;> rintro _ ⟨⟩

theorem regular_readText (t : FileTree) (path : String) : Regular (t.readText path) := by
  have hread : Regular (t.read path) := by
    refine (regular_lookup t path).bind fun p => ?_
    split <;> rintro _ ⟨⟩
  refine hread.bind fun content => ?_
  split <;> rintro _ ⟨⟩

theorem regular_target (t : FileTree) (path : String) : Regular (t.target path) := by
  refine (regular_walk t _ _).bind fun directory => ?_
  split <;> rintro _ ⟨⟩

theorem regular_stage (t : FileTree) (path : String) : Regular (t.stage path) := by
  rw [stage]
  split
  · rintro _ ⟨⟩
  · refine (regular_target t path).bind fun p => ?_
    rintro _ ⟨⟩

theorem regular_put (t : FileTree) (directory : Location) (name : String) (content : ByteArray) :
    Regular (t.put directory name content) := by
  refine (regular_checkName name).bind fun _ => ?_
  split <;> rintro _ ⟨⟩

theorem regular_replace (t : FileTree) (path : String) (content : ByteArray) :
    Regular (t.replace path content) := by
  refine (regular_checkPath path ?_).bind fun _ => (regular_target t path).bind fun p => ?_
  · rintro _ ⟨⟩
  · split
    split
    · exact regular_put t _ _ _
    · rintro _ ⟨⟩

end FileTree

/-! ## Actions on a workspace -/

namespace Workspace

variable {α β : Type} {w w' : Workspace}

theorem returns_query {f : FileTree → Except FileFault α} {a : α} :
    Returns (query f) w a w' ↔ f w.files = .ok a ∧ w' = w := by
  rw [Returns, query]
  cases f w.files with
  | ok b => simp [eq_comm]
  | error fault => simp

theorem returns_update {f : FileTree → Except FileFault FileTree} {u : Unit} :
    Returns (update f) w u w' ↔ ∃ files, f w.files = .ok files ∧ w' = { w with files } := by
  rw [Returns, update]
  cases f w.files with
  | ok files => simp [eq_comm]
  | error fault => simp

theorem returns_compile {text name : String} {sink : Sink} :
    Returns (compile text) w (name, sink) w' ↔
      (compileInto text {}).result = .ok name ∧ (compileInto text {}).writer.sink = sink ∧
        w' = { w with log := w.log ++ (compileInto text {}).writer.log } := by
  rw [Returns, compile]
  cases (compileInto text {}).result with
  | ok n => simp [eq_comm, and_assoc]
  | error e => simp

/-- **An action leaves the files as they are**, whether it succeeds or fails, and fails only for
what it finds. -/
structure Spares (a : Action Workspace α) : Prop where
  ok : ∀ {w x w'}, a w = .ok x w' → w'.files = w.files
  error : ∀ {w e w'}, a w = .error e w' → w'.files = w.files ∧ e.isMisuse = false

/-- **An action that fails leaves the files as they are**, and fails only for what it finds. -/
def Atomic (a : Action Workspace α) : Prop :=
  ∀ w e w', a w = .error e w' → w'.files = w.files ∧ e.isMisuse = false

theorem isMisuse_of_regular {x : Except FileFault α} {fault : FileFault}
    (h : FileTree.Regular x) (hx : x = .error fault) :
    (CompileError.file fault).isMisuse = false := by
  cases fault with
  | slashInExtension extension => exact absurd hx (h extension)
  | _ => rfl

theorem spares_query {f : FileTree → Except FileFault α}
    (h : ∀ files, FileTree.Regular (f files)) : Spares (query f) where
  ok hq := by rw [(returns_query.1 hq).2]
  error {w e w'} hq := by
    rw [query] at hq
    cases hf : f w.files with
    | ok a =>
      rw [hf] at hq
      cases hq
    | error fault =>
      rw [hf] at hq
      cases hq
      exact ⟨rfl, isMisuse_of_regular (h w.files) hf⟩

theorem spares_compile (text : String) : Spares (compile text) where
  ok hc := by rw [(returns_compile.1 hc).2.2]
  error {w e w'} hc := by
    simp only [compile] at hc
    cases hr : (compileInto text {}).result with
    | ok name =>
      rw [hr] at hc
      cases hc
    | error e' =>
      rw [hr] at hc
      cases hc
      exact ⟨rfl, isMisuse_compileInto hr⟩

theorem spares_discard {a : Action Workspace α} (h : Spares a) : Spares (discard a) where
  ok hd := by
    obtain ⟨x, ha⟩ := returns_discard.1 hd
    exact h.ok ha
  error {w e w'} hd := by
    change EStateM.bind a (fun _ => pure ()) w = _ at hd
    rw [EStateM.bind] at hd
    cases ha : a w with
    | ok x w₁ =>
      rw [ha] at hd
      cases hd
    | error e₁ w₁ =>
      rw [ha] at hd
      cases hd
      exact h.error ha

theorem spares_noteAll (events : List Event) : Spares (modify (·.noteAll events)) where
  ok h := by
    cases h
    rfl
  error h := by cases h

theorem Spares.bind {a : Action Workspace α} {f : α → Action Workspace β} (ha : Spares a)
    (hf : ∀ x, Atomic (f x)) : Atomic (a >>= f) := by
  intro w e w' h
  change EStateM.bind a f w = _ at h
  rw [EStateM.bind] at h
  cases hx : a w with
  | ok x w₁ =>
    rw [hx] at h
    obtain ⟨hfiles, he⟩ := hf x w₁ e w' h
    exact ⟨hfiles.trans (ha.ok hx), he⟩
  | error e₁ w₁ =>
    rw [hx] at h
    cases h
    exact ha.error hx

/-- A change of files is over once it is made. -/
theorem atomic_update {f : FileTree → Except FileFault FileTree}
    (h : ∀ files, FileTree.Regular (f files)) {g : Workspace → Workspace} {x : α} :
    Atomic (update f >>= fun _ => modify g >>= fun _ => pure x) := by
  intro w e w' he
  change EStateM.bind (update f) _ w = _ at he
  rw [EStateM.bind, update] at he
  cases hf : f w.files with
  | ok files =>
    rw [hf] at he
    cases he
  | error fault =>
    rw [hf] at he
    cases he
    exact ⟨rfl, isMisuse_of_regular (h w.files) hf⟩

end Workspace

/-! ## One source file -/

/-- The configuration in which a batch goes on after a failure, or does not. -/
def BatchConfig.keeping (c : BatchConfig) (keepGoing : Bool) : BatchConfig :=
  { c with keepGoing }

namespace Batch

open Workspace

variable {c : BatchConfig} {source target : String} {files files' : FileTree} {w w' : Workspace}

/-- **A source file is built**: its text compiles, a temporary file can be made beside its output
file, and the commands are put at the path of that. -/
structure Builds (c : BatchConfig) (source target : String) (files files' : FileTree) : Prop where
  output : outputOf c source = .ok target
  staged : ∃ directory, files.stage target = .ok directory
  written : ∃ text code, files.readText source = .ok text ∧ compileText text = .ok code ∧
    files.replace target code.toUTF8 = .ok files'

theorem builds_of_compileSource (h : compileSource c source w = .ok target w') :
    Builds c source target w.files w'.files := by
  obtain ⟨t, w₁, ho, h₁⟩ := returns_bind.1 h
  obtain ⟨houtput, rfl⟩ := returns_query.1 ho
  obtain ⟨text, w₂, hr, h₂⟩ := returns_bind.1 h₁
  obtain ⟨hread, rfl⟩ := returns_query.1 hr
  obtain ⟨_, w₃, ht, h₃⟩ := returns_bind.1 h₂
  obtain ⟨directory, ht⟩ := returns_discard.1 ht
  obtain ⟨hstage, rfl⟩ := returns_query.1 ht
  obtain ⟨⟨name, sink⟩, w₄, hc, h₄⟩ := returns_bind.1 h₃
  obtain ⟨hcompile, rfl, rfl⟩ := returns_compile.1 hc
  obtain ⟨_, w₅, hn, h₅⟩ := returns_bind.1 h₄
  obtain rfl := returns_modify.1 hn
  obtain ⟨_, w₆, hu, h₆⟩ := returns_bind.1 h₅
  obtain ⟨files, hreplace, rfl⟩ := returns_update.1 hu
  obtain ⟨_, w₇, hn, h₇⟩ := returns_bind.1 h₆
  obtain rfl := returns_modify.1 hn
  obtain ⟨rfl, rfl⟩ := returns_pure.1 h₇
  rw [bytes_compileInto hcompile] at hreplace
  exact ⟨houtput, ⟨directory, hstage⟩, text, _, hread, compileText_eq_ok.2 ⟨name, hcompile, rfl⟩,
    hreplace⟩

theorem Builds.compileSource (h : Builds c source target w.files files') :
    ∃ w', compileSource c source w = .ok target w' ∧ w'.files = files' := by
  obtain ⟨houtput, ⟨directory, hstage⟩, text, code, hread, hcode, hreplace⟩ := h
  obtain ⟨name, hcompile, rfl⟩ := compileText_eq_ok.1 hcode
  rw [← bytes_compileInto hcompile] at hreplace
  let compiled : Workspace := { w with log := w.log ++ (compileInto text {}).writer.log }
  let written : Workspace := { compiled.noteAll (mismatch name source) with files := files' }
  refine ⟨written.note (.fileCompiled source target), ?_, rfl⟩
  refine returns_bind.2 ⟨target, w, returns_query.2 ⟨houtput, rfl⟩, ?_⟩
  refine returns_bind.2 ⟨text, w, returns_query.2 ⟨hread, rfl⟩, ?_⟩
  refine returns_bind.2
    ⟨(), w, returns_discard.2 ⟨directory, returns_query.2 ⟨hstage, rfl⟩⟩, ?_⟩
  refine returns_bind.2 ⟨(name, _), compiled, returns_compile.2 ⟨hcompile, rfl, rfl⟩, ?_⟩
  refine returns_bind.2 ⟨(), _, returns_modify.2 rfl, ?_⟩
  refine returns_bind.2 ⟨(), written, returns_update.2 ⟨files', hreplace, rfl⟩, ?_⟩
  exact returns_bind.2 ⟨(), _, returns_modify.2 rfl, returns_pure.2 ⟨rfl, rfl⟩⟩

/-- **The output file is found where it was put.** -/
theorem Builds.exists_place (h : Builds c source target files files') :
    ∃ text code directory name, files.readText source = .ok text ∧ compileText text = .ok code ∧
      files.target target = .ok (directory, name) ∧ FileTree.isName name = true ∧
      files.entry? (directory ++ [name]) ≠ some .directory ∧
      files' = files.insert (directory ++ [name]) (.file code.toUTF8) ∧
      files'.lookup target = .ok (directory ++ [name], .file code.toUTF8) := by
  obtain ⟨houtput, -, text, code, hread, hcode, hreplace⟩ := h
  have hextension : Path.withExtension? source c.targetExtension = some target := by
    rw [outputOf] at houtput
    split at houtput
    · next t ht =>
      obtain rfl := Except.ok.inj houtput
      exact ht
    · cases houtput
  have hparts : Path.parts? target.toList ≠ none := by
    obtain ⟨-, -, directory, name, htarget, hname, -⟩ := FileTree.of_replace hreplace
    obtain ⟨-, -, rfl⟩ := FileTree.of_target htarget
    simp only [FileTree.isName, Bool.and_eq_true, decide_eq_true_eq] at hname
    obtain ⟨⟨hne, hdot⟩, hdots⟩ := hname
    exact Path.parts?_ne_none (fun h => hne (by rw [h])) (fun h => hdot (by rw [h]))
      fun h => hdots (by rw [h])
  obtain ⟨directory, name, hplace⟩ :=
    FileTree.lookup_of_replace hreplace (Path.getLast?_withExtension? hextension hparts)
  exact ⟨text, code, directory, name, hread, hcode, hplace⟩

/-- **A source file that fails leaves the files as they were.** What was asked is at fault exactly
if the extension of output files is no part of a name. -/
theorem compileSource_error {cause : CompileError}
    (h : compileSource c source w = .error cause w') :
    w'.files = w.files ∧ (cause.isMisuse = true ↔ '/' ∈ c.targetExtension.toList) := by
  by_cases hslash : '/' ∈ c.targetExtension.toList
  · have ho : outputOf c source = .error (.slashInExtension c.targetExtension) := by
      rw [outputOf, Path.withExtension?, if_pos hslash]
    have hq : query (fun _ => outputOf c source) w
        = .error (.file (.slashInExtension c.targetExtension)) w := by
      rw [query, ho]
    change EStateM.bind (query fun _ => outputOf c source) _ w = _ at h
    rw [EStateM.bind, hq] at h
    cases h
    exact ⟨rfl, fun _ => hslash, fun _ => rfl⟩
  · have ho : FileTree.Regular (outputOf c source) := by
      rw [outputOf, Path.withExtension?, if_neg hslash]
      rintro _ ⟨⟩
    have hatomic : Atomic (compileSource c source) :=
      (spares_query fun _ => ho).bind fun target =>
      (spares_query fun files => files.regular_readText source).bind fun text =>
      (spares_discard (spares_query fun files => files.regular_stage target)).bind fun _ =>
      (spares_compile text).bind fun _ =>
      (spares_noteAll _).bind fun _ => atomic_update fun files => files.regular_replace target _
    obtain ⟨hfiles, hm⟩ := hatomic w cause w' h
    exact ⟨hfiles, fun h => absurd (hm.symm.trans h) (by decide), fun h => absurd h hslash⟩

/-! ## Several source files -/

/-- **Source files are built**, one after the other, each from the files that the one before left.
-/
inductive BuildsAll (c : BatchConfig) : List String → FileTree → List String → FileTree → Prop
  | nil {files : FileTree} : BuildsAll c [] files [] files
  | cons {source target : String} {rest targets : List String} {files files₁ files' : FileTree} :
    Builds c source target files files₁ → BuildsAll c rest files₁ targets files' →
    BuildsAll c (source :: rest) files (target :: targets) files'

variable {sources rest targets : List String} {cause : CompileError} {k : Bool}

/-- A file that is compiled comes first in the report. -/
theorem compileSources_of_ok (h : compileSource c source w = .ok target w') (k : Bool)
    {result : Except FileError Report} {w'' : Workspace}
    (hrest : compileSources (c.keeping k) rest w' = (result, w'')) :
    compileSources (c.keeping k) (source :: rest) w
      = (result.map fun r => { r with compiled := target :: r.compiled }, w'') := by
  have hk : compileSource (c.keeping k) source w = .ok target w' := h
  rw [compileSources, hk]
  simp only [hrest]

/-- At a file that fails a batch stops, unless it is to keep going and may. -/
theorem compileSources_of_error (h : compileSource c source w = .error cause w')
    (hk : (k && !cause.isMisuse) = false) :
    compileSources (c.keeping k) (source :: rest) w = (.error ⟨source, cause⟩, w') := by
  have hs : compileSource (c.keeping k) source w = .error cause w' := h
  have hk : ((c.keeping k).keepGoing && !cause.isMisuse) = false := hk
  rw [compileSources, hs]
  simp only [hk]
  rfl

/-- Else the failure is noted and comes first in the report. -/
theorem compileSources_keepGoing (h : compileSource c source w = .error cause w')
    (hm : cause.isMisuse = false) {result : Except FileError Report} {w'' : Workspace}
    (hrest : compileSources (c.keeping true) rest (w'.note (.fileSkipped ⟨source, cause⟩))
      = (result, w'')) :
    compileSources (c.keeping true) (source :: rest) w
      = (result.map fun r => { r with failed := ⟨source, cause⟩ :: r.failed }, w'') := by
  have hs : compileSource (c.keeping true) source w = .error cause w' := h
  have hk : ((c.keeping true).keepGoing && !cause.isMisuse) = true := by rw [hm]; rfl
  rw [compileSources, hs]
  simp only [hk, hrest, if_true]

/-- Files that are built are compiled, whether a batch would go on after a failure or not. -/
theorem BuildsAll.compileSources (h : BuildsAll c sources w.files targets files') :
    ∃ w', w'.files = files' ∧
      ∀ k, compileSources (c.keeping k) sources w = (.ok ⟨targets, []⟩, w') := by
  generalize hw : w.files = files at h
  induction h generalizing w with
  | nil => exact ⟨w, hw, fun _ => rfl⟩
  | cons hfirst _ ih =>
    subst hw
    obtain ⟨w₁, hcompile, hfiles⟩ := hfirst.compileSource
    obtain ⟨w', hw', hrest⟩ := ih hfiles
    exact ⟨w', hw', fun k => compileSources_of_ok hcompile k (hrest k)⟩

/-- **A batch that keeps going comes to its end**, where output files can have names. -/
theorem exists_report (hext : '/' ∉ c.targetExtension.toList) (sources : List String)
    (w : Workspace) : ∃ r w', compileSources (c.keeping true) sources w = (.ok r, w') := by
  induction sources generalizing w with
  | nil => exact ⟨{}, w, rfl⟩
  | cons source rest ih =>
    cases hs : compileSource c source w with
    | ok target w₁ =>
      obtain ⟨r, w', hrest⟩ := ih w₁
      exact ⟨_, w', compileSources_of_ok hs true hrest⟩
    | error cause w₁ =>
      have hm : cause.isMisuse = false := by
        rw [Bool.eq_false_iff, ne_eq, (compileSource_error hs).2]
        exact hext
      obtain ⟨r, w', hrest⟩ := ih (w₁.note (.fileSkipped ⟨source, cause⟩))
      exact ⟨_, w', compileSources_keepGoing hs hm hrest⟩

/-- **A batch comes to a file that fails.** Those before it are compiled, which leads to the
workspace `w₁`, and the failure leads to `w₂`. There a batch stops, or goes on with those behind. -/
structure ComesTo (c : BatchConfig) (w : Workspace) (sources before behind targets : List String)
    (w₁ w₂ : Workspace) (f : FileError) : Prop where
  split : sources = before ++ f.path :: behind
  compiled : ∀ k, compileSources (c.keeping k) before w = (.ok ⟨targets, []⟩, w₁)
  fails : compileSource c f.path w₁ = .error f.cause w₂
  stops : ∀ k, (k && !f.cause.isMisuse) = false →
    compileSources (c.keeping k) sources w = (.error f, w₂)
  goesOn : f.cause.isMisuse = false → ∀ result w',
    compileSources (c.keeping true) behind (w₂.note (.fileSkipped f)) = (result, w') →
    compileSources (c.keeping true) sources w
      = (result.map fun r => ⟨targets ++ r.compiled, f :: r.failed⟩, w')

/-- **All files of a list are built, or one is the first to fail.** -/
theorem compileSources_cases (c : BatchConfig) (sources : List String) (w : Workspace) :
    (∃ targets files', BuildsAll c sources w.files targets files') ∨
      ∃ before behind targets w₁ w₂ f, ComesTo c w sources before behind targets w₁ w₂ f := by
  induction sources generalizing w with
  | nil => exact .inl ⟨[], w.files, .nil⟩
  | cons source rest ih =>
    cases hs : compileSource c source w with
    | ok target w' =>
      obtain ⟨targets, files', hrest⟩ | ⟨before, behind, targets, w₁, w₂, f, h⟩ := ih w'
      · exact .inl ⟨target :: targets, files', .cons (builds_of_compileSource hs) hrest⟩
      · refine .inr ⟨source :: before, behind, target :: targets, w₁, w₂, f, ?_⟩
        exact {
          split := by rw [h.split]; rfl
          compiled := fun k => compileSources_of_ok hs k (h.compiled k)
          fails := h.fails
          stops := fun k hk => compileSources_of_ok hs k (h.stops k hk)
          goesOn := fun hm result w'' hbehind => by
            rw [compileSources_of_ok hs true (h.goesOn hm result w'' hbehind)]
            cases result <;> rfl }
    | error cause w' =>
      refine .inr ⟨[], rest, [], w, w', ⟨source, cause⟩, ?_⟩
      exact {
        split := rfl
        compiled := fun _ => rfl
        fails := hs
        stops := fun k hk => compileSources_of_error hs hk
        goesOn := fun hm result w'' hbehind => compileSources_keepGoing hs hm hbehind }

section ComesTo

variable {before behind : List String} {w₁ w₂ : Workspace} {f : FileError}
  (h : ComesTo c w sources before behind targets w₁ w₂ f)

include h

theorem ComesTo.not_buildsAll {targets' : List String} :
    ¬BuildsAll c sources w.files targets' files' := by
  intro hb
  obtain ⟨w', -, hall⟩ := hb.compileSources
  cases (hall false).symm.trans (h.stops false rfl)

/-- The failure leaves the files as they were. -/
theorem ComesTo.files_eq : w₂.files = w₁.files :=
  (compileSource_error h.fails).1

/-- The batch stops with the failure, or it keeps going and reports the failure first. -/
theorem ComesTo.result (k : Bool) :
    compileSources (c.keeping k) sources w = (.error f, w₂) ∨
    ∃ r w', compileSources (c.keeping k) sources w = (.ok r, w') ∧
      ∃ rest, r.failed = f :: rest := by
  cases hk : k && !f.cause.isMisuse with
  | false => exact .inl (h.stops k hk)
  | true =>
    obtain ⟨rfl, hm⟩ := Bool.and_eq_true_iff.1 hk
    have hm : f.cause.isMisuse = false := by simpa using hm
    have hext : '/' ∉ c.targetExtension.toList := by
      rw [← (compileSource_error h.fails).2, hm]
      exact Bool.false_ne_true
    obtain ⟨r, w', hbehind⟩ := exists_report hext behind (w₂.note (.fileSkipped f))
    exact .inr ⟨_, w', h.goesOn hm _ _ hbehind, r.failed, rfl⟩

end ComesTo

/-- **What a path leads to**: nothing that could be compiled, files that are all built, or files of
which one is the first to fail. -/
theorem run_cases (c : BatchConfig) (path : String) (w : Workspace) :
    (∃ e, (∀ sources, Batch.sources c w.files path ≠ .ok sources) ∧
      ∀ k, run (c.keeping k) path w = (.error e, w)) ∨
    (∃ sources targets w', Batch.sources c w.files path = .ok sources ∧
      BuildsAll c sources w.files targets w'.files ∧
      ∀ k, run (c.keeping k) path w = (.ok ⟨targets, []⟩, w')) ∨
    ∃ sources before behind targets w₁ w₂ f, Batch.sources c w.files path = .ok sources ∧
      ComesTo c w sources before behind targets w₁ w₂ f ∧
      ∀ k, run (c.keeping k) path w = compileSources (c.keeping k) sources w := by
  have hk (k : Bool) : Batch.sources (c.keeping k) = Batch.sources c := rfl
  cases hs : Batch.sources c w.files path with
  | error fault =>
    refine .inl ⟨⟨path, .file fault⟩, nofun, fun k => ?_⟩
    rw [run, hk, hs]
  | ok sources =>
    cases sources with
    | nil =>
      refine .inr (.inl ⟨[], [], w.note (.nothingToCompile c.sourceExtension path), rfl, .nil,
        fun k => ?_⟩)
      rw [run, hk, hs]
      rfl
    | cons source rest =>
      have hrun (k : Bool) :
          run (c.keeping k) path w = compileSources (c.keeping k) (source :: rest) w := by
        rw [run, hk, hs]
      obtain ⟨targets, files', hb⟩ | ⟨before, behind, targets, w₁, w₂, f, h⟩ :=
        compileSources_cases c (source :: rest) w
      · obtain ⟨w', rfl, hall⟩ := hb.compileSources
        exact .inr (.inl ⟨_, targets, w', rfl, hb, fun k => (hrun k).trans (hall k)⟩)
      · exact .inr (.inr ⟨_, before, behind, targets, w₁, w₂, f, rfl, h, hrun⟩)

end Batch

end JackStack
