import JackStack.CommandLine.Run
import JackStack.Proofs.Directory

/-!
# Proofs/Outputs — what a command leaves in its output files

An output file stands beside its source file, in the same directory and under the same stem. So a
source file that is built later overwrites no source file, and no output file but that of a source
file at its own place, with what is there already. Where all files of a batch are built, each output
file holds the commands of its source file in the end.

* `Batch.Builds.beside` — where the output file of a source file is put.
* `Batch.Settled.buildsAll` — an output file that holds its commands does so in the end.
* `Batch.BuildsAll.written` — every source file of a batch is written out.
* `Batch.stopping_of_keepGoing` — a batch that stops goes part of the way of one that keeps going.
-/

namespace JackStack

namespace Batch

open FileTree (Nameable)

variable {source target stem code path : String} {files files₁ files' : FileTree}
  {here directory : Location} {sources targets : List String}

/-! ## Beside the source file -/

/-- **A source file as a directory lists it**: its path is more than a name, and its name has the
extension of source files. -/
structure Listed (source : String) : Prop where
  slash : '/' ∈ source.toList
  extension : Path.extension? source.toList = some "jack".toList

/-- **A listed file is a source file of a directory**, in every tree in which it is found. -/
theorem Listed.exists_sourceIn {content : ByteArray} (h : Listed source)
    (hl : files.lookup source = .ok (here, .file content)) :
    ∃ path directory stem, source = sourceIn path stem ∧
      files.lookup path = .ok (directory, .directory) ∧ stem ≠ "" ∧ Nameable (stem ++ ".jack") ∧
      here = directory ++ [stem ++ ".jack"] := by
  obtain ⟨front, directory, name, rfl, hd, hn, rfl⟩ :=
    FileTree.exists_join_of_lookup hl h.slash
  have hfront : front ≠ "" := (FileTree.lookup_eq_ok_iff.1 hd).1
  obtain ⟨stem, hs, rfl⟩ := (extension?_join hfront hn).1 h.extension
  exact ⟨front, directory, stem, rfl, hd, hs, hn, rfl⟩

/-- **The output file of a listed file** is put beside it, in place of a file or of nothing. -/
theorem Builds.beside (h : Builds {} source target files files') (hsource : Listed source) :
    ∃ path directory stem code, source = sourceIn path stem ∧ target = outputIn path stem ∧
      files.lookup path = .ok (directory, .directory) ∧ Nameable (stem ++ ".jack") ∧
      Yields files path directory stem code ∧
      files' = files.insert (directory ++ [stem ++ ".vm"]) (.file code.toUTF8) := by
  obtain ⟨text, -, hread, -⟩ := h.written
  obtain ⟨content, hread, -⟩ := FileTree.readText_eq_ok_iff.1 hread
  obtain ⟨here, hl⟩ := FileTree.read_eq_ok_iff.1 hread
  obtain ⟨path, directory, stem, rfl, hd, hs, hn, -⟩ := hsource.exists_sourceIn hl
  obtain ⟨code, hy, rfl, rfl⟩ := (builds_iff hd hs hn).1 h
  exact ⟨path, directory, stem, code, rfl, rfl, hd, hn, hy, rfl⟩

/-! ## What stays -/

/-- **An output file holds the commands of the source file beside it.** -/
structure Settled (path : String) (directory : Location) (stem code : String) (files : FileTree) :
    Prop where
  found : files.lookup path = .ok (directory, .directory)
  compiles : ∃ content text, files.entry? (directory ++ [stem ++ ".jack"]) = some (.file content) ∧
    String.fromUTF8? content = some text ∧ compileText text = .ok code
  holds : files.entry? (directory ++ [stem ++ ".vm"]) = some (.file code.toUTF8)

/-- A source file that has been built. -/
theorem Yields.settled (h : Yields files path directory stem code)
    (hd : files.lookup path = .ok (directory, .directory)) (hn : Nameable (stem ++ ".jack")) :
    Settled path directory stem code
      (files.insert (directory ++ [stem ++ ".vm"]) (.file code.toUTF8)) where
  found := FileTree.lookup_insert_file hd (h.vacant hd hn).2 _
  compiles := by
    rw [FileTree.entry?_insert_of_ne (source_ne_output directory directory stem stem)]
    exact h.compiles
  holds := FileTree.entry?_insert_self (by simp) _ _

/-- Its output file is read by the path of the output. -/
theorem Settled.read_outputIn (h : Settled path directory stem code files')
    (hy : Yields files path directory stem code)
    (hd : files.lookup path = .ok (directory, .directory)) (hn : Nameable (stem ++ ".jack")) :
    files'.read (outputIn path stem) = .ok code.toUTF8 :=
  FileTree.read_eq_ok_iff.2 ⟨_, hy.lookup_outputIn hd hn h.found h.holds⟩

/-- **A listed file that is built overwrites no source file**, and an output file only with what it
holds. -/
theorem Settled.builds (h : Settled path directory stem code files)
    (hb : Builds {} source target files files') (hsource : Listed source) :
    Settled path directory stem code files' := by
  obtain ⟨path', directory', stem', code', -, -, hd, hn, hy, rfl⟩ := hb.beside hsource
  refine ⟨FileTree.lookup_insert_file h.found (hy.vacant hd hn).2 _, ?_, ?_⟩
  · rw [FileTree.entry?_insert_of_ne (source_ne_output directory directory' stem stem')]
    exact h.compiles
  · by_cases heq : directory ++ [stem ++ ".vm"] = directory' ++ [stem' ++ ".vm"]
    · obtain ⟨rfl, hname⟩ := List.append_inj' heq rfl
      obtain rfl : stem = stem' := extension_inj (List.cons.inj hname).1
      -- the other source file stands at the same place, so it is the same text
      rw [code_unique h.compiles hy.compiles]
      exact FileTree.entry?_insert_self (by simp) _ _
    · rw [FileTree.entry?_insert_of_ne heq]
      exact h.holds

/-- **An output file that holds its commands does so in the end.** -/
theorem Settled.buildsAll (h : Settled path directory stem code files)
    (hb : BuildsAll {} sources files targets files')
    (hsources : ∀ source ∈ sources, Listed source) :
    Settled path directory stem code files' := by
  induction hb with
  | nil => exact h
  | cons hfirst _ ih =>
    exact ih (h.builds hfirst (hsources _ List.mem_cons_self))
      fun source hmem => hsources source (List.mem_cons_of_mem _ hmem)

/-- A listed file reads the same before another one is built as behind it. -/
theorem Builds.readText_of_listed {source' text : String} (h : Builds {} source target files files')
    (hsource : Listed source) (hsource' : Listed source')
    (hread : files'.readText source' = .ok text) :
    files.readText source' = .ok text := by
  obtain ⟨path, directory, stem, code, -, -, hd, hn, hy, rfl⟩ := h.beside hsource
  obtain ⟨content, hcontent, htext⟩ := FileTree.readText_eq_ok_iff.1 hread
  obtain ⟨here, hl⟩ := FileTree.read_eq_ok_iff.1 hcontent
  obtain ⟨-, directory', stem', -, -, -, -, rfl⟩ := hsource'.exists_sourceIn hl
  have hl' := FileTree.lookup_of_insert_file hl (hy.vacant hd hn).2
    (source_ne_output directory' directory stem' stem)
  exact FileTree.readText_eq_ok_iff.2 ⟨content, FileTree.read_eq_ok_iff.2 ⟨_, hl'⟩, htext⟩

/-! ## What is written -/

/-- **A source file is written out**: in `files'` its output file holds the commands of the text
that the source file had in `files`. -/
def Written (c : BatchConfig) (source : String) (files files' : FileTree) : Prop :=
  ∃ target text code, outputOf c source = .ok target ∧ files.readText source = .ok text ∧
    compileText text = .ok code ∧ files'.read target = .ok code.toUTF8

/-- A source file that is built, with no other one behind it. -/
theorem Builds.written_out {c : BatchConfig} (h : Builds c source target files files') :
    Written c source files files' := by
  obtain ⟨text, code, directory, name, hread, hcode, -, -, -, -, hlookup⟩ := h.exists_place
  exact ⟨target, text, code, h.output, hread, hcode, FileTree.read_eq_ok_iff.2 ⟨_, hlookup⟩⟩

/-- **Every listed file of a batch is written out.** -/
theorem BuildsAll.written_of_listed (h : BuildsAll {} sources files targets files')
    (hsources : ∀ source ∈ sources, Listed source) :
    ∀ source ∈ sources, Written {} source files files' := by
  induction h with
  | nil => exact fun source hmem => absurd hmem List.not_mem_nil
  | @cons first target rest targets files files₁ files' hfirst hrest ih =>
    have hlisted := hsources first List.mem_cons_self
    have hrestListed (source : String) (hmem : source ∈ rest) : Listed source :=
      hsources source (List.mem_cons_of_mem _ hmem)
    intro source hmem
    obtain rfl | hmem := List.mem_cons.1 hmem
    · obtain ⟨target', text, code, ho, hread, hcode, hholds⟩ := hfirst.written_out
      obtain rfl := Except.ok.inj (hfirst.output.symm.trans ho)
      obtain ⟨path, directory, stem, code', -, rfl, hd, hn, hy, rfl⟩ := hfirst.beside hlisted
      have hsettled := hy.settled hd hn
      have hend := (hsettled.buildsAll hrest hrestListed).read_outputIn hy hd hn
      rw [← hsettled.read_outputIn hy hd hn, hholds] at hend
      exact ⟨_, text, code, ho, hread, hcode, hend⟩
    · obtain ⟨target', text, code, ho, hread, hcode, hholds⟩ := ih hrestListed source hmem
      exact ⟨target', text, code, ho,
        hfirst.readText_of_listed hlisted (hrestListed source hmem) hread, hcode, hholds⟩

/-- A directory lists its source files. -/
theorem listed_of_sources (hd : files.lookup path = .ok (directory, .directory))
    (h : Batch.sources {} files path = .ok sources) : ∀ source ∈ sources, Listed source := by
  rw [sources_directory hd] at h
  obtain rfl := Except.ok.inj h
  intro source hmem
  obtain ⟨name, hname, rfl⟩ := List.mem_map.1 hmem
  obtain ⟨entry, -, hentry⟩ := List.mem_filterMap.1 hname
  obtain ⟨-, -, hextension⟩ := sourceName?_eq_some_iff.1 hentry
  obtain ⟨lead, -, hjoin⟩ := Path.exists_join (FileTree.lookup_eq_ok_iff.1 hd).1
  refine ⟨?_, hextension⟩
  rw [hjoin]
  exact List.mem_append_right _ List.mem_cons_self

/-- **Every file that a path stands for is written out**, if all of them are built. -/
theorem BuildsAll.written (h : BuildsAll {} sources files targets files')
    (hs : Batch.sources {} files path = .ok sources) :
    ∀ source ∈ sources, Written {} source files files' := by
  cases hl : files.lookup path with
  | error fault =>
    rw [Batch.sources, hl] at hs
    cases hs
  | ok found =>
    obtain ⟨here, e⟩ := found
    cases e with
    | directory => exact h.written_of_listed (listed_of_sources hl hs)
    | file content =>
      rw [Batch.sources, hl] at hs
      obtain rfl := Except.ok.inj hs
      intro source hmem
      obtain rfl := List.mem_singleton.1 hmem
      cases h with
      | cons hfirst hrest =>
        cases hrest
        exact hfirst.written_out

end Batch

/-! ## The command -/

namespace CommandLine

/-- **The status tells whether all files are built.** -/
theorem status_runCompile (path : String) (keepGoing : Bool) (files : FileTree) :
    ((runCompile path keepGoing files).status = 0 ∨ (runCompile path keepGoing files).status = 1) ∧
    ((runCompile path keepGoing files).status = 1 → ∀ sources targets files',
      Batch.sources {} files path = .ok sources →
        ¬Batch.BuildsAll {} sources files targets files') ∧
    ((runCompile path keepGoing files).status = 0 → ∃ sources targets,
      Batch.sources {} files path = .ok sources ∧
        Batch.BuildsAll {} sources files targets (runCompile path keepGoing files).files) := by
  have hc : ({ keepGoing } : BatchConfig) = BatchConfig.keeping {} keepGoing := rfl
  obtain ⟨e, hnone, hrun⟩ | ⟨sources, targets, w', hs, hb, hrun⟩ |
    ⟨sources, before, behind, targets, w₁, w₂, f, hs, h, hrun⟩ :=
    Batch.run_cases {} path { files }
  · rw [runCompile, hc, hrun]
    exact ⟨.inr rfl, fun _ sources _ _ hs => absurd hs (hnone sources), nofun⟩
  · rw [runCompile, hc, hrun]
    exact ⟨.inl rfl, nofun, fun _ => ⟨sources, targets, hs, hb⟩⟩
  · have hstatus : (runCompile path keepGoing files).status = 1 := by
      rw [runCompile, hc, hrun]
      obtain hstop | ⟨r, w', hgo, rest, hfailed⟩ := h.result keepGoing
      · rw [hstop]
      · rw [hgo]
        simp only [hfailed]
        rfl
    refine ⟨.inr hstatus, fun _ sources' targets' files' hs' => ?_, fun h₀ => ?_⟩
    · obtain rfl := Except.ok.inj (hs.symm.trans hs')
      exact h.not_buildsAll
    · cases hstatus.symm.trans h₀

section Command

variable {args : List String} {path : String} {keepGoing verbose : Bool}
  (h : Request.ofArguments args = .ok (.compile path keepGoing verbose)) (setting : Option String)
  (files : FileTree)

include h

theorem run_compile :
    (run args setting files).status = (runCompile path keepGoing files).status ∧
      (run args setting files).files = (runCompile path keepGoing files).files := by
  rw [run, h]
  exact ⟨rfl, rfl⟩

/-- **The status is 0 exactly if every file is built**, and then every file is written out. -/
theorem status_run :
    (run args setting files).status = 0 ↔ ∃ sources targets,
      Batch.sources {} files path = .ok sources ∧
      Batch.BuildsAll {} sources files targets (run args setting files).files ∧
      ∀ source ∈ sources, Batch.Written {} source files (run args setting files).files := by
  obtain ⟨hstatus, hfiles⟩ := run_compile h setting files
  obtain ⟨hcases, hone, hzero⟩ := status_runCompile path keepGoing files
  rw [hstatus, hfiles]
  constructor
  · intro h₀
    obtain ⟨sources, targets, hs, hb⟩ := hzero h₀
    exact ⟨sources, targets, hs, hb, hb.written hs⟩
  · rintro ⟨sources, targets, hs, hb, -⟩
    exact hcases.resolve_right fun h₁ => hone h₁ sources targets _ hs hb

end Command

/-- **The status does not depend on whether the command keeps going.** -/
theorem status_runCompile_eq (path : String) (keepGoing keepGoing' : Bool) (files : FileTree) :
    (runCompile path keepGoing files).status = (runCompile path keepGoing' files).status := by
  obtain ⟨hcases, hone, hzero⟩ := status_runCompile path keepGoing files
  obtain ⟨hcases', hone', hzero'⟩ := status_runCompile path keepGoing' files
  obtain h | h := hcases <;> obtain h' | h' := hcases'
  · rw [h, h']
  · obtain ⟨sources, targets, hs, hb⟩ := hzero h
    exact absurd hb (hone' h' sources targets _ hs)
  · obtain ⟨sources, targets, hs, hb⟩ := hzero' h'
    exact absurd hb (hone h sources targets _ hs)
  · rw [h, h']

theorem status_eq {args args' : List String} {path : String}
    {keepGoing keepGoing' verbose verbose' : Bool}
    (h : Request.ofArguments args = .ok (.compile path keepGoing verbose))
    (h' : Request.ofArguments args' = .ok (.compile path keepGoing' verbose'))
    (setting setting' : Option String) (files : FileTree) :
    (run args setting files).status = (run args' setting' files).status := by
  rw [(run_compile h setting files).1, (run_compile h' setting' files).1]
  exact status_runCompile_eq path keepGoing keepGoing' files

end CommandLine

/-- **A batch that stops goes part of the way of one that keeps going.** If no file fails when the
batch keeps going, or it cannot, there is no difference. Else the other batch stops with the first
of the failures, and the files are as they were before that file was compiled. So the status of the
command does not depend on whether it keeps going. It is 0 exactly if every file that the path
stands for is built and the command leaves each output file with the commands of its source. -/
theorem Batch.stopping_of_keepGoing (c : BatchConfig) (path : String) (w : Workspace) :
    (∀ e, (run (c.keeping true) path w).1 = .error e →
      run (c.keeping false) path w = run (c.keeping true) path w) ∧
    (∀ r, (run (c.keeping true) path w).1 = .ok r → r.failed = [] →
      run (c.keeping false) path w = run (c.keeping true) path w) ∧
    (∀ r f rest, (run (c.keeping true) path w).1 = .ok r → r.failed = f :: rest →
      ∃ sources before behind targets w₁ w₂, Batch.sources c w.files path = .ok sources ∧
        ComesTo c w sources before behind targets w₁ w₂ f ∧
        run (c.keeping true) path w = compileSources (c.keeping true) sources w ∧
        run (c.keeping false) path w = (.error f, w₂) ∧ w₂.files = w₁.files) ∧
    ∀ args args' k k' v v' setting setting',
      CommandLine.Request.ofArguments args = .ok (.compile path k v) →
      CommandLine.Request.ofArguments args' = .ok (.compile path k' v') →
      (CommandLine.run args setting w.files).status
        = (CommandLine.run args' setting' w.files).status ∧
      ((CommandLine.run args setting w.files).status = 0 ↔ ∃ sources targets,
        Batch.sources {} w.files path = .ok sources ∧
        BuildsAll {} sources w.files targets (CommandLine.run args setting w.files).files ∧
        ∀ source ∈ sources,
          Written {} source w.files (CommandLine.run args setting w.files).files) := by
  have hcommand (args args' : List String) (k k' v v' : Bool) (setting setting' : Option String)
      (hargs : CommandLine.Request.ofArguments args = .ok (.compile path k v))
      (hargs' : CommandLine.Request.ofArguments args' = .ok (.compile path k' v')) :=
    And.intro (CommandLine.status_eq hargs hargs' setting setting' w.files)
      (CommandLine.status_run hargs setting w.files)
  obtain ⟨e, -, hrun⟩ | ⟨_, _, _, -, -, hrun⟩ |
    ⟨sources, before, behind, targets, w₁, w₂, f, hs, h, hrun⟩ := run_cases c path w
  · rw [hrun, hrun]
    refine ⟨fun _ _ => rfl, fun _ _ _ => rfl, fun r f rest hr => ?_, hcommand⟩
    cases hr
  · rw [hrun, hrun]
    refine ⟨fun _ _ => rfl, fun _ _ _ => rfl, fun r f rest hr hfailed => ?_, hcommand⟩
    cases hr
    cases hfailed
  · rw [hrun, hrun, h.stops false rfl]
    obtain hstop | ⟨r, w', hgo, rest, hf⟩ := h.result true
    · rw [hstop]
      refine ⟨fun _ _ => rfl, fun _ _ _ => rfl, fun r f rest hr => ?_, hcommand⟩
      cases hr
    · rw [hgo]
      refine ⟨fun e he => ?_, fun r' hr hfailed => ?_, fun r' g rest' hr hfailed => ?_, hcommand⟩
      · cases he
      · cases hr
        cases hf.symm.trans hfailed
      · cases hr
        obtain ⟨rfl, -⟩ := List.cons.inj (hf.symm.trans hfailed)
        exact ⟨sources, before, behind, targets, w₁, w₂, hs, h, hgo.symm, rfl, h.files_eq⟩

/-- A directory of three source files, of which the second does not compile. -/
def brokenSecond : FileTree :=
  { entries :=
    [(["A.jack"], .file "class A \x7b \x7d".toUTF8), (["B.jack"], .file "class".toUTF8),
     (["C.jack"], .file "class C \x7b function int f() \x7b return 7; \x7d \x7d".toUTF8)] }

theorem Batch.sources_brokenSecond :
    sources {} brokenSecond "." = .ok ["./A.jack", "./B.jack", "./C.jack"] := by
  have hlookup : brokenSecond.lookup "." = .ok ([], .directory) := rfl
  have hsorted : brokenSecond.children [] = [("A.jack", .file "class A \x7b \x7d".toUTF8),
      ("B.jack", .file "class".toUTF8),
      ("C.jack", .file "class C \x7b function int f() \x7b return 7; \x7d \x7d".toUTF8)] :=
    List.mergeSort_of_pairwise (by decide)
  rw [sources, hlookup]
  simp only [hsorted]
  rfl

/-- Why it does not. -/
def brokenSecondError : FileError :=
  ⟨"./B.jack", .unexpected 1 "class name" "end of input"⟩

theorem Batch.stopping_of_keepGoing_second :
    (∃ before behind targets w₁ w₂,
      ComesTo {} ⟨brokenSecond, #[]⟩ ["./A.jack", "./B.jack", "./C.jack"] before behind targets
        w₁ w₂ brokenSecondError ∧
      run (BatchConfig.keeping {} false) "." ⟨brokenSecond, #[]⟩ = (.error brokenSecondError, w₂) ∧
      w₂.files = w₁.files) ∧
    (CommandLine.run ["compile", "."] none brokenSecond).status
      = (CommandLine.run ["compile", "-k", "."] none brokenSecond).status ∧
    (CommandLine.run ["compile", "C.jack"] none brokenSecond).status = 0 ∧
    Written {} "C.jack" brokenSecond
      (CommandLine.run ["compile", "C.jack"] none brokenSecond).files := by
  obtain ⟨-, -, hfailed, hstatus⟩ := stopping_of_keepGoing {} "." ⟨brokenSecond, #[]⟩
  obtain ⟨-, -, -, hthird⟩ := stopping_of_keepGoing {} "C.jack" ⟨brokenSecond, #[]⟩
  have hzero : (CommandLine.run ["compile", "C.jack"] none brokenSecond).status = 0 := by
    decide +kernel
  obtain ⟨sources, -, hs, -, hwritten⟩ :=
    (hthird ["compile", "C.jack"] ["compile", "-k", "C.jack"] false true false false none none
      (by decide) (by decide)).2.1 hzero
  obtain rfl : ["C.jack"] = sources := Except.ok.inj hs
  refine ⟨?_, (hstatus _ _ false true false false none none (by decide) (by decide)).1, hzero,
    hwritten "C.jack" List.mem_cons_self⟩
  obtain ⟨r, w', hr⟩ :=
    exists_report (c := {}) (by decide) ["./A.jack", "./B.jack", "./C.jack"] ⟨brokenSecond, #[]⟩
  have hf : (compileSources (BatchConfig.keeping {} true) ["./A.jack", "./B.jack", "./C.jack"]
      ⟨brokenSecond, #[]⟩).1.toOption.map (·.failed) = some [brokenSecondError] := by
    decide +kernel
  rw [hr] at hf
  have hrun : run (BatchConfig.keeping {} true) "." ⟨brokenSecond, #[]⟩ = (.ok r, w') := by
    have hs : sources (BatchConfig.keeping {} true) brokenSecond "."
        = .ok ["./A.jack", "./B.jack", "./C.jack"] := sources_brokenSecond
    rw [run, hs]
    exact hr
  obtain ⟨sources, before, behind, targets, w₁, w₂, hs, h, -, hstop⟩ :=
    hfailed r _ [] (by rw [hrun]) (Option.some.inj hf)
  obtain rfl := Except.ok.inj (sources_brokenSecond.symm.trans hs)
  exact ⟨before, behind, targets, w₁, w₂, h, hstop⟩

end JackStack
