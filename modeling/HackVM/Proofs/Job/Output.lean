import HackVM.Job.Run
import HackVM.Proofs.Codegen.Layout
import HackVM.Proofs.Job.Plan
import HackVM.Proofs.Job.Source

namespace HackVM.Job

open Codegen
open Files
open Text (Bytes)

/-!
# What a run writes

A run compiles its sources one after the other, with one history, up to the first line that cannot
be read or the first source whose name is no text.  This file says what is in the output then,
whatever was there before.

* `FoundSource` and `Plan.Reads` — the sources that a plan finds in a tree;
* `FoundSource.Stops` — how a source stops a run, `FirstStop` — the first source that does, and
  `compilable_or_firstStop` — there is one, or all can be compiled;
* `compileFile_named` and `compileFile_stops` — what compiling one source adds, and
  `compileFiles_compilable` — what compiling several adds;
* `run_tree` and `node?_run` — a run changes nothing but its output, and `run_write` — it does not
  depend on what the output held before;
* `run_writes_compiled_sources` — what a run leaves in the output, and how it ends.
-/

/-! ### The sources of a plan -/

/-- A source with the path that it was found at. -/
structure FoundSource where
  /-- The path. -/
  path : Bytes
  /-- The name in the code.  A name that is no UTF-8 cannot stand there. -/
  name? : Option String
  /-- The contents. -/
  bytes : Bytes

/-- The source is found in a tree: its path leads to a file with its contents, and the name of the
    file without the extension is its name, if that is a text. -/
def FoundSource.IsIn (s : FoundSource) (t : FileTree) : Prop :=
  (∃ location, t.resolve s.path = .ok (location, .file s.bytes)) ∧
    ∃ stem, Path.stem? s.path = some stem ∧ Text.text? stem = s.name?

/-- The source has a name, and all its lines can be read. -/
def FoundSource.Compilable (s : FoundSource) : Prop :=
  s.name?.isSome ∧ ∀ line ∈ Text.physicalLines s.bytes, HackVM.Legible line

/-- The source with the commands on its lines. -/
def FoundSource.file? (s : FoundSource) : Option SourceFile :=
  s.name?.map fun name => ⟨name, sourceCommands s.bytes⟩

/-- The sources that a plan reads, in order. -/
def Plan.Reads (plan : Plan) (t : FileTree) (sources : List FoundSource) : Prop :=
  sources.map FoundSource.path = plan.input.files ∧ ∀ s ∈ sources, s.IsIn t

/-- **The sources of a plan are all there.** -/
theorem Plan.LiesIn.exists_reads {plan : Plan} {t : FileTree} {directory : Location}
    (h : plan.LiesIn t directory) : ∃ sources, plan.Reads t sources := by
  have hfound : ∀ path ∈ plan.input.files, ∃ s : FoundSource, s.path = path ∧ s.IsIn t := by
    intro path hpath
    obtain ⟨name, contents, ⟨before, hparts, -⟩, hproper, -, hresolve⟩ := h.sources path hpath
    obtain ⟨rfl, hslashes, -⟩ := Path.parts_eq_append_iff.1 hparts
    exact ⟨⟨_, _, contents⟩, rfl, ⟨_, hresolve⟩, _, Path.stem?_ofNames hslashes hproper, rfl⟩
  unfold Plan.Reads
  generalize plan.input.files = files at hfound
  induction files with
  | nil => exact ⟨[], rfl, by simp⟩
  | cons path files ih =>
    rw [List.forall_mem_cons] at hfound
    obtain ⟨⟨s, rfl, hs⟩, hrest⟩ := hfound
    obtain ⟨sources, rfl, hsources⟩ := ih hrest
    exact ⟨s :: sources, rfl, List.forall_mem_cons.2 ⟨hs, hsources⟩⟩

/-! ### The first source that stops a run -/

/-- How a source stops a run: what is compiled of it, and the error.  Its name is no text, and then
    it is not even opened; or one of its lines cannot be read, and those before it can. -/
inductive FoundSource.Stops (s : FoundSource) : List SourceFile → Error → Prop
  | unnamed : s.name? = none → s.Stops [] (.wrongExtension s.path)
  | line {name : String} {lines rest : List Bytes} {line : Bytes} {error : SourceError} :
    s.name? = some name → Text.physicalLines s.bytes = lines ++ line :: rest →
    (∀ line ∈ lines, HackVM.Legible line) → lineError? lines.length line = some error →
    s.Stops [⟨name, lines.filterMap lineCommand?⟩] (.source s.path error)

theorem FoundSource.compilable_or_stops (s : FoundSource) :
    s.Compilable ∨ ∃ part error, s.Stops part error := by
  cases hname : s.name? with
  | none => exact .inr ⟨_, _, .unnamed hname⟩
  | some name =>
    rcases legible_or_split (Text.physicalLines s.bytes) with
      hlegible | ⟨lines, line, rest, error, hlines, hlegible, herror⟩
    · exact .inl ⟨by rw [hname]; rfl, hlegible⟩
    · exact .inr ⟨_, _, .line hname hlines hlegible herror⟩

/-- The first of the sources that stops a run, with the sources before it. -/
structure FirstStop (sources before : List FoundSource) (s : FoundSource)
    (part : List SourceFile) (error : Error) : Prop where
  /-- Other sources may follow. -/
  sources_eq : ∃ after, sources = before ++ s :: after
  /-- The sources before are compiled. -/
  before_compilable : ∀ s ∈ before, s.Compilable
  /-- This one is compiled in part, and no further. -/
  stops : s.Stops part error

/-- All sources can be compiled, or there is a first one that cannot. -/
theorem compilable_or_firstStop (sources : List FoundSource) :
    (∀ s ∈ sources, s.Compilable) ∨
      ∃ before s part error, FirstStop sources before s part error := by
  induction sources with
  | nil => exact .inl (by simp)
  | cons s sources ih =>
    rcases s.compilable_or_stops with hs | ⟨part, error, hstops⟩
    · rcases ih with hsources | ⟨before, bad, part, error, ⟨after, hafter⟩, hbefore, hstops⟩
      · exact .inl (List.forall_mem_cons.2 ⟨hs, hsources⟩)
      · exact .inr ⟨s :: before, bad, part, error, ⟨after, by rw [hafter]; rfl⟩,
          List.forall_mem_cons.2 ⟨hs, hbefore⟩, hstops⟩
    · exact .inr ⟨[], s, part, error, ⟨sources, rfl⟩, by simp, hstops⟩

/-! ### Compiling sources -/

/-- The history with the commands of files added. -/
def afterFiles (e : Emitter) (files : List SourceFile) : Emitter :=
  files.foldl (fun e file => e.afterAll file.commands) e

theorem codeFiles_append (e : Emitter) (first second : List SourceFile) :
    e.codeFiles (first ++ second) = e.codeFiles first ++ (afterFiles e first).codeFiles second := by
  induction first generalizing e with
  | nil => rfl
  | cons file first ih =>
    rw [List.cons_append, Emitter.codeFiles, Emitter.codeFiles, ih, List.append_assoc]
    rfl

/-- A source can be compiled from a tree: it is found there, and it is not the output. -/
def FoundSource.IsApart (s : FoundSource) (t : FileTree) (output : Location) : Prop :=
  (Path.stem? s.path).bind Text.text? = s.name? ∧
    ∃ location ≠ output, t.resolve s.path = .ok (location, .file s.bytes)

section Compiling

variable {t : FileTree} {output : Location} {outputPath : Bytes} {p : Progress}

/-- **One source with a name**: its commands before the first error are compiled, and that error
    ends the run. -/
theorem compileFile_named {s : FoundSource} (hs : s.IsApart t output) {name : String}
    (hname : s.name? = some name) :
    let commands := (Outline.of (.ok s.bytes)).commands.map Prod.snd
    ∃ p', compileFile t output outputPath p s.path =
        (p', (Outline.of (.ok s.bytes)).error.map (.source s.path)) ∧
      p'.emitter = p.emitter.afterAll commands ∧
      p'.code = p.code ++ p.emitter.codeAll name commands := by
  intro commands
  obtain ⟨hstem, location, hne, hresolve⟩ := hs
  obtain ⟨-, hcode, hemitter, herror⟩ :=
    compileSource_unlimited p.emitter name (.ok s.bytes) s.path outputPath
  unfold compileFile
  simp only [hstem, hname, hresolve, contents, if_neg hne, Progress.say]
  generalize compileSource p.emitter name (.ok s.bytes) none s.path outputPath = report at *
  rw [herror]
  cases (Outline.of (.ok s.bytes)).error with
  | none => exact ⟨_, rfl, hemitter, congrArg (p.code ++ ·) hcode⟩
  | some error => exact ⟨_, rfl, hemitter, congrArg (p.code ++ ·) hcode⟩

/-- **A source that stops a run** is compiled in part. -/
theorem compileFile_stops {s : FoundSource} (hs : s.IsApart t output) {part : List SourceFile}
    {error : Error} (hstops : s.Stops part error) :
    ∃ p', compileFile t output outputPath p s.path = (p', some error) ∧
      p'.code = p.code ++ p.emitter.codeFiles part := by
  cases hstops with
  | unnamed hname =>
    refine ⟨p, ?_, (List.append_nil _).symm⟩
    rw [compileFile, hs.1, hname]
  | line hname hlines hlegible herror =>
    obtain ⟨p', hfile, -, hcode⟩ := @compileFile_named t output outputPath p s hs _ hname
    obtain ⟨houtline, hcommands⟩ := outline_of_split hlines hlegible herror
    refine ⟨p', ?_, ?_⟩
    · rw [hfile, houtline]
      rfl
    · rw [hcode, hcommands]
      simp only [Emitter.codeFiles, List.append_nil]

/-- **Sources that can be compiled** are compiled one after the other, and what follows is compiled
    after them. -/
theorem compileFiles_compilable {sources : List FoundSource}
    (hcompilable : ∀ s ∈ sources, s.Compilable) (hfound : ∀ s ∈ sources, s.IsApart t output)
    (rest : List Bytes) :
    ∃ p', compileFiles t output outputPath p (sources.map FoundSource.path ++ rest) =
        compileFiles t output outputPath p' rest ∧
      p'.emitter = afterFiles p.emitter (sources.filterMap FoundSource.file?) ∧
      p'.code = p.code ++ p.emitter.codeFiles (sources.filterMap FoundSource.file?) := by
  induction sources generalizing p with
  | nil => exact ⟨p, rfl, rfl, (List.append_nil _).symm⟩
  | cons s sources ih =>
    rw [List.forall_mem_cons] at hcompilable hfound
    obtain ⟨⟨hnamed, hlegible⟩, hcompilable⟩ := hcompilable
    obtain ⟨name, hname⟩ := Option.isSome_iff_exists.1 hnamed
    have hfile? : s.file? = some ⟨name, sourceCommands s.bytes⟩ := by
      rw [FoundSource.file?, hname]
      rfl
    obtain ⟨herror, hcommands⟩ := outline_of_legible hlegible
    obtain ⟨p₁, hfile, hemitter, hcode⟩ :=
      @compileFile_named t output outputPath p s hfound.1 name hname
    obtain ⟨p₂, hfiles, hemitter', hcode'⟩ := @ih p₁ hcompilable hfound.2
    rw [hcommands] at hemitter hcode
    rw [List.filterMap_cons_some hfile?]
    refine ⟨p₂, ?_, ?_, ?_⟩
    · rw [List.map_cons, List.cons_append, compileFiles, hfile, herror]
      exact hfiles
    · rw [hemitter', hemitter]
      rfl
    · rw [hcode', hcode, hemitter, List.append_assoc]
      rfl

end Compiling

/-! ### What a run changes -/

/-- A run leaves the tree as it is, or writes the output. -/
theorem run_tree (t : FileTree) (plan : Plan) :
    (run t plan).tree = t ∨
      ∃ output contents, t.openForWriting plan.output = .ok output ∧
        (run t plan).tree = t.write output contents := by
  unfold run
  cases hopen : t.openForWriting plan.output with
  | error error => exact .inl rfl
  | ok output => exact .inr ⟨output, _, rfl, rfl⟩

/-- Nothing but the output is changed. -/
theorem node?_run {t : FileTree} {plan : Plan} {location : Location}
    (h : t.openForWriting plan.output ≠ .ok location) :
    (run t plan).tree.node? location = t.node? location := by
  rcases run_tree t plan with hsame | ⟨output, contents, hopen, hwritten⟩
  · rw [hsame]
  · have hfile := FileTree.ne_directory_of_openForWriting hopen
    have hne : location ≠ output := by
      rintro rfl
      exact h hopen
    rw [hwritten, FileTree.node?_write_of_ne hfile hne]

/-- No file is removed. -/
theorem exists_file_run {t : FileTree} {plan : Plan} {location : Location} {contents : Bytes}
    (h : t.node? location = some (.file contents)) :
    ∃ contents', (run t plan).tree.node? location = some (.file contents') := by
  by_cases hopen : t.openForWriting plan.output = .ok location
  · rcases run_tree t plan with hsame | ⟨output, written, hopen', hwritten⟩
    · exact ⟨contents, by rw [hsame, h]⟩
    · obtain rfl : location = output := Except.ok.inj (hopen.symm.trans hopen')
      refine ⟨written, ?_⟩
      rw [hwritten]
      exact FileTree.node?_write_self (by simp [h]) (by simp [h]) written
  · exact ⟨contents, by rw [node?_run hopen, h]⟩

/-- **A run does not depend on what the output held before.** -/
theorem run_write {t : FileTree} {plan : Plan} {output : Location}
    (hopen : t.openForWriting plan.output = .ok output) (contents : Bytes) :
    run (t.write output contents) plan = run t plan := by
  have hfile := FileTree.ne_directory_of_openForWriting hopen
  unfold run
  rw [FileTree.openForWriting_write hopen, hopen]
  simp only [FileTree.write_write hfile]

/-! ### What a run writes -/

theorem start_eq (plan : Plan) (files : List SourceFile) :
    let k : Compilation := ⟨plan.bootstrap, plan.annotate, files⟩
    plan.start.emitter = k.first ∧ plan.start.code = k.prologue := by
  unfold Plan.start Compilation.first Compilation.prologue
  simp only
  split <;> exact ⟨rfl, rfl⟩

/-- A run writes what was compiled, and ends as the compilation of its sources does. -/
theorem run_of_openForWriting {t : FileTree} {plan : Plan} {output : Location}
    (hopen : t.openForWriting plan.output = .ok output) :
    let compiled :=
      compileFiles (t.write output []) output plan.output plan.start plan.input.files
    (run t plan).error = compiled.2 ∧
      (run t plan).tree = t.write output (Text.encode (Asm.render compiled.1.code)) := by
  unfold run
  rw [hopen]
  refine ⟨rfl, ?_⟩
  simp only
  split <;> rfl

section Run

variable {t : FileTree} {plan : Plan} {output : Location} {sources : List FoundSource}
  (hopen : t.openForWriting plan.output = .ok output) (hreads : plan.Reads t sources)
  (hapart : ∀ path ∈ plan.input.files, ∀ {location node},
    t.resolve path = .ok (location, node) → location ≠ output)

include hopen hreads hapart

/-- Every source is still found once the output is empty. -/
theorem isApart_write : ∀ s ∈ sources, s.IsApart (t.write output []) output := by
  intro s hs
  obtain ⟨⟨location, hresolve⟩, stem, hstem, hname⟩ := hreads.2 s hs
  have hpath : s.path ∈ plan.input.files := hreads.1 ▸ List.mem_map_of_mem hs
  have hne := hapart s.path hpath hresolve
  have hfile := FileTree.ne_directory_of_openForWriting hopen
  refine ⟨?_, location, hne, FileTree.resolve_write hfile hresolve hne []⟩
  rw [hstem]
  exact hname

/-- A run whose sources can all be compiled compiles all of them. -/
theorem run_compilable (hcompilable : ∀ s ∈ sources, s.Compilable) :
    let k : Compilation := ⟨plan.bootstrap, plan.annotate, sources.filterMap FoundSource.file?⟩
    (run t plan).error = none ∧
      (run t plan).tree = t.write output (Text.encode (Asm.render k.code)) := by
  obtain ⟨herror, htree⟩ := run_of_openForWriting hopen
  obtain ⟨p, hcompiled, -, hcode⟩ := @compileFiles_compilable (t.write output []) output
    plan.output plan.start sources hcompilable (isApart_write hopen hreads hapart) []
  obtain ⟨hemitter, hprologue⟩ := start_eq plan (sources.filterMap FoundSource.file?)
  rw [List.append_nil, hreads.1] at hcompiled
  rw [hcompiled] at herror htree
  refine ⟨herror, htree.trans ?_⟩
  rw [compileFiles, hcode, hemitter, hprologue]
  rfl

/-- A run ends at the first source that stops it. -/
theorem run_firstStop {before : List FoundSource} {s : FoundSource} {part : List SourceFile}
    {error : Error} (hfirst : FirstStop sources before s part error) :
    let k : Compilation :=
      ⟨plan.bootstrap, plan.annotate, before.filterMap FoundSource.file? ++ part⟩
    (run t plan).error = some error ∧
      (run t plan).tree = t.write output (Text.encode (Asm.render k.code)) := by
  obtain ⟨⟨after, rfl⟩, hcompilable, hstops⟩ := hfirst
  obtain ⟨herror, htree⟩ := run_of_openForWriting hopen
  have hfound := isApart_write hopen hreads hapart
  rw [List.forall_mem_append, List.forall_mem_cons] at hfound
  obtain ⟨hbefore, hs, -⟩ := hfound
  obtain ⟨p, hcompiled, hemitter, hcode⟩ := @compileFiles_compilable (t.write output []) output
    plan.output plan.start before hcompilable hbefore (s.path :: after.map FoundSource.path)
  obtain ⟨p', hfile, hcode'⟩ :=
    @compileFile_stops (t.write output []) output plan.output p s hs part error hstops
  obtain ⟨hemitter', hprologue⟩ :=
    start_eq plan (before.filterMap FoundSource.file? ++ part)
  -- The sources before are compiled, then this one as far as it goes.
  have hstopped : compileFiles (t.write output []) output plan.output plan.start
      plan.input.files = (p', some error) := by
    rw [← hreads.1, List.map_append, List.map_cons, hcompiled, compileFiles, hfile]
  rw [hstopped] at herror htree
  refine ⟨herror, htree.trans ?_⟩
  rw [hcode', hcode, hemitter, hemitter', hprologue, Compilation.code, codeFiles_append,
    List.append_assoc]

end Run

/-- **What a run writes.**  Take any tree of directories without links, any path that a plan can be
    made for, and any settings, such that the output can be written.  The sources of the plan are
    all there, and the run ends without an error exactly if the names of all are texts and all their
    lines can be read.  Then the output holds the code that starts the program, if it is wanted, and
    the code of the sources in order, compiled with one history.  Otherwise a first source stops the
    run.  If its name is no text the error says so, with its path, and the output holds the code of
    the sources before it.  If not, the error is that of its first line that cannot be read, with
    its path, and the output also holds the code of the commands before that line.  Nothing is left
    of what the output held before. -/
theorem run_writes_compiled_sources (t : FileTree) (ht : t.WellFormed) (path : Bytes) (plan : Plan)
    (hplan : Plan.ofPath t path = .ok plan) (bootstrap annotate : Bool) (output : Location)
    (hopen : t.openForWriting plan.output = .ok output) (hfile : t.node? output ≠ some .device) :
    let outcome := run t { plan with bootstrap, annotate }
    let code (files : List SourceFile) :=
      Text.encode (Asm.render (Compilation.code ⟨bootstrap, annotate, files⟩))
    (∃ sources, plan.Reads t sources) ∧
      ∀ sources, plan.Reads t sources →
        ((∀ s ∈ sources, s.Compilable) ∨
          ∃ before s part error, FirstStop sources before s part error) ∧
        (outcome.error = none ↔ ∀ s ∈ sources, s.Compilable) ∧
        ((∀ s ∈ sources, s.Compilable) → outcome.tree.node? output =
          some (.file (code (sources.filterMap FoundSource.file?)))) ∧
        ∀ before s part error, FirstStop sources before s part error →
          outcome.error = some error ∧ outcome.tree.node? output =
            some (.file (code (before.filterMap FoundSource.file? ++ part))) := by
  intro outcome code
  obtain ⟨directory, hlies⟩ := Plan.liesIn_ofPath ht hplan
  refine ⟨hlies.exists_reads, fun sources hreads => ?_⟩
  have hdirectory := FileTree.ne_directory_of_openForWriting hopen
  have hapart : ∀ path ∈ plan.input.files, ∀ {location node},
      t.resolve path = .ok (location, node) → location ≠ output :=
    fun path hpath _ _ hresolve => hlies.ne_output hopen hpath hresolve
  have hcompiled := @run_compilable t { plan with bootstrap, annotate } output sources hopen hreads
    hapart
  have hstopped := @run_firstStop t { plan with bootstrap, annotate } output sources hopen hreads
    hapart
  refine ⟨compilable_or_firstStop sources, ⟨fun hnone => ?_, fun hall => (hcompiled hall).1⟩,
    fun hall => ?_, ?_⟩
  · rcases compilable_or_firstStop sources with hall | ⟨before, s, part, error, hfirst⟩
    · exact hall
    · simp [outcome, (hstopped hfirst).1] at hnone
  · rw [(hcompiled hall).2]
    exact FileTree.node?_write_self hdirectory hfile _
  · intro before s part error hfirst
    refine ⟨(hstopped hfirst).1, ?_⟩
    rw [(hstopped hfirst).2]
    exact FileTree.node?_write_self hdirectory hfile _

/-- A directory with three sources and an older output.  The third line of the second source cannot
    be read. -/
def faulty : FileTree where
  entries :=
    [(["p"], .directory),
      (["p", "A.vm"], .file "push static 3"),
      (["p", "B.vm"], .file "push constant 1\r\n// fine\npop constant 1\nadd\n"),
      (["p", "C.vm"], .file "sub\n"),
      (["p", "p.asm"], .file "old"),
      (["p", "q"], .directory)]
  workingDirectory := ["p", "q"]

/-- The plan for the directory, from the one in it. -/
def faultyPlan : Plan where
  input := .directory "../../p/" ["../../p/A.vm", "../../p/B.vm", "../../p/C.vm"]
  output := "../../p/p.asm"

theorem sourcesIn_faulty :
    sourcesIn faulty "../../p/" ["p"] = (["A.vm", "B.vm", "C.vm"] : List Bytes) :=
  sourcesIn_of_sorted (by decide +kernel) (by decide +kernel)

theorem ofPath_faulty : Plan.ofPath faulty "../../p/" = .ok faultyPlan := by
  have hresolve : faulty.resolve "../../p/" = .ok (["p"], .directory) := by decide +kernel
  rw [Plan.ofPath, hresolve]
  simp only [Plan.ofDirectory, sourcesIn_faulty]
  decide +kernel

theorem run_faulty :
    faulty.WellFormed ∧ Plan.ofPath faulty "../../p/" = .ok faultyPlan ∧
      faulty.openForWriting faultyPlan.output = .ok ["p", "p.asm"] ∧
      let outcome := run faulty { faultyPlan with bootstrap := false, annotate := true }
      outcome.error = some (.source "../../p/B.vm" (.line 3 (.invalid "pop constant 1"))) ∧
      outcome.tree.node? ["p", "p.asm"] = some (.file (Text.encode
        ("// push static 3\n@A.3\nD=M\n@SP\nA=M\nM=D\n@SP\nM=M+1\n" ++
          "// push constant 1\n@1\nD=A\n@SP\nA=M\nM=D\n@SP\nM=M+1\n"))) := by
  have hwell : faulty.WellFormed := by decide +kernel
  have hopen : faulty.openForWriting faultyPlan.output = .ok ["p", "p.asm"] := by decide +kernel
  refine ⟨hwell, ofPath_faulty, hopen, ?_⟩
  obtain ⟨-, hsources⟩ := run_writes_compiled_sources faulty hwell "../../p/" faultyPlan
    ofPath_faulty false true ["p", "p.asm"] hopen (by decide +kernel)
  let first : FoundSource := ⟨"../../p/A.vm", "A", "push static 3"⟩
  let second : FoundSource :=
    ⟨"../../p/B.vm", "B", "push constant 1\r\n// fine\npop constant 1\nadd\n"⟩
  let third : FoundSource := ⟨"../../p/C.vm", "C", "sub\n"⟩
  have hreads : faultyPlan.Reads faulty [first, second, third] := by
    refine ⟨rfl, ?_⟩
    simp only [List.forall_mem_cons]
    exact ⟨⟨⟨["p", "A.vm"], by decide +kernel⟩, "A", by decide +kernel, Text.text?_encode "A"⟩,
      ⟨⟨["p", "B.vm"], by decide +kernel⟩, "B", by decide +kernel, Text.text?_encode "B"⟩,
      ⟨⟨["p", "C.vm"], by decide +kernel⟩, "C", by decide +kernel, Text.text?_encode "C"⟩, by simp⟩
  have hfirst : FirstStop [first, second, third] [first] second
      [⟨"B", [.push .constant 1]⟩]
      (.source "../../p/B.vm" (.line 3 (.invalid "pop constant 1"))) := by
    refine ⟨⟨[third], rfl⟩, ?_, ?_⟩
    · rw [List.forall_mem_singleton]
      refine ⟨rfl, ?_⟩
      show ∀ line ∈ Text.physicalLines (Text.encode "push static 3"), HackVM.Legible line
      decide +kernel
    · exact @FoundSource.Stops.line second "B"
        [Text.encode "push constant 1\r\n", Text.encode "// fine\n"] [Text.encode "add\n"]
        (Text.encode "pop constant 1\n") _ rfl (by decide +kernel) (by decide +kernel)
        (by decide +kernel)
  obtain ⟨-, -, -, hstopped⟩ := hsources _ hreads
  obtain ⟨herror, hnode⟩ := hstopped _ _ _ _ hfirst
  refine ⟨herror, hnode.trans ?_⟩
  decide +kernel

/-! ### A source whose name is no text -/

/-- A directory with an older output and one source.  The first byte of its name is in no UTF-8. -/
def misnamed : FileTree where
  entries :=
    [(["p"], .directory),
      (["p", 255 :: Text.encode ".vm"], .file "add"),
      (["p", "p.asm"], .file "old")]
  workingDirectory := []

/-- The plan for the directory. -/
def misnamedPlan : Plan where
  input := .directory "p" [Text.encode "p/" ++ 255 :: Text.encode ".vm"]
  output := "p/p.asm"

/-- All lines can be read, and the run fails: the output holds only the code that starts the
    program. -/
theorem run_misnamed :
    misnamed.WellFormed ∧ Plan.ofPath misnamed "p" = .ok misnamedPlan ∧
      misnamed.openForWriting misnamedPlan.output = .ok ["p", "p.asm"] ∧
      (∀ line ∈ Text.physicalLines (Text.encode "add"), HackVM.Legible line) ∧
      let outcome := run misnamed misnamedPlan
      outcome.error = some (.wrongExtension (Text.encode "p/" ++ 255 :: Text.encode ".vm")) ∧
      outcome.tree.node? ["p", "p.asm"] =
        some (.file (Text.encode (Asm.render (Compilation.code ⟨true, false, []⟩)))) := by
  have hresolve : misnamed.resolve "p" = .ok (["p"], .directory) := by decide +kernel
  have hsources : sourcesIn misnamed "p" ["p"] = [255 :: Text.encode ".vm"] :=
    sourcesIn_of_sorted (by decide +kernel) (List.pairwise_singleton _ _)
  refine ⟨by decide +kernel, ?_, by decide +kernel, by decide +kernel, ?_, by decide +kernel⟩
  · rw [Plan.ofPath, hresolve]
    simp only [Plan.ofDirectory, hsources]
    decide +kernel
  · decide +kernel

end HackVM.Job
