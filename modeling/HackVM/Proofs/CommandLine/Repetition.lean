import HackVM.CommandLine.Program
import HackVM.Proofs.Job.Output

namespace HackVM.CommandLine

open Files
open Job
open Text (Bytes)

/-!
# What the program changes

Whatever the arguments are, the program changes at most one file, its output, and running it again
changes nothing more.

* `plan?` — the plan that arguments lead to, if there is one;
* `execute_of_plan?` and `execute_of_plan?_eq_none` — what the program does with and without one;
* `exitCode_execute` — the exit code, and `execute_execute` — the program, run again;
* `execute_touches_only_output` — what the program changes, how it exits, and that it can be
  repeated.
-/

/-- The plan that arguments lead to: they ask for a compilation, and a plan can be made. -/
def plan? (t : FileTree) (arguments : List Bytes) : Option Plan :=
  match Request.ofArguments arguments with
  | .compile options =>
    (Plan.ofPath t options.path).toOption.map fun plan =>
      { plan with bootstrap := options.bootstrap, annotate := options.annotate }
  | _ => none

/-! ### The program -/

section Execute

variable {t : FileTree} {arguments : List Bytes} {plan : Plan}

theorem plan?_eq_some_iff :
    plan? t arguments = some plan ↔
      ∃ options basic, Request.ofArguments arguments = .compile options ∧
        Plan.ofPath t options.path = .ok basic ∧
        plan = { basic with bootstrap := options.bootstrap, annotate := options.annotate } := by
  unfold plan?
  cases Request.ofArguments arguments with
  | shortHelp | longHelp | version | usageError => simp
  | compile options =>
    cases hplan : Plan.ofPath t options.path with
    | error error => simp [hplan, Except.toOption]
    | ok basic => simp [hplan, Except.toOption, eq_comm]

theorem liesIn_plan? (ht : t.WellFormed) (h : plan? t arguments = some plan) :
    ∃ directory, plan.LiesIn t directory := by
  obtain ⟨options, basic, -, hbasic, rfl⟩ := plan?_eq_some_iff.1 h
  obtain ⟨directory, hlies⟩ := Plan.liesIn_ofPath ht hbasic
  exact ⟨directory, hlies.sources, hlies.output⟩

/-- With a plan the program carries it out. -/
theorem execute_of_plan? (h : plan? t arguments = some plan) :
    ∃ options, Request.ofArguments arguments = .compile options ∧ options.outcome t = run t plan ∧
      execute t arguments = compile t options := by
  obtain ⟨options, basic, hrequest, hbasic, rfl⟩ := plan?_eq_some_iff.1 h
  refine ⟨options, hrequest, ?_, ?_⟩
  · rw [Options.outcome, hbasic]
  · rw [execute, hrequest]

theorem tree_execute_of_plan? (h : plan? t arguments = some plan) :
    (execute t arguments).tree = (run t plan).tree := by
  obtain ⟨options, -, houtcome, hexecute⟩ := execute_of_plan? h
  rw [hexecute, ← houtcome]
  rfl

theorem exitCode_execute_of_plan? (h : plan? t arguments = some plan) :
    (execute t arguments).exitCode = if (run t plan).error.isNone then 0 else 1 := by
  obtain ⟨options, -, houtcome, hexecute⟩ := execute_of_plan? h
  rw [hexecute, ← houtcome]
  rfl

/-- Without a plan the tree stays as it is, and only help and the version are no failure. -/
theorem execute_of_plan?_eq_none (h : plan? t arguments = none) :
    (execute t arguments).tree = t ∧ (execute t arguments).exitCode =
      if Request.ofArguments arguments ∈ [.shortHelp, .longHelp, .version] then 0 else 1 := by
  unfold execute
  cases hrequest : Request.ofArguments arguments with
  | shortHelp | longHelp | version | usageError => exact ⟨rfl, rfl⟩
  | compile options =>
    cases hplan : Plan.ofPath t options.path with
    | error error => simp [compile, Options.outcome, hplan]
    | ok basic => simp [plan?, hrequest, hplan, Except.toOption] at h

/-- **The exit code** is 0 for help, the version and a run without an error, and 1 otherwise. -/
theorem exitCode_execute (t : FileTree) (arguments : List Bytes) :
    let succeeds := Request.ofArguments arguments ∈ [.shortHelp, .longHelp, .version] ∨
      ∃ plan, plan? t arguments = some plan ∧ (run t plan).error = none
    (execute t arguments).exitCode = 0 ∧ succeeds ∨
      (execute t arguments).exitCode = 1 ∧ ¬ succeeds := by
  cases hplan : plan? t arguments with
  | none =>
    rw [(execute_of_plan?_eq_none hplan).2]
    split_ifs with hrequest
    · exact .inl ⟨rfl, .inl hrequest⟩
    · exact .inr ⟨rfl, by simp [hrequest]⟩
  | some plan =>
    obtain ⟨options, hrequest, -, -⟩ := execute_of_plan? hplan
    rw [exitCode_execute_of_plan? hplan, hrequest]
    cases herror : (run t plan).error with
    | none => exact .inl ⟨rfl, .inr ⟨plan, rfl, herror⟩⟩
    | some error => exact .inr ⟨rfl, by simp [herror]⟩

/-- **The plan stays the same after the output was written.** -/
theorem plan?_write (ht : t.WellFormed) (h : plan? t arguments = some plan) {output : Location}
    (hopen : t.openForWriting plan.output = .ok output) (contents : Bytes) :
    plan? (t.write output contents) arguments = some plan := by
  obtain ⟨options, basic, hrequest, hbasic, rfl⟩ := plan?_eq_some_iff.1 h
  exact plan?_eq_some_iff.2
    ⟨options, basic, hrequest, Plan.ofPath_write ht hbasic hopen contents, rfl⟩

/-- **Running the program again changes nothing.** -/
theorem execute_execute (ht : t.WellFormed) (arguments : List Bytes) :
    execute (execute t arguments).tree arguments = execute t arguments := by
  cases hplan : plan? t arguments with
  | none => rw [(execute_of_plan?_eq_none hplan).1]
  | some plan =>
    rcases run_tree t plan with hsame | ⟨output, contents, hopen, hwritten⟩
    · rw [tree_execute_of_plan? hplan, hsame]
    · -- The second run has the same plan and finds the same sources.
      obtain ⟨options, hrequest, houtcome, hexecute⟩ := execute_of_plan? hplan
      obtain ⟨options', hrequest', houtcome', hexecute'⟩ :=
        execute_of_plan? (plan?_write ht hplan hopen contents)
      obtain rfl : options = options' := by
        rw [hrequest] at hrequest'
        exact Request.compile.inj hrequest'
      rw [tree_execute_of_plan? hplan, hwritten, hexecute', hexecute]
      unfold compile
      rw [houtcome', houtcome, run_write hopen]

end Execute

/-- **The program touches only its output and can be repeated.**  For any tree of directories and
    any arguments:

    * without a plan, because the arguments ask for something else or are wrong, or because no plan
      can be made, the tree stays as it is;
    * with a plan the output is none of the sources, neither by its path nor by its place, and all
      else in the tree stays as it is;
    * no file is removed;
    * the exit code is 0 for help, the version and a run without an error, and 1 otherwise;
    * running the program again on the tree that it left gives the same result in every respect. -/
theorem execute_touches_only_output (t : FileTree) (ht : t.WellFormed) (arguments : List Bytes) :
    let result := execute t arguments
    (plan? t arguments = none → result.tree = t) ∧
      (∀ plan, plan? t arguments = some plan →
        plan.output ∉ plan.input.files ∧
        (∀ path ∈ plan.input.files, ∃ location contents,
          t.resolve path = .ok (location, .file contents) ∧
          t.openForWriting plan.output ≠ .ok location) ∧
        ∀ location, t.openForWriting plan.output ≠ .ok location →
          result.tree.node? location = t.node? location) ∧
      (∀ location contents, t.node? location = some (.file contents) →
        ∃ contents', result.tree.node? location = some (.file contents')) ∧
      (result.exitCode = 0 ∨ result.exitCode = 1) ∧
      (result.exitCode = 0 ↔
        Request.ofArguments arguments ∈ [.shortHelp, .longHelp, .version] ∨
        ∃ plan, plan? t arguments = some plan ∧ (run t plan).error = none) ∧
      execute result.tree arguments = result := by
  intro result
  refine ⟨fun hnone => (execute_of_plan?_eq_none hnone).1, ?_, ?_, ?_, ?_,
    execute_execute ht arguments⟩
  · intro plan hplan
    obtain ⟨directory, hlies⟩ := liesIn_plan? ht hplan
    refine ⟨hlies.output_not_mem, ?_, ?_⟩
    · intro path hpath
      obtain ⟨name, contents, -, -, -, hresolve⟩ := hlies.sources path hpath
      exact ⟨_, contents, hresolve, fun hopen => hlies.ne_output hopen hpath hresolve rfl⟩
    · intro location hne
      rw [tree_execute_of_plan? hplan, node?_run hne]
  · intro location contents hfile
    cases hplan : plan? t arguments with
    | none => exact ⟨contents, by rw [(execute_of_plan?_eq_none hplan).1, hfile]⟩
    | some plan =>
      rw [tree_execute_of_plan? hplan]
      exact exists_file_run hfile
  · exact (exitCode_execute t arguments).imp And.left And.left
  · rcases exitCode_execute t arguments with ⟨hzero, hsucceeds⟩ | ⟨hone, hfails⟩
    · exact iff_of_true hzero hsucceeds
    · exact iff_of_false (by rw [hone]; decide) hfails

/-- The program on a directory in which a line of a source cannot be read, run twice. -/
theorem execute_faulty_twice :
    faulty.WellFormed ∧
      let arguments : List Bytes := ["-v", "--annotate", "../../p/"]
      let result := execute faulty arguments
      plan? faulty arguments = some { faultyPlan with annotate := true } ∧
      result.exitCode = 1 ∧
      result.tree.node? ["p", "p.asm"] ≠ faulty.node? ["p", "p.asm"] ∧
      result.tree.node? ["p", "B.vm"] = faulty.node? ["p", "B.vm"] ∧
      result.tree.node? ["p", "B.asm"] = none ∧
      execute result.tree arguments = result := by
  have hwell : faulty.WellFormed := by decide +kernel
  refine ⟨hwell, ?_⟩
  intro arguments result
  have hplan : plan? faulty arguments = some { faultyPlan with annotate := true } :=
    plan?_eq_some_iff.2
      ⟨⟨"../../p/", true, true, 1⟩, faultyPlan, by decide +kernel, ofPath_faulty, rfl⟩
  obtain ⟨-, htouched, -, hcode, hzero, htwice⟩ :=
    execute_touches_only_output faulty hwell arguments
  obtain ⟨-, -, hother⟩ := htouched _ hplan
  refine ⟨hplan, ?_, ?_, ?_, ?_, htwice⟩
  · refine hcode.resolve_left fun hsuccess => ?_
    rcases hzero.1 hsuccess with hrequest | ⟨plan, hplan', herror⟩
    · exact absurd hrequest (by decide +kernel)
    · obtain rfl := Option.some.inj (hplan.symm.trans hplan')
      exact absurd herror (by decide +kernel)
  · rw [tree_execute_of_plan? hplan]
    decide +kernel
  · exact hother _ (by decide +kernel)
  · exact (hother _ (by decide +kernel)).trans (by decide +kernel)

end HackVM.CommandLine
