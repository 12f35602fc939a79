import HackVM.Proofs.CommandLine.Repetition
import HackVM.Proofs.Machine.Symbols
import HackVM.Proofs.Text.Pieces

namespace HackVM.CommandLine

open Files
open Job
open Machine (foldlM_invariant foldlM_cons_of_ok foldlM_cons_of_error)
open Text (Bytes Piece)

/-!
# Asking for more messages

The more often one asks for messages, the more of them are shown.  This file compares a run of the
program with one whose arguments ask for them more often, and says that nothing else can be told
apart.

* `MoreVerbose` — arguments, and the same arguments with further ones among them that only ask for
  more messages;
* `Scan.raise` — asking more often, and `add_raise` — every argument is read alike after it;
* `foldlM_moreVerbose` and `ofArguments_moreVerbose` — so what the arguments come to differs in the
  verbosity only;
* `log_compile_eq_filter` — the messages that are shown are those of a more talkative compilation
  that are important enough;
* `verbosity_only_observes` — all of it for the program.
-/

/-! ### Further arguments -/

/-- An argument that asks for more messages and for nothing else: the long option, or the short one
    as often as one likes. -/
def AsksForMore (argument : Bytes) : Prop :=
  argument = Text.encode "--verbose" ∨
    ∃ n, argument = Text.encode (String.ofList ('-' :: List.replicate (n + 1) 'v'))

/-- The second arguments are the first with further ones anywhere among them that ask for more
    messages, but not after the `--` that ends the options. -/
inductive MoreVerbose : List Bytes → List Bytes → Prop where
  /-- No arguments. -/
  | nil : MoreVerbose [] []
  /-- Nothing is put in after the end of the options. -/
  | separator (rest : List Bytes) :
      MoreVerbose (Text.encode "--" :: rest) (Text.encode "--" :: rest)
  /-- An argument stays. -/
  | keep {argument : Bytes} {fewer more : List Bytes} (h : argument ≠ Text.encode "--")
      (rest : MoreVerbose fewer more) : MoreVerbose (argument :: fewer) (argument :: more)
  /-- An argument is put in. -/
  | insert {argument : Bytes} {fewer more : List Bytes} (h : AsksForMore argument)
      (rest : MoreVerbose fewer more) : MoreVerbose fewer (argument :: more)

/-! ### Reading the arguments -/

namespace Scan

/-- Asks for more messages a number of times. -/
def raise (n : Nat) (s : Scan) : Scan :=
  { s with verbosity := s.verbosity + n }

theorem raise_raise (m n : Nat) (s : Scan) : (s.raise m).raise n = s.raise (m + n) := by
  simp [raise, Nat.add_assoc]

theorem option_raise (n : Nat) (s : Scan) (argument : Bytes) :
    (s.raise n).option argument = (s.option argument).map (raise n) := by
  unfold option
  split
  · rfl
  · rfl
  · simp [raise, Except.map, Nat.add_right_comm]
  · cases h : s.annotate <;> simp [raise, Except.map, h]
  · cases h : s.noBootstrap <;> simp [raise, Except.map, h]
  · rfl

theorem letter_raise (n : Nat) (s : Scan) (piece : Piece) :
    (s.raise n).letter piece = (s.letter piece).map (raise n) := by
  unfold letter
  split
  · rfl
  · rfl
  · simp [raise, Except.map, Nat.add_right_comm]
  · rfl

theorem positional_raise (n : Nat) (s : Scan) (argument : Bytes) :
    (s.raise n).positional argument = (s.positional argument).map (raise n) := by
  unfold positional
  show (if s.path.isSome ∨ argument = [] then _ else _) = _
  split <;> rfl

/-- What is read alike step by step is read alike as a whole. -/
theorem foldlM_raise {α : Type} {step : Scan → α → Except Request Scan} {n : Nat}
    (h : ∀ s a, step (s.raise n) a = (step s a).map (raise n)) (s : Scan) (steps : List α) :
    steps.foldlM step (s.raise n) = (steps.foldlM step s).map (raise n) := by
  induction steps generalizing s with
  | nil => rfl
  | cons a steps ih =>
    cases hstep : step s a with
    | error request =>
      have hraised : step (s.raise n) a = .error request := by rw [h, hstep]; rfl
      rw [foldlM_cons_of_error hraised, foldlM_cons_of_error hstep]
      rfl
    | ok s' =>
      have hraised : step (s.raise n) a = .ok (s'.raise n) := by rw [h, hstep]; rfl
      rw [foldlM_cons_of_ok hraised, foldlM_cons_of_ok hstep, ih]

/-- **Every argument is read alike**, however often more messages were asked for before it. -/
theorem add_raise (n : Nat) (s : Scan) (argument : Bytes) :
    (s.raise n).add argument = (s.add argument).map (raise n) := by
  unfold add
  show (if s.optionsEnded then _ else _) = _
  split_ifs
  · exact positional_raise n s argument
  · rfl
  · exact option_raise n s argument
  · exact foldlM_raise (letter_raise n) s _
  · exact positional_raise n s argument

/-- Short options that ask for more messages do just that. -/
theorem cluster_replicate (s : Scan) (n : Nat) :
    s.cluster (Text.encode (String.ofList (List.replicate n 'v'))) = .ok (s.raise n) := by
  rw [cluster, Text.pieces_encode, String.toList_ofList, List.map_replicate]
  induction n generalizing s with
  | zero => rfl
  | succ n ih =>
    have hletter : s.letter (.char 'v') = .ok (s.raise 1) := rfl
    rw [List.replicate_succ, foldlM_cons_of_ok hletter, ih, raise_raise, Nat.add_comm]

/-- Before the options end, an argument that asks for more messages does just that. -/
theorem add_of_asksForMore {s : Scan} (hs : s.optionsEnded = false) {argument : Bytes}
    (h : AsksForMore argument) : ∃ n, s.add argument = .ok (s.raise n) := by
  unfold add
  rw [hs, if_neg Bool.false_ne_true]
  rcases h with rfl | ⟨n, rfl⟩
  · refine ⟨1, ?_⟩
    rw [if_neg (by decide), if_pos (by decide), option, Text.text?_encode]
    rfl
  · -- After the `-` comes a `v`, so this is neither a lone `-` nor a long option.
    have hcluster := cluster_replicate s (n + 1)
    refine ⟨n + 1, ?_⟩
    rw [List.replicate_succ, Text.encode_ofList_cons] at hcluster
    rw [List.replicate_succ, Text.encode_ofList_cons, Text.encode_ofList_cons]
    exact hcluster

/-! ### The end of the options -/

theorem optionsEnded_option {s s' : Scan} {argument : Bytes} (h : s.option argument = .ok s') :
    s'.optionsEnded = s.optionsEnded := by
  unfold option at h
  split at h
  · cases h
  · cases h
  · cases h
    rfl
  · split at h <;> cases h
    rfl
  · split at h <;> cases h
    rfl
  · cases h

theorem optionsEnded_letter {s s' : Scan} {piece : Piece} (h : s.letter piece = .ok s') :
    s'.optionsEnded = s.optionsEnded := by
  unfold letter at h
  split at h <;> cases h
  rfl

theorem optionsEnded_positional {s s' : Scan} {argument : Bytes}
    (h : s.positional argument = .ok s') : s'.optionsEnded = s.optionsEnded := by
  unfold positional at h
  split at h <;> cases h
  rfl

/-- Only `--` ends the options. -/
theorem optionsEnded_add {s s' : Scan} {argument : Bytes} (hne : argument ≠ Text.encode "--")
    (h : s.add argument = .ok s') : s'.optionsEnded = s.optionsEnded := by
  unfold add at h
  split_ifs at h
  · exact optionsEnded_positional h
  · exact optionsEnded_option h
  · refine foldlM_invariant (P := fun s₁ => s₁.optionsEnded = s.optionsEnded) ?_ h rfl
    intro s₁ piece s₂ hletter hs₁
    rw [optionsEnded_letter hletter, hs₁]
  · exact optionsEnded_positional h

end Scan

/-- **Further arguments that ask for more messages** make no other difference to what is known after
    all of them. -/
theorem foldlM_moreVerbose {fewer more : List Bytes} (h : MoreVerbose fewer more) {s : Scan}
    (hs : s.optionsEnded = false) :
    ∃ n, more.foldlM Scan.add s = (fewer.foldlM Scan.add s).map (Scan.raise n) := by
  have hsame : ∀ result : Except Request Scan, result = result.map (Scan.raise 0) := by
    intro result
    cases result <;> rfl
  induction h generalizing s with
  | nil => exact ⟨0, hsame _⟩
  | separator rest => exact ⟨0, hsame _⟩
  | @keep argument fewer more hne _ ih =>
    cases hadd : s.add argument with
    | error request =>
      rw [foldlM_cons_of_error hadd, foldlM_cons_of_error hadd]
      exact ⟨0, hsame _⟩
    | ok s' =>
      rw [foldlM_cons_of_ok hadd, foldlM_cons_of_ok hadd]
      exact ih ((Scan.optionsEnded_add hne hadd).trans hs)
  | @insert argument fewer more hasks _ ih =>
    obtain ⟨m, hadd⟩ := Scan.add_of_asksForMore hs hasks
    obtain ⟨n, hmore⟩ := ih hs
    refine ⟨n + m, ?_⟩
    rw [foldlM_cons_of_ok hadd, Scan.foldlM_raise (Scan.add_raise m), hmore]
    cases fewer.foldlM Scan.add s with
    | error request => rfl
    | ok s' => exact congrArg Except.ok (Scan.raise_raise n m s')

/-- The same request, with more messages asked for a number of times. -/
def Request.raise (n : Nat) : Request → Request
  | compile options => compile { options with verbosity := options.verbosity + n }
  | request => request

theorem Scan.finish_raise (n : Nat) (s : Scan) : (s.raise n).finish = s.finish.raise n := by
  obtain ⟨path, noBootstrap, annotate, verbosity, optionsEnded⟩ := s
  cases path <;> rfl

/-- **What the arguments come to** differs in the verbosity only. -/
theorem ofArguments_moreVerbose {fewer more : List Bytes} (h : MoreVerbose fewer more) :
    ∃ n, Request.ofArguments more = (Request.ofArguments fewer).raise n := by
  obtain ⟨n, hmore⟩ := @foldlM_moreVerbose fewer more h {} rfl
  unfold Request.ofArguments
  rw [hmore]
  cases fewer.foldlM Scan.add {} with
  | error request => exact ⟨0, by cases request <;> rfl⟩
  | ok s => exact ⟨n, s.finish_raise n⟩

/-! ### Messages -/

/-- Whether a message is shown where those up to a level are. -/
def Record.isShown (limit : Level) (record : Record) : Bool :=
  record.entry.level.rank ≤ limit.rank

/-- Each time one asks, the messages of one more level are shown. -/
theorem rank_logLimit (options : Options) :
    options.logLimit.rank = min (options.verbosity + 1) 4 := by
  obtain ⟨path, bootstrap, annotate, verbosity⟩ := options
  rcases verbosity with _ | _ | _ | n
  · rfl
  · rfl
  · rfl
  · show 4 = min (n + 3 + 1) 4
    omega

/-- **The messages that are shown** are those of a more talkative compilation that are important
    enough, in the same order. -/
theorem log_compile_eq_filter (t : FileTree) (options : Options) (n : Nat) :
    (compile t options).log =
      (compile t { options with verbosity := options.verbosity + n }).log.filter
        (Record.isShown options.logLimit) := by
  let louder : Options := { options with verbosity := options.verbosity + n }
  have hlimit : options.logLimit.rank ≤ louder.logLimit.rank := by
    rw [rank_logLimit, rank_logLimit]
    show min (options.verbosity + 1) 4 ≤ min (options.verbosity + n + 1) 4
    omega
  have herrors : ∀ errors : List Job.Error,
      (errors.map errorRecord).filter (Record.isShown options.logLimit) =
        errors.map errorRecord := by
    intro errors
    rw [List.filter_eq_self]
    intro record hrecord
    obtain ⟨error, -, rfl⟩ := List.mem_map.1 hrecord
    exact decide_eq_true (Nat.zero_le _)
  have hprogress : ∀ log : List LogEntry,
      ((upTo (some louder.logLimit) log).map progressRecord).filter
          (Record.isShown options.logLimit) =
        (upTo (some options.logLimit) log).map progressRecord := by
    intro log
    unfold upTo
    rw [List.filter_map, List.filter_filter]
    congr 2
    funext entry
    show (decide (entry.level.rank ≤ options.logLimit.rank) &&
      decide (entry.level.rank ≤ louder.logLimit.rank)) = _
    rw [← Bool.decide_and, decide_eq_decide]
    omega
  show _ = ((upTo (some louder.logLimit) (options.outcome t).log).map progressRecord ++
    (options.outcome t).error.toList.map errorRecord).filter _
  rw [List.filter_append, hprogress, herrors]
  rfl

/-- The least important messages that are shown with some arguments. -/
def shownLevel (arguments : List Bytes) : Level :=
  match Request.ofArguments arguments with
  | .compile options => options.logLimit
  | _ => .warn

/-- **Asking for more messages shows more messages and does nothing else.**  Put further arguments
    that ask for messages anywhere among the arguments, before the `--` that ends the options if
    there is one.  Whatever the files and the arguments are,

    * the exit code, the output, all files afterwards and the line for the user about an error stay
      the same;
    * the messages of the first run are those of the second run whose level is shown in the first
      run, in the same order;
    * so the first run prints beside its output just the texts of these and that line. -/
theorem verbosity_only_observes (t : FileTree) {fewer more : List Bytes}
    (h : MoreVerbose fewer more) :
    let quiet := execute t fewer
    let talkative := execute t more
    let shown := talkative.log.filter (Record.isShown (shownLevel fewer))
    talkative.exitCode = quiet.exitCode ∧ talkative.output = quiet.output ∧
      talkative.tree = quiet.tree ∧ talkative.notice = quiet.notice ∧
      quiet.log = shown ∧
      quiet.diagnostics = String.join (shown.map Record.text) ++ talkative.notice := by
  intro quiet talkative shown
  obtain ⟨n, hmore⟩ := ofArguments_moreVerbose h
  have hsame : talkative.exitCode = quiet.exitCode ∧ talkative.output = quiet.output ∧
      talkative.tree = quiet.tree ∧ talkative.notice = quiet.notice ∧ quiet.log = shown := by
    simp only [quiet, talkative, shown, execute, shownLevel, hmore]
    cases Request.ofArguments fewer with
    | shortHelp | longHelp | version | usageError => exact ⟨rfl, rfl, rfl, rfl, rfl⟩
    | compile options => exact ⟨rfl, rfl, rfl, rfl, log_compile_eq_filter t options n⟩
  obtain ⟨hexit, houtput, htree, hnotice, hlog⟩ := hsame
  refine ⟨hexit, houtput, htree, hnotice, hlog, ?_⟩
  rw [Result.diagnostics, hlog, hnotice]

/-- A directory with a source whose second line cannot be read. -/
def stumbling : FileTree where
  entries := [(["w"], .directory), (["w", "M.vm"], .file "eq\nfly\n")]
  workingDirectory := ["w"]

/-- Asking three more times, in two arguments, adds the message about the first command. -/
theorem stumbling_more_talkative :
    let fewer : List Bytes := ["-v", "--no-bootstrap", "--", "M.vm"]
    let more : List Bytes := ["-v", "-vv", "--no-bootstrap", "--verbose", "--", "M.vm"]
    let quiet := execute stumbling fewer
    let talkative := execute stumbling more
    MoreVerbose fewer more ∧ shownLevel fewer = .info ∧
      talkative.log.map (fun record => record.entry.level) = [.info, .trace, .error] ∧
      quiet.log.map (fun record => record.entry.level) = [.info, .error] ∧
      quiet.exitCode = 1 ∧ talkative.exitCode = 1 ∧ talkative.tree = quiet.tree ∧
      talkative.notice = "vm-translator: M.vm: line 2: invalid command `fly`\n" ∧
      quiet.notice = talkative.notice := by
  intro fewer more quiet talkative
  have hmore : MoreVerbose fewer more := by
    refine .keep (by decide) (.insert (.inr ⟨1, rfl⟩) (.keep (by decide) (.insert (.inl rfl) ?_)))
    exact .separator _
  obtain ⟨hexit, -, htree, hnotice, hlog, -⟩ := verbosity_only_observes stumbling hmore
  have hlevels : talkative.log.map (fun record => record.entry.level) =
      [.info, .trace, .error] := by
    decide +kernel
  have hcode : talkative.exitCode = 1 := by decide +kernel
  refine ⟨hmore, by decide +kernel, hlevels, ?_, hexit.symm.trans hcode, hcode, htree,
    by decide +kernel, hnotice.symm⟩
  rw [hlog]
  decide +kernel

end HackVM.CommandLine
