import HackVM.Vm.Source
import Mathlib.Data.List.Induction

namespace HackVM

/-!
# The lines of a source, one by one

A source is compiled up to its first error.  This file says what that comes to line by line, without
events and outlines: which lines can be read, what command stands on a line, and what is wrong with
one that cannot be read.

* `Legible` — the lines that can be read, `lineCommand?` — the command on a line, and `lineError?` —
  what is wrong with a line, which no legible line has;
* `commandsOfEvents_append` — legible lines at the start of a source give their commands;
* `outline_of_legible` — a source of legible lines gives all its commands;
* `outline_of_split` — otherwise a source gives the commands before the first line that is not
  legible, and that line's error;
* `legible_or_split` — one of the two always applies.
-/

/-- A line can be read: it is UTF-8, and blank, a comment or a command. -/
def Legible (line : Text.Bytes) : Prop :=
  ∃ text, Text.decode? line = some text ∧ (Text.bare text = [] ∨ ∃ c, Command.ofLine text = .ok c)

/-- The command on a line. -/
def lineCommand? (line : Text.Bytes) : Option Command :=
  (Text.decode? line).bind fun text => (Command.ofLine text).toOption

/-- What is wrong with a line that follows a number of lines. -/
def lineError? (count : Nat) (line : Text.Bytes) : Option SourceError :=
  match Text.decode? line with
  | none => some (.unreadable count .notUtf8)
  | some text =>
    if Text.bare text = [] then none
    else
      match Command.ofLine text with
      | .ok _ => none
      | .error fault => some (.line (count + 1) fault)

/-! ### One line -/

/-- Nothing is wrong with a line exactly if it can be read. -/
theorem lineError?_eq_none_iff {count : Nat} {line : Text.Bytes} :
    lineError? count line = none ↔ Legible line := by
  unfold lineError? Legible
  cases hdecode : Text.decode? line with
  | none => simp
  | some text =>
    by_cases hbare : Text.bare text = []
    · simp [hbare]
    · cases hread : Command.ofLine text with
      | ok c => simp [hbare, hread]
      | error fault => simp [hbare, hread]

instance (line : Text.Bytes) : Decidable (Legible line) :=
  decidable_of_iff _ (@lineError?_eq_none_iff 0 line)

/-- A blank line, or a comment, has no command on it. -/
theorem ofLine_of_bare_eq_nil {text : List Char} (h : Text.bare text = []) :
    Command.ofLine text = .error (.invalid "") := by
  rw [Command.ofLine, h]
  rfl

/-- A legible line gives its command, if it has one, and is counted. -/
theorem commandsOfEvents_cons {line : Text.Bytes} (h : Legible line) (count : Nat)
    (rest : List Text.Bytes) :
    let here := commandsOfEvents (eventsAfter count (line :: rest))
    let after := commandsOfEvents (eventsAfter (count + 1) rest)
    here.1.map Prod.snd = (lineCommand? line).toList ++ after.1.map Prod.snd ∧
      here.2 = after.2 := by
  obtain ⟨text, hdecode, hbare | ⟨c, hread⟩⟩ := h
  · have hnone := ofLine_of_bare_eq_nil hbare
    simp [eventsAfter, hdecode, hbare, lineCommand?, hnone, Except.toOption]
  · have hbare : Text.bare text ≠ [] := by
      intro hbare
      rw [ofLine_of_bare_eq_nil hbare] at hread
      simp at hread
    have hline : Command.ofNumberedLine (count + 1) text = .ok c := by
      rw [Command.ofNumberedLine, hread]
      rfl
    simp [eventsAfter, hdecode, hbare, lineCommand?, hread, Except.toOption, commandsOfEvents,
      hline]

/-- The first line that cannot be read ends it all. -/
theorem commandsOfEvents_error {count : Nat} {line : Text.Bytes} {error : SourceError}
    (h : lineError? count line = some error) (rest : List Text.Bytes) :
    commandsOfEvents (eventsAfter count (line :: rest)) = ([], some error) := by
  unfold lineError? at h
  split at h
  · rename_i hdecode
    obtain rfl := Option.some.inj h
    simp [eventsAfter, hdecode, commandsOfEvents]
  · rename_i text hdecode
    split at h
    · simp at h
    · rename_i hbare
      split at h
      · simp at h
      · rename_i fault hread
        obtain rfl := Option.some.inj h
        have hline : Command.ofNumberedLine (count + 1) text =
            .error (.line (count + 1) fault) := by
          rw [Command.ofNumberedLine, hread]
          rfl
        simp [eventsAfter, hdecode, hbare, commandsOfEvents, hline]

/-! ### All lines -/

/-- **Legible lines at the start of a source give their commands.** -/
theorem commandsOfEvents_append {lines : List Text.Bytes} (h : ∀ line ∈ lines, Legible line)
    (count : Nat) (rest : List Text.Bytes) :
    let here := commandsOfEvents (eventsAfter count (lines ++ rest))
    let after := commandsOfEvents (eventsAfter (count + lines.length) rest)
    here.1.map Prod.snd = lines.filterMap lineCommand? ++ after.1.map Prod.snd ∧
      here.2 = after.2 := by
  induction lines generalizing count with
  | nil => exact ⟨rfl, rfl⟩
  | cons line lines ih =>
    rw [List.forall_mem_cons] at h
    obtain ⟨hcommands, herror⟩ := commandsOfEvents_cons h.1 count (lines ++ rest)
    obtain ⟨hcommands', herror'⟩ := ih h.2 (count + 1)
    have hcount : count + 1 + lines.length = count + (line :: lines).length := by
      rw [List.length_cons]
      omega
    rw [hcount] at hcommands' herror'
    refine ⟨?_, ?_⟩
    · rw [List.cons_append, hcommands, hcommands', List.filterMap_cons]
      cases lineCommand? line <;> simp
    · rw [List.cons_append, herror, herror']

/-- **A source of legible lines gives all its commands.** -/
theorem outline_of_legible {source : Text.Bytes}
    (h : ∀ line ∈ Text.physicalLines source, Legible line) :
    (Outline.of (.ok source)).error = none ∧
      (Outline.of (.ok source)).commands.map Prod.snd =
        (Text.physicalLines source).filterMap lineCommand? := by
  obtain ⟨hcommands, herror⟩ := commandsOfEvents_append h 0 []
  rw [List.append_nil] at hcommands herror
  exact ⟨herror, hcommands.trans (List.append_nil _)⟩

/-- **A source gives the commands before its first error**, and that error. -/
theorem outline_of_split {source line : Text.Bytes} {before after : List Text.Bytes}
    {error : SourceError} (hlines : Text.physicalLines source = before ++ line :: after)
    (hbefore : ∀ line ∈ before, Legible line)
    (hline : lineError? before.length line = some error) :
    (Outline.of (.ok source)).error = some error ∧
      (Outline.of (.ok source)).commands.map Prod.snd = before.filterMap lineCommand? := by
  obtain ⟨hcommands, herror⟩ := commandsOfEvents_append hbefore 0 (line :: after)
  rw [Nat.zero_add, commandsOfEvents_error hline after, ← hlines] at hcommands herror
  exact ⟨herror, hcommands.trans (List.append_nil _)⟩

/-- All lines are legible, or one of them is the first that is not. -/
theorem legible_or_split (lines : List Text.Bytes) :
    (∀ line ∈ lines, Legible line) ∨
      ∃ before line after error, lines = before ++ line :: after ∧
        (∀ line ∈ before, Legible line) ∧ lineError? before.length line = some error := by
  induction lines using List.reverseRecOn with
  | nil => exact .inl (by simp)
  | append_singleton lines line ih =>
    rcases ih with hlines | ⟨before, bad, after, error, rfl, hbefore, hbad⟩
    · cases herror : lineError? lines.length line with
      | none =>
        refine .inl fun other hother => ?_
        rcases List.mem_append.1 hother with hother | hother
        · exact hlines other hother
        · rw [List.mem_singleton.1 hother]
          exact lineError?_eq_none_iff.1 herror
      | some error => exact .inr ⟨lines, line, [], error, rfl, hlines, herror⟩
    · exact .inr ⟨before, bad, after ++ [line], error, by simp, hbefore, hbad⟩

end HackVM
