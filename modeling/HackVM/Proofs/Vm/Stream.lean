import HackVM.Vm.Cursor
import Mathlib.Data.List.Infix

namespace HackVM

/-!
# Cursors and the events of a source

A cursor looks ahead, skips lines and holds one of them back, but whoever uses it sees a plain list
of events that is read from front to back.  This file says so for every order of requests.

* `Request`, `Answer` and `answers` — what a cursor can be asked, in any order;
* `Answer.delivered` — what an answer hands over of the source;
* `hasMore_of_nil`, `hasMore_of_line`, `hasMore_of_unreadable` — looking ahead, by the event in
  front;
* `Tracks` — what has been handed over and what is left make up the source, and `Tracks.answer` —
  every request keeps it so;
* `cursor_refines_event_list` — sessions of any length.
-/

/-- The number that an event is known by. -/
def Event.number : Event → Nat
  | .line number _ => number
  | .unreadable after => after

namespace Cursor

/-- What a cursor can be asked. -/
inductive Request where
  /-- Whether a command is left. -/
  | hasMore
  /-- To move past the next line that holds a command. -/
  | advance
  /-- To move past the next line that holds a command, unless nothing is left. -/
  | next
  /-- The last command read. -/
  | command
  /-- The number of the last line read. -/
  | line
  deriving DecidableEq, Repr

/-- What a cursor answers to each request. -/
inductive Answer where
  | hasMore (result : Except SourceError Bool)
  | advance (result : Except SourceError Command)
  | next (item : Option (Except SourceError Command))
  | command (current : Option Command)
  | line (number : Nat)
  deriving Repr

/-- The answer to a request, and the cursor after it. -/
def answer (c : Cursor) : Request → Answer × Cursor
  | .hasMore => (.hasMore c.hasMore.1, c.hasMore.2)
  | .advance => (.advance c.advance.1, c.advance.2)
  | .next => (.next c.next.1, c.next.2)
  | .command => (.command c.current, c)
  | .line => (.line c.line, c)

/-- The answers to requests in order, and the cursor after them. -/
def answers (c : Cursor) : List Request → List Answer × Cursor
  | [] => ([], c)
  | request :: requests =>
    let (answer, c) := c.answer request
    let (answers, c) := c.answers requests
    (answer :: answers, c)

/-- What an answer hands over of the source.  That nothing is left is not part of the source. -/
def Answer.delivered : Answer → List (Except SourceError Command)
  | .hasMore (.ok _) => []
  | .hasMore (.error error) => [.error error]
  | .advance (.error (.exhausted _)) => []
  | .advance result => [result]
  | .next item => item.toList
  | .command _ | .line _ => []

/-- No event says that nothing is left, so moving past one always hands it over. -/
theorem delivered_advance (event : Event) :
    (Answer.advance event.command).delivered = [event.command] := by
  cases event with
  | line number text =>
    show (Answer.advance (Command.ofNumberedLine number text)).delivered =
      [Command.ofNumberedLine number text]
    unfold Command.ofNumberedLine
    cases Command.ofLine text <;> rfl
  | unreadable after => rfl

/-! ### Looking ahead -/

/-- The number of lines that are UTF-8. -/
def countedLines (lines : List Text.Bytes) : Nat :=
  lines.countP fun bytes => (Text.decode? bytes).isSome

/-- Everything that looking ahead can find: nothing, with all lines counted, or the first event and
    the lines that hold the others. -/
theorem lookAhead_cases (line : Nat) (lines : List Text.Bytes) :
    (eventsAfter line lines = [] ∧
      lookAhead line lines = (.nothing, line + countedLines lines, [])) ∨
    (∃ number rest, lookAhead line lines = (.unreadable, number, rest) ∧
      eventsAfter line lines = .unreadable number :: eventsAfter number rest ∧
      number + countedLines rest = line + countedLines lines) ∨
    ∃ number text rest, lookAhead line lines = (.text text, number, rest) ∧
      eventsAfter line lines = .line number text :: eventsAfter number rest ∧
      number + countedLines rest = line + countedLines lines := by
  fun_induction lookAhead line lines with
  | case1 line => exact .inl ⟨rfl, rfl⟩
  | case2 line bytes rest hdecode =>
    exact .inr (.inl ⟨line, rest, rfl, by simp [eventsAfter, hdecode],
      by simp [countedLines, hdecode]⟩)
  | case3 line bytes rest text hdecode hbare ih =>
    -- A line that is skipped is counted, and has no event.
    have hevents : eventsAfter line (bytes :: rest) = eventsAfter (line + 1) rest := by
      simp [eventsAfter, hdecode, hbare]
    have hcount : line + countedLines (bytes :: rest) = line + 1 + countedLines rest := by
      simp [countedLines, hdecode]
      omega
    rw [hevents, hcount]
    exact ih
  | case4 line bytes rest text hdecode hbare =>
    refine .inr (.inr ⟨line + 1, text, rest, rfl, by simp [eventsAfter, hdecode, hbare], ?_⟩)
    simp [countedLines, hdecode]
    omega

/-- The cursor's counter fits the number of lines of the source, and the line that it holds back is
    the last one that it counted. -/
structure Sound (total : Nat) (c : Cursor) : Prop where
  /-- The lines counted and those still to be counted are all. -/
  count : c.line + countedLines c.unread = total
  /-- The line that is held back was counted last. -/
  pending : ∀ number text, c.pending = some (number, text) → number = c.line

section FrontEvent

variable {total number : Nat} {c : Cursor} {text : List Char} {rest : List Event}

theorem hasMore_of_nil (h : c.Sound total) (hevents : c.events = []) :
    c.hasMore = (.ok false, ⟨[], total, none, c.current⟩) := by
  obtain ⟨unread, line, pending, current⟩ := c
  cases pending with
  | some held => simp [events] at hevents
  | none =>
    have hafter : eventsAfter line unread = [] := by simpa [events] using hevents
    rcases lookAhead_cases line unread with
      ⟨-, hlook⟩ | ⟨_, _, -, hfront, -⟩ | ⟨_, _, _, -, hfront, -⟩
    · have htotal : line + countedLines unread = total := h.count
      simp [hasMore, hlook, htotal]
    · simp [hafter] at hfront
    · simp [hafter] at hfront

theorem hasMore_of_line (h : c.Sound total) (hevents : c.events = .line number text :: rest) :
    ∃ unread, c.hasMore = (.ok true, ⟨unread, number, some (number, text), c.current⟩) ∧
      eventsAfter number unread = rest ∧ number + countedLines unread = total := by
  obtain ⟨unread, line, pending, current⟩ := c
  have htotal : line + countedLines unread = total := h.count
  cases pending with
  | some held =>
    -- The line is held back already, and stays so.
    obtain ⟨heldNumber, heldText⟩ := held
    obtain rfl : heldNumber = line := h.pending _ _ rfl
    simp only [events, Option.map_some, Option.toList_some, List.singleton_append,
      List.cons.injEq, Event.line.injEq] at hevents
    obtain ⟨⟨rfl, rfl⟩, hrest⟩ := hevents
    exact ⟨unread, rfl, hrest, htotal⟩
  | none =>
    have hafter : eventsAfter line unread = .line number text :: rest := by
      simpa [events] using hevents
    rcases lookAhead_cases line unread with
      ⟨hnil, -⟩ | ⟨_, _, -, hfront, -⟩ | ⟨number', text', unread', hlook, hfront, hcount⟩
    · simp [hafter] at hnil
    · simp [hafter] at hfront
    · rw [hafter, List.cons.injEq, Event.line.injEq] at hfront
      obtain ⟨⟨rfl, rfl⟩, hrest⟩ := hfront
      exact ⟨unread', by simp [hasMore, hlook], hrest.symm, hcount.trans htotal⟩

theorem hasMore_of_unreadable (h : c.Sound total)
    (hevents : c.events = .unreadable number :: rest) :
    ∃ unread, c.hasMore =
        (.error (.unreadable number .notUtf8), ⟨unread, number, none, c.current⟩) ∧
      eventsAfter number unread = rest ∧ number + countedLines unread = total := by
  obtain ⟨unread, line, pending, current⟩ := c
  have htotal : line + countedLines unread = total := h.count
  cases pending with
  | some held => simp [events] at hevents
  | none =>
    have hafter : eventsAfter line unread = .unreadable number :: rest := by
      simpa [events] using hevents
    rcases lookAhead_cases line unread with
      ⟨hnil, -⟩ | ⟨number', unread', hlook, hfront, hcount⟩ | ⟨_, _, _, -, hfront, -⟩
    · simp [hafter] at hnil
    · rw [hafter, List.cons.injEq, Event.unreadable.injEq] at hfront
      obtain ⟨rfl, hrest⟩ := hfront
      exact ⟨unread', by simp [hasMore, hlook], hrest.symm, hcount.trans htotal⟩
    · simp [hafter] at hfront

end FrontEvent

/-! ### Moving on -/

section Moving

variable {total : Nat} {c : Cursor} {event : Event} {rest : List Event}

theorem advance_of_nil (h : c.Sound total) (hevents : c.events = []) :
    c.advance = (.error (.exhausted total), ⟨[], total, none, c.current⟩) := by
  simp [advance, hasMore_of_nil h hevents, consume]

/-- Moving on hands the front event over, whether it is a command or an error, and takes it away. -/
theorem advance_of_cons (h : c.Sound total) (hevents : c.events = event :: rest) :
    ∃ c', c.advance = (event.command, c') ∧ c'.Sound total ∧ c'.events = rest ∧
      c'.line = event.number ∧ c'.current = event.command.toOption.or c.current := by
  cases event with
  | line number text =>
    obtain ⟨unread, hmore, hrest, hcount⟩ := hasMore_of_line h hevents
    cases hread : Command.ofNumberedLine number text with
    | error error =>
      refine ⟨⟨unread, number, none, c.current⟩, ?_, ⟨hcount, nofun⟩, ?_, rfl, ?_⟩
      · simp [advance, hmore, consume, hread, Event.command]
      · simpa [events] using hrest
      · simp [Event.command, hread, Except.toOption]
    | ok command =>
      refine ⟨⟨unread, number, none, some command⟩, ?_, ⟨hcount, nofun⟩, ?_, rfl, ?_⟩
      · simp [advance, hmore, consume, hread, Event.command]
      · simpa [events] using hrest
      · simp [Event.command, hread, Except.toOption]
  | unreadable number =>
    obtain ⟨unread, hmore, hrest, hcount⟩ := hasMore_of_unreadable h hevents
    refine ⟨⟨unread, number, none, c.current⟩, ?_, ⟨hcount, nofun⟩, ?_, rfl, ?_⟩
    · simp [advance, hmore, Event.command]
    · simpa [events] using hrest
    · simp [Event.command, Except.toOption]

theorem next_of_nil (h : c.Sound total) (hevents : c.events = []) :
    c.next = (none, ⟨[], total, none, c.current⟩) := by
  simp [next, hasMore_of_nil h hevents]

/-- The two ways to move on differ at the end of the source only. -/
theorem next_of_cons (h : c.Sound total) (hevents : c.events = event :: rest) :
    c.next = (some c.advance.1, c.advance.2) := by
  cases event with
  | line number text =>
    obtain ⟨unread, hmore, -, -⟩ := hasMore_of_line h hevents
    simp [next, advance, hmore]
  | unreadable number =>
    obtain ⟨unread, hmore, -, -⟩ := hasMore_of_unreadable h hevents
    simp [next, advance, hmore]

/-- Looking ahead tells the front event's kind, and reports a line that cannot be read. -/
theorem hasMore_fst (h : c.Sound total) :
    c.hasMore.1 = match c.events with
      | [] => .ok false
      | .line .. :: _ => .ok true
      | .unreadable after :: _ => .error (.unreadable after .notUtf8) := by
  cases hevents : c.events with
  | nil => rw [hasMore_of_nil h hevents]
  | cons event rest =>
    cases event with
    | line number text =>
      obtain ⟨unread, hmore, -, -⟩ := hasMore_of_line h hevents
      rw [hmore]
    | unreadable number =>
      obtain ⟨unread, hmore, -, -⟩ := hasMore_of_unreadable h hevents
      rw [hmore]

theorem advance_fst (h : c.Sound total) :
    c.advance.1 = match c.events with
      | [] => .error (.exhausted total)
      | event :: _ => event.command := by
  cases hevents : c.events with
  | nil => rw [advance_of_nil h hevents]
  | cons event rest =>
    obtain ⟨c', hmove, -⟩ := advance_of_cons h hevents
    rw [hmove]

theorem next_fst (h : c.Sound total) : c.next.1 = c.events.head?.map Event.command := by
  cases hevents : c.events with
  | nil => rw [next_of_nil h hevents]; rfl
  | cons event rest =>
    obtain ⟨c', hmove, -⟩ := advance_of_cons h hevents
    rw [next_of_cons h hevents, hmove]
    rfl

/-- Asking again changes nothing. -/
theorem hasMore_again (h : c.Sound total) {more : Bool} (hmore : c.hasMore.1 = .ok more) :
    c.hasMore.2.events = c.events ∧ c.hasMore.2.hasMore = c.hasMore := by
  cases hevents : c.events with
  | nil => rw [hasMore_of_nil h hevents]; exact ⟨rfl, rfl⟩
  | cons event rest =>
    cases event with
    | line number text =>
      obtain ⟨unread, hlook, hrest, -⟩ := hasMore_of_line h hevents
      rw [hlook]
      exact ⟨by rw [← hrest]; rfl, rfl⟩
    | unreadable number =>
      obtain ⟨unread, hlook, -, -⟩ := hasMore_of_unreadable h hevents
      simp [hlook] at hmore

/-- All three requests get to the front event's line, or to the end. -/
theorem line_after (h : c.Sound total) :
    ∀ c' ∈ [c.hasMore.2, c.advance.2, c.next.2],
      c'.line = c.events.head?.elim total Event.number := by
  cases hevents : c.events with
  | nil =>
    rw [hasMore_of_nil h hevents, advance_of_nil h hevents, next_of_nil h hevents]
    simp
  | cons event rest =>
    obtain ⟨c', hmove, -, -, hline, -⟩ := advance_of_cons h hevents
    have hlook : c.hasMore.2.line = event.number := by
      cases event with
      | line number text =>
        obtain ⟨unread, hlook, -, -⟩ := hasMore_of_line h hevents
        rw [hlook]
        rfl
      | unreadable number =>
        obtain ⟨unread, hlook, -, -⟩ := hasMore_of_unreadable h hevents
        rw [hlook]
        rfl
    rw [next_of_cons h hevents, hmove]
    simp [hlook, hline]

end Moving

/-! ### Sessions -/

/-- What has been handed over is the events that are gone, the last command in it is the current
    one, and what is left is the other events. -/
structure Tracks (source : Text.Bytes) (delivered : List (Except SourceError Command))
    (c : Cursor) : Prop where
  /-- The cursor is sound. -/
  sound : c.Sound (lineCount source)
  /-- Nothing is lost and nothing comes twice. -/
  split : ∃ gone, HackVM.events source = gone ++ c.events ∧ delivered = gone.map Event.command
  /-- The last command handed over is the current one. -/
  current : c.current = (delivered.filterMap Except.toOption).getLast?

theorem tracks_ofBytes (source : Text.Bytes) : Tracks source [] (ofBytes source) where
  sound := ⟨by simp [ofBytes, lineCount, countedLines], nofun⟩
  split := ⟨[], by simp [ofBytes, Cursor.events, HackVM.events], rfl⟩
  current := rfl

namespace Tracks

variable {source : Text.Bytes} {delivered : List (Except SourceError Command)} {c c' : Cursor}
variable {event : Event} {rest : List Event} (h : Tracks source delivered c)

include h

theorem left_eq : (HackVM.events source).drop delivered.length = c.events := by
  obtain ⟨gone, hsplit, hdelivered⟩ := h.split
  rw [hsplit, hdelivered, List.length_map, List.drop_left]

/-- A request that leaves the events alone. -/
theorem stay (hsound : c'.Sound (lineCount source)) (hevents : c'.events = c.events)
    (hcurrent : c'.current = c.current) : Tracks source delivered c' where
  sound := hsound
  split := hevents ▸ h.split
  current := hcurrent ▸ h.current

/-- A request that hands the front event over. -/
theorem pass (hevents : c.events = event :: rest) (hsound : c'.Sound (lineCount source))
    (hrest : c'.events = rest) (hcurrent : c'.current = event.command.toOption.or c.current) :
    Tracks source (delivered ++ [event.command]) c' where
  sound := hsound
  split := by
    obtain ⟨gone, hsplit, hdelivered⟩ := h.split
    exact ⟨gone ++ [event], by simp [hsplit, hevents, hrest], by simp [hdelivered]⟩
  current := by
    rw [hcurrent, h.current, List.filterMap_append, List.getLast?_append]
    cases event.command with
    | error error => simp [Except.toOption]
    | ok command => simp [Except.toOption]

/-- Looking ahead hands over a line that cannot be read, and nothing else. -/
theorem look : Tracks source (delivered ++ (Answer.hasMore c.hasMore.1).delivered) c.hasMore.2 := by
  cases hevents : c.events with
  | nil =>
    rw [hasMore_of_nil h.sound hevents]
    show Tracks source (delivered ++ []) _
    rw [List.append_nil]
    exact h.stay ⟨rfl, nofun⟩ hevents.symm rfl
  | cons event rest =>
    cases event with
    | line number text =>
      obtain ⟨unread, hmore, hrest, hcount⟩ := hasMore_of_line h.sound hevents
      rw [hmore]
      show Tracks source (delivered ++ []) _
      rw [List.append_nil]
      refine h.stay ⟨hcount, ?_⟩ ?_ rfl
      · rintro _ _ ⟨⟩
        rfl
      · rw [hevents, ← hrest]
        rfl
    | unreadable number =>
      obtain ⟨unread, hmore, hrest, hcount⟩ := hasMore_of_unreadable h.sound hevents
      rw [hmore]
      exact h.pass hevents ⟨hcount, nofun⟩ hrest rfl

/-- Moving on hands over the front event. -/
theorem move : Tracks source (delivered ++ (Answer.advance c.advance.1).delivered) c.advance.2 := by
  cases hevents : c.events with
  | nil =>
    rw [advance_of_nil h.sound hevents]
    show Tracks source (delivered ++ []) _
    rw [List.append_nil]
    exact h.stay ⟨rfl, nofun⟩ hevents.symm rfl
  | cons event rest =>
    obtain ⟨c', hmove, hsound, hrest, -, hcurrent⟩ := advance_of_cons h.sound hevents
    rw [hmove, delivered_advance]
    exact h.pass hevents hsound hrest hcurrent

theorem item : Tracks source (delivered ++ (Answer.next c.next.1).delivered) c.next.2 := by
  cases hevents : c.events with
  | nil =>
    rw [next_of_nil h.sound hevents]
    show Tracks source (delivered ++ []) _
    rw [List.append_nil]
    exact h.stay ⟨rfl, nofun⟩ hevents.symm rfl
  | cons event rest =>
    obtain ⟨c', hmove, hsound, hrest, -, hcurrent⟩ := advance_of_cons h.sound hevents
    rw [next_of_cons h.sound hevents, hmove]
    exact h.pass hevents hsound hrest hcurrent

/-- **Every request keeps it so.** -/
theorem answer (request : Request) :
    Tracks source (delivered ++ (c.answer request).1.delivered) (c.answer request).2 := by
  cases request with
  | hasMore => exact h.look
  | advance => exact h.move
  | next => exact h.item
  | command | line => exact (List.append_nil delivered).symm ▸ h

end Tracks

/-- What one request keeps, a session keeps. -/
theorem Tracks.answers {source : Text.Bytes} {delivered : List (Except SourceError Command)}
    {c : Cursor} (h : Tracks source delivered c) (requests : List Request) :
    Tracks source (delivered ++ (c.answers requests).1.flatMap Answer.delivered)
      (c.answers requests).2 := by
  induction requests generalizing delivered c with
  | nil => simpa [Cursor.answers] using h
  | cons request requests ih =>
    have hrest := ih (h.answer request)
    rw [List.append_assoc] at hrest
    exact hrest

/-- **A cursor is a plain list of events, whatever it is asked.**  In a session of any requests over
    any source, what is handed over is a prefix of the events: the commands and errors that moving
    on gives, and the lines that cannot be read, which any of the three requests can run into.
    Looking ahead says whether a line is in front or nothing is left, and takes nothing away,
    however often it is asked; moving on gives the event in front, or says that nothing is left.
    The current command is the last one handed over, and the three requests get to the line of the
    event in front, or to the last line that counts. -/
theorem cursor_refines_event_list (source : Text.Bytes) (requests : List Request) :
    let session := (ofBytes source).answers requests
    let delivered := session.1.flatMap Answer.delivered
    let left := (HackVM.events source).drop delivered.length
    let c := session.2
    delivered <+: (HackVM.events source).map Event.command ∧
      (c.hasMore.1 = match left with
        | [] => .ok false
        | .line .. :: _ => .ok true
        | .unreadable after :: _ => .error (.unreadable after .notUtf8)) ∧
      (∀ more, c.hasMore.1 = .ok more →
        c.hasMore.2.events = left ∧ c.hasMore.2.hasMore = c.hasMore) ∧
      (c.advance.1 = match left with
        | [] => .error (.exhausted (lineCount source))
        | event :: _ => event.command) ∧
      c.next.1 = left.head?.map Event.command ∧
      c.current = (delivered.filterMap Except.toOption).getLast? ∧
      ∀ c' ∈ [c.hasMore.2, c.advance.2, c.next.2],
        c'.line = left.head?.elim (lineCount source) Event.number := by
  intro session delivered left c
  have htracks : Tracks source delivered c := (tracks_ofBytes source).answers requests
  have hsound := htracks.sound
  have hleft : left = c.events := htracks.left_eq
  obtain ⟨gone, hsplit, hdelivered⟩ := htracks.split
  have hbegins : delivered <+: (HackVM.events source).map Event.command :=
    ⟨c.events.map Event.command, by rw [hsplit, hdelivered, List.map_append]⟩
  rw [hleft]
  exact ⟨hbegins, hasMore_fst hsound, fun _ hmore => hasMore_again hsound hmore,
    advance_fst hsound, next_fst hsound, htracks.current, line_after hsound⟩

end Cursor

end HackVM
