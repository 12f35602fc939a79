import HackVM.Vm.Source

namespace HackVM

/-!
# Reading a source step by step

A cursor stands somewhere in a source. It can be asked whether a command is left, which looks ahead
to the next line that holds one, and it can be moved past that line. Between the two it holds at
most one line.

* `Cursor.ofBytes` stands at the start of a source;
* `Cursor.hasMore` looks ahead, and asking again changes nothing;
* `Cursor.advance` moves on, and makes the command that it reads the current one;
* `Cursor.next` moves on unless nothing is left, and `Cursor.drain` does so until nothing is left;
* `Cursor.events` lists what the cursor has still to meet.
-/

/-- A place in a source. -/
structure Cursor where
  /-- The lines that have not been read. -/
  unread : List Text.Bytes
  /-- The number of the last line read. -/
  line : Nat
  /-- A line that was looked at and not yet consumed, with its number. -/
  pending : Option (Nat × List Char)
  /-- The last command read. -/
  current : Option Command
  deriving Repr

namespace Cursor

/-- The start of a source. -/
def ofBytes (source : Text.Bytes) : Cursor :=
  ⟨Text.physicalLines source, 0, none, none⟩

/-- What lies ahead of a cursor, past the lines to be skipped. -/
inductive Ahead where
  /-- The end of the source. -/
  | nothing
  /-- A line that is not UTF-8. -/
  | unreadable
  /-- A line with something on it. -/
  | text (line : List Char)
  deriving Repr

/-- Skips to the next line that matters: what it is, its number or that of the line before it, and
    the lines after it. -/
def lookAhead (line : Nat) : List Text.Bytes → Ahead × Nat × List Text.Bytes
  | [] => (.nothing, line, [])
  | bytes :: rest =>
    match Text.decode? bytes with
    | none => (.unreadable, line, rest)
    | some text =>
      if Text.bare text = [] then lookAhead (line + 1) rest else (.text text, line + 1, rest)

/-- Whether a command is left, or why that cannot be known. -/
def hasMore (c : Cursor) : Except SourceError Bool × Cursor :=
  if c.pending.isSome then (.ok true, c)
  else
    match lookAhead c.line c.unread with
    | (.nothing, line, unread) => (.ok false, { c with line, unread })
    | (.unreadable, line, unread) =>
      (.error (.unreadable line .notUtf8), { c with line, unread })
    | (.text text, line, unread) =>
      (.ok true, { c with line, unread, pending := some (line, text) })

/-- Consumes the line that was looked at. A line that is not a command is consumed too, and leaves
    the current command as it was. -/
def consume (c : Cursor) : Except SourceError Command × Cursor :=
  match c.pending with
  | none => (.error (.exhausted c.line), c)
  | some (number, text) =>
    match Command.ofNumberedLine number text with
    | .error error => (.error error, { c with pending := none })
    | .ok command => (.ok command, { c with pending := none, current := some command })

/-- Moves past the next line that holds a command. -/
def advance (c : Cursor) : Except SourceError Command × Cursor :=
  match c.hasMore with
  | (.error error, c) => (.error error, c)
  | (.ok _, c) => c.consume

/-- Moves past the next line that holds a command, unless nothing is left. -/
def next (c : Cursor) : Option (Except SourceError Command) × Cursor :=
  match c.hasMore with
  | (.error error, c) => (some (.error error), c)
  | (.ok false, c) => (none, c)
  | (.ok true, c) =>
    let (result, c) := c.consume
    (some result, c)

/-- Moves on at most a number of times, and collects what is read. -/
def drainWithin : Nat → Cursor → List (Except SourceError Command) × Cursor
  | 0, c => ([], c)
  | steps + 1, c =>
    match c.next with
    | (none, c) => ([], c)
    | (some result, c) =>
      let (results, c) := drainWithin steps c
      (result :: results, c)

/-- Moves to the end. Each move consumes a line, so there are at most as many as lines left, and
    one more to see the end. -/
def drain (c : Cursor) : List (Except SourceError Command) × Cursor :=
  drainWithin (c.unread.length + 2) c

/-- What the cursor has still to meet. -/
def events (c : Cursor) : List Event :=
  (c.pending.map fun (number, text) => Event.line number text).toList ++
    eventsAfter c.line c.unread

end Cursor

end HackVM
