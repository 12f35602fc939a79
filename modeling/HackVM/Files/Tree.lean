import HackVM.Files.Path
import HackVM.Files.SystemError

namespace HackVM.Files

open Text (Bytes)

/-!
# File trees

A tree of files and directories, and the directory in which a program works. It is kept as a list
of entries, each with the names that lead to it from the root. Following a path can fail in the
ways of `SystemError`.

* `FileTree.node?` and `FileTree.children` look at a location;
* `FileTree.resolve` follows a path to something that exists;
* `FileTree.canonicalize` writes a path out from the root;
* `FileTree.openForWriting` follows a path to a file that exists or can be made;
* `FileTree.write` replaces the contents of a file;
* `FileTree.makeDirectory` and `FileTree.makeFile` add to a tree at a path.

Names are any bytes. Left out are symbolic links and files with more than one name, so that every
location is led to by one list of names only; special files other than a device that is empty when
read and forgets what is written to it; and permissions, so that everything can be read, listed and
written.
-/

/-- The names that lead from the root to an entry. -/
abbrev Location := List Bytes

/-- What an entry can be. -/
inductive Node where
  /-- A directory. -/
  | directory
  /-- A regular file with its contents. -/
  | file (contents : Bytes)
  /-- A device that is empty when read and forgets what is written to it. -/
  | device
  deriving DecidableEq, Repr

/-- A tree of files and directories, without links. Each file has one location and contents of its
    own, and there are no special files but devices that hold nothing. -/
structure FileTree where
  /-- All entries but the root, each with its location. -/
  entries : List (Location × Node)
  /-- Where paths that do not start at the root begin. -/
  workingDirectory : Location
  deriving Repr

namespace FileTree

/-- What is at a location. The root is a directory. -/
def node? (t : FileTree) (location : Location) : Option Node :=
  if location = [] then some .directory else t.entries.lookup location

/-- The entry of a directory that an entry of the tree is, if it is one. -/
def childOf? (directory : Location) (entry : Location × Node) : Option (Bytes × Node) :=
  match entry.1.getLast? with
  | some name => if entry.1.dropLast = directory then some (name, entry.2) else none
  | none => none

/-- The entries of a directory, in no particular order. -/
def children (t : FileTree) (directory : Location) : List (Bytes × Node) :=
  t.entries.filterMap (childOf? directory)

/-! ### Following a path -/

/-- The largest number of bytes that a name may have. -/
def nameLimit : Nat := 255

/-- The largest number of bytes that a path may have. -/
def pathLimit : Nat := 4095

/-- Why a path is refused before it is followed. -/
def refusal? (path : Bytes) : Option SystemError :=
  if path.contains 0 then some .nullCharacter
  else if path = [] then some .noEntry
  else if pathLimit < path.length then some .nameTooLong
  else none

/-- Follows one name from a location, which has to be a directory. -/
def follow (t : FileTree) (here : Location) (name : Bytes) : Except SystemError Location :=
  match t.node? here with
  | none => .error .noEntry
  | some .directory =>
    if Path.staysPut name then .ok here
    else if name = Path.above then .ok here.dropLast
    else if nameLimit < name.length then .error .nameTooLong
    else .ok (here ++ [name])
  | some _ => .error .notDirectory

/-- Where a path begins. -/
def origin (t : FileTree) (path : Bytes) : Location :=
  if Path.isAbsolute path then [] else t.workingDirectory

/-- Follows a path to something that exists. -/
def resolve (t : FileTree) (path : Bytes) : Except SystemError (Location × Node) :=
  match refusal? path with
  | some error => .error error
  | none => do
    let location ← (Path.parts path).foldlM t.follow (t.origin path)
    match t.node? location with
    | none => .error .noEntry
    | some node => .ok (location, node)

/-- Follows a path to a file that can be written: one that exists, or a new one in a directory that
    exists. A path that can only lead to a directory is refused as one. -/
def openForWriting (t : FileTree) (path : Bytes) : Except SystemError Location :=
  match refusal? path with
  | some error => .error error
  | none =>
    match (Path.parts path).reverse.dropWhile (· == []) with
    | [] => .error .isDirectory
    | name :: before => do
      let parent ← before.reverse.foldlM t.follow (t.origin path)
      match t.node? parent with
      | none => .error .noEntry
      | some .directory =>
        if path.getLast? = some Path.slash ∨ name = [Path.dot] ∨ name = Path.above then
          .error .isDirectory
        else if nameLimit < name.length then .error .nameTooLong
        else
          let location := parent ++ [name]
          if t.node? location = some .directory then .error .isDirectory else .ok location
      | some _ => .error .notDirectory

/-! ### Writing a path out from the root -/

/-- The number of bytes of the path that spells a location out from the root. -/
def pathSize (location : Location) : Nat :=
  location.foldr (fun name size => 1 + name.length + size) 0

/-- Whether what follows a name in a path asks for a directory there: a slash at the end, or `..`
    next. -/
def needsDirectory (rest : List Bytes) : Bool :=
  rest ≠ [] && (rest.dropWhile Path.staysPut).head?.all (· == Path.above)

/-- The number of bytes with which a name is looked up in a directory: those of the path from the
    root, and a slash where a directory is asked for. -/
def lookupSize (here : Location) (name : Bytes) (rest : List Bytes) : Nat :=
  pathSize (here ++ [name]) + if needsDirectory rest then 1 else 0

/-- The location that names lead to. Each name is looked up by the path from the root to it, which
    can be too long even where the path that was given is not; the location at the start is not
    looked up. -/
def canonicalFrom (t : FileTree) (here : Location) : List Bytes → Except SystemError Location
  | [] => .ok here
  | name :: rest =>
    if Path.staysPut name then t.canonicalFrom here rest
    else if name = Path.above then t.canonicalFrom here.dropLast rest
    else if pathLimit < lookupSize here name rest then .error .nameTooLong
    else do
      let there ← t.follow here name
      match t.node? there with
      | none => .error .noEntry
      | some node =>
        if node ≠ .directory ∧ needsDirectory rest then .error .notDirectory
        else t.canonicalFrom there rest

/-- Writes a path out from the root, without the names that stay put or lead upwards. -/
def canonicalize (t : FileTree) (path : Bytes) : Except SystemError Location :=
  if path.contains 0 then .error .nullCharacter
  else if path = [] then .error .noEntry
  else t.canonicalFrom (t.origin path) (Path.parts path)

/-! ### Changing a tree -/

/-- The tree with an entry replaced or added. -/
def put (t : FileTree) (location : Location) (node : Node) : FileTree :=
  { t with entries := (location, node) :: t.entries.filter fun entry => entry.1 ≠ location }

theorem lookup_filter_ne (entries : List (Location × Node)) {location other : Location}
    (h : location ≠ other) :
    (entries.filter fun entry => entry.1 ≠ location).lookup other = entries.lookup other := by
  induction entries with
  | nil => rfl
  | cons entry entries ih =>
    obtain ⟨here, node⟩ := entry
    by_cases hh : here = location
    · subst hh
      have ho : (other == here) = false := by simpa using Ne.symm h
      simp only [List.lookup_cons, ho, ne_eq, not_true_eq_false, decide_false, Bool.false_eq_true,
        not_false_eq_true, List.filter_cons_of_neg]
      exact ih
    · simp only [List.lookup_cons, ne_eq, hh, not_false_eq_true, decide_true,
        List.filter_cons_of_pos]
      cases other == here with
      | true => rfl
      | false => exact ih

/-- A tree with an entry replaced or added has that entry, and the others as before. -/
theorem node?_put (t : FileTree) {location : Location} (h : location ≠ []) (node : Node)
    (other : Location) :
    (t.put location node).node? other = if location = other then some node else t.node? other := by
  by_cases hl : location = other
  · subst hl
    simp [node?, put, h]
  · have hb : (other == location) = false := by simpa using Ne.symm hl
    simp only [node?, put, hl, if_false, List.lookup_cons, hb]
    rw [lookup_filter_ne t.entries hl]

/-- The tree after contents were written to a file. A device forgets them. -/
def write (t : FileTree) (location : Location) (contents : Bytes) : FileTree :=
  if t.node? location = some .device then t else t.put location (.file contents)

/-- Follows one name from a location and adds a directory there if nothing is there yet. -/
def enter (here : FileTree × Location) (name : Bytes) : FileTree × Location :=
  let (t, directory) := here
  if Path.staysPut name then here
  else if name = Path.above then (t, directory.dropLast)
  else
    let location := directory ++ [name]
    (if (t.node? location).isSome then t else t.put location .directory, location)

/-- The tree with the directories along a path added where they are missing, and the location that
    the path leads to. -/
def enterAlong (t : FileTree) (path : Bytes) : FileTree × Location :=
  (Path.parts path).foldl enter (t, t.origin path)

/-- The tree with a directory, and those that lead to it, added where they are missing. -/
def makeDirectory (t : FileTree) (path : Bytes) : FileTree :=
  (t.enterAlong path).1

/-- The tree with a file added, and the directories that lead to it where they are missing. A path
    without a last name adds nothing. -/
def makeFile (t : FileTree) (path : Bytes) (contents : Bytes) : FileTree :=
  match Path.splitFileName? path with
  | none => t
  | some (directory, name) =>
    let (t, location) := t.enterAlong directory
    t.put (location ++ [name]) (.file contents)

end FileTree

end HackVM.Files
