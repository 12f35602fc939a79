import HackVM.Files.Tree
import HackVM.Proofs.Files.Path

namespace HackVM.Files

open Text (Bytes)

/-!
# Following paths in file trees

A path leads through directories to a last name in one of them.  This file says what can be found
and what can be written there.

* `FileTree.WellFormed` — the entries of a tree stand in directories and have names of their own;
* `FileTree.WellFormed.mem_children_iff` and `nodup_children` — a directory lists what is found in
  it, each name once;
* `FileTree.follow_eq_ok` — everything that following one name can do;
* `FileTree.refusal?_join_eq_none_iff` — when a joined path is not refused;
* `FileTree.Names` — a path leads to a name in a directory, with `names_join` for joined paths,
  `Names.sibling` for paths with another last name, and `exists_names_of_file` for paths that lead
  to files;
* `resolve_of_names` and `openForWriting_eq_ok_iff` — what is found, and what can be written, at a
  path;
* `FileTree.Relisted` — trees that differ in the order of their entries only, with
  `Relisted.resolve_eq` for where paths lead in them.
-/

/-- What a computation in two parts gives, the second part gives from what the first does. -/
theorem bind_eq_ok_iff {ε α β : Type} {x : Except ε α} {f : α → Except ε β} {b : β} :
    x >>= f = .ok b ↔ ∃ a, x = .ok a ∧ f a = .ok b := by
  cases x with
  | error e => simp [bind, Except.bind]
  | ok a => simp [bind, Except.bind]

namespace FileTree

/-! ### Well-formed trees -/

/-- A tree of directories: each entry has a location of its own, with names that can be followed,
    and it stands in a directory. -/
structure WellFormed (t : FileTree) : Prop where
  /-- No two entries have the same location. -/
  nodup : (t.entries.map Prod.fst).Nodup
  /-- The root is no entry. -/
  ne_root : ∀ entry ∈ t.entries, entry.1 ≠ []
  /-- All names can be followed. -/
  proper : ∀ entry ∈ t.entries, ∀ name ∈ entry.1,
    Path.IsProper name ∧ name.length ≤ nameLimit
  /-- An entry stands in a directory. -/
  parent : ∀ entry ∈ t.entries, t.node? entry.1.dropLast = some .directory

instance (t : FileTree) : Decidable t.WellFormed :=
  decidable_of_iff
    ((t.entries.map Prod.fst).Nodup ∧ (∀ entry ∈ t.entries, entry.1 ≠ []) ∧
      (∀ entry ∈ t.entries, ∀ name ∈ entry.1, Path.IsProper name ∧ name.length ≤ nameLimit) ∧
      ∀ entry ∈ t.entries, t.node? entry.1.dropLast = some .directory)
    ⟨fun ⟨hnodup, hroot, hproper, hparent⟩ => ⟨hnodup, hroot, hproper, hparent⟩,
      fun h => ⟨h.nodup, h.ne_root, h.proper, h.parent⟩⟩

/-- Where locations are different, an entry is what is found at its location. -/
theorem lookup_eq_some_iff_mem {entries : List (Location × Node)}
    (h : (entries.map Prod.fst).Nodup) {location : Location} {node : Node} :
    entries.lookup location = some node ↔ (location, node) ∈ entries := by
  rw [List.lookup_eq_some_iff]
  constructor
  · rintro ⟨before, after, rfl, -⟩
    simp
  · intro hmem
    obtain ⟨before, after, rfl⟩ := List.append_of_mem hmem
    refine ⟨before, after, rfl, fun entry hentry => ?_⟩
    rw [List.map_append, List.nodup_append] at h
    rw [bne_iff_ne]
    exact (h.2.2 _ (List.mem_map_of_mem hentry) _ List.mem_cons_self).symm

/-- An entry of a directory has one name more than the directory. -/
theorem childOf?_eq_some_iff {directory : Location} {entry : Location × Node} {name : Bytes}
    {node : Node} :
    childOf? directory entry = some (name, node) ↔ entry = (directory ++ [name], node) := by
  obtain ⟨location, node'⟩ := entry
  cases location using List.reverseRecOn with
  | nil => simp [childOf?]
  | append_singleton parent last => simp [childOf?, and_assoc]

section WellFormed

variable {t : FileTree} (h : t.WellFormed)

include h

/-- The entries are what is found at their locations. -/
theorem WellFormed.mem_entries_iff {location : Location} {node : Node} :
    (location, node) ∈ t.entries ↔ location ≠ [] ∧ t.node? location = some node := by
  constructor
  · intro hmem
    have hroot := h.ne_root _ hmem
    exact ⟨hroot, by rwa [node?, if_neg hroot, lookup_eq_some_iff_mem h.nodup]⟩
  · rintro ⟨hroot, hnode⟩
    rwa [node?, if_neg hroot, lookup_eq_some_iff_mem h.nodup] at hnode

/-- What is above something that exists is a directory. -/
theorem WellFormed.node?_dropLast {location : Location} {node : Node}
    (hnode : t.node? location = some node) : t.node? location.dropLast = some .directory := by
  by_cases hroot : location = []
  · rw [hroot]
    rfl
  · exact h.parent _ (h.mem_entries_iff.2 ⟨hroot, hnode⟩)

/-- A directory lists what is found in it. -/
theorem WellFormed.mem_children_iff {directory : Location} {name : Bytes} {node : Node} :
    (name, node) ∈ t.children directory ↔ t.node? (directory ++ [name]) = some node := by
  rw [children, List.mem_filterMap]
  simp only [childOf?_eq_some_iff, exists_eq_right, h.mem_entries_iff]
  simp

theorem WellFormed.node?_of_mem_children {directory : Location} {name : Bytes} {node : Node}
    (hchild : (name, node) ∈ t.children directory) :
    t.node? (directory ++ [name]) = some node ∧ Path.IsProper name ∧
      name.length ≤ nameLimit := by
  have hnode := h.mem_children_iff.1 hchild
  have hentry := h.mem_entries_iff.2 ⟨by simp, hnode⟩
  exact ⟨hnode, h.proper _ hentry name (by simp)⟩

/-- A directory lists every name once. -/
theorem WellFormed.nodup_children (directory : Location) :
    ((t.children directory).map Prod.fst).Nodup := by
  have hlocations := h.nodup
  rw [List.Nodup, List.pairwise_map] at hlocations ⊢
  rw [children, List.pairwise_filterMap]
  refine hlocations.imp fun hne => ?_
  rintro ⟨name, node⟩ hchild ⟨name', node'⟩ hchild'
  obtain rfl := childOf?_eq_some_iff.1 hchild
  obtain rfl := childOf?_eq_some_iff.1 hchild'
  rintro rfl
  exact hne rfl

end WellFormed

/-! ### Following names -/

/-- A name can be followed only from a directory. -/
theorem follow_eq_ok {t : FileTree} {here there : Location} {name : Bytes}
    (h : t.follow here name = .ok there) :
    t.node? here = some .directory ∧
      (there = here ∧ Path.staysPut name ∨ there = here.dropLast ∧ name = Path.above ∨
        there = here ++ [name] ∧ ¬ Path.staysPut name ∧ name ≠ Path.above) := by
  unfold follow at h
  split at h
  · simp at h
  · rename_i hnode
    refine ⟨hnode, ?_⟩
    split_ifs at h with hstays hdots hsize
    · exact .inl ⟨(Except.ok.inj h).symm, hstays⟩
    · exact .inr (.inl ⟨(Except.ok.inj h).symm, hdots⟩)
    · exact .inr (.inr ⟨(Except.ok.inj h).symm, hstays, hdots⟩)
  · simp at h

theorem follow_of_isProper {t : FileTree} {here : Location} {name : Bytes}
    (hnode : t.node? here = some .directory) (hname : Path.IsProper name)
    (hsize : name.length ≤ nameLimit) : t.follow here name = .ok (here ++ [name]) := by
  have hdots : name ≠ Path.above := hname.2.2.2
  simp [follow, hnode, hname.staysPut, hdots, Nat.not_lt.2 hsize]

/-- The last of several names is followed from where the others lead. -/
theorem foldlM_follow_append_eq_ok {t : FileTree} {here there : Location} {before : List Bytes}
    {name : Bytes} :
    (before ++ [name]).foldlM t.follow here = .ok there ↔
      ∃ between, before.foldlM t.follow here = .ok between ∧ t.follow between name = .ok there := by
  simp only [List.foldlM_append, List.foldlM_cons, List.foldlM_nil, bind_pure, bind_eq_ok_iff]

/-! ### Paths that are refused -/

theorem ne_empty_of_refusal? {path : Bytes} (h : refusal? path = none) : path ≠ [] := by
  rintro rfl
  simp [refusal?] at h

/-- A path that goes on is refused only for what is added or for its length. -/
theorem refusal?_append_eq_none_iff {path : Bytes} (h : refusal? path = none)
    (rest : Bytes) :
    refusal? (path ++ rest) = none ↔
      0 ∉ rest ∧ (path ++ rest).length ≤ pathLimit := by
  have hpath : 0 ∉ path := by
    unfold refusal? at h
    split_ifs at h with hnull
    simpa using hnull
  have hnull : (path ++ rest).contains 0 ↔ 0 ∈ rest := by
    simp [hpath]
  have hempty : path ++ rest ≠ [] := by simp [ne_empty_of_refusal? h]
  unfold refusal?
  split_ifs <;> simp_all

theorem refusal?_join_eq_none_iff {path : Bytes} (h : refusal? path = none)
    (name : Bytes) :
    refusal? (Path.join path name) = none ↔
      0 ∉ name ∧ (Path.join path name).length ≤ pathLimit := by
  unfold Path.join
  split_ifs
  · exact refusal?_append_eq_none_iff h name
  · have hne : (0 : UInt8) ≠ Path.slash := by decide
    rw [refusal?_append_eq_none_iff h]
    simp [hne]

/-! ### Where a path leads -/

/-- A path leads through directories to a name in one of them. -/
def Names (t : FileTree) (path : Bytes) (directory : Location) (name : Bytes) : Prop :=
  ∃ before, Path.parts path = before ++ [name] ∧
    before.foldlM t.follow (t.origin path) = .ok directory ∧ t.node? directory = some .directory

theorem Names.unique {t : FileTree} {path name name' : Bytes} {directory directory' : Location}
    (h : t.Names path directory name) (h' : t.Names path directory' name') :
    directory = directory' ∧ name = name' := by
  obtain ⟨before, hparts, hfollow, -⟩ := h
  obtain ⟨before', hparts', hfollow', -⟩ := h'
  obtain ⟨rfl, hlast⟩ := List.append_inj' (hparts.symm.trans hparts') rfl
  rw [hfollow] at hfollow'
  exact ⟨Except.ok.inj hfollow', List.singleton_inj.1 hlast⟩

/-- A path that is not refused is followed to what it leads to. -/
theorem resolve_eq_ok_iff {t : FileTree} {path : Bytes} {location : Location} {node : Node} :
    t.resolve path = .ok (location, node) ↔
      refusal? path = none ∧ (Path.parts path).foldlM t.follow (t.origin path) = .ok location ∧
        t.node? location = some node := by
  unfold resolve
  cases refusal? path with
  | some error => simp
  | none =>
    simp only [bind_eq_ok_iff, true_and]
    constructor
    · rintro ⟨there, hfollow, hfound⟩
      cases hnode : t.node? there with
      | none => simp [hnode] at hfound
      | some node' =>
        simp only [hnode, Except.ok.injEq, Prod.mk.injEq] at hfound
        obtain ⟨rfl, rfl⟩ := hfound
        exact ⟨hfollow, hnode⟩
    · rintro ⟨hfollow, hnode⟩
      exact ⟨location, hfollow, by rw [hnode]⟩

theorem resolve_of_names {t : FileTree} {path name : Bytes} {directory : Location} {node : Node}
    (h : t.Names path directory name) (hrefusal : refusal? path = none) (hname : Path.IsProper name)
    (hsize : name.length ≤ nameLimit) (hnode : t.node? (directory ++ [name]) = some node) :
    t.resolve path = .ok (directory ++ [name], node) := by
  obtain ⟨before, hparts, hbefore, hdirectory⟩ := h
  rw [resolve_eq_ok_iff, hparts, foldlM_follow_append_eq_ok]
  exact ⟨hrefusal, ⟨directory, hbefore, follow_of_isProper hdirectory hname hsize⟩, hnode⟩

/-- **A path that leads to a file** ends with the name of the file. -/
theorem exists_names_of_file {t : FileTree} (ht : t.WellFormed) {path : Bytes}
    {location : Location} {contents : Bytes}
    (h : t.resolve path = .ok (location, .file contents)) :
    ∃ directory name, t.Names path directory name ∧ Path.IsProper name ∧
      location = directory ++ [name] := by
  obtain ⟨before, name, rfl, hslashes, hslash⟩ := Path.exists_ofNames path
  have hparts := Path.parts_ofNames hslashes hslash
  obtain ⟨-, hfollow, hnode⟩ := resolve_eq_ok_iff.1 h
  rw [hparts, foldlM_follow_append_eq_ok] at hfollow
  obtain ⟨directory, hbefore, hlast⟩ := hfollow
  obtain ⟨hdirectory, ⟨rfl, -⟩ | ⟨rfl, -⟩ | ⟨rfl, hstays, hdots⟩⟩ := follow_eq_ok hlast
  · -- The name stays in the directory, which is no file.
    simp [hdirectory] at hnode
  · simp [ht.node?_dropLast hdirectory] at hnode
  · refine ⟨directory, name, ⟨before, hparts, hbefore, hdirectory⟩, ⟨hslash, ?_, ?_, hdots⟩, rfl⟩
    · rintro rfl
      exact hstays rfl
    · rintro rfl
      exact hstays rfl

/-- **A path with another last name** leads to that name in the same directory. -/
theorem Names.sibling {t : FileTree} {before : List Bytes} {name other : Bytes}
    {directory : Location} (h : t.Names (Path.ofNames before name) directory name)
    (hslashes : ∀ part ∈ before, Path.slash ∉ part) (hname : Path.slash ∉ name)
    (hother : Path.slash ∉ other) : t.Names (Path.ofNames before other) directory other := by
  obtain ⟨before', hparts, hbefore, hdirectory⟩ := h
  rw [Path.parts_ofNames hslashes hname] at hparts
  obtain rfl := List.append_cancel_right hparts
  refine ⟨before, Path.parts_ofNames hslashes hother, ?_, hdirectory⟩
  rw [origin, Path.isAbsolute_ofNames hslashes hother, ← Path.isAbsolute_ofNames hslashes hname]
  exact hbefore

/-- **A joined path** leads to the name in the directory that the path leads to. -/
theorem names_join {t : FileTree} {path name : Bytes} {directory : Location}
    (h : t.resolve path = .ok (directory, .directory)) (hname : Path.slash ∉ name) :
    t.Names (Path.join path name) directory name := by
  obtain ⟨hrefusal, hfollow, hdirectory⟩ := resolve_eq_ok_iff.1 h
  have hpath := ne_empty_of_refusal? hrefusal
  obtain ⟨before, hjoin, hparts⟩ := Path.parts_join hpath hname
  have horigin : t.origin (Path.join path name) = t.origin path := by
    rw [origin, origin, Path.isAbsolute_join hpath]
  refine ⟨before, hjoin, ?_, hdirectory⟩
  rw [horigin]
  rcases hparts with hparts | hparts
  · rwa [hparts] at hfollow
  · -- An empty name at the end of the path stays in the directory.
    rw [hparts, foldlM_follow_append_eq_ok] at hfollow
    obtain ⟨between, hbetween, hlast⟩ := hfollow
    obtain ⟨-, ⟨rfl, -⟩ | ⟨-, hdots⟩ | ⟨-, hstays, -⟩⟩ := follow_eq_ok hlast
    · exact hbetween
    · exact absurd hdots (by decide)
    · exact absurd rfl hstays

/-- **A slash at the end of the path to a directory** changes nothing, as long as the path is not
    too long. -/
theorem resolve_append_slash {t : FileTree} {path : Bytes} {directory : Location}
    (h : t.resolve path = .ok (directory, .directory)) (hsize : path.length < pathLimit) :
    t.resolve (path ++ [Path.slash]) = .ok (directory, .directory) := by
  obtain ⟨hrefusal, hfollow, hnode⟩ := resolve_eq_ok_iff.1 h
  have horigin : t.origin (path ++ [Path.slash]) = t.origin path := by
    rw [origin, origin, Path.isAbsolute_append (ne_empty_of_refusal? hrefusal)]
  rw [resolve_eq_ok_iff, Path.parts_append_slash_empty, foldlM_follow_append_eq_ok, horigin]
  refine ⟨?_, ⟨directory, hfollow, ?_⟩, hnode⟩
  · rw [refusal?_append_eq_none_iff hrefusal, List.length_append]
    exact ⟨by decide, hsize⟩
  · simp [follow, hnode, Path.staysPut]

/-- Only a path with a last name can be written. -/
theorem openForWriting_ne_ok {t : FileTree} {before : List Bytes} {location : Location} :
    t.openForWriting (Path.ofNames before []) ≠ .ok location := by
  intro h
  unfold openForWriting at h
  split at h
  · simp at h
  · rename_i hrefusal
    have hpath := ne_empty_of_refusal? hrefusal
    split at h
    · simp at h
    · obtain ⟨parent, -, hparent⟩ := bind_eq_ok_iff.1 h
      simp only [Path.getLast?_ofNames_empty hpath, true_or, if_true] at hparent
      split at hparent <;> simp at hparent

/-- **What can be written**: a file, or nothing yet, under a name in a directory. -/
theorem openForWriting_eq_ok_iff {t : FileTree} {path : Bytes} {location : Location} :
    t.openForWriting path = .ok location ↔
      refusal? path = none ∧ t.node? location ≠ some .directory ∧
        ∃ directory name, t.Names path directory name ∧ Path.IsProper name ∧
          name.length ≤ nameLimit ∧ location = directory ++ [name] := by
  obtain ⟨before, name, rfl, hslashes, hslash⟩ := Path.exists_ofNames path
  have hparts := Path.parts_ofNames hslashes hslash
  by_cases hempty : name = []
  · subst hempty
    refine iff_of_false openForWriting_ne_ok ?_
    rintro ⟨-, -, directory, name, ⟨before', hparts', -, -⟩, hname, -, -⟩
    have hlast : name = [] := by
      have := congrArg List.getLast? (hparts.symm.trans hparts')
      simpa using this.symm
    exact hname.2.1 hlast
  · have hdrop : (Path.parts (Path.ofNames before name)).reverse.dropWhile (· == []) =
        name :: before.reverse := by
      rw [hparts]
      simp [hempty]
    have hends := @Path.getLast?_ofNames before name hslash hempty
    unfold openForWriting
    cases refusal? (Path.ofNames before name) with
    | some error => simp
    | none =>
      simp only [hdrop, bind_eq_ok_iff, List.reverse_reverse, true_and]
      constructor
      · rintro ⟨directory, hbefore, hopen⟩
        split at hopen
        · simp at hopen
        · rename_i hdirectory
          split_ifs at hopen with hdots hsize hnode
          obtain rfl := Except.ok.inj hopen
          rw [not_or, not_or] at hdots
          exact ⟨hnode, directory, name, ⟨before, hparts, hbefore, hdirectory⟩,
            ⟨hslash, hempty, hdots.2⟩, Nat.le_of_not_lt hsize, rfl⟩
        · simp at hopen
      · rintro ⟨hnode, directory, name', ⟨before', hparts', hbefore, hdirectory⟩, hname, hsize, rfl⟩
        obtain ⟨rfl, hlast⟩ := List.append_inj' (hparts.symm.trans hparts') rfl
        obtain rfl := List.singleton_inj.1 hlast
        refine ⟨directory, hbefore, ?_⟩
        have hdots : ¬ ((Path.ofNames before name).getLast? = some Path.slash ∨ name = [Path.dot] ∨
            name = Path.above) := by
          rw [not_or, not_or]
          exact ⟨hends, hname.2.2⟩
        simp only [hdirectory, if_neg hdots, if_neg (Nat.not_lt.2 hsize), if_neg hnode]

theorem ne_directory_of_openForWriting {t : FileTree} {path : Bytes} {location : Location}
    (h : t.openForWriting path = .ok location) : t.node? location ≠ some .directory :=
  (openForWriting_eq_ok_iff.1 h).2.1

/-! ### Entries in another order -/

/-- Two trees with the same entries, in whatever order. -/
structure Relisted (t t' : FileTree) : Prop where
  /-- The entries are the same. -/
  entries : t.entries.Perm t'.entries
  /-- Paths begin at the same place. -/
  workingDirectory : t.workingDirectory = t'.workingDirectory

section Relisted

variable {t t' : FileTree} (h : t.Relisted t') (ht : t.WellFormed)

include h

theorem Relisted.children (directory : Location) :
    (t.children directory).Perm (t'.children directory) :=
  h.entries.filterMap _

include ht

/-- **The order of the entries does not matter** to what is found at a location. -/
theorem Relisted.node?_eq : t.node? = t'.node? := by
  funext location
  have hnodup' : (t'.entries.map Prod.fst).Nodup := (h.entries.map _).nodup_iff.1 ht.nodup
  have hlookup : t.entries.lookup location = t'.entries.lookup location := by
    apply Option.ext
    intro node
    rw [lookup_eq_some_iff_mem ht.nodup, lookup_eq_some_iff_mem hnodup', h.entries.mem_iff]
  rw [node?, node?, hlookup]

theorem Relisted.follow_eq : t.follow = t'.follow := by
  funext here name
  rw [follow, follow, h.node?_eq ht]

/-- The order of the entries does not matter to where a path leads. -/
theorem Relisted.resolve_eq : t.resolve = t'.resolve := by
  funext path
  rw [resolve, resolve, origin, origin, h.follow_eq ht, h.workingDirectory, h.node?_eq ht]

end Relisted

end FileTree

end HackVM.Files
