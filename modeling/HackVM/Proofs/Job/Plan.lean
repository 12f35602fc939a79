import HackVM.Job.Plan
import HackVM.Proofs.Files.Canonical

namespace HackVM.Job

open Files
open Text (Bytes)

/-!
# Plans and the files they name

A plan reads files with one extension and writes a file with another in the same directory.  So it
never writes what it reads, and the plan stays the same once the output is written.

* `IsSourceName` — the names that sources have;
* `mem_sourcesIn_iff` — which names a directory lists;
* `Plan.LiesIn` — where the sources and the output of a plan are, and `Plan.liesIn_ofPath` — every
  plan is of this kind;
* `Plan.LiesIn.ne_output` and `Plan.LiesIn.output_not_mem` — the output is none of the sources, by
  its place and by its path;
* `sourcesIn_put` and `Plan.ofPath_write` — the plan for a path is the same after the output was
  written.
-/

/-! ### Names with an extension -/

theorem extension?_of_isProper {name : Bytes} (h : Path.IsProper name) :
    Path.extension? name = (Path.splitName name).2 := by
  have htext : name = Path.ofNames [] name := by simp [Path.ofNames]
  rw [htext, Path.extension?_ofNames (by simp) h, ← htext]

/-- A name is that of a source by its extension. -/
def IsSourceName (name : Bytes) : Prop :=
  (Path.splitName name).2 = some sourceExtension

instance (name : Bytes) : Decidable (IsSourceName name) :=
  inferInstanceAs (Decidable (_ = _))

theorem IsSourceName.exists_stem {name : Bytes} (h : IsSourceName name) :
    ∃ stem, name = stem ++ Path.dot :: sourceExtension ∧ stem ≠ [] :=
  ⟨_, Path.eq_append_of_splitName (Prod.ext rfl h)⟩

theorem not_isSourceName_output {stem : Bytes} (h : stem ≠ []) :
    ¬ IsSourceName (stem ++ Path.dot :: outputExtension) := by
  have hne : outputExtension ≠ sourceExtension := by decide
  rw [IsSourceName, Path.splitName_append h (by decide)]
  simp [hne]

theorem slash_not_mem_output {stem : Bytes} (h : Path.slash ∉ stem) :
    Path.slash ∉ stem ++ Path.dot :: outputExtension := by
  have hrest : Path.slash ∉ Path.dot :: outputExtension := by decide
  exact fun hmem => (List.mem_append.1 hmem).elim h hrest

/-! ### Where the files of a plan are -/

/-- The files of a plan are in a directory: the sources under names of sources, and the output under
    a name that is not one. -/
structure Plan.LiesIn (plan : Plan) (t : FileTree) (directory : Location) : Prop where
  /-- Every source is a file in the directory. -/
  sources : ∀ path ∈ plan.input.files, ∃ name contents, t.Names path directory name ∧
    Path.IsProper name ∧ IsSourceName name ∧
    t.resolve path = .ok (directory ++ [name], .file contents)
  /-- The output has another name in the directory. -/
  output : ∃ name, t.Names plan.output directory name ∧ ¬ IsSourceName name

/-- The plan for a source. -/
theorem Plan.liesIn_ofFile {t : FileTree} (ht : t.WellFormed) {path : Bytes} {location : Location}
    {contents : Bytes} (hresolve : t.resolve path = .ok (location, .file contents))
    {plan : Plan} (h : Plan.ofFile path = .ok plan) : ∃ directory, plan.LiesIn t directory := by
  obtain ⟨directory, name, hnames, hproper, rfl⟩ := FileTree.exists_names_of_file ht hresolve
  obtain ⟨before, hparts, -, -⟩ := id hnames
  obtain ⟨rfl, hslashes, hslash⟩ := Path.parts_eq_append_iff.1 hparts
  rw [Plan.ofFile, Path.extension?_ofNames hslashes hproper] at h
  split_ifs at h with hsource
  obtain rfl := Except.ok.inj h
  refine ⟨directory, ?_, ?_⟩
  · intro path hpath
    obtain rfl := List.mem_singleton.1 hpath
    exact ⟨name, contents, hnames, hproper, hsource, hresolve⟩
  · -- The output has the stem of the source, or is the directory above.
    obtain ⟨stem, rfl, hstem⟩ := IsSourceName.exists_stem hsource
    have hslash' : Path.slash ∉ stem := by
      intro hmem
      exact hslash (by simp [hmem])
    have houtput : ∀ other, Path.slash ∉ other →
        t.Names (Path.ofNames before other) directory other :=
      fun other hother => hnames.sibling hslashes hslash hother
    rw [Path.withExtension_ofNames hslashes hstem hslash' (by decide) (by decide) (by decide)]
    split_ifs with hlost
    · exact ⟨Path.above, houtput Path.above (by decide), by decide⟩
    · exact ⟨_, houtput _ (slash_not_mem_output hslash'), not_isSourceName_output hstem⟩

/-- **The sources of a directory** are the files in it that have a name of sources and a path that
    is not refused. -/
theorem mem_sourcesIn_iff {t : FileTree} (ht : t.WellFormed) {path : Bytes} {directory : Location}
    {name : Bytes} :
    name ∈ sourcesIn t path directory ↔
      IsSourceName name ∧ FileTree.refusal? (Path.join path name) = none ∧
        ∃ contents, t.node? (directory ++ [name]) = some (.file contents) := by
  have hsource : ∀ {contents}, (name, Node.file contents) ∈ t.children directory →
      (isSource path (name, .file contents) ↔
        IsSourceName name ∧ FileTree.refusal? (Path.join path name) = none) := by
    intro contents hchild
    obtain ⟨-, hproper, -⟩ := ht.node?_of_mem_children hchild
    simp [isSource, extension?_of_isProper hproper, IsSourceName]
  rw [sourcesIn, List.mem_mergeSort, List.mem_map]
  constructor
  · rintro ⟨⟨name, node⟩, hmem, rfl⟩
    obtain ⟨hchild, hlisted⟩ := List.mem_filter.1 hmem
    cases node with
    | directory | device => simp [isSource] at hlisted
    | file contents =>
      obtain ⟨hname, hrefusal⟩ := (hsource hchild).1 hlisted
      exact ⟨hname, hrefusal, contents, ht.mem_children_iff.1 hchild⟩
  · rintro ⟨hname, hrefusal, contents, hnode⟩
    have hchild := ht.mem_children_iff.2 hnode
    exact ⟨_, List.mem_filter.2 ⟨hchild, (hsource hchild).2 ⟨hname, hrefusal⟩⟩, rfl⟩

/-- Sources that the directory already lists in order are listed as they are. -/
theorem sourcesIn_of_sorted {t : FileTree} {path : Bytes} {directory : Location}
    {names : List Bytes}
    (hnames : ((t.children directory).filter (isSource path)).map Prod.fst = names)
    (hsorted : names.Pairwise fun a b => decide (a ≤ b)) : sourcesIn t path directory = names := by
  rw [sourcesIn, hnames]
  exact List.mergeSort_of_pairwise hsorted

/-- The sources that a directory lists are found at their paths. -/
theorem mem_sourcesIn {t : FileTree} (ht : t.WellFormed) {path : Bytes} {directory : Location}
    (hresolve : t.resolve path = .ok (directory, .directory)) {name : Bytes}
    (h : name ∈ sourcesIn t path directory) :
    ∃ contents, t.Names (Path.join path name) directory name ∧ Path.IsProper name ∧
      IsSourceName name ∧
      t.resolve (Path.join path name) = .ok (directory ++ [name], .file contents) := by
  obtain ⟨hsource, hrefusal, contents, hnode⟩ := (mem_sourcesIn_iff ht).1 h
  obtain ⟨-, hproper, hsize⟩ := ht.node?_of_mem_children (ht.mem_children_iff.2 hnode)
  have hnames := FileTree.names_join hresolve hproper.1
  exact ⟨contents, hnames, hproper, hsource,
    FileTree.resolve_of_names hnames hrefusal hproper hsize hnode⟩

/-- The plan for a directory. -/
theorem Plan.liesIn_ofDirectory {t : FileTree} (ht : t.WellFormed) {path : Bytes}
    {directory : Location} (hresolve : t.resolve path = .ok (directory, .directory)) {plan : Plan}
    (h : Plan.ofDirectory t path directory = .ok plan) : plan.LiesIn t directory := by
  unfold Plan.ofDirectory at h
  simp only at h
  split_ifs at h with hnone
  split at h
  · simp at h
  rename_i location hcanonical
  obtain rfl := FileTree.eq_of_canonicalize hresolve hcanonical
  split at h
  · simp at h
  · rename_i last hlast
    obtain rfl := Except.ok.inj h
    refine ⟨?_, ?_⟩
    · intro file hfile
      obtain ⟨name, hname, rfl⟩ := List.mem_map.1 hfile
      exact ⟨name, mem_sourcesIn ht hresolve hname⟩
    · -- The output has the name of the directory.
      have hroot : location ≠ [] := by
        rintro rfl
        simp at hlast
      have hentry := ht.mem_entries_iff.2 ⟨hroot, (FileTree.resolve_eq_ok_iff.1 hresolve).2.2⟩
      obtain ⟨⟨hslash, hempty, -⟩, -⟩ := ht.proper _ hentry last (List.mem_of_getLast? hlast)
      exact ⟨_, FileTree.names_join hresolve (slash_not_mem_output hslash),
        not_isSourceName_output hempty⟩

/-- **Where the files of a plan are**: all in one directory. -/
theorem Plan.liesIn_ofPath {t : FileTree} (ht : t.WellFormed) {path : Bytes} {plan : Plan}
    (h : Plan.ofPath t path = .ok plan) : ∃ directory, plan.LiesIn t directory := by
  unfold Plan.ofPath at h
  split at h
  · simp at h
  · rename_i hresolve
    exact Plan.liesIn_ofFile ht hresolve h
  · rename_i hresolve
    exact ⟨_, Plan.liesIn_ofDirectory ht hresolve h⟩
  · simp at h

/-! ### The output -/

section Output

variable {t : FileTree} {plan : Plan} {directory : Location} (h : plan.LiesIn t directory)

include h

/-- The output is under its own name in the directory. -/
theorem Plan.LiesIn.output_eq {output : Location}
    (hopen : t.openForWriting plan.output = .ok output) :
    ∃ name, output = directory ++ [name] ∧ Path.IsProper name ∧ ¬ IsSourceName name := by
  obtain ⟨-, -, directory', name', hnames', hproper, -, rfl⟩ :=
    FileTree.openForWriting_eq_ok_iff.1 hopen
  obtain ⟨name, hnames, hsource⟩ := h.output
  obtain ⟨rfl, rfl⟩ := hnames.unique hnames'
  exact ⟨name, rfl, hproper, hsource⟩

/-- **A plan does not write what it reads.** -/
theorem Plan.LiesIn.ne_output {output : Location}
    (hopen : t.openForWriting plan.output = .ok output) {path : Bytes}
    (hpath : path ∈ plan.input.files) {location : Location} {node : Node}
    (hresolve : t.resolve path = .ok (location, node)) : location ≠ output := by
  obtain ⟨name, contents, -, -, hsource, hresolve'⟩ := h.sources path hpath
  obtain ⟨other, rfl, -, hother⟩ := h.output_eq hopen
  rw [hresolve'] at hresolve
  obtain ⟨rfl, -⟩ := Prod.mk.inj (Except.ok.inj hresolve)
  intro heq
  obtain rfl : name = other := by simpa using heq
  exact hother hsource

theorem Plan.LiesIn.output_not_mem : plan.output ∉ plan.input.files := by
  intro hmem
  obtain ⟨name, -, hnames, -, hsource, -⟩ := h.sources _ hmem
  obtain ⟨other, hnames', hother⟩ := h.output
  obtain ⟨-, rfl⟩ := hnames.unique hnames'
  exact hother hsource

end Output

/-! ### Plans after the output was written -/

/-- An entry whose name is not that of a source is not a source of any directory. -/
theorem filter_isSource_childOf? {path : Bytes} {directory parent : Location} {name : Bytes}
    (hproper : Path.IsProper name) (hsource : ¬ IsSourceName name) (node : Node) :
    (FileTree.childOf? directory (parent ++ [name], node)).filter (isSource path) = none := by
  have hnot : isSource path (name, node) = false := by
    cases node with
    | directory | device => rfl
    | file contents =>
      have hextension : Path.extension? name ≠ some sourceExtension := by
        rwa [extension?_of_isProper hproper]
      simp [isSource, hextension]
  unfold FileTree.childOf?
  simp only [List.getLast?_concat, List.dropLast_concat]
  split <;> simp [hnot]

/-- A file that is no source does not matter to the sources of a directory. -/
theorem sourcesIn_put (t : FileTree) (path : Bytes) (directory : Location) {parent : Location}
    {name : Bytes} (hproper : Path.IsProper name) (hsource : ¬ IsSourceName name) (node : Node) :
    sourcesIn (t.put (parent ++ [name]) node) path directory = sourcesIn t path directory := by
  have hnone := fun node =>
    @filter_isSource_childOf? path directory parent name hproper hsource node
  have hchildren : ((t.put (parent ++ [name]) node).children directory).filter (isSource path) =
      (t.children directory).filter (isSource path) := by
    unfold FileTree.children FileTree.put
    rw [List.filter_filterMap, List.filter_filterMap, List.filterMap_cons, hnone node]
    simp only [List.filterMap_filter]
    -- The entries that were taken out are no sources either.
    apply List.filterMap_congr
    rintro ⟨location, other⟩ -
    by_cases hlocation : location = parent ++ [name]
    · subst hlocation
      simp [hnone other]
    · simp [hlocation]
  rw [sourcesIn, sourcesIn, hchildren]

/-- **The plan stays the same after the output was written.** -/
theorem Plan.ofPath_write {t : FileTree} (ht : t.WellFormed) {path : Bytes} {plan : Plan}
    (h : Plan.ofPath t path = .ok plan) {output : Location}
    (hopen : t.openForWriting plan.output = .ok output) (contents : Bytes) :
    Plan.ofPath (t.write output contents) path = .ok plan := by
  have hfile := FileTree.ne_directory_of_openForWriting hopen
  obtain ⟨directory, hlies⟩ := Plan.liesIn_ofPath ht h
  unfold Plan.ofPath at h
  split at h
  · simp at h
  · rename_i location bytes hresolve
    have hpath : path ∈ plan.input.files := by
      simp only [Plan.ofFile] at h
      split_ifs at h
      rw [← Except.ok.inj h]
      exact List.mem_singleton_self path
    have hne : location ≠ output := hlies.ne_output hopen hpath hresolve
    rw [Plan.ofPath, FileTree.resolve_write hfile hresolve hne]
    exact h
  · rename_i directory' hresolve
    have hne : directory' ≠ output := by
      rintro rfl
      exact hfile (FileTree.resolve_eq_ok_iff.1 hresolve).2.2
    have hsources : sourcesIn (t.write output contents) path directory' =
        sourcesIn t path directory' := by
      by_cases hdevice : t.node? output = some .device
      · rw [FileTree.write_of_device hdevice]
      · obtain ⟨name, rfl, hproper, hsource⟩ := hlies.output_eq hopen
        rw [FileTree.write_of_ne_device hdevice, sourcesIn_put t path directory' hproper hsource]
    rw [Plan.ofPath, FileTree.resolve_write hfile hresolve hne]
    simp only [Plan.ofDirectory, hsources, FileTree.canonicalize_write hresolve hfile]
    exact h
  · simp at h

end HackVM.Job
