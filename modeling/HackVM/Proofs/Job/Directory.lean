import HackVM.Proofs.Job.Plan

namespace HackVM.Job

open Files
open Text (Bytes)

/-!
# The sources of a directory

A directory is read whole: its sources are all the files in it that have the extension of sources
and a path that is not too long.  They are sorted by name, so that the order in which the directory
lists its entries does not show.

* `pairwise_sourcesIn` — sources are listed in byte order, each once;
* `sourcesIn_relisted` and `Plan.ofPath_relisted` — whatever the order of the entries is;
* `stem?_join` and `nodup_stems` — no two sources have the same stem;
* `directory_plan_lists_sources` — the plan for a directory.
-/

/-! ### Their order -/

theorem pairwise_le_sourcesIn (t : FileTree) (path : Bytes) (directory : Location) :
    (sourcesIn t path directory).Pairwise (· ≤ ·) := by
  have htrans : ∀ a b c : Bytes, decide (a ≤ b) → decide (b ≤ c) → decide (a ≤ c) := by
    intro a b c hab hbc
    rw [decide_eq_true_eq] at hab hbc ⊢
    exact List.le_trans hab hbc
  have htotal : ∀ a b : Bytes, decide (a ≤ b) || decide (b ≤ a) := by
    intro a b
    rw [Bool.or_eq_true, decide_eq_true_eq, decide_eq_true_eq]
    exact List.le_total a b
  exact (List.pairwise_mergeSort htrans htotal _).imp of_decide_eq_true

/-- **Sources are listed in byte order**, each once. -/
theorem pairwise_sourcesIn {t : FileTree} (ht : t.WellFormed) (path : Bytes)
    (directory : Location) : (sourcesIn t path directory).Pairwise (· < ·) := by
  have hnodup : (sourcesIn t path directory).Nodup := by
    rw [sourcesIn, (List.mergeSort_perm ..).nodup_iff]
    exact (ht.nodup_children directory).sublist (List.filter_sublist.map _)
  apply ((pairwise_le_sourcesIn t path directory).and hnodup).imp
  intro a b h
  exact Std.lt_of_le_of_ne h.1 h.2

/-- The order of the entries does not matter to the sources of a directory. -/
theorem sourcesIn_relisted {t t' : FileTree} (h : t.Relisted t') (path : Bytes)
    (directory : Location) : sourcesIn t path directory = sourcesIn t' path directory := by
  apply List.Perm.eq_of_pairwise (fun _ _ _ _ => List.le_antisymm)
    (pairwise_le_sourcesIn t path directory) (pairwise_le_sourcesIn t' path directory)
  refine (List.mergeSort_perm ..).trans (.trans ?_ (List.mergeSort_perm ..).symm)
  exact ((h.children directory).filter _).map _

/-- **The order of the entries does not matter to plans.** -/
theorem Plan.ofPath_relisted {t t' : FileTree} (ht : t.WellFormed) (h : t.Relisted t')
    (path : Bytes) : Plan.ofPath t path = Plan.ofPath t' path := by
  simp only [Plan.ofPath, Plan.ofDirectory, h.resolve_eq ht, h.canonicalize_eq ht,
    sourcesIn_relisted h]

/-! ### Their stems -/

theorem stem?_join {path name : Bytes} (hpath : path ≠ []) (hname : Path.IsProper name) :
    Path.stem? (Path.join path name) = some (Path.splitName name).1 := by
  obtain ⟨before, hparts, -⟩ := Path.parts_join hpath hname.1
  obtain ⟨hjoin, hslashes, -⟩ := Path.parts_eq_append_iff.1 hparts
  rw [hjoin, Path.stem?_ofNames hslashes hname]

/-- The name of a source is its stem with the extension. -/
theorem IsSourceName.eq_append {name : Bytes} (h : IsSourceName name) :
    name = (Path.splitName name).1 ++ Text.encode ".vm" :=
  (Path.eq_append_of_splitName (Prod.ext rfl h)).1

theorem isSourceName_iff {name : Bytes} :
    IsSourceName name ↔ ∃ stem, stem ≠ [] ∧ name = stem ++ Text.encode ".vm" := by
  constructor
  · intro h
    obtain ⟨stem, hname, hstem⟩ := h.exists_stem
    exact ⟨stem, hstem, hname⟩
  · rintro ⟨stem, hstem, rfl⟩
    have hsplit := Path.splitName_append hstem (show Path.dot ∉ sourceExtension by decide)
    exact congrArg Prod.snd hsplit

/-- Sources with different names have different stems. -/
theorem nodup_stems {names : List Bytes} (h : names.Nodup)
    (hsource : ∀ name ∈ names, IsSourceName name) :
    (names.map fun name => (Path.splitName name).1).Nodup := by
  rw [List.Nodup, List.pairwise_map]
  refine h.imp_of_mem fun hname hname' hne hstem => hne ?_
  rw [(hsource _ hname).eq_append, (hsource _ hname').eq_append, hstem]

/-! ### Plans for directories -/

/-- **One plan or one of two errors**: there are no sources, or the path becomes too long when it is
    written out from the root. -/
theorem Plan.ofPath_directory {t : FileTree} {path : Bytes} {parent : Location} {last : Bytes}
    (hresolve : t.resolve path = .ok (parent ++ [last], .directory))
    [Decidable (t.Spellable path)] :
    Plan.ofPath t path =
      if sourcesIn t path (parent ++ [last]) = [] then .error (.noSources path)
      else if t.Spellable path then
        .ok { input := .directory path ((sourcesIn t path (parent ++ [last])).map (Path.join path))
              output := Path.join path (last ++ Text.encode ".asm") }
      else .error (.access path (.system .nameTooLong)) := by
  obtain ⟨hshort, hlong⟩ := FileTree.canonicalize_cases hresolve
  rw [Plan.ofPath, hresolve]
  simp only [Plan.ofDirectory]
  split_ifs with hnone hspell
  · rfl
  · rw [hshort hspell]
    simp only [List.getLast?_concat]
    rfl
  · rw [hlong hspell]

/-- **The plan for a directory lists its sources**, whatever the order of the entries is.  They are
    the files in the directory that have a stem and the extension of sources, and the path of which
    is not too long; they are in byte order, each once, and all their stems are different.  Without
    any there is no plan.  The output has the name of the directory, unless the path becomes too
    long when it is written out from the root. -/
theorem directory_plan_lists_sources {t : FileTree} (ht : t.WellFormed) {path : Bytes}
    {parent : Location} {last : Bytes}
    (hresolve : t.resolve path = .ok (parent ++ [last], .directory)) :
    ∃ names : List Bytes,
      (∀ name, name ∈ names ↔ ∃ stem contents, stem ≠ [] ∧ name = stem ++ Text.encode ".vm" ∧
        t.node? (parent ++ [last, name]) = some (.file contents) ∧ 0 ∉ name ∧
        (Path.join path name).length ≤ FileTree.pathLimit) ∧
      names.Pairwise (· < ·) ∧
      (∃ stems : List Bytes, stems.Nodup ∧
        (names.map (Path.join path)).map Path.stem? = stems.map some) ∧
      (Plan.ofPath t path = .error (.noSources path) ↔ names = []) ∧
      (names ≠ [] → t.Spellable path →
        Plan.ofPath t path = .ok
          { input := .directory path (names.map (Path.join path))
            output := Path.join path (last ++ Text.encode ".asm")
            bootstrap := true
            annotate := false }) ∧
      (names ≠ [] → ¬ t.Spellable path →
        Plan.ofPath t path = .error (.access path (.system .nameTooLong))) ∧
      ∀ t', t.Relisted t' → Plan.ofPath t' path = Plan.ofPath t path := by
  classical
  obtain ⟨hrefusal, -, -⟩ := FileTree.resolve_eq_ok_iff.1 hresolve
  have hplan := Plan.ofPath_directory hresolve
  have hsorted := pairwise_sourcesIn ht path (parent ++ [last])
  refine ⟨sourcesIn t path (parent ++ [last]), fun name => ?_, hsorted, ?_, ?_, ?_, ?_, ?_⟩
  · rw [mem_sourcesIn_iff ht, FileTree.refusal?_join_eq_none_iff hrefusal, isSourceName_iff,
      List.append_assoc]
    constructor
    · rintro ⟨⟨stem, hstem, hname⟩, ⟨hnull, hsize⟩, contents, hnode⟩
      exact ⟨stem, contents, hstem, hname, hnode, hnull, hsize⟩
    · rintro ⟨stem, contents, hstem, hname, hnode, hnull, hsize⟩
      exact ⟨⟨stem, hstem, hname⟩, ⟨hnull, hsize⟩, contents, hnode⟩
  · refine ⟨_, nodup_stems (hsorted.imp ?_) ?_, ?_⟩
    · rintro name _ h rfl
      exact List.lt_irrefl name h
    · exact fun name hname => ((mem_sourcesIn_iff ht).1 hname).1
    · rw [List.map_map, List.map_map]
      apply List.map_congr_left
      intro name hname
      obtain ⟨-, -, hproper, -, -⟩ := mem_sourcesIn ht hresolve hname
      exact stem?_join (FileTree.ne_empty_of_refusal? hrefusal) hproper
  · rw [hplan]
    split_ifs <;> simp_all
  · intro hne hspell
    rw [hplan, if_neg hne, if_pos hspell]
  · intro hne hspell
    rw [hplan, if_neg hne, if_neg hspell]
  · exact fun t' h => (Plan.ofPath_relisted ht h path).symm

/-- A directory with sources, a file without a stem, and a directory that is called like a source
    and has a source in it. -/
def shelf : FileTree where
  entries :=
    [(["p"], .directory),
      (["p", ".vm"], .file []),
      (["p", "B.vm"], .file []),
      (["p", "a.b.vm"], .file []),
      (["p", "a.vm"], .file []),
      (["p", "c.vm"], .directory),
      (["p", "c.vm", "d.vm"], .file [])]
  workingDirectory := []

theorem shelf_plan_lists_sources :
    shelf.WellFormed ∧ shelf.resolve "p/c.vm/.." = .ok (["p"], .directory) ∧
      Plan.ofPath ⟨shelf.entries.reverse, []⟩ "p/c.vm/.." = .ok
        { input := .directory "p/c.vm/.."
            ["p/c.vm/../B.vm", "p/c.vm/../a.b.vm", "p/c.vm/../a.vm"]
          output := "p/c.vm/../p.asm" } := by
  have hwell : shelf.WellFormed := by decide +kernel
  have hresolve : shelf.resolve "p/c.vm/.." = .ok (["p"], .directory) := by decide +kernel
  have hsources : sourcesIn shelf "p/c.vm/.." ["p"] =
      (["B.vm", "a.b.vm", "a.vm"] : List Bytes) :=
    sourcesIn_of_sorted (by decide +kernel) (by decide +kernel)
  obtain ⟨names, -, -, -, -, -, -, hrelisted⟩ :=
    @directory_plan_lists_sources shelf hwell "p/c.vm/.." [] "p" hresolve
  refine ⟨hwell, hresolve, ?_⟩
  have hreverse : shelf.Relisted ⟨shelf.entries.reverse, []⟩ := ⟨(List.reverse_perm _).symm, rfl⟩
  rw [hrelisted _ hreverse, Plan.ofPath, hresolve]
  simp only [Plan.ofDirectory, hsources]
  decide +kernel

/-! ### A source that is left out -/

/-- A path with slashes after it. -/
def withSlashes (path : Bytes) (n : Nat) : Bytes :=
  path ++ List.replicate n Path.slash

theorem withSlashes_succ (path : Bytes) (n : Nat) :
    withSlashes path (n + 1) = withSlashes path n ++ [Path.slash] := by
  rw [withSlashes, withSlashes, List.replicate_succ', List.append_assoc]

theorem length_withSlashes (path : Bytes) (n : Nat) :
    (withSlashes path n).length = path.length + n := by
  rw [withSlashes, List.length_append, List.length_replicate]

theorem resolve_withSlashes {t : FileTree} {path : Bytes} {directory : Location}
    (h : t.resolve path = .ok (directory, .directory)) {n : Nat}
    (hsize : path.length + n ≤ FileTree.pathLimit) :
    t.resolve (withSlashes path n) = .ok (directory, .directory) := by
  induction n with
  | zero => rwa [withSlashes, List.replicate_zero, List.append_nil]
  | succ n ih =>
    rw [withSlashes_succ]
    apply FileTree.resolve_append_slash (ih (by omega))
    rw [length_withSlashes]
    omega

theorem join_withSlashes (path name : Bytes) (n : Nat) :
    Path.join (withSlashes path (n + 1)) name = withSlashes path (n + 1) ++ name := by
  simp [Path.join, withSlashes_succ]

/-- A directory with two sources, one with a short name and one with a longer one. -/
def twoNames : FileTree where
  entries :=
    [(["D"], .directory), (["D", "A.vm"], .file []), (["D", "LongerName.vm"], .file [])]
  workingDirectory := []

/-- The path has 4086 bytes.  There is room for the short name, and the longer one is left out. -/
theorem twoNames_plan_leaves_source_out :
    let path := withSlashes "D" 4085
    twoNames.WellFormed ∧ twoNames.resolve path = .ok (["D"], .directory) ∧
      twoNames.node? ["D", "LongerName.vm"] = some (.file []) ∧
      Plan.ofPath twoNames path = .ok
        { input := .directory path [path ++ Text.encode "A.vm"]
          output := path ++ Text.encode "D.asm" } := by
  intro path
  have hwell : twoNames.WellFormed := by decide +kernel
  have hstart : twoNames.resolve "D" = .ok (["D"], .directory) := by decide +kernel
  have hresolve : twoNames.resolve path = .ok (["D"], .directory) :=
    resolve_withSlashes hstart (by decide)
  have hrefusal := fun name =>
    FileTree.refusal?_join_eq_none_iff (FileTree.resolve_eq_ok_iff.1 hresolve).1 name
  have hjoin : ∀ name, Path.join path name = path ++ name :=
    fun name => join_withSlashes "D" name 4084
  have hlength : path.length = 4086 := length_withSlashes "D" 4085
  have hsize : ∀ name, (Path.join path name).length = 4086 + name.length := by
    intro name
    rw [hjoin, List.length_append, hlength]
  have hspell : twoNames.Spellable path := by
    have horigin : twoNames.origin path = [] := ite_self []
    apply FileTree.spellable_of_size_lt
    rw [horigin, hlength]
    decide
  -- Nothing else is needed of the path.
  clear_value path
  have hshort : isSource path ("A.vm", .file []) = true := by
    have hfound : FileTree.refusal? (Path.join path "A.vm") = none := by
      rw [hrefusal, hsize]
      decide
    rw [isSource, hfound]
    decide +kernel
  have hlong : isSource path ("LongerName.vm", .file []) = false := by
    have hrefused : FileTree.refusal? (Path.join path "LongerName.vm") ≠ none := by
      rw [Ne, hrefusal, hsize]
      decide
    simp [isSource, Option.isSome_iff_ne_none, hrefused]
  have hchildren : twoNames.children ["D"] =
      [(Text.encode "A.vm", .file []), (Text.encode "LongerName.vm", .file [])] := by
    decide +kernel
  have hsources : sourcesIn twoNames path ["D"] = [Text.encode "A.vm"] := by
    rw [sourcesIn, hchildren]
    simp [hshort, hlong]
  refine ⟨hwell, hresolve, rfl, ?_⟩
  classical
  have hplan := @Plan.ofPath_directory twoNames path [] "D" hresolve _
  rw [List.nil_append, hsources, if_neg (by simp), if_pos hspell, List.map_singleton, hjoin, hjoin]
    at hplan
  exact hplan

end HackVM.Job
