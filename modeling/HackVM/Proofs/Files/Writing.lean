import HackVM.Proofs.Files.Tree

namespace HackVM.Files.FileTree

/-!
# Writing a file

Where no directory is, a file can be written.  This file says that nothing else changes then, and
that no path leads elsewhere afterwards.

* `node?_write_self` and `node?_write_of_ne` — what a tree has after a file was written;
* `write_write` — only what was written last counts;
* `follow_mono` and `foldlM_follow_mono` — names lead to the same place in every tree that has the
  directories of the first;
* `resolve_write` and `openForWriting_write` — so paths lead to the same place after writing.
-/

/-! ### What the tree has -/

theorem write_of_device {t : FileTree} {location : Location} (h : t.node? location = some .device)
    (contents : Text.Bytes) : t.write location contents = t :=
  if_pos h

theorem write_of_ne_device {t : FileTree} {location : Location}
    (h : t.node? location ≠ some .device) (contents : Text.Bytes) :
    t.write location contents = t.put location (.file contents) :=
  if_neg h

@[simp] theorem workingDirectory_write (t : FileTree) (location : Location)
    (contents : Text.Bytes) :
    (t.write location contents).workingDirectory = t.workingDirectory := by
  unfold write
  split <;> rfl

theorem put_put (t : FileTree) (location : Location) (first second : Node) :
    (t.put location first).put location second = t.put location second := by
  simp [put]

section Write

variable {t : FileTree} {output : Location} (h : t.node? output ≠ some .directory)

include h

theorem ne_root_of_ne_directory : output ≠ [] := by
  rintro rfl
  exact h rfl

theorem node?_write_self (hdevice : t.node? output ≠ some .device) (contents : Text.Bytes) :
    (t.write output contents).node? output = some (.file contents) := by
  rw [write_of_ne_device hdevice, node?_put t (ne_root_of_ne_directory h), if_pos rfl]

/-- **Writing changes nothing else.** -/
theorem node?_write_of_ne {location : Location} (hne : location ≠ output)
    (contents : Text.Bytes) : (t.write output contents).node? location = t.node? location := by
  by_cases hdevice : t.node? output = some .device
  · rw [write_of_device hdevice]
  · rw [write_of_ne_device hdevice, node?_put t (ne_root_of_ne_directory h), if_neg (Ne.symm hne)]

/-- **Only what was written last counts.** -/
theorem write_write (first second : Text.Bytes) :
    (t.write output first).write output second = t.write output second := by
  by_cases hdevice : t.node? output = some .device
  · rw [write_of_device hdevice first]
  · have hfile : (t.write output first).node? output ≠ some .device := by
      rw [node?_write_self h hdevice]
      simp
    rw [write_of_ne_device hfile, write_of_ne_device hdevice, write_of_ne_device hdevice, put_put]

theorem node?_write_directory {location : Location}
    (hdirectory : t.node? location = some .directory) (contents : Text.Bytes) :
    (t.write output contents).node? location = some .directory := by
  have hne : location ≠ output := by
    rintro rfl
    exact h hdirectory
  rw [node?_write_of_ne h hne, hdirectory]

end Write

/-! ### Where paths lead -/

/-- Names lead to the same place in every tree that has the directories of the first. -/
theorem follow_mono {t t' : FileTree}
    (h : ∀ {location}, t.node? location = some .directory → t'.node? location = some .directory)
    {here there : Location} {name : Text.Bytes} (hfollow : t.follow here name = .ok there) :
    t'.follow here name = .ok there := by
  have hhere := (follow_eq_ok hfollow).1
  unfold follow at hfollow ⊢
  rw [hhere] at hfollow
  rw [h hhere]
  exact hfollow

theorem foldlM_follow_mono {t t' : FileTree}
    (h : ∀ {location}, t.node? location = some .directory → t'.node? location = some .directory)
    {here there : Location} {names : List Text.Bytes}
    (hfollow : names.foldlM t.follow here = .ok there) :
    names.foldlM t'.follow here = .ok there := by
  induction names generalizing here with
  | nil => exact hfollow
  | cons name names ih =>
    rw [List.foldlM_cons, bind_eq_ok_iff] at hfollow ⊢
    obtain ⟨between, hfirst, hrest⟩ := hfollow
    exact ⟨between, follow_mono h hfirst, ih hrest⟩

section Paths

variable {t : FileTree} {output : Location} (h : t.node? output ≠ some .directory)

include h

/-- Where names lead is not changed by writing. -/
theorem foldlM_follow_write {path : Text.Bytes} {names : List Text.Bytes} {there : Location}
    (hfollow : names.foldlM t.follow (t.origin path) = .ok there) (contents : Text.Bytes) :
    names.foldlM (t.write output contents).follow ((t.write output contents).origin path) =
      .ok there := by
  have horigin : (t.write output contents).origin path = t.origin path := by
    rw [origin, origin, workingDirectory_write]
  rw [horigin]
  exact foldlM_follow_mono (fun hdirectory => node?_write_directory h hdirectory contents) hfollow

theorem Names.write {path name : Text.Bytes} {directory : Location}
    (hnames : t.Names path directory name) (contents : Text.Bytes) :
    (t.write output contents).Names path directory name := by
  obtain ⟨before, hparts, hbefore, hdirectory⟩ := hnames
  exact ⟨before, hparts, foldlM_follow_write h hbefore contents,
    node?_write_directory h hdirectory contents⟩

/-- **Everything else is still found.** -/
theorem resolve_write {path : Text.Bytes} {location : Location} {node : Node}
    (hresolve : t.resolve path = .ok (location, node)) (hne : location ≠ output)
    (contents : Text.Bytes) :
    (t.write output contents).resolve path = .ok (location, node) := by
  obtain ⟨hrefusal, hfollow, hnode⟩ := resolve_eq_ok_iff.1 hresolve
  rw [resolve_eq_ok_iff, node?_write_of_ne h hne]
  exact ⟨hrefusal, foldlM_follow_write h hfollow contents, hnode⟩

end Paths

/-- **What was written can be written again.** -/
theorem openForWriting_write {t : FileTree} {path : Text.Bytes} {output : Location}
    (h : t.openForWriting path = .ok output) (contents : Text.Bytes) :
    (t.write output contents).openForWriting path = .ok output := by
  obtain ⟨hrefusal, hnode, directory, name, hnames, hname⟩ := openForWriting_eq_ok_iff.1 h
  rw [openForWriting_eq_ok_iff]
  refine ⟨hrefusal, ?_, directory, name, hnames.write hnode contents, hname⟩
  by_cases hdevice : t.node? output = some .device
  · rwa [write_of_device hdevice]
  · rw [node?_write_self hnode hdevice]
    simp

end HackVM.Files.FileTree
