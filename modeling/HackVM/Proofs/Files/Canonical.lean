import HackVM.Proofs.Files.Writing

namespace HackVM.Files.FileTree

open Text (Bytes)

/-!
# Paths written out from the root

A path that leads to a directory can be written out from the root, name by name.  This finds the
place that the path leads to.  But each name on the way is looked up by the whole path from the root
to it, and that can be too long where the given path is not: because the path starts in a deep
directory, or goes through one.

* `SpellableFrom` and `Spellable` — nothing that is looked up on the way is too long, and
  `spellable_of_size_lt` — so it is where the given path and the place where it starts are short;
* `canonicalFrom_step` — what one name does, and `canonicalFrom_cases` — what all of them do;
* `canonicalize_cases` — the place that is found, or the only way to fail;
* `canonicalize_write` and `Relisted.canonicalize_eq` — neither writing a file nor the order of the
  entries matters.
-/

/-! ### What is looked up -/

/-- Names that are followed from a location can be written out: the path to every name that leads
    downwards is short enough to be looked up. -/
def SpellableFrom (t : FileTree) (start : Location) (names : List Bytes) : Prop :=
  ∀ before name rest here, names = before ++ name :: rest → ¬ Path.staysPut name →
    name ≠ Path.above → before.foldlM t.follow start = .ok here →
    lookupSize here name rest ≤ pathLimit

/-- A path can be written out from the root. -/
def Spellable (t : FileTree) (path : Bytes) : Prop :=
  t.SpellableFrom (t.origin path) (Path.parts path)

section Names

variable {t : FileTree} {here there : Location} {name : Bytes} {names : List Bytes}

theorem spellableFrom_nil : t.SpellableFrom here [] := by
  intro before name rest between hnames
  simp at hnames

/-- The first name can be looked up, and the others from where it leads. -/
theorem spellableFrom_cons_iff :
    t.SpellableFrom here (name :: names) ↔
      (¬ Path.staysPut name → name ≠ Path.above → lookupSize here name names ≤ pathLimit) ∧
        ∀ there, t.follow here name = .ok there → t.SpellableFrom there names := by
  constructor
  · intro hspell
    refine ⟨fun hstays habove => hspell [] name names here rfl hstays habove rfl, ?_⟩
    intro there hfollow before next rest between hnames hstays habove hbefore
    refine hspell (name :: before) next rest between (by rw [hnames]; rfl) hstays habove ?_
    rw [List.foldlM_cons, bind_eq_ok_iff]
    exact ⟨there, hfollow, hbefore⟩
  · rintro ⟨hfirst, hrest⟩ before next rest between hnames hstays habove hbefore
    cases before with
    | nil =>
      obtain ⟨rfl, rfl⟩ := List.cons.inj hnames
      obtain rfl := Except.ok.inj hbefore
      exact hfirst hstays habove
    | cons first before =>
      obtain ⟨rfl, rfl⟩ := List.cons.inj hnames
      rw [List.foldlM_cons, bind_eq_ok_iff] at hbefore
      obtain ⟨there, hfollow, hbefore⟩ := hbefore
      exact hrest there hfollow before next rest between rfl hstays habove hbefore

theorem pathSize_append (first second : Location) :
    pathSize (first ++ second) = pathSize first + pathSize second := by
  induction first with
  | nil => simp [pathSize]
  | cons name first ih =>
    simp only [pathSize, List.cons_append, List.foldr_cons] at ih ⊢
    omega

theorem pathSize_singleton (name : Bytes) : pathSize [name] = name.length + 1 := by
  simp [pathSize, Nat.add_comm]

/-- One name adds no more than itself and a slash. -/
theorem pathSize_follow_le (h : t.follow here name = .ok there) :
    pathSize there ≤ pathSize here + pathSize [name] := by
  obtain ⟨-, ⟨rfl, -⟩ | ⟨rfl, -⟩ | ⟨rfl, -, -⟩⟩ := follow_eq_ok h
  · exact Nat.le_add_right ..
  · rcases List.eq_nil_or_concat here with rfl | ⟨parent, last, rfl⟩
    · exact Nat.zero_le _
    · rw [List.concat_eq_append, List.dropLast_concat, pathSize_append]
      omega
  · exact Nat.le_of_eq (pathSize_append here [name])

/-- Names that are short altogether can be written out from a place that is not too deep. -/
theorem spellableFrom_of_size_lt (h : pathSize here + pathSize names < pathLimit) :
    t.SpellableFrom here names := by
  induction names generalizing here with
  | nil => exact spellableFrom_nil
  | cons name names ih =>
    rw [← List.singleton_append, pathSize_append] at h
    rw [spellableFrom_cons_iff]
    refine ⟨fun _ _ => ?_, fun there hfollow => ih ?_⟩
    · rw [lookupSize, pathSize_append]
      split <;> omega
    · have hthere := pathSize_follow_le hfollow
      omega

/-- Names that lead to a directory start in one. -/
theorem directory_of_foldlM_follow (h : names.foldlM t.follow here = .ok there)
    (hthere : t.node? there = some .directory) : t.node? here = some .directory := by
  cases names with
  | nil =>
    obtain rfl := Except.ok.inj h
    exact hthere
  | cons name names =>
    rw [List.foldlM_cons, bind_eq_ok_iff] at h
    obtain ⟨between, hfollow, -⟩ := h
    exact (follow_eq_ok hfollow).1

/-- **One name** that leads to a directory is looked up, if it leads downwards, and the others are
    written out from there. -/
theorem canonicalFrom_step (h : t.follow here name = .ok there)
    (hthere : t.node? there = some .directory) :
    t.canonicalFrom here (name :: names) =
      if ¬ Path.staysPut name ∧ name ≠ Path.above ∧ pathLimit < lookupSize here name names then
        .error .nameTooLong
      else t.canonicalFrom there names := by
  rw [canonicalFrom]
  obtain ⟨-, ⟨rfl, hstays⟩ | ⟨rfl, rfl⟩ | ⟨rfl, hstays, habove⟩⟩ := follow_eq_ok h
  · simp [hstays]
  · have hstays : Path.staysPut Path.above = false := by decide
    simp [hstays]
  · simp [hstays, habove, h, hthere, bind, Except.bind]

/-- **Names that lead to a directory** are written out as its location, unless something on the way
    is too long. -/
theorem canonicalFrom_cases (h : names.foldlM t.follow here = .ok there)
    (hthere : t.node? there = some .directory) :
    (t.SpellableFrom here names → t.canonicalFrom here names = .ok there) ∧
      (¬ t.SpellableFrom here names → t.canonicalFrom here names = .error .nameTooLong) := by
  induction names generalizing here with
  | nil =>
    obtain rfl := Except.ok.inj h
    exact ⟨fun _ => rfl, fun hnot => absurd spellableFrom_nil hnot⟩
  | cons name names ih =>
    rw [List.foldlM_cons, bind_eq_ok_iff] at h
    obtain ⟨between, hfollow, hrest⟩ := h
    have hspellable : (∀ next, t.follow here name = .ok next → t.SpellableFrom next names) ↔
        t.SpellableFrom between names := by
      simp [hfollow]
    rw [spellableFrom_cons_iff, hspellable,
      canonicalFrom_step hfollow (directory_of_foldlM_follow hrest hthere)]
    by_cases hlong : ¬ Path.staysPut name ∧ name ≠ Path.above ∧
        pathLimit < lookupSize here name names
    · rw [if_pos hlong]
      obtain ⟨hstays, habove, hsize⟩ := hlong
      exact ⟨fun hspell => absurd (hspell.1 hstays habove) (Nat.not_le.2 hsize), fun _ => rfl⟩
    · have hshort : ¬ Path.staysPut name → name ≠ Path.above →
          lookupSize here name names ≤ pathLimit :=
        fun hstays habove => Nat.le_of_not_lt fun hsize => hlong ⟨hstays, habove, hsize⟩
      rw [if_neg hlong]
      exact ⟨fun hspell => (ih hrest).1 hspell.2,
        fun hnot => (ih hrest).2 fun hspell => hnot ⟨hshort, hspell⟩⟩

/-- Names are written out alike in every tree that has the directories of the first. -/
theorem canonicalFrom_mono {t' : FileTree}
    (hmono : ∀ {location}, t.node? location = some .directory →
      t'.node? location = some .directory)
    (h : names.foldlM t.follow here = .ok there) (hthere : t.node? there = some .directory) :
    t'.canonicalFrom here names = t.canonicalFrom here names := by
  induction names generalizing here with
  | nil => rfl
  | cons name names ih =>
    rw [List.foldlM_cons, bind_eq_ok_iff] at h
    obtain ⟨between, hfollow, hrest⟩ := h
    have hbetween := directory_of_foldlM_follow hrest hthere
    rw [canonicalFrom_step hfollow hbetween,
      canonicalFrom_step (follow_mono hmono hfollow) (hmono hbetween), ih hrest]

end Names

/-! ### Paths -/

theorem pathSize_parts (path : Bytes) : pathSize (Path.parts path) = path.length + 1 := by
  obtain ⟨before, name, rfl, hbefore, hname⟩ := Path.exists_ofNames path
  rw [Path.parts_ofNames hbefore hname]
  clear hbefore
  induction before with
  | nil => exact pathSize_singleton name
  | cons first before ih =>
    rw [List.cons_append, ← List.singleton_append, pathSize_append, ih, pathSize_singleton,
      Path.ofNames_cons, List.length_append, List.length_cons]
    omega

/-- **Short paths can be written out**, from a place that is not too deep. -/
theorem spellable_of_size_lt {t : FileTree} {path : Bytes}
    (h : pathSize (t.origin path) + path.length + 1 < pathLimit) : t.Spellable path := by
  apply spellableFrom_of_size_lt
  rw [pathSize_parts]
  omega

section Paths

variable {t : FileTree} {path : Bytes} {directory : Location}
  (h : t.resolve path = .ok (directory, .directory))

include h

theorem canonicalize_eq :
    t.canonicalize path = t.canonicalFrom (t.origin path) (Path.parts path) := by
  obtain ⟨hrefusal, -, -⟩ := resolve_eq_ok_iff.1 h
  have hnull : path.contains 0 = false := by
    unfold refusal? at hrefusal
    split_ifs at hrefusal with hnull
    simpa using hnull
  rw [canonicalize, hnull, if_neg Bool.false_ne_true, if_neg (ne_empty_of_refusal? hrefusal)]

/-- **A path to a directory** is written out as the location of the directory, or it is too long on
    the way. -/
theorem canonicalize_cases :
    (t.Spellable path → t.canonicalize path = .ok directory) ∧
      (¬ t.Spellable path → t.canonicalize path = .error .nameTooLong) := by
  obtain ⟨-, hfollow, hnode⟩ := resolve_eq_ok_iff.1 h
  rw [canonicalize_eq h]
  exact canonicalFrom_cases hfollow hnode

theorem eq_of_canonicalize {location : Location} (hcanonical : t.canonicalize path = .ok location) :
    location = directory := by
  by_cases hspell : t.Spellable path
  · rw [(canonicalize_cases h).1 hspell] at hcanonical
    exact (Except.ok.inj hcanonical).symm
  · simp [(canonicalize_cases h).2 hspell] at hcanonical

/-- Writing a file does not matter. -/
theorem canonicalize_write {output : Location} (hfile : t.node? output ≠ some .directory)
    (contents : Bytes) : (t.write output contents).canonicalize path = t.canonicalize path := by
  obtain ⟨-, hfollow, hnode⟩ := resolve_eq_ok_iff.1 h
  have hne : directory ≠ output := by
    rintro rfl
    exact hfile hnode
  have horigin : (t.write output contents).origin path = t.origin path := by
    rw [origin, origin, workingDirectory_write]
  rw [canonicalize_eq h, canonicalize_eq (resolve_write hfile h hne contents), horigin]
  exact canonicalFrom_mono (fun hdirectory => node?_write_directory hfile hdirectory contents)
    hfollow hnode

end Paths

/-- The order of the entries does not matter to how a path is written out. -/
theorem Relisted.canonicalize_eq {t t' : FileTree} (h : t.Relisted t') (ht : t.WellFormed) :
    t.canonicalize = t'.canonicalize := by
  have hfrom : ∀ names here, t.canonicalFrom here names = t'.canonicalFrom here names := by
    intro names
    induction names with
    | nil => exact fun _ => rfl
    | cons name names ih =>
      intro here
      simp only [canonicalFrom, ih, h.follow_eq ht, h.node?_eq ht]
  funext path
  rw [canonicalize, canonicalize, origin, origin, h.workingDirectory, hfrom]

end HackVM.Files.FileTree
