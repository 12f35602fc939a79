import HackVM.Files.Path
import Mathlib.Data.List.Basic
import Mathlib.Data.List.Induction

namespace HackVM.Files.Path

open Text (Bytes)

/-!
# Paths and their names

Every path is put together from names in one way, and where it leads depends on these names only.

* `ofNames` — the path with given names, with `exists_ofNames` and `parts_eq_append_iff`: every path
  is one, and `parts` finds its names;
* `splitName_append` and `eq_append_of_splitName` — a name with an extension is a stem, a dot and
  the extension;
* `parts_join` — what joining does to the names;
* `withExtension_ofNames` — what exchanging the extension does to them.
-/

/-! ### Paths from names -/

/-- The path through directories with given names to a last name. -/
def ofNames (before : List Bytes) (name : Bytes) : Bytes :=
  before.flatMap (· ++ [slash]) ++ name

/-- A name that leads from a directory to something in it. -/
def IsProper (name : Bytes) : Prop :=
  slash ∉ name ∧ name ≠ [] ∧ name ≠ [dot] ∧ name ≠ above

instance (name : Bytes) : Decidable (IsProper name) :=
  inferInstanceAs (Decidable (_ ∧ _))

theorem IsProper.staysPut {name : Bytes} (h : IsProper name) : staysPut name = false := by
  obtain ⟨-, hempty, hdot, -⟩ := h
  simp [Path.staysPut, hempty, hdot]

theorem ofNames_cons (first : Bytes) (before : List Bytes) (name : Bytes) :
    ofNames (first :: before) name = first ++ slash :: ofNames before name := by
  simp [ofNames]

theorem parts_append_slash {first : Bytes} (h : slash ∉ first) (rest : Bytes) :
    parts (first ++ slash :: rest) = first :: parts rest :=
  List.splitOn_append_cons_self_of_not_mem h rest

/-- The names of a path are found again. -/
theorem parts_ofNames {before : List Bytes} {name : Bytes}
    (hbefore : ∀ part ∈ before, slash ∉ part) (hname : slash ∉ name) :
    parts (ofNames before name) = before ++ [name] := by
  induction before with
  | nil => exact List.splitOn_eq_singleton hname
  | cons first before ih =>
    rw [List.forall_mem_cons] at hbefore
    rw [ofNames_cons, parts_append_slash hbefore.1, ih hbefore.2]
    rfl

/-- **Every path is put together from names.** -/
theorem exists_ofNames (path : Bytes) :
    ∃ before name, path = ofNames before name ∧ (∀ part ∈ before, slash ∉ part) ∧
      slash ∉ name := by
  induction path with
  | nil => exact ⟨[], [], rfl, by simp, by simp⟩
  | cons b path ih =>
    obtain ⟨before, name, rfl, hbefore, hname⟩ := ih
    by_cases hb : b = slash
    · refine ⟨[] :: before, name, ?_, ?_, hname⟩
      · rw [ofNames_cons, hb]
        rfl
      · rw [List.forall_mem_cons]
        exact ⟨by simp, hbefore⟩
    · -- The byte belongs to the first name.
      cases before with
      | nil =>
        refine ⟨[], b :: name, rfl, by simp, ?_⟩
        simpa [Ne.symm hb] using hname
      | cons first before =>
        rw [List.forall_mem_cons] at hbefore
        refine ⟨(b :: first) :: before, name, ?_, ?_, hname⟩
        · rw [ofNames_cons, ofNames_cons]
          rfl
        · rw [List.forall_mem_cons]
          exact ⟨by simpa [Ne.symm hb] using hbefore.1, hbefore.2⟩

theorem parts_eq_append_iff {path : Bytes} {before : List Bytes} {name : Bytes} :
    parts path = before ++ [name] ↔
      path = ofNames before name ∧ (∀ part ∈ before, slash ∉ part) ∧ slash ∉ name := by
  constructor
  · intro hparts
    obtain ⟨before', name', rfl, hbefore, hname⟩ := exists_ofNames path
    rw [parts_ofNames hbefore hname] at hparts
    obtain ⟨rfl, hsingle⟩ := List.append_inj' hparts rfl
    obtain rfl := List.singleton_inj.1 hsingle
    exact ⟨rfl, hbefore, hname⟩
  · rintro ⟨rfl, hbefore, hname⟩
    exact parts_ofNames hbefore hname

/-- A slash at the end adds an empty name. -/
theorem parts_append_slash_empty (path : Bytes) : parts (path ++ [slash]) = parts path ++ [[]] := by
  obtain ⟨before, name, rfl, hbefore, hname⟩ := exists_ofNames path
  rw [parts_ofNames hbefore hname, parts_eq_append_iff]
  refine ⟨by simp [ofNames], ?_, by simp⟩
  simpa [or_imp, forall_and] using ⟨hbefore, hname⟩

/-- The names decide whether a path starts at the root. -/
theorem isAbsolute_ofNames {before : List Bytes} {name : Bytes}
    (hbefore : ∀ part ∈ before, slash ∉ part) (hname : slash ∉ name) :
    isAbsolute (ofNames before name) = (before.head? == some []) := by
  cases before with
  | nil =>
    have hhead : name.head? ≠ some slash := fun hhead => hname (List.mem_of_head? hhead)
    simp [isAbsolute, ofNames, hhead]
  | cons first before =>
    rw [List.forall_mem_cons] at hbefore
    rw [isAbsolute, ofNames_cons]
    by_cases hfirst : first = []
    · subst hfirst
      simp
    · have hhead : first.head? ≠ some slash := fun hhead => hbefore.1 (List.mem_of_head? hhead)
      have hfirst' : (first :: before).head? ≠ some [] := by simpa using hfirst
      rw [List.head?_append_of_ne_nil _ hfirst, beq_eq_false_iff_ne.2 hhead,
        beq_eq_false_iff_ne.2 hfirst']

theorem getLast?_ofNames {before : List Bytes} {name : Bytes} (hname : slash ∉ name)
    (hne : name ≠ []) : (ofNames before name).getLast? ≠ some slash := by
  rw [ofNames, List.getLast?_append_of_ne_nil _ hne]
  exact fun hlast => hname (List.mem_of_getLast? hlast)

/-- A path that is not empty and has no last name ends with a slash. -/
theorem getLast?_ofNames_empty {before : List Bytes} (h : ofNames before [] ≠ []) :
    (ofNames before []).getLast? = some slash := by
  cases before using List.reverseRecOn with
  | nil => exact absurd rfl h
  | append_singleton before last => simp [ofNames]

/-! ### The last name -/

section LastName

variable {before : List Bytes} {name : Bytes} (hbefore : ∀ part ∈ before, slash ∉ part)
  (hname : IsProper name)

include hbefore hname

theorem splitFileName?_ofNames :
    splitFileName? (ofNames before name) = some (before.flatMap (· ++ [slash]), name) := by
  have hdrop : (parts (ofNames before name)).reverse.dropWhile staysPut =
      name :: before.reverse := by
    rw [parts_ofNames hbefore hname.1]
    simp [hname.staysPut]
  rw [splitFileName?, hdrop]
  simp only [if_neg hname.2.2.2, List.reverse_reverse]

theorem fileName?_ofNames : fileName? (ofNames before name) = some name := by
  rw [fileName?, splitFileName?_ofNames hbefore hname]
  rfl

theorem extension?_ofNames : extension? (ofNames before name) = (splitName name).2 := by
  rw [extension?, fileName?_ofNames hbefore hname]
  rfl

theorem stem?_ofNames : stem? (ofNames before name) = some (splitName name).1 := by
  rw [stem?, fileName?_ofNames hbefore hname]
  rfl

end LastName

theorem splitFileName?_above {before : List Bytes} (hbefore : ∀ part ∈ before, slash ∉ part) :
    splitFileName? (ofNames before above) = none := by
  rw [splitFileName?, parts_ofNames hbefore (by decide), List.reverse_append]
  rfl

/-! ### Extensions -/

/-- A stem that is not empty, a dot, and an extension without dots are taken apart again. -/
theorem splitName_append {stem extension : Bytes} (hstem : stem ≠ []) (hdot : dot ∉ extension) :
    splitName (stem ++ dot :: extension) = (stem, some extension) := by
  have hback : (stem ++ dot :: extension).reverse = extension.reverse ++ dot :: stem.reverse := by
    simp
  have hall : ∀ b ∈ extension.reverse, decide (b ≠ dot) = true := by
    intro b hb
    rw [decide_eq_true_iff]
    rintro rfl
    exact hdot (List.mem_reverse.1 hb)
  have hdrop : (stem ++ dot :: extension).reverse.dropWhile (· ≠ dot) = dot :: stem.reverse := by
    rw [hback, List.dropWhile_append_of_pos hall]
    rfl
  have htake : (stem ++ dot :: extension).reverse.takeWhile (· ≠ dot) = extension.reverse := by
    rw [hback, List.takeWhile_append_of_pos hall]
    simp
  -- This tells a stem from a dot that only opens the name.
  have hne : stem.reverse ≠ [] := by simpa using hstem
  unfold splitName
  simp only [hdrop, htake, List.reverse_reverse]

/-- **A name with an extension** is a stem that is not empty, a dot, and the extension. -/
theorem eq_append_of_splitName {name stem extension : Bytes}
    (h : splitName name = (stem, some extension)) :
    name = stem ++ dot :: extension ∧ stem ≠ [] := by
  unfold splitName at h
  split at h
  · simp at h
  · simp at h
  · rename_i first rest hne hrest
    obtain ⟨rfl, hextension⟩ := Prod.mk.inj h
    obtain rfl := Option.some.inj hextension
    -- What was dropped starts with the dot, and was behind the extension.
    obtain rfl : first = dot := by
      have hhead := List.head?_dropWhile_not (· ≠ dot) name.reverse
      rw [hrest] at hhead
      simpa using hhead
    have hback := List.takeWhile_append_dropWhile (p := (· ≠ dot)) (l := name.reverse)
    rw [hrest] at hback
    refine ⟨?_, ?_⟩
    · have hname := congrArg List.reverse hback
      rw [List.reverse_append, List.reverse_cons, List.reverse_reverse] at hname
      simpa using hname.symm
    · intro hempty
      exact hne (by simpa using hempty)

theorem isProper_append_dot {stem extension : Bytes} (hstem : stem ≠ []) (hslash : slash ∉ stem)
    (hslash' : slash ∉ extension) (hdots : stem = [dot] → extension ≠ []) :
    IsProper (stem ++ dot :: extension) := by
  refine ⟨?_, by simp, ?_, ?_⟩
  · have hne : slash ≠ dot := by decide
    simp [hslash, hslash', hne]
  · simp [List.append_eq_cons_iff, hstem]
  · intro heq
    -- Two bytes are one for the stem and the dot.
    cases stem with
    | nil => exact hstem rfl
    | cons b stem =>
      cases stem with
      | nil =>
        obtain ⟨rfl, hempty⟩ : b = dot ∧ extension = [] := by simpa [above] using heq
        exact hdots rfl hempty
      | cons c stem => simp [above] at heq

/-! ### Joining -/

/-- A name is joined to all names of a path, or to all but an empty one at its end. -/
theorem parts_join {path name : Bytes} (hpath : path ≠ []) (hname : slash ∉ name) :
    ∃ before, parts (join path name) = before ++ [name] ∧
      (parts path = before ∨ parts path = before ++ [[]]) := by
  obtain ⟨before, last, rfl, hbefore, hlast⟩ := exists_ofNames path
  by_cases hempty : last = []
  · subst hempty
    refine ⟨before, ?_, .inr (parts_ofNames hbefore hlast)⟩
    have hjoin : join (ofNames before []) name = ofNames before name := by
      rw [join, if_pos (.inr (getLast?_ofNames_empty hpath))]
      simp [ofNames]
    rw [hjoin, parts_ofNames hbefore hname]
  · refine ⟨before ++ [last], ?_, .inl (parts_ofNames hbefore hlast)⟩
    have hjoin : join (ofNames before last) name = ofNames (before ++ [last]) name := by
      rw [join, if_neg (not_or.2 ⟨hpath, getLast?_ofNames hlast hempty⟩)]
      simp [ofNames]
    rw [hjoin, parts_ofNames ?_ hname]
    intro part hpart
    rcases List.mem_append.1 hpart with hpart | hpart
    · exact hbefore part hpart
    · rwa [List.mem_singleton.1 hpart]

theorem isAbsolute_append {path : Bytes} (hpath : path ≠ []) (rest : Bytes) :
    isAbsolute (path ++ rest) = isAbsolute path := by
  rw [isAbsolute, isAbsolute, List.head?_append_of_ne_nil _ hpath]

theorem isAbsolute_join {path : Bytes} (hpath : path ≠ []) (name : Bytes) :
    isAbsolute (join path name) = isAbsolute path := by
  unfold join
  split
  · exact isAbsolute_append hpath name
  · exact isAbsolute_append hpath _

/-! ### Exchanging the extension -/

/-- **Exchanging the extension** exchanges what follows the last dot of the last name.  A stem that
    is only a dot is lost: the path then leads to the directory above. -/
theorem withExtension_ofNames {before : List Bytes} {stem extension : Bytes}
    (hbefore : ∀ part ∈ before, slash ∉ part) (hstem : stem ≠ []) (hslash : slash ∉ stem)
    (hextension : extension ≠ []) (hslash' : slash ∉ extension) (hdot : dot ∉ extension)
    (new : Bytes) :
    withExtension (ofNames before (stem ++ dot :: extension)) new =
      ofNames before (if stem = [dot] then above else stem ++ dot :: new) := by
  have hname := isProper_append_dot hstem hslash hslash' fun _ => hextension
  have hdrop : dropExtension (ofNames before (stem ++ dot :: extension)) =
      ofNames before (stem ++ [dot]) := by
    have hbytes : ofNames before (stem ++ dot :: extension) =
        ofNames before (stem ++ [dot]) ++ extension := by simp [ofNames]
    rw [dropExtension, extension?_ofNames hbefore hname, splitName_append hstem hdot]
    simp only
    rw [hbytes, List.length_append, Nat.add_sub_cancel, List.take_left]
  unfold withExtension
  rw [hdrop]
  by_cases hlost : stem = [dot]
  · have hdots : stem ++ [dot] = above := by rw [hlost]; rfl
    rw [if_pos hlost, hdots, splitFileName?_above hbefore]
  · have hproper : IsProper (stem ++ [dot]) :=
      isProper_append_dot hstem hslash (by simp) fun h => absurd h hlost
    have hsplit : splitName (stem ++ [dot]) = (stem, some []) := splitName_append hstem (by simp)
    rw [if_neg hlost, splitFileName?_ofNames hbefore hproper]
    simp [hsplit, ofNames]

end HackVM.Files.Path
