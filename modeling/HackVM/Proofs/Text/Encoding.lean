import HackVM.Text.Bytes
import Mathlib.Data.List.Basic

namespace HackVM.Text

/-!
# Texts as bytes, and their lines

A text is written as UTF-8, character by character, and read line by line.  No byte of a longer
character is a newline, so the lines of a text can be told on its bytes.

* `encode_append` and `encode_join` — a text is written piece by piece;
* `text?_encode` — what was written is read back;
* `newline_mem_encode_iff` — the newline byte is that of a newline and of no other character;
* `physicalLines_encode_ended` — lines that are written with a newline after each are cut apart
  again.
-/

/-- The bytes of a text are those of its characters. -/
theorem encode_eq_flatMap (text : String) :
    encode text = text.toList.flatMap String.utf8EncodeChar := by
  have hbytes : text.toByteArray = (text.toList.flatMap String.utf8EncodeChar).toByteArray :=
    String.utf8Encode_toList.symm
  show text.toByteArray.data.toList = _
  rw [hbytes, List.data_toByteArray]

@[simp] theorem encode_append (first second : String) :
    encode (first ++ second) = encode first ++ encode second := by
  simp only [encode_eq_flatMap, String.toList_append, List.flatMap_append]

theorem encode_ofList_cons (c : Char) (cs : List Char) :
    encode (String.ofList (c :: cs)) = String.utf8EncodeChar c ++ encode (String.ofList cs) := by
  simp only [encode_eq_flatMap, String.toList_ofList, List.flatMap_cons]

theorem encode_join (texts : List String) : encode (String.join texts) = texts.flatMap encode := by
  induction texts with
  | nil => rfl
  | cons text texts ih => rw [String.join_cons, encode_append, ih, List.flatMap_cons]

/-- **What was written is read back.** -/
@[simp] theorem text?_encode (text : String) : text? (encode text) = some text := by
  have hbytes : (encode text).toByteArray = text.toByteArray := by
    apply ByteArray.ext
    rw [List.data_toByteArray]
    exact Array.toArray_toList
  unfold text? String.fromUTF8?
  rw [hbytes, dif_pos text.isValidUTF8]
  rfl

theorem decode?_encode (text : String) : decode? (encode text) = some text.toList := by
  rw [decode?, text?_encode]
  rfl

/-! ### Newlines -/

@[simp] theorem encode_newline : encode "\n" = [newline] := rfl

theorem newline_eq_ofNat_iff {n : Nat} (h : n < 256) : newline = UInt8.ofNat n ↔ n = 10 := by
  rw [← UInt8.toNat_inj, UInt8.toNat_ofNat_of_lt' h]
  exact eq_comm

/-- The byte of a character that takes only one is its number, and the bytes of other characters are
    all at least 128. -/
theorem newline_mem_utf8EncodeChar_iff {c : Char} :
    newline ∈ String.utf8EncodeChar c ↔ c = '\n' := by
  have hten : c = '\n' ↔ c.val.toNat = 10 := by
    rw [← Char.toNat_inj]
    rfl
  have hhigh : ∀ n, 128 ≤ n → n < 256 → newline ≠ UInt8.ofNat n := by
    intro n hlow hhigh heq
    have := (newline_eq_ofNat_iff hhigh).1 heq
    omega
  rw [hten, String.utf8EncodeChar]
  split
  · rw [List.mem_singleton, newline_eq_ofNat_iff (by omega)]
  · refine iff_of_false (fun hmem => ?_) (by omega)
    split at hmem
    · -- Two bytes.
      simp only [List.mem_cons, List.not_mem_nil, or_false] at hmem
      rcases hmem with heq | heq <;> exact hhigh _ (by omega) (by omega) heq
    · split at hmem
      · -- Three bytes.
        simp only [List.mem_cons, List.not_mem_nil, or_false] at hmem
        rcases hmem with heq | heq | heq <;> exact hhigh _ (by omega) (by omega) heq
      · -- Four bytes.
        simp only [List.mem_cons, List.not_mem_nil, or_false] at hmem
        rcases hmem with heq | heq | heq | heq <;> exact hhigh _ (by omega) (by omega) heq

/-- **The newline byte is that of a newline**, and no other character has it. -/
theorem newline_mem_encode_iff {text : String} : newline ∈ encode text ↔ '\n' ∈ text.toList := by
  rw [encode_eq_flatMap, List.mem_flatMap]
  constructor
  · rintro ⟨c, hc, hmem⟩
    rwa [← newline_mem_utf8EncodeChar_iff.1 hmem]
  · intro hmem
    exact ⟨_, hmem, newline_mem_utf8EncodeChar_iff.2 rfl⟩

/-! ### Lines -/

/-- A line ends at its first newline. -/
theorem physicalLines_append_newline {line : Bytes} (h : newline ∉ line) (rest : Bytes) :
    physicalLines (line ++ newline :: rest) = (line ++ [newline]) :: physicalLines rest := by
  induction line with
  | nil => simp [consByte]
  | cons b line ih =>
    rw [List.mem_cons, not_or] at h
    rw [List.cons_append, physicalLines_cons, ih h.2, consByte, if_neg (Ne.symm h.1)]
    rfl

/-- **Lines that are written with a newline after each are cut apart again.** -/
theorem physicalLines_encode_ended {texts : List String} (h : ∀ text ∈ texts, '\n' ∉ text.toList) :
    physicalLines (encode (String.join (texts.map (· ++ "\n")))) =
      texts.map fun text => encode (text ++ "\n") := by
  induction texts with
  | nil => rfl
  | cons text texts ih =>
    rw [List.forall_mem_cons] at h
    have hline : newline ∉ encode text := fun hmem => h.1 (newline_mem_encode_iff.1 hmem)
    rw [List.map_cons, String.join_cons, encode_append, encode_append, encode_newline,
      List.append_assoc, List.singleton_append, physicalLines_append_newline hline, ih h.2]
    simp

end HackVM.Text
