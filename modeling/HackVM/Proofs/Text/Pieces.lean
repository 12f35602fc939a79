import HackVM.Proofs.Text.Encoding
import HackVM.Text.Quoted
import Mathlib.Data.List.TakeWhile

namespace HackVM.Text

/-!
# Texts in pieces

Bytes that are UTF-8 are cut into their characters, so that a text is shown as itself.

* `pieceTail_utf8EncodeChar` — the bytes of a character belong to one piece, whatever follows them;
* `pieces_encode` — the pieces of a text are its characters;
* `shown_encode` and `quoteBytes_encode` — what is shown of a text.
-/

/-! ### Bytes given by numbers -/

theorem tailSize_ofNat {m : Nat} (hm : m < 256) :
    tailSize (UInt8.ofNat m) =
      if m < 0xC2 then 0 else if m < 0xE0 then 1 else if m < 0xF0 then 2
      else if m < 0xF5 then 3 else 0 := by
  unfold tailSize
  simp only [UInt8.lt_iff_toNat_lt, UInt8.toNat_ofNat_of_lt' hm]
  rfl

theorem isTail_ofNat {n : Nat} (h : 0x80 ≤ n ∧ n ≤ 0xBF) : isTail (UInt8.ofNat n) = true := by
  have hn : n < 256 := by omega
  simp only [isTail, Bool.and_eq_true, decide_eq_true_eq, UInt8.le_iff_toNat_le,
    UInt8.toNat_ofNat_of_lt' hn]
  exact h

theorem isSecond_ofNat {m n : Nat} (hm : m < 256) (h : 0x80 ≤ n ∧ n ≤ 0xBF)
    (hE0 : m = 0xE0 → 0xA0 ≤ n) (hED : m = 0xED → n ≤ 0x9F) (hF0 : m = 0xF0 → 0x90 ≤ n)
    (hF4 : m = 0xF4 → n ≤ 0x8F) : isSecond (UInt8.ofNat m) (UInt8.ofNat n) = true := by
  have hn : n < 256 := by omega
  simp only [isSecond, isTail_ofNat h, Bool.and_eq_true, Bool.or_eq_true, bne_iff_ne, ne_eq,
    decide_eq_true_eq, UInt8.le_iff_toNat_le, ← UInt8.toNat_inj, UInt8.toNat_ofNat_of_lt' hm,
    UInt8.toNat_ofNat_of_lt' hn, true_and]
  exact ⟨⟨⟨by rw [← imp_iff_not_or]; exact hE0, by rw [← imp_iff_not_or]; exact hED⟩,
    by rw [← imp_iff_not_or]; exact hF0⟩, by rw [← imp_iff_not_or]; exact hF4⟩

/-! ### Characters -/

/-- After its first byte a piece has as many bytes as the first byte asks for, if they fit. -/
theorem pieceTail_append {first second : UInt8} {tail : Bytes}
    (hsize : tailSize first = tail.length + 1) (hsecond : isSecond first second = true)
    (htail : ∀ b ∈ tail, isTail b = true) (rest : Bytes) :
    pieceTail first (second :: tail ++ rest) = (second :: tail).length := by
  have htake : (tail ++ rest).take (tail.length + 1 - 1) = tail := by simp
  have hall : tail.takeWhile isTail = tail := List.takeWhile_eq_self_iff.2 htail
  rw [List.cons_append, pieceTail, hsize, htake, hall, hsecond, if_neg (by simp),
    List.length_cons, Nat.add_comm]

/-- The bytes of a character belong to one piece, whatever follows them. -/
theorem pieceTail_utf8EncodeChar (c : Char) :
    ∃ first tail, String.utf8EncodeChar c = first :: tail ∧
      ∀ rest, pieceTail first (tail ++ rest) = tail.length := by
  have hvalid : c.val.toNat < 0xD800 ∨ 0xDFFF < c.val.toNat ∧ c.val.toNat < 0x110000 := c.valid
  unfold String.utf8EncodeChar
  generalize c.val.toNat = v at hvalid
  by_cases h₁ : v ≤ 0x7f
  · simp only [h₁, if_true]
    refine ⟨_, _, rfl, fun rest => ?_⟩
    have hsize : tailSize (UInt8.ofNat v) = 0 := by
      rw [tailSize_ofNat (by omega), if_pos (by omega)]
    cases rest <;> simp [pieceTail, hsize]
  by_cases h₂ : v ≤ 0x7ff
  · simp only [h₁, h₂, if_true, if_false]
    refine ⟨_, _, rfl, fun rest => ?_⟩
    have hsize : tailSize (UInt8.ofNat (v / 64 % 32 + 192)) = 1 := by
      rw [tailSize_ofNat (by omega), if_neg (by omega), if_pos (by omega)]
    have hsecond := @isSecond_ofNat (v / 64 % 32 + 192) (v % 64 + 128) (by omega) (by omega)
      (by omega) (by omega) (by omega) (by omega)
    exact pieceTail_append hsize hsecond (by simp) rest
  by_cases h₃ : v ≤ 0xffff
  · simp only [h₁, h₂, h₃, if_true, if_false]
    refine ⟨_, _, rfl, fun rest => ?_⟩
    have hsize : tailSize (UInt8.ofNat (v / 4096 % 16 + 224)) = 2 := by
      rw [tailSize_ofNat (by omega), if_neg (by omega), if_neg (by omega), if_pos (by omega)]
    have hsecond := @isSecond_ofNat (v / 4096 % 16 + 224) (v / 64 % 64 + 128) (by omega) (by omega)
      (by omega) (by omega) (by omega) (by omega)
    have hthird := @isTail_ofNat (v % 64 + 128) (by omega)
    exact pieceTail_append hsize hsecond (by rwa [List.forall_mem_singleton]) rest
  · simp only [h₁, h₂, h₃, if_false]
    refine ⟨_, _, rfl, fun rest => ?_⟩
    have hsize : tailSize (UInt8.ofNat (v / 262144 % 8 + 240)) = 3 := by
      rw [tailSize_ofNat (by omega), if_neg (by omega), if_neg (by omega), if_neg (by omega),
        if_pos (by omega)]
    have hsecond := @isSecond_ofNat (v / 262144 % 8 + 240) (v / 4096 % 64 + 128) (by omega)
      (by omega) (by omega) (by omega) (by omega) (by omega)
    have hthird := @isTail_ofNat (v / 64 % 64 + 128) (by omega)
    have hfourth := @isTail_ofNat (v % 64 + 128) (by omega)
    refine pieceTail_append hsize hsecond ?_ rest
    rw [List.forall_mem_cons, List.forall_mem_singleton]
    exact ⟨hthird, hfourth⟩

theorem piecesAfter_append (tail rest : Bytes) :
    piecesAfter tail.length (tail ++ rest) = piecesAfter 0 rest := by
  induction tail with
  | nil => rfl
  | cons b tail ih => exact ih

/-- The first piece of bytes that start with a character is that character. -/
theorem piecesAfter_char (c : Char) (rest : Bytes) :
    piecesAfter 0 (String.utf8EncodeChar c ++ rest) = .char c :: piecesAfter 0 rest := by
  obtain ⟨first, tail, hbytes, htail⟩ := pieceTail_utf8EncodeChar c
  have hdecode : decode? (first :: tail) = some [c] := by
    have hencode := decode?_encode (String.singleton c)
    rw [encode_eq_flatMap] at hencode
    simpa [hbytes] using hencode
  have hpiece : firstPiece first (tail ++ rest) = .char c := by
    rw [firstPiece, htail, List.take_left]
    simp only [hdecode]
  rw [hbytes, List.cons_append, piecesAfter, hpiece, htail, piecesAfter_append]

/-! ### Texts -/

/-- **The pieces of a text are its characters.** -/
theorem pieces_encode (text : String) : pieces (encode text) = text.toList.map .char := by
  rw [encode_eq_flatMap, pieces]
  induction text.toList with
  | nil => rfl
  | cons c chars ih => rw [List.flatMap_cons, piecesAfter_char, ih, List.map_cons]

/-- **A text is shown as itself.** -/
theorem shown_encode (text : String) : shown (encode text) = text := by
  have hshown : Piece.shown ∘ Piece.char = id := rfl
  rw [shown, pieces_encode, List.map_map, hshown, List.map_id, String.ofList_toList]

/-- A text is quoted alike as a text and as bytes. -/
theorem quoteBytes_encode (text : String) : quoteBytes (encode text) = quote text := by
  rw [quoteBytes, quote, pieces_encode, List.flatMap_map]
  rfl

end HackVM.Text
