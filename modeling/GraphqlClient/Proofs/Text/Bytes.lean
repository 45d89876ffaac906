import Mathlib.Data.List.Lex

/-!
# The order of texts by their bytes

The encoding of characters keeps their order: a greater character has no fewer bytes, and the first
byte in which two encodings differ decides. So texts that are ordered by their characters are ordered
by their bytes.
-/

namespace GraphqlClient.Text

/-- The bytes that encode a text. -/
def bytes (text : String) : List UInt8 := text.toUTF8.data.toList

/-- The bytes of a text are those of its characters. -/
theorem bytes_eq (text : String) : bytes text = text.toList.flatMap String.utf8EncodeChar := by
  obtain ⟨cs, rfl⟩ : ∃ cs, text = String.ofList cs := ⟨text.toList, String.ofList_toList.symm⟩
  rw [bytes, String.toUTF8_eq_toByteArray, String.toByteArray_ofList, List.utf8Encode,
    String.toList_ofList, List.toList_data_toByteArray]

/-- Bytes are ordered by the first of them that differs. -/
theorem ofNat_cons_lt {m n : Nat} (hn : n < 256) (hle : m ≤ n) {r s : List UInt8}
    (h : m = n → r < s) : UInt8.ofNat m :: r < UInt8.ofNat n :: s := by
  rcases Nat.lt_or_eq_of_le hle with hlt | heq
  · refine List.Lex.rel (UInt8.lt_iff_toNat_lt.mpr ?_)
    rw [UInt8.toNat_ofNat_of_lt' hn, UInt8.toNat_ofNat_of_lt' (hlt.trans hn)]
    exact hlt
  · subst heq
    exact List.Lex.cons (h rfl)

/-- The encoding of a smaller character is smaller, whatever follows. -/
theorem utf8EncodeChar_append_lt {c d : Char} (h : c < d) (r s : List UInt8) :
    String.utf8EncodeChar c ++ r < String.utf8EncodeChar d ++ s := by
  have hval : c.val.toNat < d.val.toNat := h
  have hbound : d.val.toNat < 0x110000 := by
    rcases d.valid with h | h
    · exact h.trans (by decide)
    · exact h.2
  simp only [String.utf8EncodeChar]
  generalize c.val.toNat = m at hval ⊢
  generalize d.val.toNat = n at hval hbound ⊢
  -- One case for each pair of lengths: a greater character is not the shorter one, and else the bytes
  -- are compared until two of them differ.
  split_ifs
  all_goals first
    | omega
    | simp only [List.cons_append, List.nil_append]
      repeat refine ofNat_cons_lt (by omega) (by omega) fun _ => ?_
      omega

/-- Texts are ordered by their bytes as by their characters. -/
theorem bytes_lt {a b : String} (h : a < b) : bytes a < bytes b := by
  rw [bytes_eq, bytes_eq]
  have hlex : List.Lex (· < ·) a.toList b.toList := h
  generalize a.toList = cs at hlex ⊢
  generalize b.toList = ds at hlex ⊢
  induction hlex with
  | @nil d ds =>
    rw [List.flatMap_cons]
    cases henc : String.utf8EncodeChar d with
    | nil => exact absurd henc String.utf8EncodeChar_ne_nil
    | cons first rest => exact List.Lex.nil
  | @rel c cs d ds hcd =>
    rw [List.flatMap_cons, List.flatMap_cons]
    exact utf8EncodeChar_append_lt hcd _ _
  | @cons c cs ds h ih =>
    rw [List.flatMap_cons, List.flatMap_cons]
    exact List.Lex.append_left _ ih _

end GraphqlClient.Text
