import GraphqlClient.Proofs.Text.Bytes
import GraphqlClient.Text.Utf8

/-!
# Decoding

The decoder accepts the encodings of texts and nothing else, and gives the text back. The first byte
of a character tells how many follow and bounds the second one: that rules out longer encodings of
smaller codes, surrogates, and codes beyond the last one.
-/

namespace GraphqlClient.Text.Utf8

/-- What a byte above the ASCII range begins: how many bytes are missing, the first bits of the code,
and the bounds of the next byte. -/
inductive Leads (byte : Nat) : (missing code low high : Nat) → Prop
  | two (h : 0xC2 ≤ byte ∧ byte < 0xE0) : Leads byte 1 (byte - 0xC0) 0x80 0xBF
  | three (h : 0xE0 ≤ byte ∧ byte < 0xF0) : Leads byte 2 (byte - 0xE0)
      (if byte = 0xE0 then 0xA0 else 0x80) (if byte = 0xED then 0x9F else 0xBF)
  | four (h : 0xF0 ≤ byte ∧ byte < 0xF5) : Leads byte 3 (byte - 0xF0)
      (if byte = 0xF0 then 0x90 else 0x80) (if byte = 0xF4 then 0x8F else 0xBF)

/-- Bytes that complete a character of which the first bits are read, and its code. Each byte adds
six bits; only the first of them has bounds of its own. -/
inductive Completes : (missing code low high : Nat) → List UInt8 → Nat → Prop
  | last {code low high : Nat} {byte : UInt8} (h : low ≤ byte.toNat ∧ byte.toNat ≤ high) :
      Completes 1 code low high [byte] (64 * code + (byte.toNat - 0x80))
  | more {missing code low high whole : Nat} {byte : UInt8} {bytes : List UInt8}
      (h : low ≤ byte.toNat ∧ byte.toNat ≤ high)
      (hrest : Completes (missing + 1) (64 * code + (byte.toNat - 0x80)) 0x80 0xBF bytes whole) :
      Completes (missing + 2) code low high (byte :: bytes) whole

/-- The bytes of a character, and its code. -/
inductive CharacterBytes : List UInt8 → Nat → Prop
  | ascii {byte : UInt8} (h : byte.toNat < 0x80) : CharacterBytes [byte] byte.toNat
  | longer {missing code low high whole : Nat} {byte : UInt8} {bytes : List UInt8}
      (h : 0x80 ≤ byte.toNat) (hlead : Leads byte.toNat missing code low high)
      (hrest : Completes missing code low high bytes whole) : CharacterBytes (byte :: bytes) whole

/-- A byte begins what it leads to. -/
theorem Leads.lead_eq {byte missing code low high : Nat} (h : Leads byte missing code low high)
    (index : Nat) : lead index byte = some ⟨index, 1, missing, code, low, high⟩ := by
  cases h with
  | two h => rw [lead, if_neg (by omega), if_pos h.2]
  | three h =>
    rw [lead, if_neg (by omega), if_neg (by omega)]
    split_ifs <;> simp_all
  | four h =>
    rw [lead, if_neg (by omega), if_neg (by omega), if_neg (by omega), if_neg (by omega),
      if_neg (by omega)]
    split_ifs <;> first | omega | simp_all

/-- Nothing else begins a character. -/
theorem exists_leads_of_lead_eq {index byte : Nat} {p : Pending} (h : lead index byte = some p) :
    ∃ missing code low high, Leads byte missing code low high ∧
      p = ⟨index, 1, missing, code, low, high⟩ := by
  have hfound : ∀ {missing code low high}, Leads byte missing code low high →
      p = ⟨index, 1, missing, code, low, high⟩ := fun hlead =>
    Option.some.inj (h.symm.trans (hlead.lead_eq index))
  have hrange : (0xC2 ≤ byte ∧ byte < 0xE0) ∨ (0xE0 ≤ byte ∧ byte < 0xF0) ∨
      (0xF0 ≤ byte ∧ byte < 0xF5) := by
    by_contra hout
    simp only [lead] at h
    split_ifs at h <;> omega
  rcases hrange with hbyte | hbyte | hbyte
  · exact ⟨_, _, _, _, .two hbyte, hfound (.two hbyte)⟩
  · exact ⟨_, _, _, _, .three hbyte, hfound (.three hbyte)⟩
  · exact ⟨_, _, _, _, .four hbyte, hfound (.four hbyte)⟩

/-- Bytes that complete a character are read to its end. -/
theorem Completes.decodeFrom_append {missing code low high whole : Nat} {bytes : List UInt8}
    (h : Completes missing code low high bytes whole) (before : List Char)
    (start taken index : Nat) (rest : List UInt8) :
    decodeFrom before (some ⟨start, taken, missing, code, low, high⟩) index (bytes ++ rest) =
      decodeFrom (Char.ofNat whole :: before) none (index + bytes.length) rest := by
  induction h generalizing taken index with
  | last h => simp [decodeFrom, h]
  | more h _ ih =>
    rw [List.cons_append, decodeFrom]
    simp only [h, and_self, if_true]
    rw [if_neg (by omega)]
    refine (ih (taken + 1) (index + 1)).trans ?_
    rw [List.length_cons]
    congr 1
    omega

/-- What is read as the rest of a character begins with bytes that complete it. -/
theorem exists_completes {bytes : List UInt8} {before cs : List Char}
    {start taken missing code low high index : Nat}
    (h : decodeFrom before (some ⟨start, taken, missing + 1, code, low, high⟩) index bytes = .ok cs) :
    ∃ first rest whole, bytes = first ++ rest ∧
      Completes (missing + 1) code low high first whole := by
  induction bytes generalizing taken missing code low high index with
  | nil => cases h
  | cons byte bytes ih =>
    rw [decodeFrom] at h
    split at h
    · next hbounds =>
      cases missing with
      | zero => exact ⟨[byte], bytes, _, rfl, .last hbounds⟩
      | succ missing =>
        rw [if_neg (by simp)] at h
        obtain ⟨first, rest, whole, rfl, hfirst⟩ := ih h
        exact ⟨byte :: first, rest, whole, rfl, .more hbounds hfirst⟩
    · cases h

/-- The bytes of a character are read as that character. -/
theorem CharacterBytes.decodeFrom_append {bytes : List UInt8} {code : Nat}
    (h : CharacterBytes bytes code) (before : List Char) (index : Nat) (rest : List UInt8) :
    decodeFrom before none index (bytes ++ rest) =
      decodeFrom (Char.ofNat code :: before) none (index + bytes.length) rest := by
  cases h with
  | ascii h => simp [decodeFrom, h]
  | longer h hlead hrest =>
    rw [List.cons_append, decodeFrom]
    simp only [if_neg (Nat.not_lt.mpr h), hlead.lead_eq]
    rw [hrest.decodeFrom_append, List.length_cons]
    congr 1
    omega

/-- What is read begins with the bytes of a character, unless it is empty. -/
theorem exists_characterBytes {byte : UInt8} {bytes : List UInt8} {before cs : List Char}
    {index : Nat} (h : decodeFrom before none index (byte :: bytes) = .ok cs) :
    ∃ first rest code, byte :: bytes = first ++ rest ∧ first ≠ [] ∧ CharacterBytes first code := by
  rw [decodeFrom] at h
  split at h
  · next hascii => exact ⟨[byte], bytes, _, rfl, by simp, .ascii hascii⟩
  · next habove =>
    split at h
    · cases h
    · next p hp =>
      obtain ⟨missing, code, low, high, hlead, rfl⟩ := exists_leads_of_lead_eq hp
      have hmissing : missing ≠ 0 := by cases hlead <;> simp
      obtain ⟨missing, rfl⟩ := Nat.exists_eq_add_one_of_ne_zero hmissing
      obtain ⟨first, rest, whole, rfl, hfirst⟩ := exists_completes h
      exact ⟨byte :: first, rest, whole, rfl, by simp, .longer (Nat.not_lt.mp habove) hlead hfirst⟩

/-- A byte is determined by its value. -/
theorem ofNat_eq {n : Nat} {byte : UInt8} (h : n = byte.toNat) : UInt8.ofNat n = byte :=
  h ▸ UInt8.ofNat_toNat

/-- A code that a character can have is the code of its character. -/
theorem toNat_ofNat {code : Nat} (h : code.isValidChar) : (Char.ofNat code).val.toNat = code := by
  rw [Char.ofNat, dif_pos h]
  rfl

/-- The bytes of a character are those that encode it. -/
theorem CharacterBytes.utf8EncodeChar_eq {bytes : List UInt8} {code : Nat}
    (h : CharacterBytes bytes code) : String.utf8EncodeChar (Char.ofNat code) = bytes := by
  cases h with
  | @ascii a h =>
    have hvalid : a.toNat.isValidChar := .inl (by omega)
    rw [String.utf8EncodeChar, toNat_ofNat hvalid, if_pos (by omega), UInt8.ofNat_toNat]
  | @longer _ _ _ _ _ a _ _ hlead hrest =>
    cases hlead with
    | two ha =>
      cases hrest with
      | @last _ _ _ b hb =>
        generalize hcode : 64 * (a.toNat - 0xC0) + (b.toNat - 0x80) = code
        have hvalid : code.isValidChar := .inl (by omega)
        rw [String.utf8EncodeChar, toNat_ofNat hvalid, if_neg (by omega), if_pos (by omega)]
        simp only [List.cons.injEq, and_true]
        exact ⟨ofNat_eq (by omega), ofNat_eq (by omega)⟩
    | three ha =>
      cases hrest with
      | @more _ _ _ _ _ b _ hb hrest =>
        cases hrest with
        | @last _ _ _ c hc =>
          generalize hcode : 64 * (64 * (a.toNat - 0xE0) + (b.toNat - 0x80)) + (c.toNat - 0x80) = code
          -- the bounds of the second byte rule out small codes and surrogates
          have hrange : 0x800 ≤ code ∧ (code < 0xD800 ∨ 0xDFFF < code) := by
            split_ifs at hb <;> omega
          have hbound : 0x80 ≤ b.toNat ∧ b.toNat ≤ 0xBF := by split_ifs at hb <;> omega
          clear hb
          have hvalid : code.isValidChar := hrange.2.imp_right fun h => ⟨h, by omega⟩
          rw [String.utf8EncodeChar, toNat_ofNat hvalid, if_neg (by omega), if_neg (by omega),
            if_pos (by omega)]
          simp only [List.cons.injEq, and_true]
          exact ⟨ofNat_eq (by omega), ofNat_eq (by omega), ofNat_eq (by omega)⟩
    | four ha =>
      cases hrest with
      | @more _ _ _ _ _ b _ hb hrest =>
        cases hrest with
        | @more _ _ _ _ _ c _ hc hrest =>
          cases hrest with
          | @last _ _ _ d hd =>
            generalize hcode : 64 * (64 * (64 * (a.toNat - 0xF0) + (b.toNat - 0x80)) +
              (c.toNat - 0x80)) + (d.toNat - 0x80) = code
            -- here they rule out small codes and those beyond the last one
            have hrange : 0x10000 ≤ code ∧ code < 0x110000 := by split_ifs at hb <;> omega
            have hbound : 0x80 ≤ b.toNat ∧ b.toNat ≤ 0xBF := by split_ifs at hb <;> omega
            clear hb
            have hvalid : code.isValidChar := .inr ⟨by omega, hrange.2⟩
            rw [String.utf8EncodeChar, toNat_ofNat hvalid, if_neg (by omega), if_neg (by omega),
              if_neg (by omega)]
            simp only [List.cons.injEq, and_true]
            exact ⟨ofNat_eq (by omega), ofNat_eq (by omega), ofNat_eq (by omega), ofNat_eq (by omega)⟩

/-- Small numbers are the values of bytes. -/
theorem exists_toNat_eq {n : Nat} (h : n < 256) : ∃ byte : UInt8, byte.toNat = n :=
  ⟨UInt8.ofNat n, UInt8.toNat_ofNat_of_lt' h⟩

/-- The bytes that encode a character are those of its code. -/
theorem characterBytes_utf8EncodeChar (c : Char) :
    CharacterBytes (String.utf8EncodeChar c) c.val.toNat := by
  have hvalid : c.val.toNat < 0xD800 ∨ 0xDFFF < c.val.toNat ∧ c.val.toNat < 0x110000 := c.valid
  rw [String.utf8EncodeChar]
  generalize c.val.toNat = code at hvalid
  obtain ⟨d, hd⟩ := exists_toNat_eq (show code % 64 + 128 < 256 by omega)
  obtain ⟨c, hc⟩ := exists_toNat_eq (show code / 64 % 64 + 128 < 256 by omega)
  obtain ⟨b, hb⟩ := exists_toNat_eq (show code / 4096 % 64 + 128 < 256 by omega)
  simp only [ofNat_eq hb.symm, ofNat_eq hc.symm, ofNat_eq hd.symm]
  split_ifs with hone htwo hthree
  · obtain ⟨a, rfl⟩ := exists_toNat_eq (show code < 256 by omega)
    rw [UInt8.ofNat_toNat]
    exact .ascii (by omega)
  · obtain ⟨a, ha⟩ := exists_toNat_eq (show code / 64 % 32 + 192 < 256 by omega)
    have hbytes : CharacterBytes [a, d] (64 * (a.toNat - 0xC0) + (d.toNat - 0x80)) :=
      .longer (by omega) (.two (by omega)) (.last (by omega))
    rw [ofNat_eq ha.symm]
    rwa [show 64 * (a.toNat - 0xC0) + (d.toNat - 0x80) = code by omega] at hbytes
  · obtain ⟨a, ha⟩ := exists_toNat_eq (show code / 4096 % 16 + 224 < 256 by omega)
    have hbytes : CharacterBytes [a, c, d]
        (64 * (64 * (a.toNat - 0xE0) + (c.toNat - 0x80)) + (d.toNat - 0x80)) :=
      .longer (by omega) (.three (by omega)) (.more (by split_ifs <;> omega) (.last (by omega)))
    rw [ofNat_eq ha.symm]
    rwa [show 64 * (64 * (a.toNat - 0xE0) + (c.toNat - 0x80)) + (d.toNat - 0x80) = code by omega]
      at hbytes
  · obtain ⟨a, ha⟩ := exists_toNat_eq (show code / 262144 % 8 + 240 < 256 by omega)
    have hbytes : CharacterBytes [a, b, c, d]
        (64 * (64 * (64 * (a.toNat - 0xF0) + (b.toNat - 0x80)) + (c.toNat - 0x80)) +
          (d.toNat - 0x80)) :=
      .longer (by omega) (.four (by omega))
        (.more (by split_ifs <;> omega) (.more (by omega) (.last (by omega))))
    rw [ofNat_eq ha.symm]
    rwa [show 64 * (64 * (64 * (a.toNat - 0xF0) + (b.toNat - 0x80)) + (c.toNat - 0x80)) +
      (d.toNat - 0x80) = code by omega] at hbytes

/-- The encoding of a text is read to its end. -/
theorem decodeFrom_encoding (cs before : List Char) (index : Nat) :
    decodeFrom before none index (cs.flatMap String.utf8EncodeChar) = .ok (before.reverse ++ cs) := by
  induction cs generalizing before index with
  | nil => simp [decodeFrom]
  | cons c cs ih =>
    have hcode : Char.ofNat c.val.toNat = c := Char.ofNat_toNat c
    rw [List.flatMap_cons, (characterBytes_utf8EncodeChar c).decodeFrom_append, ih, hcode,
      List.reverse_cons, List.append_assoc, List.singleton_append]

/-- What is read is an encoding. -/
theorem exists_encoding_of_decodeFrom {before cs : List Char} {index : Nat} :
    ∀ {bytes : List UInt8}, decodeFrom before none index bytes = .ok cs →
      ∃ read : List Char, bytes = read.flatMap String.utf8EncodeChar
  | [], _ => ⟨[], rfl⟩
  | byte :: bytes, h => by
    obtain ⟨first, rest, code, hsplit, hne, hfirst⟩ := exists_characterBytes h
    have hshort : rest.length < (byte :: bytes).length := by
      rw [hsplit, List.length_append]
      exact Nat.lt_add_of_pos_left (List.length_pos_iff.mpr hne)
    rw [hsplit, hfirst.decodeFrom_append] at h
    obtain ⟨read, hread⟩ := exists_encoding_of_decodeFrom h
    exact ⟨Char.ofNat code :: read, by
      rw [hsplit, List.flatMap_cons, hfirst.utf8EncodeChar_eq, hread]⟩
termination_by bytes => bytes.length
decreasing_by exact hshort

/-- The decoder reads a text from its encoding, and from nothing else. -/
theorem decode_eq_ok_iff {bytes : List UInt8} {text : String} :
    decode bytes = .ok text ↔ bytes = Text.bytes text := by
  have hread (cs : List Char) :
      decode (cs.flatMap String.utf8EncodeChar) = .ok (String.ofList cs) := by
    rw [decode, decodeFrom_encoding]
    rfl
  rw [bytes_eq]
  constructor
  · intro h
    obtain ⟨cs, hcs⟩ : ∃ cs, decodeFrom [] none 0 bytes = .ok cs := by
      cases hdecode : decodeFrom [] none 0 bytes with
      | error e => rw [decode, hdecode] at h; cases h
      | ok cs => exact ⟨cs, rfl⟩
    obtain ⟨read, rfl⟩ := exists_encoding_of_decodeFrom hcs
    cases (hread read).symm.trans h
    rw [String.toList_ofList]
  · rintro rfl
    rw [hread, String.ofList_toList]

end GraphqlClient.Text.Utf8
