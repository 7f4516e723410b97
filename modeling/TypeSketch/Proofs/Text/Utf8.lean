import TypeSketch.Text.Utf8

/-! Reading UTF-8 undoes writing it: the bytes that are read to the end as a text are exactly those
the text is written with. What a byte can be within a character is said here too. -/
namespace TypeSketch.Utf8

@[simp] theorem encode_nil : encode [] = [] := rfl

@[simp] theorem encode_cons (c : Char) (text : List Char) :
    encode (c :: text) = String.utf8EncodeChar c ++ encode text := rfl

@[simp] theorem encode_append (front back : List Char) :
    encode (front ++ back) = encode front ++ encode back := List.flatMap_append

private theorem trail?_ofNat (n : Nat) (rest : List UInt8) :
    trail? (UInt8.ofNat (n % 64 + 128) :: rest) = some (n % 64, rest) := by
  have h : (UInt8.ofNat (n % 64 + 128)).toNat = n % 64 + 128 := by
    rw [UInt8.toNat_ofNat']
    omega
  rw [trail?, h, if_pos (by omega)]
  congr 2
  omega

private theorem scalar?_toNat (c : Char) {least code : Nat} (hc : code = c.toNat) (h : least ≤ c.toNat)
    (rest : List UInt8) : scalar? least code rest = some (c, rest) := by
  have hv : c.toNat.isValidChar := c.valid
  simp [scalar?, hc, h, hv]

private theorem toNat_lt (c : Char) : c.val.toNat < 0x110000 := by
  have := c.valid
  simp only [UInt32.isValidChar, Nat.isValidChar] at this
  omega

/-- The character in front of any bytes is read back. -/
theorem first?_encodeChar (c : Char) (rest : List UInt8) :
    first? (String.utf8EncodeChar c ++ rest) = some (c, rest) := by
  have hv := toNat_lt c
  fun_cases String.utf8EncodeChar c with
  | case1 v h =>
    have hl : (UInt8.ofNat v).toNat = v := by rw [UInt8.toNat_ofNat']; omega
    simp only [List.cons_append, List.nil_append, first?, hl]
    rw [if_pos (by omega)]
    exact scalar?_toNat c rfl (by omega) rest
  | case2 v h1 h2 =>
    have hl : (UInt8.ofNat (v / 64 % 0x20 + 0xc0)).toNat = v / 64 % 0x20 + 0xc0 := by
      rw [UInt8.toNat_ofNat']; omega
    simp only [List.cons_append, List.nil_append, first?, hl]
    rw [if_neg (by omega), if_pos (by omega)]
    simp only [trail?_ofNat, Option.bind_eq_bind, Option.bind_some]
    exact scalar?_toNat c (by simp only [Char.toNat]; omega) (by simp only [Char.toNat]; omega) rest
  | case3 v h1 h2 h3 =>
    have hl : (UInt8.ofNat (v / 4096 % 0x10 + 0xe0)).toNat = v / 4096 % 0x10 + 0xe0 := by
      rw [UInt8.toNat_ofNat']; omega
    simp only [List.cons_append, List.nil_append, first?, hl]
    rw [if_neg (by omega), if_neg (by omega), if_pos (by omega)]
    simp only [trail?_ofNat, Option.bind_eq_bind, Option.bind_some]
    exact scalar?_toNat c (by simp only [Char.toNat]; omega) (by simp only [Char.toNat]; omega) rest
  | case4 v h1 h2 h3 =>
    have hvv : v < 0x110000 := hv
    have hl : (UInt8.ofNat (v / 262144 % 0x08 + 0xf0)).toNat = v / 262144 % 0x08 + 0xf0 := by
      rw [UInt8.toNat_ofNat']; omega
    simp only [List.cons_append, List.nil_append, first?, hl]
    rw [if_neg (by omega), if_neg (by omega), if_neg (by omega), if_pos (by omega)]
    simp only [trail?_ofNat, Option.bind_eq_bind, Option.bind_some]
    exact scalar?_toNat c (by simp only [Char.toNat]; omega) (by simp only [Char.toNat]; omega) rest

private theorem trail?_eq_some {bytes rest : List UInt8} {x : Nat} (h : trail? bytes = some (x, rest)) :
    bytes = UInt8.ofNat (x + 128) :: rest ∧ x < 64 := by
  cases bytes with
  | nil => simp [trail?] at h
  | cons byte more =>
    simp only [trail?] at h
    split at h
    · rename_i hb
      cases h
      refine ⟨?_, Nat.mod_lt _ (by decide)⟩
      rw [show byte.toNat % 64 + 128 = byte.toNat by omega, UInt8.ofNat_toNat]
    · cases h

private theorem scalar?_eq_some {least code : Nat} {rest left : List UInt8} {c : Char}
    (h : scalar? least code rest = some (c, left)) : left = rest ∧ c.val.toNat = code ∧ least ≤ code := by
  simp only [scalar?] at h
  split at h
  · rename_i hc
    cases h
    exact ⟨rfl, by rw [Char.ofNat, dif_pos hc.2]; rfl, hc.1⟩
  · cases h

/-- The bytes of the first character are those that it is written with. -/
theorem eq_of_first? {bytes rest : List UInt8} {c : Char} (h : first? bytes = some (c, rest)) :
    bytes = String.utf8EncodeChar c ++ rest := by
  cases bytes with
  | nil => simp [first?] at h
  | cons byte more =>
    have hbyte := UInt8.ofNat_toNat (x := byte)
    have hlt := byte.toNat_lt
    simp only [first?, Option.bind_eq_bind] at h
    split at h
    · obtain ⟨rfl, hc, -⟩ := scalar?_eq_some h
      rw [String.utf8EncodeChar, hc, if_pos (by omega), hbyte, List.singleton_append]
    split at h
    · obtain ⟨⟨x, r⟩, hx, h⟩ := Option.bind_eq_some_iff.1 h
      obtain ⟨rfl, hc, hl⟩ := scalar?_eq_some h
      obtain ⟨rfl, hx⟩ := trail?_eq_some hx
      rw [String.utf8EncodeChar, hc, if_neg (by omega), if_pos (by omega)]
      rw [show (byte.toNat % 32 * 64 + x) / 64 % 0x20 + 0xc0 = byte.toNat by omega, hbyte,
        show (byte.toNat % 32 * 64 + x) % 0x40 + 0x80 = x + 128 by omega]
      rfl
    split at h
    · obtain ⟨⟨x, r⟩, hx, h⟩ := Option.bind_eq_some_iff.1 h
      obtain ⟨⟨y, s⟩, hy, h⟩ := Option.bind_eq_some_iff.1 h
      obtain ⟨rfl, hc, hl⟩ := scalar?_eq_some h
      obtain ⟨rfl, hy⟩ := trail?_eq_some hy
      obtain ⟨rfl, hx⟩ := trail?_eq_some hx
      rw [String.utf8EncodeChar, hc, if_neg (by omega), if_neg (by omega), if_pos (by omega)]
      rw [show ((byte.toNat % 16 * 64 + x) * 64 + y) / 4096 % 0x10 + 0xe0 = byte.toNat by omega, hbyte,
        show ((byte.toNat % 16 * 64 + x) * 64 + y) / 64 % 0x40 + 0x80 = x + 128 by omega,
        show ((byte.toNat % 16 * 64 + x) * 64 + y) % 0x40 + 0x80 = y + 128 by omega]
      rfl
    split at h
    · obtain ⟨⟨x, r⟩, hx, h⟩ := Option.bind_eq_some_iff.1 h
      obtain ⟨⟨y, s⟩, hy, h⟩ := Option.bind_eq_some_iff.1 h
      obtain ⟨⟨z, t⟩, hz, h⟩ := Option.bind_eq_some_iff.1 h
      obtain ⟨rfl, hc, hl⟩ := scalar?_eq_some h
      obtain ⟨rfl, hz⟩ := trail?_eq_some hz
      obtain ⟨rfl, hy⟩ := trail?_eq_some hy
      obtain ⟨rfl, hx⟩ := trail?_eq_some hx
      rw [String.utf8EncodeChar, hc, if_neg (by omega), if_neg (by omega), if_neg (by omega)]
      rw [show (((byte.toNat % 8 * 64 + x) * 64 + y) * 64 + z) / 262144 % 0x08 + 0xf0 = byte.toNat by omega,
        hbyte,
        show (((byte.toNat % 8 * 64 + x) * 64 + y) * 64 + z) / 4096 % 0x40 + 0x80 = x + 128 by omega,
        show (((byte.toNat % 8 * 64 + x) * 64 + y) * 64 + z) / 64 % 0x40 + 0x80 = y + 128 by omega,
        show (((byte.toNat % 8 * 64 + x) * 64 + y) * 64 + z) % 0x40 + 0x80 = z + 128 by omega]
      rfl
    · cases h

private theorem decode_of_none {bytes : List UInt8} (h : first? bytes = none) : decode bytes = ([], bytes) := by
  rw [decode]
  split
  · rfl
  · rename_i hs
    rw [h] at hs
    cases hs

private theorem decode_of_some {bytes rest : List UInt8} {c : Char} (h : first? bytes = some (c, rest)) :
    decode bytes = (c :: (decode rest).1, (decode rest).2) := by
  rw [decode]
  split
  · rename_i hn
    rw [h] at hn
    cases hn
  · rename_i hs
    rw [h] at hs
    cases hs
    rfl

/-- The bytes of a text are read back as it, up to their end. -/
theorem decode_encode (text : List Char) : decode (encode text) = (text, []) := by
  induction text with
  | nil => exact decode_of_none rfl
  | cons c text ih => rw [encode_cons, decode_of_some (first?_encodeChar c (encode text)), ih]

/-- Nothing is lost in reading, whether or not the bytes are read to their end. -/
theorem encode_decode (bytes : List UInt8) : encode (decode bytes).1 ++ (decode bytes).2 = bytes := by
  fun_induction decode bytes with
  | case1 bytes h => rfl
  | case2 bytes c rest h ih =>
    rw [eq_of_first? h]
    simp only [Prod.map_fst, Prod.map_snd, id_eq, encode_cons, List.append_assoc, ih]

/-- Exactly the bytes of a text are read to the end, as that text. -/
theorem decode_eq_iff {bytes : List UInt8} {text : List Char} :
    decode bytes = (text, []) ↔ bytes = encode text := by
  constructor
  · intro h
    have he := encode_decode bytes
    rw [h, List.append_nil] at he
    exact he.symm
  · rintro rfl
    exact decode_encode text

/-- No two texts have the same bytes. -/
theorem encode_injective {front back : List Char} (h : encode front = encode back) : front = back := by
  have hd := congrArg decode h
  rw [decode_encode, decode_encode] at hd
  exact congrArg Prod.fst hd

/-- The bytes that are UTF-8 are those of the texts. -/
theorem isValidUTF8_iff {bytes : List UInt8} : bytes.toByteArray.IsValidUTF8 ↔ ∃ text, bytes = encode text := by
  constructor
  · rintro ⟨text, h⟩
    exact ⟨text, List.toByteArray_inj.1 h⟩
  · rintro ⟨text, rfl⟩
    exact ⟨text, rfl⟩

/-- UTF-8 is the bytes of the text that it is read as. -/
theorem encode_fromUTF8 {bytes : List UInt8} (h : bytes.toByteArray.IsValidUTF8) :
    encode (String.fromUTF8 bytes.toByteArray h).toList = bytes := by
  obtain ⟨text, rfl⟩ := isValidUTF8_iff.1 h
  have hs : String.fromUTF8 (encode text).toByteArray h = String.ofList text := rfl
  rw [hs, String.toList_ofList]

theorem encodeChar_of_lt {c : Char} (h : c.toNat < 0x80) :
    String.utf8EncodeChar c = [UInt8.ofNat c.toNat] := by
  rw [String.utf8EncodeChar, if_pos (by simp only [Char.toNat] at h; omega)]
  rfl

theorem ofUInt8_ofNat {c : Char} (h : c.toNat < 0x80) : Char.ofUInt8 (UInt8.ofNat c.toNat) = c := by
  apply Char.toNat_inj.mp
  show (UInt8.ofNat c.toNat).toNat = c.toNat
  rw [UInt8.toNat_ofNat']
  omega

/-- A byte below 128 is the one byte of its character. -/
theorem encode_ofUInt8 {byte : UInt8} (h : byte.toNat < 0x80) : encode [Char.ofUInt8 byte] = [byte] := by
  have hc : (Char.ofUInt8 byte).toNat = byte.toNat := rfl
  simp only [encode_cons, encode_nil, List.append_nil, encodeChar_of_lt (hc ▸ h), hc, UInt8.ofNat_toNat]

/-- A text below 128 is its bytes, each read as a character. -/
theorem map_ofUInt8_encode {text : List Char} (h : ∀ c ∈ text, c.toNat < 0x80) :
    (encode text).map Char.ofUInt8 = text := by
  induction text with
  | nil => rfl
  | cons c text ih =>
    rw [List.forall_mem_cons] at h
    rw [encode_cons, encodeChar_of_lt h.1, List.map_append, ih h.2, List.map_singleton, ofUInt8_ofNat h.1,
      List.singleton_append]

/-- Bytes below 128 are those of the text that they are read as one by one. -/
theorem encode_map_ofUInt8 {bytes : List UInt8} (h : ∀ c ∈ bytes.map Char.ofUInt8, c.toNat < 0x80) :
    encode (bytes.map Char.ofUInt8) = bytes := by
  induction bytes with
  | nil => rfl
  | cons byte bytes ih =>
    rw [List.map_cons, List.forall_mem_cons] at h
    rw [List.map_cons, ← List.singleton_append, encode_append, ih h.2, encode_ofUInt8 h.1, List.singleton_append]

/-- A byte that stands inside a character and never in front of one. -/
def IsTrail (byte : UInt8) : Prop := byte.toNat / 64 = 2

/-- A character is written as one byte that is no trail, with trails behind it. -/
theorem encodeChar_shape (c : Char) :
    ∃ lead trails, String.utf8EncodeChar c = lead :: trails ∧ ¬ IsTrail lead ∧ (∀ byte ∈ trails, IsTrail byte) ∧
      (lead.toNat = c.toNat ∧ trails = [] ∨ 0x80 ≤ lead.toNat ∧ 0x80 ≤ c.toNat) := by
  have hv := toNat_lt c
  have ht (n : Nat) : IsTrail (UInt8.ofNat (n % 0x40 + 0x80)) := by
    rw [IsTrail, UInt8.toNat_ofNat']
    omega
  fun_cases String.utf8EncodeChar c with
  | case1 v h =>
    refine ⟨_, _, rfl, ?_, by simp, .inl ⟨?_, rfl⟩⟩ <;>
      simp only [IsTrail, UInt8.toNat_ofNat', Char.toNat] <;> omega
  | case2 v h1 h2 | case3 v h1 h2 h3 | case4 v h1 h2 h3 =>
    refine ⟨_, _, rfl, ?_, ?_, .inr ⟨?_, ?_⟩⟩
    · simp only [IsTrail, UInt8.toNat_ofNat']; omega
    · simp only [List.forall_mem_cons, ht, List.not_mem_nil, false_implies, implies_true, and_self]
    · simp only [UInt8.toNat_ofNat']; omega
    · rw [Char.toNat]; omega

end TypeSketch.Utf8
