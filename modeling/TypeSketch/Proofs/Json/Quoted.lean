import TypeSketch.Proofs.Json.Grammar
import TypeSketch.Proofs.Text.Utf16
import TypeSketch.Proofs.Text.Utf8

/-! Quoted texts that are read one byte at a time are those of the grammar. Only the content as a whole is
seen to be UTF-8, but an escape stands for whole characters, so the raw bytes between escapes are UTF-8 too. -/
namespace TypeSketch.Quoted

def Move.text? : Move → Option Quoted
  | .more text => some text
  | .closes _ | .refused => none

def feed : Quoted → List UInt8 → Option Quoted
  | text, [] => some text
  | text, byte :: rest => (text.next byte).text?.bind (·.feed rest)

/-- Bytes are read on from where those in front of them lead. -/
theorem feed_append (text : Quoted) (front back : List UInt8) :
    text.feed (front ++ back) = (text.feed front).bind (·.feed back) := by
  induction front generalizing text with
  | nil => rfl
  | cons byte front ih => simp only [List.cons_append, feed, ih, Option.bind_assoc]

private theorem HexDigit.lt {c : Char} {n : Nat} (h : HexDigit c n) : n < 16 := by
  cases h <;> omega

private theorem HexDigit.ascii {c : Char} {n : Nat} (h : HexDigit c n) : c.toNat < 0x80 := by
  cases h with
  | decimal h | lower h | upper h =>
    rw [Utf16.toNat_ofNat (.inl (by simp; omega))]
    simp
    omega

private theorem HexDigit.value {c : Char} {n : Nat} (h : HexDigit c n) : hexDigit? c = some n := by
  have hd : ∀ n < 10, hexDigit? (Char.ofNat ('0'.toNat + n)) = some n := by decide
  have hl : ∀ n < 6, hexDigit? (Char.ofNat ('a'.toNat + n)) = some (10 + n) := by decide
  have hu : ∀ n < 6, hexDigit? (Char.ofNat ('A'.toNat + n)) = some (10 + n) := by decide
  cases h with
  | decimal h => exact hd _ h
  | lower h => exact hl _ h
  | upper h => exact hu _ h

private theorem hexDigit_of_value {c : Char} {n : Nat} (h : hexDigit? c = some n) : HexDigit c n := by
  have hc {base : Nat} (hb : base ≤ c.toNat) : Char.ofNat (base + (c.toNat - base)) = c := by
    rw [Nat.add_sub_cancel' hb, Char.ofNat_toNat]
  simp only [hexDigit?, Char.isDigit, Bool.and_eq_true, decide_eq_true_eq, ge_iff_le, Char.le_def,
    UInt32.le_iff_toNat_le, Char.toNat_val] at h
  split at h
  · rename_i hd
    cases h
    have hlt : c.toNat ≤ 57 := hd.2
    have he := HexDigit.decimal (n := c.toNat - '0'.toNat) (by show c.toNat - 48 < 10; omega)
    rwa [hc hd.1] at he
  split at h
  · rename_i hd
    cases h
    have hlt : c.toNat ≤ 102 := hd.2
    have he := HexDigit.lower (n := c.toNat - 'a'.toNat) (by show c.toNat - 97 < 6; omega)
    rwa [hc hd.1, Nat.add_comm] at he
  split at h
  · rename_i hd
    cases h
    have hlt : c.toNat ≤ 70 := hd.2
    have he := HexDigit.upper (n := c.toNat - 'A'.toNat) (by show c.toNat - 65 < 6; omega)
    rwa [hc hd.1, Nat.add_comm] at he
  · cases h

/-- Four hexadecimal digits, the last one first, are the escape of a unit. -/
theorem hex?_eq_some_iff {a b c d : Char} {n : Nat} :
    hex? [d, c, b, a] = some n ↔ UnitEscape ['\\', 'u', a, b, c, d] n := by
  constructor
  · intro h
    simp only [hex?, Option.bind_eq_bind, Option.bind_eq_some_iff, Option.some.injEq] at h
    obtain ⟨z, hz, _, ⟨y, hy, _, ⟨x, hx, _, ⟨w, hw, _, rfl, rfl⟩, rfl⟩, rfl⟩, rfl⟩ := h
    have he := UnitEscape.mk (hexDigit_of_value hw) (hexDigit_of_value hx) (hexDigit_of_value hy)
      (hexDigit_of_value hz)
    rwa [show ((w * 16 + x) * 16 + y) * 16 + z = 16 * (16 * (16 * (16 * 0 + w) + x) + y) + z by omega] at he
  · rintro ⟨ha, hb, hc, hd⟩
    simp only [hex?, ha.value, hb.value, hc.value, hd.value, Option.bind_eq_bind, Option.bind_some, Option.some.injEq]
    omega

/-- An escape is of 16 bits. -/
theorem UnitEscape.lt {spelling : List Char} {n : Nat} (h : UnitEscape spelling n) : n < 0x10000 := by
  obtain ⟨ha, hb, hc, hd⟩ := h
  have := ha.lt
  have := hb.lt
  have := hc.lt
  have := hd.lt
  omega

/-- Where the escape of a unit may begin: anywhere, and behind a high surrogate it must. -/
def awaiting : Option Nat → Mode
  | none => .plain
  | some high => .pairBackslash high

private theorem ofUInt8_backslash : Char.ofUInt8 92 = '\\' := rfl

private theorem ofUInt8_letter : Char.ofUInt8 117 = 'u' := rfl

private theorem feed_unitMark (high : Option Nat) (content rest : List UInt8) :
    feed ⟨content, awaiting high⟩ (92 :: 117 :: rest) = feed ⟨content, .digits high []⟩ rest := by
  cases high with
  | none | some high =>
    simp only [awaiting, feed, next, ofUInt8_backslash, ofUInt8_letter, Char.reduceEq, if_true, if_false, Move.text?,
      Option.bind_some]

/-- An escape of a unit is read to that unit, and its last byte decides. -/
theorem feed_unit {spelling : List Char} {n : Nat} (h : UnitEscape spelling n) (high : Option Nat)
    (content : List UInt8) :
    ∃ front last read, Utf8.encode spelling = front ++ [last] ∧
      feed ⟨content, awaiting high⟩ front = some ⟨content, .digits high read⟩ ∧
      next ⟨content, .digits high read⟩ last = unit ⟨content, .digits high read⟩ high n := by
  have hx := h
  obtain @⟨a, b, c, d, w, x, y, z, ha, hb, hc, hd⟩ := h
  refine ⟨[92, 117, UInt8.ofNat a.toNat, UInt8.ofNat b.toNat, UInt8.ofNat c.toNat], UInt8.ofNat d.toNat, [c, b, a], ?_, ?_, ?_⟩
  · simp only [Utf8.encode_cons, Utf8.encode_nil, Utf8.encodeChar_of_lt ha.ascii, Utf8.encodeChar_of_lt hb.ascii,
      Utf8.encodeChar_of_lt hc.ascii, Utf8.encodeChar_of_lt hd.ascii]
    rfl
  · rw [feed_unitMark]
    simp only [feed, next, List.length_nil, List.length_cons, Nat.reduceLT, Nat.reduceAdd, if_true,
      Utf8.ofUInt8_ofNat ha.ascii, Utf8.ofUInt8_ofNat hb.ascii, Utf8.ofUInt8_ofNat hc.ascii, Move.text?, Option.bind_some]
  · simp only [next, List.length_nil, List.length_cons, Nat.reduceLT, Nat.reduceAdd, if_false,
      Utf8.ofUInt8_ofNat hd.ascii, hex?_eq_some_iff.2 hx]

/-- Where the escape of a unit may begin it is read whole, if that unit may stand there. -/
theorem feed_unit_text {spelling : List Char} {n : Nat} (h : UnitEscape spelling n) (high : Option Nat)
    (content : List UInt8) :
    ∃ read, feed ⟨content, awaiting high⟩ (Utf8.encode spelling) = (unit ⟨content, .digits high read⟩ high n).text? := by
  obtain ⟨front, last, read, he, hf, hn⟩ := feed_unit h high content
  refine ⟨read, ?_⟩
  rw [he, feed_append, hf, Option.bind_some]
  simp only [feed, hn, Option.bind_fun_some]

theorem isHigh_iff {n : Nat} : isHigh n ↔ Utf16.IsHigh n := by
  simp only [isHigh, Utf16.IsHigh, Bool.and_eq_true, decide_eq_true_eq]

theorem isLow_iff {n : Nat} : isLow n ↔ Utf16.IsLow n := by
  simp only [isLow, Utf16.IsLow, Bool.and_eq_true, decide_eq_true_eq]

private theorem pairCode_units {n high low : Nat} (h : 0x10000 ≤ n)
    (hh : high = 0xD800 + (n - 0x10000) / 0x400) (hl : low = 0xDC00 + (n - 0x10000) % 0x400) :
    pairCode high low = n := by
  simp only [pairCode]
  omega

private theorem feed_escape {spelling : List Char} {c : Char} (h : Escape spelling c) (content : List UInt8) :
    feed ⟨content, .plain⟩ (Utf8.encode spelling) =
      some ⟨(String.utf8EncodeChar c).reverse ++ content, .plain⟩ := by
  have hadd (mode : Mode) : add ⟨content, mode⟩ c.toNat = ⟨(String.utf8EncodeChar c).reverse ++ content, .plain⟩ := by
    simp only [add, Char.ofNat_toNat, Utf8.encode_cons, Utf8.encode_nil, List.append_nil]
  cases h with
  | short h => cases h <;> rfl
  | unit h =>
    obtain ⟨read, hf⟩ := feed_unit_text h none content
    simp only [awaiting] at hf
    rw [hf]
    obtain ⟨hh, hl⟩ := Utf16.not_surrogate c
    rw [unit, if_neg (hh ∘ isHigh_iff.1), if_neg (hl ∘ isLow_iff.1), Move.text?, hadd]
  | pair astral hh hl =>
    -- The units are kept as variables: unfolding arithmetic on their literals is what is slow.
    generalize hhigh : 0xD800 + (c.toNat - 0x10000) / 0x400 = high at hh
    generalize hlow : 0xDC00 + (c.toNat - 0x10000) % 0x400 = low at hl
    obtain ⟨read, hf⟩ := feed_unit_text hh none content
    obtain ⟨read', hf'⟩ := feed_unit_text hl (some high) content
    simp only [awaiting] at hf hf'
    have hlt : c.toNat < 0x110000 := by
      have hv : c.toNat.isValidChar := c.valid
      simp only [Nat.isValidChar] at hv
      omega
    have his : isHigh high = true := by
      simp only [isHigh, Bool.and_eq_true, decide_eq_true_eq]
      omega
    have lis : isLow low = true := by
      simp only [isLow, Bool.and_eq_true, decide_eq_true_eq]
      omega
    rw [Utf8.encode_append, feed_append, hf, unit, if_pos his, Move.text?, Option.bind_some, hf', unit, if_pos lis,
      Move.text?, pairCode_units astral hhigh.symm hlow.symm, hadd]

/-- Different bytes are read as different characters. -/
theorem ofUInt8_injective {x y : UInt8} (h : Char.ofUInt8 x = Char.ofUInt8 y) : x = y :=
  UInt8.toNat_inj.1 (congrArg Char.toNat h)

private theorem feed_raw {bytes : List UInt8} (h : ∀ byte ∈ bytes, 0x20 ≤ byte.toNat ∧ byte ≠ 34 ∧ byte ≠ 92)
    (content : List UInt8) : feed ⟨content, .plain⟩ bytes = some ⟨bytes.reverse ++ content, .plain⟩ := by
  induction bytes generalizing content with
  | nil => rfl
  | cons byte bytes ih =>
    obtain ⟨hc, hq, hb⟩ := h byte (by simp)
    have hquote : Char.ofUInt8 byte ≠ '"' := fun he => hq (ofUInt8_injective he)
    have hbackslash : Char.ofUInt8 byte ≠ '\\' := fun he => hb (ofUInt8_injective he)
    have hcontrol : ¬ byte < 0x20 := by
      rw [UInt8.lt_iff_toNat_lt]
      exact Nat.not_lt.2 hc
    simp only [feed, next, hquote, hbackslash, hcontrol, if_false, Move.text?, Option.bind_some]
    rw [ih (fun b hb => h b (by simp [hb])), List.reverse_cons, List.append_assoc, List.singleton_append]

/-- No byte of a character that stands for itself is a quote, a backslash or a control character. -/
theorem raw_bytes {c : Char} (control : 0x20 ≤ c.toNat) (quote : c ≠ '"') (backslash : c ≠ '\\') :
    ∀ byte ∈ String.utf8EncodeChar c, 0x20 ≤ byte.toNat ∧ byte ≠ 34 ∧ byte ≠ 92 := by
  obtain ⟨lead, trails, he, -, ht, hl⟩ := Utf8.encodeChar_shape c
  rw [he, List.forall_mem_cons]
  have hbyte {byte : UInt8} (h : 0x80 ≤ byte.toNat) : 0x20 ≤ byte.toNat ∧ byte ≠ 34 ∧ byte ≠ 92 := by
    refine ⟨by omega, ?_, ?_⟩ <;> rintro rfl <;> revert h <;> decide
  refine ⟨?_, fun byte hb => hbyte (by have := ht byte hb; simp only [Utf8.IsTrail] at this; omega)⟩
  rcases hl with ⟨hl, -⟩ | ⟨hl, -⟩
  · refine ⟨by omega, ?_, ?_⟩
    · rintro rfl
      exact quote (Char.toNat_inj.1 hl.symm)
    · rintro rfl
      exact backslash (Char.toNat_inj.1 hl.symm)
  · exact hbyte hl

/-- What the grammar has between the quotes is read to the bytes of its text. -/
theorem Inside.feed {text content : List Char} (h : Inside text content) (front : List UInt8) :
    Quoted.feed ⟨front, .plain⟩ (Utf8.encode text) = some ⟨(Utf8.encode content).reverse ++ front, .plain⟩ := by
  induction h generalizing front with
  | nil => rfl
  | @cons spelling text content c hs rest ih =>
    have hc : Quoted.feed ⟨front, .plain⟩ (Utf8.encode spelling) =
        some ⟨(String.utf8EncodeChar c).reverse ++ front, .plain⟩ := by
      cases hs with
      | raw control quote backslash =>
        rw [Utf8.encode_cons, Utf8.encode_nil, List.append_nil]
        exact feed_raw (raw_bytes control quote backslash) front
      | escape h => exact feed_escape h front
    rw [Utf8.encode_append, feed_append, hc, Option.bind_some, ih]
    simp only [Utf8.encode_cons, List.reverse_append, List.append_assoc]

/-- One step in the reading of a content: a byte taken as it is, or an escape. -/
inductive Piece where
  | raw (byte : UInt8)
  | escape (spelling : List Char) (c : Char)

namespace Piece

def text : Piece → List UInt8
  | raw byte => [byte]
  | escape spelling _ => Utf8.encode spelling

def content : Piece → List UInt8
  | raw byte => [byte]
  | escape _ c => String.utf8EncodeChar c

def Allowed : Piece → Prop
  | raw byte => 0x20 ≤ byte.toNat ∧ byte ≠ 34 ∧ byte ≠ 92
  | escape spelling c => Escape spelling c

end Piece

private theorem raw_of_trails {pieces : List Piece} (ha : ∀ piece ∈ pieces, piece.Allowed) {trails rest : List UInt8}
    (ht : ∀ byte ∈ trails, Utf8.IsTrail byte) (h : pieces.flatMap Piece.content = trails ++ rest) :
    ∃ back : List Piece, (∀ piece ∈ back, piece.Allowed) ∧
      pieces.flatMap Piece.text = trails ++ back.flatMap Piece.text ∧
      back.flatMap Piece.content = rest := by
  induction trails generalizing pieces with
  | nil => exact ⟨pieces, ha, rfl, h⟩
  | cons trail trails ih =>
    rw [List.forall_mem_cons] at ht
    cases pieces with
    | nil => simp at h
    | cons piece pieces =>
      rw [List.forall_mem_cons] at ha
      cases piece with
      | raw byte =>
        simp only [List.flatMap_cons, Piece.content, List.cons_append, List.nil_append, List.cons.injEq] at h
        obtain ⟨back, hb, ht', hc⟩ := ih ha.2 ht.2 h.2
        exact ⟨back, hb, by simp [Piece.text, ht', h.1], hc⟩
      | escape spelling c =>
        obtain ⟨lead, more, he, hl, -, -⟩ := Utf8.encodeChar_shape c
        simp only [List.flatMap_cons, Piece.content, he, List.cons_append, List.cons.injEq] at h
        exact absurd (h.1 ▸ ht.1) hl

private theorem char_of_lead {lead : UInt8} {c : Char} (h : 0x20 ≤ lead.toNat ∧ lead ≠ 34 ∧ lead ≠ 92)
    (hl : lead.toNat = c.toNat ∨ 0x80 ≤ c.toNat) : 0x20 ≤ c.toNat ∧ c ≠ '"' ∧ c ≠ '\\' := by
  obtain ⟨hc, hq, hb⟩ := h
  rcases hl with hl | hl
  · refine ⟨by omega, ?_, ?_⟩
    · rintro rfl
      exact hq (UInt8.toNat_inj.1 hl)
    · rintro rfl
      exact hb (UInt8.toNat_inj.1 hl)
  · refine ⟨by omega, ?_, ?_⟩ <;> rintro rfl <;> revert hl <;> decide

/-- Where the content of the pieces is a text, the pieces are that text, written as the grammar allows. -/
theorem inside_of_pieces {pieces : List Piece} (ha : ∀ piece ∈ pieces, piece.Allowed) {content : List Char}
    (h : pieces.flatMap Piece.content = Utf8.encode content) :
    ∃ text, pieces.flatMap Piece.text = Utf8.encode text ∧ Inside text content := by
  induction content generalizing pieces with
  | nil =>
    cases pieces with
    | nil => exact ⟨[], rfl, .nil⟩
    | cons piece pieces =>
      cases piece with
      | raw byte => simp [Piece.content] at h
      | escape spelling c => simp [Piece.content] at h
  | cons d content ih =>
    obtain ⟨lead, trails, hd, -, ht, hl⟩ := Utf8.encodeChar_shape d
    cases pieces with
    | nil => simp at h
    | cons piece pieces =>
      rw [List.forall_mem_cons] at ha
      cases piece with
      | escape spelling c =>
        have hf := congrArg Utf8.first? h
        simp only [List.flatMap_cons, Piece.content, Utf8.encode_cons, Utf8.first?_encodeChar, Option.some.injEq,
          Prod.mk.injEq] at hf
        obtain ⟨rfl, hf⟩ := hf
        obtain ⟨text, he, hi⟩ := ih ha.2 hf
        exact ⟨spelling ++ text, by simp [Piece.text, he], .cons (.escape ha.1) hi⟩
      | raw byte =>
        simp only [List.flatMap_cons, Piece.content, List.cons_append, List.nil_append, Utf8.encode_cons, hd,
          List.cons.injEq] at h
        obtain ⟨rfl, h⟩ := h
        obtain ⟨back, hb, hx, hc⟩ := raw_of_trails ha.2 ht h
        obtain ⟨text, he, hi⟩ := ih hb hc
        obtain ⟨control, quote, backslash⟩ := char_of_lead ha.1 (hl.imp And.left And.right)
        exact ⟨d :: text, by simp [Piece.text, hx, hd, he], .cons (.raw control quote backslash) hi⟩

/-- The bytes of an escape that is not complete, and the mode behind them. -/
inductive Pending : List UInt8 → Mode → Prop
  | plain : Pending [] .plain
  | escape : Pending [92] .escape
  | digits {tail : List UInt8} (short : tail.length ≤ 3) :
      Pending (92 :: 117 :: tail) (.digits none (tail.map Char.ofUInt8).reverse)
  | pairBackslash {spelling : List Char} {high : Nat} (h : UnitEscape spelling high) (hh : isHigh high) :
      Pending (Utf8.encode spelling) (.pairBackslash high)
  | pairLetter {spelling : List Char} {high : Nat} (h : UnitEscape spelling high) (hh : isHigh high) :
      Pending (Utf8.encode spelling ++ [92]) (.pairLetter high)
  | pairDigits {spelling : List Char} {high : Nat} {tail : List UInt8} (h : UnitEscape spelling high)
      (hh : isHigh high) (short : tail.length ≤ 3) :
      Pending (Utf8.encode spelling ++ 92 :: 117 :: tail) (.digits (some high) (tail.map Char.ofUInt8).reverse)

/-- The bytes behind the opening quote are whole pieces with this content and an escape that is not complete. -/
def Holds (bytes : List UInt8) (text : Quoted) : Prop :=
  ∃ (pieces : List Piece) (pending : List UInt8), (∀ piece ∈ pieces, piece.Allowed) ∧
    bytes = pieces.flatMap Piece.text ++ pending ∧ text.content.reverse = pieces.flatMap Piece.content ∧
    Pending pending text.mode

/-- Behind the opening quote there is nothing yet. -/
theorem holds_opened : Holds [] opened := ⟨[], [], by simp, rfl, rfl, .plain⟩

private theorem short_of_short? {letter c : Char} (h : short? letter = some c) : Short letter c := by
  simp only [short?] at h
  split at h <;> cases h <;> constructor

private theorem Short.ascii {letter c : Char} (h : Short letter c) : letter.toNat < 0x80 := by
  cases h <;> decide

private theorem unit_of_bytes {tail : List UInt8} {byte : UInt8} {n : Nat} (hl : tail.length = 3)
    (h : hex? (Char.ofUInt8 byte :: (tail.map Char.ofUInt8).reverse) = some n) :
    ∃ spelling, UnitEscape spelling n ∧ Utf8.encode spelling = 92 :: 117 :: (tail ++ [byte]) := by
  match tail, hl with
  | [x, y, z], _ =>
    have he := hex?_eq_some_iff.1 h
    refine ⟨_, he, ?_⟩
    obtain ⟨ha, hb, hc, hd⟩ := he
    have hx := Utf8.encode_ofUInt8 ha.ascii
    have hy := Utf8.encode_ofUInt8 hb.ascii
    have hz := Utf8.encode_ofUInt8 hc.ascii
    have hw := Utf8.encode_ofUInt8 hd.ascii
    simp only [Utf8.encode_cons, Utf8.encode_nil, List.append_nil] at hx hy hz hw
    simp only [Utf8.encode_cons, Utf8.encode_nil, hx, hy, hz, hw]
    rfl

private theorem char_of_pair {high low : Nat} (hh : isHigh high) (hl : isLow low) :
    ∃ c : Char, c.toNat = pairCode high low ∧ 0x10000 ≤ c.toNat ∧
      high = 0xD800 + (c.toNat - 0x10000) / 0x400 ∧ low = 0xDC00 + (c.toNat - 0x10000) % 0x400 := by
  simp only [isHigh, isLow, Bool.and_eq_true, decide_eq_true_eq] at hh hl
  generalize hcode : pairCode high low = code
  simp only [pairCode] at hcode
  have hv : code.isValidChar := by
    simp only [Nat.isValidChar]
    omega
  obtain ⟨c, hc⟩ : ∃ c : Char, c.toNat = code := ⟨_, Utf16.toNat_ofNat hv⟩
  exact ⟨c, hc, by omega, by omega, by omega⟩

private theorem Holds.add {pieces : List Piece} (ha : ∀ piece ∈ pieces, piece.Allowed) {spelling : List Char} {c : Char}
    (he : Escape spelling c) {text : Quoted} (hc : text.content.reverse = pieces.flatMap Piece.content) {code : Nat}
    (hcode : c.toNat = code) : Holds (pieces.flatMap Piece.text ++ Utf8.encode spelling) (text.add code) := by
  subst hcode
  refine ⟨pieces ++ [.escape spelling c], [], ?_, ?_, ?_, .plain⟩
  · rw [List.forall_mem_append]
    exact ⟨ha, List.forall_mem_singleton.2 he⟩
  · simp [Piece.text]
  · simp [Quoted.add, Piece.content, hc]

/-- A byte that goes into a quoted text completes a piece or belongs to an escape. -/
theorem Holds.step {bytes : List UInt8} {text next : Quoted} (h : Holds bytes text) {byte : UInt8}
    (hn : text.next byte = .more next) : Holds (bytes ++ [byte]) next := by
  obtain ⟨pieces, pending, ha, rfl, hc, hp⟩ := h
  obtain ⟨content, mode⟩ := text
  simp only at hc hp
  cases hp with
  | plain =>
    simp only [Quoted.next] at hn
    split at hn
    · cases hn
    rename_i hquote
    split at hn
    · cases hn
      rename_i hb
      cases ofUInt8_injective (y := 92) hb
      exact ⟨pieces, [92], ha, by simp, hc, .escape⟩
    rename_i hbackslash
    split at hn
    · cases hn
    · rename_i hcontrol
      cases hn
      have hraw : (Piece.raw byte).Allowed := by
        refine ⟨?_, ?_, ?_⟩
        · rw [UInt8.lt_iff_toNat_lt] at hcontrol
          exact Nat.not_lt.1 hcontrol
        · rintro rfl
          exact hquote rfl
        · rintro rfl
          exact hbackslash rfl
      refine ⟨pieces ++ [.raw byte], [], ?_, by simp [Piece.text], by simp [Piece.content, hc], .plain⟩
      rw [List.forall_mem_append]
      exact ⟨ha, List.forall_mem_singleton.2 hraw⟩
  | escape =>
    simp only [Quoted.next] at hn
    split at hn
    · cases hn
      rename_i hu
      cases ofUInt8_injective (y := 117) hu
      exact ⟨pieces, [92, 117], ha, by simp, hc, @Pending.digits [] (by simp)⟩
    split at hn
    · rename_i c hs
      cases hn
      have hs := short_of_short? hs
      have he := Utf8.encode_ofUInt8 hs.ascii
      simp only [Utf8.encode_cons, Utf8.encode_nil, List.append_nil] at he
      have hadd := @Holds.add pieces ha _ _ (.short hs) ⟨content, .escape⟩ hc _ rfl
      simpa [he, Utf8.encodeChar_of_lt (c := '\\') (by decide)] using hadd
    · cases hn
  | @digits tail short =>
    simp only [Quoted.next, List.length_reverse, List.length_map] at hn
    split at hn
    · rename_i hlt
      cases hn
      refine ⟨pieces, 92 :: 117 :: (tail ++ [byte]), ha, by simp, hc, ?_⟩
      simpa using @Pending.digits (tail ++ [byte]) (by simp; omega)
    split at hn
    · rename_i hlt n hx
      obtain ⟨spelling, hs, he⟩ := unit_of_bytes (by omega) hx
      rw [unit] at hn
      split at hn
      · rename_i hh
        cases hn
        exact ⟨pieces, _, ha, by simp [he], hc, .pairBackslash hs hh⟩
      split at hn
      · cases hn
      · rename_i hh hl
        cases hn
        have hv := Utf16.toNat_ofNat (Utf16.isValidChar_of_lt hs.lt (hh ∘ isHigh_iff.2) (hl ∘ isLow_iff.2))
        rw [List.append_assoc, List.cons_append, List.cons_append, ← he]
        exact Holds.add ha (.unit (hv.symm ▸ hs)) hc hv
    · cases hn
  | @pairBackslash spelling high h hh =>
    simp only [Quoted.next] at hn
    split at hn
    · cases hn
      rename_i hb
      cases ofUInt8_injective (y := 92) hb
      exact ⟨pieces, _, ha, by simp, hc, .pairLetter h hh⟩
    · cases hn
  | @pairLetter spelling high h hh =>
    simp only [Quoted.next] at hn
    split at hn
    · cases hn
      rename_i hu
      cases ofUInt8_injective (y := 117) hu
      exact ⟨pieces, _, ha, by simp, hc, @Pending.pairDigits _ _ [] h hh (by simp)⟩
    · cases hn
  | @pairDigits spelling high tail h hh short =>
    simp only [Quoted.next, List.length_reverse, List.length_map] at hn
    split at hn
    · rename_i hlt
      cases hn
      refine ⟨pieces, Utf8.encode spelling ++ 92 :: 117 :: (tail ++ [byte]), ha, by simp, hc, ?_⟩
      simpa using @Pending.pairDigits _ _ (tail ++ [byte]) h hh (by simp; omega)
    split at hn
    · rename_i hlt n hx
      obtain ⟨lowSpelling, hs, he⟩ := unit_of_bytes (by omega) hx
      rw [unit] at hn
      split at hn
      · rename_i hl
        obtain ⟨c, hcode, astral, hhigh, hlow⟩ := char_of_pair hh hl
        rw [← Move.more.inj hn, List.append_assoc, List.append_assoc, List.cons_append, List.cons_append, ← he,
          ← Utf8.encode_append]
        exact Holds.add ha (.pair astral (hhigh ▸ h) (hlow ▸ hs)) hc hcode
      · cases hn
    · cases hn

/-- Only a quote in plain reading closes a quoted text, and the content is what was gathered. -/
theorem next_closes {text : Quoted} {byte : UInt8} {closed : List UInt8} (h : text.next byte = .closes closed) :
    byte = 34 ∧ text.mode = .plain ∧ closed = text.content.reverse := by
  obtain ⟨content, mode⟩ := text
  cases mode with
  | plain =>
    simp only [Quoted.next] at h
    split at h
    · rename_i hq
      cases h
      exact ⟨ofUInt8_injective (y := 34) hq, rfl, rfl⟩
    split at h
    · cases h
    split at h <;> cases h
  | escape =>
    simp only [Quoted.next] at h
    split at h
    · cases h
    split at h <;> cases h
  | digits high read =>
    simp only [Quoted.next] at h
    split at h
    · cases h
    split at h
    · cases high <;> simp only [unit] at h <;> repeat' split at h
      all_goals cases h
    · cases h
  | pairBackslash high | pairLetter high =>
    simp only [Quoted.next] at h
    split at h <;> cases h

/-- Where a quoted text closes, whole pieces stand behind its opening quote, and their content is what it closes
with. -/
theorem Holds.closes {bytes : List UInt8} {text : Quoted} (h : Holds bytes text) {byte : UInt8} {closed : List UInt8}
    (hn : text.next byte = .closes closed) :
    byte = 34 ∧ ∃ pieces : List Piece, (∀ piece ∈ pieces, piece.Allowed) ∧ bytes = pieces.flatMap Piece.text ∧
      closed = pieces.flatMap Piece.content := by
  obtain ⟨pieces, pending, ha, rfl, hc, hp⟩ := h
  obtain ⟨rfl, hm, rfl⟩ := next_closes hn
  rw [hm] at hp
  cases hp
  exact ⟨rfl, pieces, ha, List.append_nil _, hc⟩

/-- A text that closes with a readable content is one of the grammar. -/
theorem Holds.close {bytes : List UInt8} {text : Quoted} (h : Holds bytes text) {byte : UInt8} {closed : List UInt8}
    (hn : text.next byte = .closes closed) {content : List Char} (hd : Utf8.decode closed = (content, [])) :
    ∃ written, bytes ++ [byte] = Utf8.encode (written ++ ['"']) ∧ Inside written content := by
  obtain ⟨rfl, pieces, ha, rfl, rfl⟩ := h.closes hn
  obtain ⟨written, he, hi⟩ := inside_of_pieces ha (Utf8.decode_eq_iff.1 hd)
  refine ⟨written, ?_, hi⟩
  rw [he, Utf8.encode_append]
  rfl

end TypeSketch.Quoted
