/-! UTF-8 over byte lists: characters to bytes, and the longest readable front of any byte list.
Only shortest forms of scalar values are read, so each character has one byte sequence. -/
namespace TypeSketch.Utf8

def encode (text : List Char) : List UInt8 := text.flatMap String.utf8EncodeChar

/-- The six bits of a continuation byte, and the bytes behind it. -/
def trail? : List UInt8 → Option (Nat × List UInt8)
  | [] => none
  | byte :: rest => if byte.toNat / 64 = 2 then some (byte.toNat % 64, rest) else none

/-- The character of a code point that is a scalar value and not below `least`,
the first one that needs as many bytes. -/
def scalar? (least code : Nat) (rest : List UInt8) : Option (Char × List UInt8) :=
  if least ≤ code ∧ code.isValidChar then some (Char.ofNat code, rest) else none

def first? : List UInt8 → Option (Char × List UInt8)
  | [] => none
  | byte :: rest =>
    let lead := byte.toNat
    if lead < 0x80 then scalar? 0 lead rest
    else if lead / 32 = 6 then do
      let (x, rest) ← trail? rest
      scalar? 0x80 (lead % 32 * 64 + x) rest
    else if lead / 16 = 14 then do
      let (x, rest) ← trail? rest
      let (y, rest) ← trail? rest
      scalar? 0x800 ((lead % 16 * 64 + x) * 64 + y) rest
    else if lead / 8 = 30 then do
      let (x, rest) ← trail? rest
      let (y, rest) ← trail? rest
      let (z, rest) ← trail? rest
      scalar? 0x10000 (((lead % 8 * 64 + x) * 64 + y) * 64 + z) rest
    else none

private theorem trail?_length {bytes rest : List UInt8} {x : Nat} (h : trail? bytes = some (x, rest)) :
    rest.length < bytes.length := by
  cases bytes with
  | nil => simp [trail?] at h
  | cons byte more =>
    simp only [trail?] at h
    split at h
    · cases h
      simp
    · cases h

private theorem scalar?_rest {least code : Nat} {rest left : List UInt8} {c : Char}
    (h : scalar? least code rest = some (c, left)) : left = rest := by
  simp only [scalar?] at h
  split at h
  · cases h
    rfl
  · cases h

/-- A character takes at least one byte. -/
theorem first?_length {bytes left : List UInt8} {c : Char} (h : first? bytes = some (c, left)) :
    left.length < bytes.length := by
  cases bytes with
  | nil => simp [first?] at h
  | cons byte rest =>
    simp only [first?, Option.bind_eq_bind] at h
    split at h
    · simp [scalar?_rest h]
    split at h
    · obtain ⟨⟨x, r⟩, hx, h⟩ := Option.bind_eq_some_iff.1 h
      have := trail?_length hx
      have := scalar?_rest h
      simp_all
      omega
    split at h
    · obtain ⟨⟨x, r⟩, hx, h⟩ := Option.bind_eq_some_iff.1 h
      obtain ⟨⟨y, s⟩, hy, h⟩ := Option.bind_eq_some_iff.1 h
      have := trail?_length hx
      have := trail?_length hy
      have := scalar?_rest h
      simp_all
      omega
    split at h
    · obtain ⟨⟨x, r⟩, hx, h⟩ := Option.bind_eq_some_iff.1 h
      obtain ⟨⟨y, s⟩, hy, h⟩ := Option.bind_eq_some_iff.1 h
      obtain ⟨⟨z, t⟩, hz, h⟩ := Option.bind_eq_some_iff.1 h
      have := trail?_length hx
      have := trail?_length hy
      have := trail?_length hz
      have := scalar?_rest h
      simp_all
      omega
    · cases h

/-- The characters of the longest front that is UTF-8, and the bytes from the first ill-formed one on. -/
def decode (bytes : List UInt8) : List Char × List UInt8 :=
  match _ : first? bytes with
  | none => ([], bytes)
  | some (c, rest) => (decode rest).map (c :: ·) id
termination_by bytes.length
decreasing_by exact first?_length ‹_›

end TypeSketch.Utf8
