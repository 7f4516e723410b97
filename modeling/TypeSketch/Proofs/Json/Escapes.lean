import Mathlib.Data.List.SplitBy
import TypeSketch.Proofs.Json.Tagged
import TypeSketch.Proofs.Text.Utf16

/-! Escapes of UTF-16 units in quoted texts. Between the quotes stand characters for themselves, short escapes and escapes of
units, in any order. Such a text is read just if the units of each maximal run of escapes are well-formed UTF-16, and then as
what its parts stand for, whether it is a value or a key. -/
namespace TypeSketch

namespace Quoted

/-- What is written between quotes, part by part: a character for itself, a short escape, or the escape of a unit. -/
inductive Part where
  | raw (c : Char) (control : 0x20 ≤ c.toNat) (quote : c ≠ '"') (backslash : c ≠ '\\')
  | short (letter c : Char) (h : Short letter c)
  | unit (spelling : List Char) (n : Nat) (h : UnitEscape spelling n)

namespace Part

def text : Part → List Char
  | raw c _ _ _ => [c]
  | short letter _ _ => ['\\', letter]
  | unit spelling _ _ => spelling

/-- The character that it stands for, unless it is the escape of a unit. -/
def character : Part → List Char
  | raw c _ _ _ | short _ c _ => [c]
  | unit _ _ _ => []

def units : Part → List Nat
  | raw _ _ _ _ | short _ _ _ => []
  | unit _ n _ => [n]

def isUnit : Part → Bool
  | raw _ _ _ _ | short _ _ _ => false
  | unit _ _ _ => true

end Part

/-- The parts, cut into the maximal runs of escapes of units and, one by one, the parts between them. -/
def stretches (parts : List Part) : List (List Part) := parts.splitBy fun part next => part.isUnit && next.isUnit

/-- In each maximal run of escapes the surrogates stand in pairs. -/
def Paired (parts : List Part) : Prop := ∀ stretch ∈ stretches parts, Utf16.WellFormed (stretch.flatMap Part.units)

/-- The characters that the parts stand for; those of a run are the ones its units are decoded to. -/
def meaning (parts : List Part) : List Char :=
  (stretches parts).flatMap fun stretch => stretch.flatMap Part.character ++ Utf16.decode (stretch.flatMap Part.units)

def literal (parts : List Part) : List Char := '"' :: parts.flatMap Part.text ++ ['"']

variable {part : Part} {run rest : List Part}

private theorem stretches_append (nonempty : run ≠ []) (together : run.IsChain fun part next => part.isUnit && next.isUnit)
    (ends : ∀ part ∈ run.getLast?, ∀ next ∈ rest.head?, (part.isUnit && next.isUnit) = false) :
    stretches (run ++ rest) = run :: stretches rest := by
  rw [stretches, List.splitBy_append ends, List.splitBy_of_isChain nonempty together]
  rfl

private theorem stretches_cons (h : part.isUnit = false) (rest : List Part) :
    stretches (part :: rest) = [part] :: stretches rest :=
  stretches_append (List.cons_ne_nil _ _) (List.isChain_singleton _) (by simp [h])

/-- A run up to a part that is no escape of a unit is maximal. -/
theorem stretches_run (nonempty : run ≠ []) (h : ∀ part ∈ run, part.isUnit)
    (ends : ∀ part ∈ rest.head?, part.isUnit = false) : stretches (run ++ rest) = run :: stretches rest := by
  refine stretches_append nonempty ?_ fun part _ next hn => by rw [ends next hn, Bool.and_false]
  rw [List.isChain_iff_getElem]
  intro i hi
  rw [h _ (List.getElem_mem _), h _ (List.getElem_mem _)]
  rfl

/-- Induction over the stretches of some parts. -/
@[elab_as_elim]
theorem stretchInduction {motive : List Part → Prop} (nil : motive [])
    (character : ∀ part rest, part.isUnit = false → motive rest → motive (part :: rest))
    (run : ∀ run rest, run ≠ [] → (∀ part ∈ run, part.isUnit) → (∀ part ∈ rest.head?, part.isUnit = false) →
      motive rest → motive (run ++ rest)) (parts : List Part) : motive parts := by
  match parts with
  | [] => exact nil
  | part :: rest =>
    by_cases h : part.isUnit
    · have hshort : (rest.dropWhile Part.isUnit).length < rest.length + 1 :=
        Nat.lt_succ_of_le (List.dropWhile_sublist _).length_le
      have hrest := stretchInduction nil character run (rest.dropWhile Part.isUnit)
      have hends : ∀ part ∈ (rest.dropWhile Part.isUnit).head?, part.isUnit = false := by
        intro part hp
        have hd := List.head?_dropWhile_not Part.isUnit rest
        rw [hp] at hd
        simpa using hd
      have hrun := run (part :: rest.takeWhile Part.isUnit) _ (List.cons_ne_nil _ _)
        (List.forall_mem_cons.2 ⟨h, List.all_eq_true.1 List.all_takeWhile⟩) hends hrest
      rwa [List.cons_append, List.takeWhile_append_dropWhile] at hrun
    · exact character part rest (by simpa using h) (stretchInduction nil character run rest)
termination_by parts.length

private theorem paired_cons_iff (h : part.isUnit = false) : Paired (part :: rest) ↔ Paired rest := by
  have hunits : part.units = [] := by
    cases part with
    | raw _ _ _ _ | short _ _ _ => rfl
    | unit _ _ _ => cases h
  have hpart : Utf16.WellFormed ([part].flatMap Part.units) := by
    rw [List.flatMap_singleton, hunits]
    exact Utf16.wellFormed_nil
  rw [Paired, stretches_cons h, List.forall_mem_cons]
  exact and_iff_right hpart

private theorem paired_run_iff (nonempty : run ≠ []) (h : ∀ part ∈ run, part.isUnit)
    (ends : ∀ part ∈ rest.head?, part.isUnit = false) :
    Paired (run ++ rest) ↔ Utf16.WellFormed (run.flatMap Part.units) ∧ Paired rest := by
  rw [Paired, stretches_run nonempty h ends, List.forall_mem_cons]
  rfl

private theorem meaning_cons (h : part.isUnit = false) (rest : List Part) :
    meaning (part :: rest) = part.character ++ meaning rest := by
  rw [meaning, stretches_cons h, List.flatMap_cons, List.flatMap_singleton, List.flatMap_singleton]
  cases part with
  | raw _ _ _ _ | short _ _ _ => rfl
  | unit _ _ _ => cases h

private theorem meaning_run (nonempty : run ≠ []) (h : ∀ part ∈ run, part.isUnit)
    (ends : ∀ part ∈ rest.head?, part.isUnit = false) :
    meaning (run ++ rest) = Utf16.decode (run.flatMap Part.units) ++ meaning rest := by
  have hnone : run.flatMap Part.character = [] := by
    rw [List.flatMap_eq_nil_iff]
    intro part hp
    have hu := h part hp
    cases part with
    | raw _ _ _ _ | short _ _ _ => cases hu
    | unit _ _ _ => rfl
  rw [meaning, stretches_run nonempty h ends, List.flatMap_cons, hnone]
  rfl

/-- Contents are put together as their spellings are. -/
theorem Inside.append {text content more tail : List Char} (h : Inside text content) (hm : Inside more tail) :
    Inside (text ++ more) (content ++ tail) := by
  induction h with
  | nil => exact hm
  | cons hs _ ih =>
    rw [List.append_assoc, List.cons_append]
    exact .cons hs ih

private theorem exists_unit {n : Nat} {more : List Nat} (h : ∀ part ∈ run, part.isUnit)
    (hu : run.flatMap Part.units = n :: more) :
    ∃ spelling back, ∃ hs : UnitEscape spelling n, run = .unit spelling n hs :: back ∧ (∀ part ∈ back, part.isUnit) ∧
      back.flatMap Part.units = more := by
  cases run with
  | nil => cases hu
  | cons part back =>
    rw [List.forall_mem_cons] at h
    cases part with
    | raw _ _ _ _ | short _ _ _ => cases h.1
    | unit spelling m hs =>
      obtain ⟨rfl, hmore⟩ := List.cons.inj hu
      exact ⟨spelling, back, hs, rfl, h.2, hmore⟩

private theorem inside_run {text : List Char} (h : ∀ part ∈ run, part.isUnit)
    (hu : run.flatMap Part.units = Utf16.encode text) : Inside (run.flatMap Part.text) text := by
  induction text generalizing run with
  | nil =>
    cases run with
    | nil => exact .nil
    | cons part back =>
      rw [List.forall_mem_cons] at h
      cases part with
      | raw _ _ _ _ | short _ _ _ => cases h.1
      | unit _ _ _ => cases hu
  | cons c text ih =>
    rw [Utf16.encode_cons, Utf16.units] at hu
    split at hu
    · obtain ⟨spelling, back, hs, rfl, hb, hmore⟩ := exists_unit h hu
      exact .cons (.escape (.unit hs)) (ih hb hmore)
    · rename_i hc
      obtain ⟨high, middle, hh, rfl, hm, hrest⟩ := exists_unit h hu
      obtain ⟨low, back, hl, rfl, hb, hmore⟩ := exists_unit hm hrest
      have hpair := Inside.cons (.escape (.pair (Nat.not_lt.1 hc) hh hl)) (ih hb hmore)
      simpa [Part.text] using hpair

private theorem inside_of_wellFormed (h : ∀ part ∈ run, part.isUnit) (hw : Utf16.WellFormed (run.flatMap Part.units)) :
    Inside (run.flatMap Part.text) (Utf16.decode (run.flatMap Part.units)) := by
  refine inside_run h (Utf16.encode_decode hw ?_).symm
  intro n hn
  obtain ⟨part, -, hp⟩ := List.mem_flatMap.1 hn
  cases part with
  | raw _ _ _ _ | short _ _ _ => cases hp
  | unit spelling m hs =>
    rw [List.mem_singleton.1 hp]
    exact hs.lt

private theorem inside_character (h : part.isUnit = false) : Inside part.text part.character := by
  cases part with
  | raw c control quote backslash => exact .cons (.raw control quote backslash) .nil
  | short letter c hs => exact .cons (.escape (.short hs)) .nil
  | unit _ _ _ => cases h

/-- Parts whose surrogates stand in pairs are what the grammar has for their meaning. -/
theorem inside_of_paired {parts : List Part} (h : Paired parts) : Inside (parts.flatMap Part.text) (meaning parts) := by
  induction parts using stretchInduction with
  | nil => exact .nil
  | character part rest hu ih =>
    rw [meaning_cons hu, List.flatMap_cons]
    exact (inside_character hu).append (ih ((paired_cons_iff hu).1 h))
  | run run rest nonempty hu ends ih =>
    obtain ⟨hrun, hrest⟩ := (paired_run_iff nonempty hu ends).1 h
    rw [meaning_run nonempty hu ends, List.flatMap_append]
    exact (inside_of_wellFormed hu hrun).append (ih hrest)

private theorem written_of_paired {parts : List Part} (h : Paired parts) : Written (literal parts) (meaning parts) :=
  .mk (inside_of_paired h)

def Refuses (text : Quoted) (bytes : List UInt8) : Prop :=
  ∃ front byte back next, bytes = front ++ byte :: back ∧ text.feed front = some next ∧ next.next byte = .refused

private theorem refuses_byte {text : Quoted} {byte : UInt8} (h : text.next byte = .refused) (back : List UInt8) :
    text.Refuses (byte :: back) := ⟨[], byte, back, text, rfl, rfl, h⟩

private theorem refuses_behind {text next : Quoted} {front back : List UInt8} (hf : text.feed front = some next)
    (h : next.Refuses back) : text.Refuses (front ++ back) := by
  obtain ⟨middle, byte, more, last, rfl, hm, hl⟩ := h
  refine ⟨front ++ middle, byte, more, last, (List.append_assoc _ _ _).symm, ?_, hl⟩
  rw [feed_append, hf, Option.bind_some, hm]

private theorem refuses_unit {spelling : List Char} {n : Nat} (h : UnitEscape spelling n) {high : Option Nat}
    {content : List UInt8} (hn : ∀ read, unit ⟨content, .digits high read⟩ high n = .refused) (back : List UInt8) :
    Refuses ⟨content, awaiting high⟩ (Utf8.encode spelling ++ back) := by
  obtain ⟨front, last, read, he, hf, hl⟩ := feed_unit h high content
  rw [he, List.append_assoc]
  exact refuses_behind hf (refuses_byte (hl.trans (hn read)) back)

private theorem refuses_character (h : part.isUnit = false) (content : List UInt8) (high : Nat) (back : List UInt8) :
    Refuses ⟨content, awaiting (some high)⟩ (Utf8.encode part.text ++ back) := by
  cases part with
  | raw c control quote backslash =>
    obtain ⟨lead, trails, he, -, -, -⟩ := Utf8.encodeChar_shape c
    have hlead := (raw_bytes control quote backslash lead (by simp [he])).2.2
    have hc : Char.ofUInt8 lead ≠ '\\' := fun hb => hlead (ofUInt8_injective hb)
    rw [Part.text, Utf8.encode_cons, he]
    refine refuses_byte ?_ _
    simp only [awaiting, next, hc, if_false]
  | short letter c hs =>
    cases hs <;> exact ⟨[92], _, back, _, rfl, rfl, rfl⟩
  | unit _ _ _ => cases h

/-- An escape is refused or read. If it is read, the units from the one before that awaits its pair are well-formed just if
those behind it are, from the one that awaits its pair then. -/
private theorem refuses_or_feed {high : Option Nat} (hh : ∀ n ∈ high, Utf16.IsHigh n) {spelling : List Char} {n : Nat}
    (hs : UnitEscape spelling n) (content : List UInt8) :
    (∀ back, Refuses ⟨content, awaiting high⟩ (Utf8.encode spelling ++ back)) ∨
      ∃ content' high', feed ⟨content, awaiting high⟩ (Utf8.encode spelling) = some ⟨content', awaiting high'⟩ ∧
        (∀ n ∈ high', Utf16.IsHigh n) ∧
        ∀ rest, Utf16.WellFormed (high.toList ++ n :: rest) ↔ Utf16.WellFormed (high'.toList ++ rest) := by
  obtain ⟨read, hf⟩ := feed_unit_text hs high content
  cases high with
  | none =>
    by_cases hhigh : Utf16.IsHigh n
    · rw [unit, if_pos (isHigh_iff.2 hhigh)] at hf
      exact .inr ⟨_, some n, hf, by simpa using hhigh, fun rest => .rfl⟩
    by_cases hlow : Utf16.IsLow n
    · refine .inl (refuses_unit hs fun read => ?_)
      rw [unit, if_neg (hhigh ∘ isHigh_iff.1), if_pos (isLow_iff.2 hlow)]
    · rw [unit, if_neg (hhigh ∘ isHigh_iff.1), if_neg (hlow ∘ isLow_iff.1)] at hf
      exact .inr ⟨_, none, hf, by simp, fun rest => Utf16.wellFormed_cons_iff hhigh hlow⟩
  | some high =>
    by_cases hlow : Utf16.IsLow n
    · rw [unit, if_pos (isLow_iff.2 hlow)] at hf
      exact .inr ⟨_, none, hf, by simp, fun rest => Utf16.wellFormed_pair_iff (hh high rfl) hlow⟩
    · refine .inl (refuses_unit hs fun read => ?_)
      rw [unit, if_neg (hlow ∘ isLow_iff.1)]

private theorem refuses_run {high : Option Nat} (hh : ∀ n ∈ high, Utf16.IsHigh n) (h : ∀ part ∈ run, part.isUnit)
    (hw : ¬ Utf16.WellFormed (high.toList ++ run.flatMap Part.units)) (content : List UInt8) {back : List UInt8}
    (hb : ∀ content high, Refuses ⟨content, awaiting (some high)⟩ back) :
    Refuses ⟨content, awaiting high⟩ (Utf8.encode (run.flatMap Part.text) ++ back) := by
  -- The unit that awaits its pair, if there is one, is read as the first of the run.
  induction run generalizing high content with
  | nil =>
    cases high with
    | none => exact absurd Utf16.wellFormed_nil hw
    | some high => exact hb content high
  | cons part run ih =>
    rw [List.forall_mem_cons] at h
    cases part with
    | raw _ _ _ _ | short _ _ _ => cases h.1
    | unit spelling n hs =>
      rw [List.flatMap_cons, Utf8.encode_append, List.append_assoc]
      rcases refuses_or_feed hh hs content with hr | ⟨content', high', hf, hh', hiff⟩
      · exact hr _
      · exact refuses_behind hf (ih hh' h.2 (mt (hiff _).2 hw) content')

private theorem Inside.refuses {text content back : List Char} (hi : Inside text content)
    (h : ∀ front, Refuses ⟨front, .plain⟩ (Utf8.encode back)) (front : List UInt8) :
    Refuses ⟨front, .plain⟩ (Utf8.encode (text ++ back)) := by
  rw [Utf8.encode_append]
  exact refuses_behind (hi.feed front) (h _)

/-- Where the surrogates do not stand in pairs one of the bytes up to the closing quote is refused. -/
theorem refuses_of_not_paired {parts : List Part} (h : ¬ Paired parts) (front : List UInt8) :
    Refuses ⟨front, .plain⟩ (Utf8.encode (parts.flatMap Part.text ++ ['"'])) := by
  induction parts using stretchInduction generalizing front with
  | nil => exact absurd (List.forall_mem_nil _) h
  | character part rest hu ih =>
    rw [List.flatMap_cons, List.append_assoc]
    exact (inside_character hu).refuses (ih (mt (paired_cons_iff hu).2 h)) front
  | run run rest nonempty hu ends ih =>
    rw [List.flatMap_append, List.append_assoc]
    by_cases hrun : Utf16.WellFormed (run.flatMap Part.units)
    · exact (inside_of_wellFormed hu hrun).refuses
        (ih fun hrest => h ((paired_run_iff nonempty hu ends).2 ⟨hrun, hrest⟩)) front
    rw [Utf8.encode_append]
    refine @refuses_run _ none (by simp) hu hrun _ _ fun content high => ?_
    cases rest with
    | nil => exact refuses_byte rfl []
    | cons part rest =>
      rw [List.flatMap_cons, List.append_assoc, Utf8.encode_append]
      exact refuses_character (ends part rfl) content high _

end Quoted

namespace Json

/-- The place of a key in a JSON text: in an object, with what stands around that. Of the member there all but its key counts. -/
structure KeyPlace where
  outer : Surroundings
  left : List Member
  member : Member
  right : List Member
  untagged : (left.map Member.key).head? ≠ some Reader.tag
  before : IsGap member.before
  after : IsGap member.after
  keyed : ∀ other ∈ left ++ right, other.Keyed
  gaps : ∀ other ∈ left ++ member :: right, other.element.Gaps
  written : ∀ other ∈ left ++ member :: right, Written other.element.text other.element.value

namespace KeyPlace

def fill (place : KeyPlace) (text : List Char) : List Char :=
  place.outer.fill
    ('{' :: commaSeparated ((place.left ++ { place.member with text } :: place.right).map Member.written) ++ ['}'])

def plug (place : KeyPlace) (key : String) : Json :=
  place.outer.plug (.object (Members.merged
    (place.left.map Member.entry ++ (key, place.member.element.value) :: place.right.map Member.entry)))

/-- A quoted text in the place is the key of that member, unless the object is a tagged numeral with it. -/
theorem isText_fill (place : KeyPlace) {text content : List Char} (h : Quoted.Written text content)
    (untagged : place.left = [] → String.ofList content ≠ Reader.tag) :
    IsText (place.fill text) (place.plug (String.ofList content)) := by
  obtain ⟨hkl, hkr⟩ := List.forall_mem_append.1 place.keyed
  obtain ⟨hgl, hg⟩ := List.forall_mem_append.1 place.gaps
  obtain ⟨hwl, hw⟩ := List.forall_mem_append.1 place.written
  rw [List.forall_mem_cons] at hg hw
  have hkey : ({ place.member with text, key := String.ofList content } : Member).Keyed :=
    ⟨place.before, by rwa [String.toList_ofList], place.after⟩
  have hhead : ((place.left ++ { place.member with text, key := String.ofList content } :: place.right).map
      Member.key).head? ≠ some Reader.tag := by
    have hu := place.untagged
    cases hl : place.left with
    | nil => simpa using untagged hl
    | cons first left => simpa [hl] using hu
  have hobject := Written.object (by simp) hhead (List.forall_mem_append.2 ⟨hkl, List.forall_mem_cons.2 ⟨hkey, hkr⟩⟩)
    (List.forall_mem_append.2 ⟨hgl, List.forall_mem_cons.2 ⟨hg.1, hg.2⟩⟩)
    (List.forall_mem_append.2 ⟨hwl, List.forall_mem_cons.2 ⟨hw.1, hw.2⟩⟩)
  rw [List.map_append, List.map_cons, List.map_append, List.map_cons] at hobject
  rw [fill, plug, List.map_append, List.map_cons]
  exact place.outer.isText_fill hobject

end KeyPlace

end Json

namespace Reader
open Json

/-- What the quoted text refuses the reader refuses. -/
theorem feed_refuses {text : Quoted} {bytes : List UInt8} (h : text.Refuses bytes) (frames : List Frame) (use : Use) :
    ∃ fault, feed ⟨frames, .quoted use text⟩ bytes = .error fault := by
  obtain ⟨front, byte, back, next, rfl, hf, hn⟩ := h
  rw [feed_append, feed_quoted hf]
  simp only [feed, step, hn]
  exact ⟨_, rfl⟩

variable {parts : List Quoted.Part} {frames : List Frame}

/-- Wherever a quoted text can begin it is refused if its surrogates do not stand in pairs. -/
theorem refuses_literal (h : ¬ Quoted.Paired parts) {reader : Reader} {use : Use}
    (hq : reader.step 34 = .ok ⟨frames, .quoted use .opened⟩) : Refuses reader (Quoted.literal parts) := by
  have hquote : Reads reader ['"'] ⟨frames, .quoted use .opened⟩ := .char (by decide) hq
  exact hquote.refuses (feed_refuses (Quoted.refuses_of_not_paired h []) frames use)

private theorem refuses_key (h : ¬ Quoted.Paired parts) {member : Member} (hb : IsGap member.before)
    (ht : member.text = Quoted.literal parts) (before : Members) : Refuses ⟨frames, .nextKey before⟩ member.written := by
  have hgap := @Reads.gap ⟨frames, .nextKey before⟩ trivial _ hb
  have hmember := (hgap.refuses (refuses_literal h rfl)).append (member.after ++ ':' :: member.element.written)
  simpa [Member.written, ht] using hmember

/-- What is refused where a key must come is refused behind members that are read, too. -/
theorem refuses_behindMembers {left right : List Member} (nonempty : right ≠ []) (hk : ∀ member ∈ left, member.Keyed)
    (hg : ∀ member ∈ left, member.element.Gaps)
    (hr : ∀ member ∈ left, IsRead member.element.text member.element.value) {before : Members}
    (hu : before = [] → (left.map Member.key).head? ≠ some tag)
    (h : ∀ before, Refuses ⟨frames, .nextKey before⟩ (commaSeparated (right.map Member.written))) :
    Refuses ⟨frames, .nextKey before⟩ (commaSeparated ((left ++ right).map Member.written)) := by
  induction left generalizing before with
  | nil => exact h before
  | cons member left ih =>
    rw [List.forall_mem_cons] at hk hg hr
    rw [List.cons_append, List.map_cons, commaSeparated_cons _ (by simp [nonempty])]
    exact refuses_nextMember hk.1 hg.1 hr.1 hu fun _ hn => ih hk.2 hg.2 hr.2 fun he => absurd he hn

/-- An object with a key whose surrogates do not stand in pairs is refused. -/
theorem isRefused_key (place : KeyPlace) (h : ¬ Quoted.Paired parts) :
    IsRefused ('{' :: commaSeparated ((place.left ++ { place.member with text := Quoted.literal parts } ::
      place.right).map Member.written) ++ ['}']) := by
  intro frames hu
  generalize hmember : ({ place.member with text := Quoted.literal parts } : Member) = member
  have hbefore : IsGap member.before := hmember ▸ place.before
  have htext : member.text = Quoted.literal parts := hmember ▸ rfl
  obtain ⟨hkeyed, -⟩ := List.forall_mem_append.1 place.keyed
  obtain ⟨hgaps, -⟩ := List.forall_mem_append.1 place.gaps
  obtain ⟨hwritten, -⟩ := List.forall_mem_append.1 place.written
  have hkey (before : Members) :
      Refuses ⟨frames, .nextKey before⟩ (commaSeparated ((member :: place.right).map Member.written)) := by
    obtain ⟨more, hm⟩ := commaSeparated_front member.written (place.right.map Member.written)
    rw [List.map_cons, hm]
    exact (refuses_key h hbefore htext before).append more
  have hmembers : Refuses ⟨frames, .nextKey []⟩ _ :=
    refuses_behindMembers (List.cons_ne_nil member place.right) hkeyed hgaps
      (fun other ho => isRead_of_written (hwritten other ho)) (fun _ => place.untagged) hkey
  obtain ⟨first, others, hfirst, hb, hq⟩ : ∃ (first : Member) (others : List Member),
      place.left ++ member :: place.right = first :: others ∧ IsGap first.before ∧ ∃ rest, first.text = '"' :: rest := by
    cases hl : place.left with
    | nil => exact ⟨member, place.right, rfl, hbefore, _, htext⟩
    | cons first left =>
      obtain ⟨hb, hq, -⟩ := hkeyed first (hl ▸ List.mem_cons_self)
      exact ⟨first, left ++ member :: place.right, rfl, hb, quote_of_quoted hq⟩
  have hobject := hmembers.append ['}']
  rw [Refuses, hfirst, ← feed_firstQuoted hb hq, ← hfirst] at hobject
  exact (Reads.openObject hu).refuses hobject

/-- Where a quoted text begins, all that counts of it up to its closing quote is its content. -/
theorem feed_written {front : List UInt8} {use : Use} (hq : start.feed (front ++ [34]) = .ok ⟨frames, .quoted use .opened⟩)
    {text content : List Char} (h : Quoted.Written text content) (more : List UInt8) :
    start.feed (front ++ Utf8.encode text ++ more) =
      feed ⟨frames, .quoted use ⟨(Utf8.encode content).reverse, .plain⟩⟩ (34 :: more) := by
  obtain @⟨inside, _, hi⟩ := h
  have hquote : Utf8.encode ('"' :: inside ++ ['"']) = 34 :: (Utf8.encode inside ++ [34]) := by
    rw [List.cons_append, Utf8.encode_cons, Utf8.encode_append]
    rfl
  have hcontent : feed ⟨frames, .quoted use .opened⟩ (Utf8.encode inside) = _ := Reads.content hi frames use
  calc start.feed (front ++ Utf8.encode ('"' :: inside ++ ['"']) ++ more)
      = start.feed ((front ++ [34]) ++ (Utf8.encode inside ++ 34 :: more)) := by rw [hquote]; simp
    _ = feed ⟨frames, .quoted use .opened⟩ (Utf8.encode inside ++ 34 :: more) := by rw [feed_append, hq]
    _ = _ := by rw [feed_append, hcontent]

/-- Where a quoted text begins, nothing behind one whose surrogates do not stand in pairs is read. -/
theorem feed_literal (h : ¬ Quoted.Paired parts) {front : List UInt8} {use : Use}
    (hq : start.feed (front ++ [34]) = .ok ⟨frames, .quoted use .opened⟩) (more : List UInt8) :
    ∃ fault, start.feed (front ++ Utf8.encode (Quoted.literal parts) ++ more) = .error fault := by
  obtain ⟨fault, hf⟩ := feed_refuses (Quoted.refuses_of_not_paired h []) frames use
  have hquote : Utf8.encode (Quoted.literal parts) = 34 :: Utf8.encode (parts.flatMap Quoted.Part.text ++ ['"']) := by
    rw [Quoted.literal, List.cons_append, Utf8.encode_cons]
    rfl
  refine ⟨{ fault with left := fault.left ++ more }, ?_⟩
  calc start.feed (front ++ Utf8.encode (Quoted.literal parts) ++ more)
      = start.feed ((front ++ [34]) ++ (Utf8.encode (parts.flatMap Quoted.Part.text ++ ['"']) ++ more)) := by
        rw [hquote]; simp
    _ = feed ⟨frames, .quoted use .opened⟩ (Utf8.encode (parts.flatMap Quoted.Part.text ++ ['"']) ++ more) := by
        rw [feed_append, hq]
    _ = _ := by rw [feed_append, Quoted.opened, hf]

end Reader

namespace Example
open Json

/-- A quoted text of raw characters, short escapes and escapes of units. As a value it is accepted in all surroundings just if
the units of each maximal run of escapes are well-formed UTF-16, and then it is what its parts stand for. As a key it is not
accepted otherwise, and then it is that key, unless it is the tag in front. Wherever a quoted text begins, it is refused
or read as any other way to write what it stands for. -/
theorem ofText_escapes (parts : List Quoted.Part) :
    (∀ around : Surroundings,
      ((ofText (Utf8.encode (around.fill (Quoted.literal parts)))).events = [] ↔ Quoted.Paired parts) ∧
      (Quoted.Paired parts → ofText (Utf8.encode (around.fill (Quoted.literal parts))) =
        ⟨around.plug (.string (String.ofList (Quoted.meaning parts))), []⟩)) ∧
    (∀ place : KeyPlace,
      ((ofText (Utf8.encode (place.fill (Quoted.literal parts)))).events = [] → Quoted.Paired parts) ∧
      (Quoted.Paired parts → (place.left = [] → String.ofList (Quoted.meaning parts) ≠ Reader.tag) →
        ofText (Utf8.encode (place.fill (Quoted.literal parts))) =
          ⟨place.plug (String.ofList (Quoted.meaning parts)), []⟩)) ∧
    ∀ front frames use, Reader.start.feed (front ++ [34]) = .ok ⟨frames, .quoted use .opened⟩ → ∀ more,
      (¬ Quoted.Paired parts → ∃ fault, Json.read (front ++ Utf8.encode (Quoted.literal parts) ++ more) = .error fault) ∧
      (Quoted.Paired parts → ∀ text, Quoted.Written text (Quoted.meaning parts) →
        Json.read (front ++ Utf8.encode (Quoted.literal parts) ++ more) =
          Json.read (front ++ Utf8.encode text ++ more)) := by
  have hrefused {text : List Char} (h : Reader.start.Refuses text) : (ofText (Utf8.encode text)).events ≠ [] := by
    obtain ⟨category, place, hr⟩ := ofText_of_refuses h []
    rw [List.append_nil] at hr
    rw [hr]
    exact List.cons_ne_nil _ _
  refine ⟨fun around => ?_, fun place => ⟨fun h => ?_, fun h untagged => ?_⟩, fun front frames use hq more => ⟨fun h => ?_,
    fun h text hw => ?_⟩⟩
  · have hread (h : Quoted.Paired parts) := ofText_fill around (.string (Quoted.written_of_paired h))
    refine ⟨⟨fun h => ?_, fun h => by rw [hread h]⟩, hread⟩
    by_contra hn
    exact hrefused (Reader.refuses_fill around ⟨_, _, rfl, by decide⟩ fun _ _ => Reader.refuses_literal hn rfl) h
  · by_contra hn
    exact hrefused (Reader.refuses_fill place.outer ⟨_, _, rfl, by decide⟩ (Reader.isRefused_key place hn)) h
  · exact ofText_eq_pure_iff.2 (read_of_denoted ⟨_, rfl, place.isText_fill (Quoted.written_of_paired h) untagged⟩)
  · obtain ⟨fault, hf⟩ := Reader.feed_literal h hq more
    exact ⟨fault, by rw [Json.read, hf]; rfl⟩
  · rw [Json.read, Json.read, Reader.feed_written hq (Quoted.written_of_paired h), Reader.feed_written hq hw]

def highEscape : Quoted.Part :=
  .unit ['\\', 'u', 'D', '8', '3', 'D'] 0xD83D (.mk (.upper (n := 3) (by decide)) (.decimal (n := 8) (by decide))
    (.decimal (n := 3) (by decide)) (.upper (n := 3) (by decide)))

def lowEscape : Quoted.Part :=
  .unit ['\\', 'u', 'd', 'e', '0', '0'] 0xDE00 (.mk (.lower (n := 3) (by decide)) (.lower (n := 4) (by decide))
    (.decimal (n := 0) (by decide)) (.decimal (n := 0) (by decide)))

/-- A letter, a pair of surrogates and a short escape. -/
def face : List Quoted.Part :=
  [.raw 'a' (by decide) (by decide) (by decide), highEscape, lowEscape, .short 'n' '\n' .lineFeed]

def parted : List Quoted.Part := [highEscape, .raw 'a' (by decide) (by decide) (by decide), lowEscape]

/-- The one key of an object in an array, behind an empty one. -/
def onlyKey : KeyPlace where
  outer := besideEmpty
  left := []
  member := ⟨[], [], [], "", ⟨[], ['n', 'u', 'l', 'l'], [], .null⟩⟩
  right := []
  untagged := (Option.some_ne_none Reader.tag).symm
  before := isGap_nil
  after := isGap_nil
  keyed := List.forall_mem_nil _
  gaps := List.forall_mem_singleton.2 ⟨isGap_nil, isGap_nil⟩
  written := List.forall_mem_singleton.2 .null

/-- A pair of surrogates is one character, in a value and in a key; with a letter between them they are refused. -/
theorem ofText_escapes_face :
    (Quoted.Paired face ∧ Quoted.meaning face = ['a', '😀', '\n'] ∧
      ofText (Utf8.encode (besideEmpty.fill (Quoted.literal face))) = ⟨.array [.array [], .string "a😀\n"], []⟩ ∧
      ofText (Utf8.encode (onlyKey.fill (Quoted.literal face))) = ⟨.array [.array [], .object [("a😀\n", .null)]], []⟩) ∧
    (¬ Quoted.Paired parted ∧ (ofText (Utf8.encode (besideEmpty.fill (Quoted.literal parted)))).events ≠ [] ∧
      (ofText (Utf8.encode (onlyKey.fill (Quoted.literal parted)))).events ≠ []) ∧
    Reader.start.feed ([123] ++ [34]) = .ok ⟨[], .quoted (.key []) .opened⟩ ∧
    (∃ fault, Json.read ([123] ++ Utf8.encode (Quoted.literal parted) ++ [58, 48, 125]) = .error fault) ∧
    Quoted.Written ['"', 'a', '😀', '\\', 'n', '"'] (Quoted.meaning face) ∧
    Json.read ([123] ++ Utf8.encode (Quoted.literal face) ++ [58, 48, 125]) =
      Json.read ([123] ++ Utf8.encode ['"', 'a', '😀', '\\', 'n', '"'] ++ [58, 48, 125]) := by
  have hface : Quoted.Paired face := by
    have hpair : Utf16.WellFormed [0xD83D, 0xDE00] :=
      (Utf16.wellFormed_pair_iff (by decide) (by decide)).2 Utf16.wellFormed_nil
    have hstretches : Quoted.stretches face =
        [[.raw 'a' (by decide) (by decide) (by decide)], [highEscape, lowEscape], [.short 'n' '\n' .lineFeed]] := rfl
    rw [Quoted.Paired, hstretches, List.forall_mem_cons, List.forall_mem_cons, List.forall_mem_singleton]
    exact ⟨Utf16.wellFormed_nil, hpair, Utf16.wellFormed_nil⟩
  have hparted : ¬ Quoted.Paired parted := by
    intro h
    exact absurd ((h [highEscape] List.mem_cons_self).high 0 (by decide)) (by decide)
  have hmeaning : Quoted.meaning face = ['a', '😀', '\n'] := by decide
  have hquote : Reader.start.feed ([123] ++ [34]) = .ok ⟨[], .quoted (.key []) .opened⟩ := rfl
  have hwritten : Quoted.Written ['"', 'a', '😀', '\\', 'n', '"'] (Quoted.meaning face) := by
    rw [hmeaning]
    exact .mk (.cons (.raw (by decide) (by decide) (by decide)) (.cons (.raw (by decide) (by decide) (by decide))
      (.cons (.escape (.short .lineFeed)) .nil)))
  obtain ⟨hvalue, hkey, hread⟩ := ofText_escapes face
  obtain ⟨hvalue', hkey', hrefused⟩ := ofText_escapes parted
  have hstring := (hvalue besideEmpty).2 hface
  have hmember := (hkey onlyKey).2 hface (by rw [hmeaning]; decide)
  rw [hmeaning] at hstring hmember
  exact ⟨⟨hface, hmeaning, hstring, hmember⟩,
    ⟨hparted, mt (hvalue' besideEmpty).1.1 hparted, mt (hkey' onlyKey).1 hparted⟩, hquote,
    (hrefused _ _ _ hquote _).1 hparted, hwritten, (hread _ _ _ hquote _).2 hface _ hwritten⟩

end Example

end TypeSketch
