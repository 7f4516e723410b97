import TypeSketch.Json.Value
import TypeSketch.Json.Numeral
import TypeSketch.Json.Quoted
import TypeSketch.Json.Fault

/-! Reading JSON text, one byte at a time. The reader is a machine with a stack: a place in the grammar, and for
each array or object that is open what was read of it. So any nesting depth is read in constant call depth,
a refusal depends only on the bytes up to the refused one, and only the end of the text can leave it incomplete.

An object whose first key is `Reader.tag` is a tagged numeral: its one value is a quoted numeral, and it
denotes that number. -/
namespace TypeSketch

/-- What a value is read into when it is complete. -/
inductive Reader.Frame where
  /-- An array; its elements before the value, the last one first. -/
  | element (before : List Json)
  /-- An object; its members before, and the key of the value. -/
  | member (before : Members) (key : String)
  /-- A tagged numeral. -/
  | tagged

/-- What a quoted text is when it is complete. -/
inductive Reader.Use where
  | value
  /-- A key, behind these members. -/
  | key (before : Members)

/-- A place in the grammar. -/
inductive Reader.Place where
  /-- A value must come. -/
  | value
  /-- Behind `[`: a value or `]` must come. -/
  | firstElement
  /-- Behind an object's opening brace: a key or the closing brace must come. -/
  | firstKey
  /-- Behind a comma in an object: a key must come. -/
  | nextKey (before : Members)
  /-- Behind a key: a colon must come. -/
  | colon (before : Members) (key : String)
  /-- Inside a word; the letter that must come, those behind it, and what the word means. -/
  | word (letter : Char) (letters : List Char) (value : Json)
  /-- Inside a numeral; its characters so far, the last one first. -/
  | numeral (stage : Numeral.Stage) (read : List Char)
  | quoted (use : Use) (text : Quoted)
  /-- Behind a tagged numeral's content: its closing brace must come. -/
  | closeTagged (value : Json)
  /-- Behind a complete value. -/
  | behind (value : Json)

/-- A text that is being read: what is open, the innermost first, and the place in it. -/
structure Reader where
  frames : List Reader.Frame
  place : Reader.Place

namespace Reader

/-- The key that marks a tagged numeral. -/
def tag : String := "$serde_json::private::Number"

/-- Why a byte is refused, and whether it counts as read then. -/
structure Refusal where
  cause : Fault.Cause
  counted : Bool

def start : Reader := ⟨[], .value⟩

def refuse {α : Type} : Except Refusal α := .error ⟨.unexpected, true⟩

def isSpace (c : Char) : Bool := c = ' ' || c = '\n' || c = '\r' || c = '\t'

def number (numeral : List Char) : Json := .number (String.ofList (Numeral.stored numeral))

def complete (frames : List Frame) (value : Json) (counted : Bool) : Except Refusal Reader :=
  match frames with
  | .tagged :: _ => .error ⟨.notQuoted, counted⟩
  | _ => .ok ⟨frames, .behind value⟩

def completeQuoted (frames : List Frame) (use : Use) (content : List UInt8) :
    Except Refusal Reader :=
  match Utf8.decode content with
  | (text, []) =>
    match use, frames with
    | .key before, _ => .ok ⟨frames, .colon before (String.ofList text)⟩
    | .value, .tagged :: outer =>
      match Numeral.fault? (content.map Char.ofUInt8) with
      | none => .ok ⟨outer, .closeTagged (number text)⟩
      | some passed => .error ⟨.notNumeral (Position.after (content.take passed)), true⟩
    | .value, _ => .ok ⟨frames, .behind (.string (String.ofList text))⟩
  | (_, tail) => .error ⟨.illFormed tail.length, true⟩

/-- An array or an object begins; a tagged numeral is neither. -/
def openValue (frames : List Frame) (place : Place) : Except Refusal Reader :=
  match frames with
  | .tagged :: _ => .error ⟨.notQuoted, false⟩
  | _ => .ok ⟨frames, place⟩

def beginValue (frames : List Frame) (c : Char) : Except Refusal Reader :=
  match c with
  | '"' => .ok ⟨frames, .quoted .value .opened⟩
  | 'n' => .ok ⟨frames, .word 'u' ['l', 'l'] .null⟩
  | 't' => .ok ⟨frames, .word 'r' ['u', 'e'] (.bool true)⟩
  | 'f' => .ok ⟨frames, .word 'a' ['l', 's', 'e'] (.bool false)⟩
  | '[' => openValue frames .firstElement
  | '{' => openValue frames .firstKey
  | _ =>
    match Numeral.start? c with
    | some stage => .ok ⟨frames, .numeral stage [c]⟩
    | none => refuse

def continueBehind (value : Json) : List Frame → Char → Except Refusal Reader
  | .element before :: outer, c =>
    if c = ',' then .ok ⟨.element (value :: before) :: outer, .value⟩
    else if c = ']' then .ok ⟨outer, .behind (.array (value :: before).reverse)⟩
    else refuse
  | .member before key :: outer, c =>
    if c = ',' then .ok ⟨outer, .nextKey (before.put key value)⟩
    else if c = '}' then .ok ⟨outer, .behind (.object (before.put key value))⟩
    else refuse
  | _, _ => refuse

/-- A place where spaces are skipped: `next` reads any other character. -/
def afterSpace (reader : Reader) (c : Char) (next : Except Refusal Reader) : Except Refusal Reader :=
  if isSpace c then .ok reader else next

def step (reader : Reader) (byte : UInt8) : Except Refusal Reader :=
  let c := Char.ofUInt8 byte
  let frames := reader.frames
  match reader.place with
  | .value => reader.afterSpace c (beginValue frames c)
  | .firstElement =>
    reader.afterSpace c <|
      if c = ']' then .ok ⟨frames, .behind (.array [])⟩ else beginValue (.element [] :: frames) c
  | .firstKey =>
    reader.afterSpace c <|
      if c = '}' then .ok ⟨frames, .behind (.object [])⟩
      else if c = '"' then .ok ⟨frames, .quoted (.key []) .opened⟩
      else refuse
  | .nextKey before =>
    reader.afterSpace c <|
      if c = '"' then .ok ⟨frames, .quoted (.key before) .opened⟩ else refuse
  | .colon before key =>
    reader.afterSpace c <|
      if c = ':' then
        .ok ⟨(if before.isEmpty && key = tag then .tagged else .member before key) :: frames, .value⟩
      else refuse
  | .word letter letters value =>
    if c ≠ letter then refuse
    else
      match letters with
      | [] => complete frames value true
      | letter :: letters => .ok ⟨frames, .word letter letters value⟩
  | .numeral stage read =>
    match stage.next c with
    | .more next => .ok ⟨frames, .numeral next (c :: read)⟩
    | .refused _ => refuse
    | .ends => do
      let behind ← complete frames (number read.reverse) false
      behind.afterSpace c (continueBehind (number read.reverse) frames c)
  | .quoted use text =>
    match text.next byte with
    | .more text => .ok ⟨frames, .quoted use text⟩
    | .closes content => completeQuoted frames use content
    | .refused => refuse
  | .closeTagged value =>
    reader.afterSpace c <| if c = '}' then .ok ⟨frames, .behind value⟩ else refuse
  | .behind value => reader.afterSpace c (continueBehind value frames c)

def feed : Reader → List UInt8 → Except Fault Reader
  | reader, [] => .ok reader
  | reader, byte :: rest =>
    match reader.step byte with
    | .ok reader => reader.feed rest
    | .error refusal => .error ⟨refusal.cause, if refusal.counted then rest else byte :: rest⟩

/-- The value that has been read when the text ends. A numeral is complete only then or by what follows it. -/
def finish (reader : Reader) : Except Fault Json :=
  match reader with
  | ⟨[], .behind value⟩ => .ok value
  | ⟨frames, .numeral stage read⟩ =>
    if stage.isComplete then
      match frames with
      | [] => .ok (number read.reverse)
      | .tagged :: _ => .error ⟨.notQuoted, []⟩
      | _ => .error ⟨.ended, []⟩
    else .error ⟨.ended, []⟩
  | _ => .error ⟨.ended, []⟩

/-- Bytes are read on from where those in front of them lead. -/
theorem feed_append (reader : Reader) (front back : List UInt8) :
    reader.feed (front ++ back) =
      match reader.feed front with
      | .ok behind => behind.feed back
      | .error fault => .error { fault with left := fault.left ++ back } := by
  induction front generalizing reader with
  | nil => simp [feed]
  | cons byte rest ih =>
    simp only [List.cons_append, feed]
    cases h : reader.step byte with
    | ok next => exact ih next
    | error refusal => cases hc : refusal.counted <;> simp [hc]

end Reader

def Json.read (text : List UInt8) : Except Fault Json := do
  let reader ← Reader.start.feed text
  reader.finish

end TypeSketch
