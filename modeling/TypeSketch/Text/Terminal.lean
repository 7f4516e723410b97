import TypeSketch.Text.Utf8

/-! Control characters and control sequences, which a terminal acts on instead of showing them, and what is left of a stream
without them. A sequence begins with an escape character; what follows tells how far it goes, and one that is not finished
takes all that is behind it. While something is shown inside it, an open sequence waits, and goes on later. -/
namespace TypeSketch.Terminal

/-- What the next character of a text is read as. -/
inductive Mode where
  /-- A character of the text. -/
  | text
  /-- Behind an escape character. -/
  | escape
  /-- Behind an escape character and marks: the next letter ends the sequence. -/
  | marks
  /-- In a control sequence, which a letter ends. -/
  | control
  /-- At the start of a device control string. -/
  | device
  /-- Among the parameters of a device control string. -/
  | deviceParameters
  /-- Behind the marks of a device control string. -/
  | deviceMarks
  /-- In a string, which the byte `9C` ends. -/
  | string
  /-- In a command to the system, which a bell ends. -/
  | command
  deriving DecidableEq, Repr

/-- Tabs, line feeds, form feeds and carriage returns lay a text out, so they are not dropped. -/
def isLayout (c : Char) : Bool := c = '\t' || c = '\n' || c = '\x0c' || c = '\r'

/-- Whether a character is shown. Layout is shown also inside a sequence that is no string. -/
def Mode.shows (mode : Mode) (c : Char) : Bool :=
  if isLayout c then mode ∈ [text, escape, marks, control]
  else mode = text && 0x20 ≤ c.toNat && c.toNat ≠ 0x7F

def Mode.next (mode : Mode) (c : Char) : Mode :=
  let code := c.toNat
  if code = 0x1B then escape
  else if code = 0x18 ∨ code = 0x1A then text
  else if code < 0x20 then if mode = command ∧ code = 0x07 then text else mode
  else if code = 0x7F then mode
  else if 0x80 ≤ code then if mode = string ∧ 0x9C ∈ Utf8.encode [c] then text else mode
  else
    match mode with
    | text => text
    | escape =>
      if code < 0x30 then marks
      else
        match c with
        | '[' => control
        | ']' => command
        | 'P' => device
        | 'X' | '^' | '_' => string
        | _ => text
    | marks => if code < 0x30 then marks else text
    | control => if code < 0x40 then control else text
    | device => if code < 0x30 then deviceMarks else if code < 0x40 then deviceParameters else string
    | deviceParameters =>
      if code < 0x30 then deviceMarks else if code < 0x3C then deviceParameters else string
    | deviceMarks => if code < 0x30 then deviceMarks else string
    | string => string
    | command => command

/-- What is shown of a stream. Behind a character that is shown, characters are shown as outside of any sequence, up to the
next one that is not; the open sequence then goes on with that one, unless a character of several bytes came between. -/
def streamedFrom (showing : Bool) (mode : Mode) : List Char → List Char
  | [] => []
  | c :: rest =>
    if (if showing then Mode.text else mode).shows c then
      c :: streamedFrom true (if 0x80 ≤ c.toNat then .text else mode) rest
    else streamedFrom false (mode.next c) rest

def streamed (text : String) : String := String.ofList (streamedFrom false .text text.toList)

end TypeSketch.Terminal
