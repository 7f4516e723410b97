import TypeSketch.Json.Fault

/-! What a run has to tell beside its result: events, each of a level and from a part of the program,
and the filter that chooses those to be shown. -/
namespace TypeSketch

/-- How much an event matters, the gravest level first. -/
inductive Level where
  | error
  | warn
  | info
  | debug
  | trace
  deriving DecidableEq, Repr

inductive Event where
  /-- A text was not JSON, and the empty object stands in for it. -/
  | replaced (category : Fault.Category) (place : Position)
  /-- The fields of an object are about to be guessed. -/
  | fields (count : Nat)
  /-- The text of a number does not read as one. -/
  | unreadable (number : String)
  deriving DecidableEq, Repr

namespace Level

def rank : Level → Nat
  | error => 1
  | warn => 2
  | info => 3
  | debug => 4
  | trace => 5

def name : Level → String
  | error => "ERROR"
  | warn => "WARN"
  | info => "INFO"
  | debug => "DEBUG"
  | trace => "TRACE"

end Level

namespace Event

def level : Event → Level
  | replaced _ _ | fields _ => .debug
  | unreadable _ => .trace

def target : Event → String
  | replaced _ _ => "json_guess::parse"
  | fields _ => "json_guess"
  | unreadable _ => "json_guess::type_descriptor"

def message : Event → String
  | replaced _ _ => "input is not valid JSON, substituting an empty object"
  | fields _ => "guessing field types"
  | unreadable _ => "number text does not read as f64, guessing Unknown"

def particulars : Event → String
  | replaced category place =>
    "category=\"" ++ category.label ++ "\" line=" ++ toString place.line ++
      " column=" ++ toString place.column
  | fields count => "fields=" ++ toString count
  | unreadable number => "number=" ++ number

def line (event : Event) : String :=
  event.level.name ++ " " ++ event.target ++ ": " ++ event.message ++ " " ++ event.particulars

end Event

/-- A result together with the events on the way to it, the first one first. -/
structure Logged (α : Type) where
  value : α
  events : List Event
  deriving DecidableEq, Repr

namespace Logged

instance : Monad Logged where
  pure value := ⟨value, []⟩
  bind first next := ⟨(next first.value).value, first.events ++ (next first.value).events⟩

def tell (event : Event) : Logged Unit := ⟨(), [event]⟩

@[simp] theorem pure_def {α : Type} (value : α) : (pure value : Logged α) = ⟨value, []⟩ := rfl

@[simp] theorem bind_def {α β : Type} (first : Logged α) (next : α → Logged β) :
    (first >>= next) = ⟨(next first.value).value, first.events ++ (next first.value).events⟩ := rfl

@[simp] theorem map_def {α β : Type} (f : α → β) (logged : Logged α) :
    f <$> logged = ⟨f logged.value, logged.events⟩ := by
  show (⟨f logged.value, logged.events ++ []⟩ : Logged β) = _
  simp

instance : LawfulMonad Logged :=
  .mk' Logged (by intro α x; simp) (by intro α β x f; simp) (by intro α β γ x f g; simp)

end Logged

/-- Which events are shown: those from parts whose name begins with `target`, up to a level; `none` shows none. -/
structure LogFilter where
  target : String
  level : Option Level
  deriving DecidableEq, Repr

namespace LogFilter

def standard : LogFilter := ⟨"", some .warn⟩

/-- The level of a name, in any letter case; `off` is below all levels. -/
def level? (name : String) : Option (Option Level) :=
  match String.ofList (name.toList.map Char.toLower) with
  | "off" => some none
  | "error" => some (some .error)
  | "warn" => some (some .warn)
  | "info" => some (some .info)
  | "debug" => some (some .debug)
  | "trace" => some (some .trace)
  | _ => none

/-- A filter is written as a level, or as a target, an equals sign and a level. Lists of filters with commas between them,
targets without a level, levels as numbers and what is asked of spans and fields are not read; whether events are shown
is all that depends on them. -/
def parse? (text : String) : Option LogFilter :=
  let target := text.toList.takeWhile (· ≠ '=')
  match text.toList.dropWhile (· ≠ '=') with
  | [] => (level? text).map (⟨"", ·⟩)
  | _ :: level => (level? (String.ofList level)).map (⟨String.ofList target, ·⟩)

/-- The filter of a setting; one that cannot be read counts as none. -/
def ofSetting (setting : Option String) : LogFilter := (setting.bind parse?).getD standard

def shows (filter : LogFilter) (event : Event) : Bool :=
  filter.target.toList.isPrefixOf event.target.toList &&
    match filter.level with
    | none => false
    | some level => event.level.rank ≤ level.rank

end LogFilter

end TypeSketch
