import LineBasic.Json.Reading
import LineBasic.Settings.Quantity

/-!
# Settings

The settings of a session, and the file that they are kept in.  A settings file is a JSON object;
members that are no settings are passed over, and settings that are not in it have their defaults.
The file may give a setting a value of any kind, and writing it out again keeps that value.  Whether
a value fits shows only when a session needs it.
-/

set_option autoImplicit false
namespace LineBasic

/-- The settings of a session. -/
structure Settings where
  /-- Whether debugging builtins are available at the start. -/
  debug : Bool := false
  /-- Whether builtins that are not for production are withheld. -/
  production : Bool := true
  /-- Whether lines are traced at the start. -/
  trace : Bool := false
  /-- The subscript of the first element of an array, at the start and after a reset. -/
  indexBase : Quantity := 0
  /-- The memory that variables and the program share. -/
  memorySize : Quantity := 65536
  /-- The most calls of functions that may be under way at once. -/
  maxDepth : Quantity := 1000
  /-- What is printed when the next line can be typed, if it is a text. -/
  prompt : Option String := some "Ok"
  /-- The number of statements from one poll of the console to the next. -/
  pollInterval : Quantity := 1
deriving Repr

namespace Settings

/-- The number of statements from one poll of the console to the next: at least one. -/
def interval (s : Settings) : Quantity :=
  s.pollInterval.atLeastOne

/-- The room that a call takes on the stack, in units of the stack. -/
def roomOfCall : Int := 12

/-- The room on the stack that is there without any call. -/
def initialRoom : Int := 1000

/-- The room on the stack that cannot be had any more. -/
def roomLimit : Int := Number.twoTo 31

/-- Sets aside the room on the stack that nested calls may take.  Room is counted in whole units; a
float is refused, unless it asks for no more room than is there. -/
def reserve (s : Settings) : Except Stop Unit :=
  match s.maxDepth.whole?, s.maxDepth with
  | some n, _ =>
    if n * roomOfCall + initialRoom < roomLimit then .ok ()
    else .error (.mishap (.overflow "too many nested calls"))
  | none, .real x =>
    if Number.ofInt initialRoom < x * Number.ofInt roomOfCall + Number.ofInt initialRoom then
      .error .misfit
    else .ok ()
  | none, _ => .error .misfit

end Settings

/-- A settings file: the names of all settings with their values. -/
structure SettingsFile where
  members : List (String × Json)

namespace SettingsFile

/-- The settings with their defaults, in the order in which they are written. -/
def defaults : SettingsFile :=
  let d : Settings := {}
  ⟨[("debug", .boolean d.debug), ("production", .boolean d.production), ("trace", .boolean d.trace),
    ("index_base", d.indexBase.toJson), ("memory_size", d.memorySize.toJson),
    ("max_recursion_depth", d.maxDepth.toJson), ("prompt", d.prompt.elim .null .string),
    ("terminate_poll_interval", d.pollInterval.toJson)]⟩

/-- Why a text is no settings file. -/
inductive Refusal where
  | unreadable (why : Json.Refusal)
  | notAnObject
deriving DecidableEq, Repr

/-- The default settings with those that an object names replaced. -/
def ofMembers (given : List (String × Json)) : SettingsFile :=
  ⟨defaults.members.map fun d ↦ (d.1, (given.lookup d.1).getD d.2)⟩

/-- Reads a settings file. -/
def ofText (text : String) : Except Refusal SettingsFile :=
  match Json.ofText text with
  | .ok (.object members) => .ok (ofMembers members)
  | .ok _ => .error .notAnObject
  | .error why => .error (.unreadable why)

/-- The text of a settings file. -/
def render (f : SettingsFile) : String :=
  (Json.object f.members).render

/-- The value of a setting. -/
def get (f : SettingsFile) (name : String) : Json :=
  (f.members.lookup name).getD .null

/-- A value as a switch: nothing, zero, and what is empty are off. -/
def switch : Json → Bool
  | .null => false
  | .boolean b => b
  | .integer n => n != 0
  | .float x => x != 0
  | .string s => !s.isEmpty
  | .array elements => !elements.isEmpty
  | .object members => !members.isEmpty

/-- A value as a text, if it is one. -/
def text? : Json → Option String
  | .string s => some s
  | _ => none

/-- What a session takes from a settings file. -/
def settings (f : SettingsFile) : Settings where
  debug := switch (f.get "debug")
  production := switch (f.get "production")
  trace := switch (f.get "trace")
  indexBase := .ofJson (f.get "index_base")
  memorySize := .ofJson (f.get "memory_size")
  maxDepth := .ofJson (f.get "max_recursion_depth")
  prompt := text? (f.get "prompt")
  pollInterval := .ofJson (f.get "terminate_poll_interval")

end SettingsFile

end LineBasic
