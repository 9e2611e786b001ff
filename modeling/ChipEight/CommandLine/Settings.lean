import ChipEight.CommandLine.Token
import ChipEight.Keymap
import ChipEight.Launch
import ChipEight.Setting

/-!
# Settings from the command line

Tokens are followed from left to right.  A switch takes its value from its own argument or
from the next one; letters of switches without a value may be run together.  Two dashes in the
argument of a switch leave it blank.  One plain value is the file name; anything left over is
refused in the end.
-/

namespace ChipEight.CommandLine

structure Settings where
  filename : Option String
  speed : Option (Setting Int)
  renderer : Option (Setting String)
  scale : Option (Setting Int)
  smoothing : Setting Int
  keymap : Setting String
  toggles : Setting Int
  cursorMode : Setting Int
  palette : Option (Setting String)
  trace : Bool
  surplus : Bool
  deriving DecidableEq, Repr

namespace Settings

def standard : Settings where
  filename := none
  speed := none
  renderer := none
  scale := none
  smoothing := .value 0
  keymap := .value Keymap.standard
  toggles := .value 0
  cursorMode := .value 0
  palette := none
  trace := false
  surplus := false

def renderers : List String := ["pygame", "curses", "null"]

def number (text : String) : Except Exit Int :=
  match Numeral.read? 10 text with
  | some n => .ok n
  | none => .error .usage

def choice (choices : List Int) (text : String) : Except Exit Int := do
  let n ← number text
  if n ∈ choices then .ok n else .error .usage

def rendererName (text : String) : Except Exit String :=
  if text ∈ renderers then .ok text else .error .usage

def apply (s : Settings) : Switch → Except Exit Settings
  | .help => .error .help
  | .trace => .ok { s with trace := true }
  | _ => .error .usage

/-- Follows a switch and what was given for it.  A blank passes every check of values. -/
def applyValue (s : Settings) (switch : Switch) (given : Setting String) :
    Except Exit Settings :=
  match switch with
  | .speed => do .ok { s with speed := some (← given.read number) }
  | .renderer => do .ok { s with renderer := some (← given.read rendererName) }
  | .scale => do .ok { s with scale := some (← given.read number) }
  | .smoothing => do .ok { s with smoothing := ← given.read number }
  | .keymap => .ok { s with keymap := given }
  | .toggles => do .ok { s with toggles := ← given.read (choice [0, 1]) }
  | .cursorMode => do .ok { s with cursorMode := ← given.read (choice [0, 1, 2]) }
  | .palette => .ok { s with palette := some given }
  | .help => .error .usage
  | .trace => .error .usage

/-- What the rest of an argument gives to its switch.  Two dashes are a blank. -/
def attachedValue (cs : List Char) : Setting String :=
  if cs = ['-', '-'] then .blank else .value (String.ofList cs)

/-- What one argument of switches asks for: switches without values in order, then perhaps
one switch with what was given for it, or one that needs the next argument as its value. -/
structure Cluster where
  plain : List Switch
  valued : Option (Switch × Setting String)
  awaiting : Option Switch

namespace Cluster

def last (switch : Switch) : Cluster :=
  if switch.takesValue then ⟨[], none, some switch⟩ else ⟨[switch], none, none⟩

/-- The letters behind that of a switch that takes no value.  There has to be one, and each of
them has to name a switch. -/
def ofLetters (switch : Switch) : List Char → Except Exit Cluster
  | [] => .error .usage
  | c :: rest =>
    match Switch.ofLetter? c with
    | none => .error .usage
    | some next => do
      let more ←
        if rest.isEmpty then .ok (last next)
        else if next.takesValue then .ok ⟨[], some (next, attachedValue rest), none⟩
        else ofLetters next rest
      .ok { more with plain := switch :: more.plain }

def ofSwitch (switch : Switch) (byLetter : Bool) : Option (List Char) → Except Exit Cluster
  | none => .ok (last switch)
  | some rest =>
    if switch.takesValue then .ok ⟨[], some (switch, attachedValue rest), none⟩
    else if byLetter then ofLetters switch rest
    else .error .usage

end Cluster

def applyAll (s : Settings) : List Switch → Except Exit Settings
  | [] => .ok s
  | switch :: rest => do applyAll (← s.apply switch) rest

def follow (s : Settings) : List Token → Except Exit Settings
  | [] => .ok s
  | .value text :: rest =>
    match s.filename with
    | some _ => follow { s with surplus := true } rest
    | none =>
      let s := { s with filename := some text }
      match rest with
      | .separator :: rest => follow s rest
      | rest => follow s rest
  | .separator :: rest =>
    follow (if s.filename.isSome || rest.isEmpty then { s with surplus := true } else s) rest
  | .unknown :: rest => follow { s with surplus := true } rest
  | .switch switch byLetter attached :: rest => do
    let c ← Cluster.ofSwitch switch byLetter attached
    match c.awaiting with
    | none =>
      let s ← s.applyAll c.plain
      match c.valued with
      | none => follow s rest
      | some (switch, given) => do follow (← s.applyValue switch given) rest
    | some switch =>
      match rest with
      | .value text :: rest => do
        follow (← (← s.applyAll c.plain).applyValue switch (.value text)) rest
      | _ => .error .usage

def ofArguments (arguments : List String) : Except Exit Settings := do
  let s ← standard.follow (← Token.ofArguments arguments)
  if s.filename.isNone || s.surplus then .error .usage else .ok s

def options (s : Settings) : Options where
  renderer := some s.renderer
  filename := s.filename
  scale := some s.scale
  palette := some s.palette
  cursorMode := some s.cursorMode
  smoothing := some s.smoothing
  toggles := some s.toggles.isOn
  keymap := some s.keymap
  traced := some s.trace
  speed := some s.speed

end Settings

end ChipEight.CommandLine
