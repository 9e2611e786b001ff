import ChipEight.CommandLine.Switch
import ChipEight.Text.DecimalDigit

/-!
# Tokens of the command line

Each argument is first put into a class by itself: a switch, possibly with a value in the same
argument, a plain value, or the separator behind which everything is a plain value.

A long name may be cut short as long as it stays the start of one name only; a start of
several names is refused before anything else is looked at.  Arguments that look like negative
numbers or hold a space are plain values even behind a dash, unless they name a switch.
-/

namespace ChipEight.CommandLine

inductive Exit
  | help
  | usage
  deriving DecidableEq, Repr

def Exit.code : Exit → Nat
  | help => 0
  | usage => 2

inductive Token
  | value (text : String)
  | separator
  /-- A switch, named by its letter or by its long name, with the rest of its argument. -/
  | switch (s : Switch) (byLetter : Bool) (attached : Option (List Char))
  | unknown
  deriving DecidableEq, Repr

namespace Token

def isDecimalDigit (c : Char) : Bool := (DecimalDigit.value? c).isSome

def endsInDigits (cs : List Char) : Bool :=
  !(cs.takeWhile isDecimalDigit).isEmpty &&
    (let rest := cs.dropWhile isDecimalDigit
     rest.isEmpty || rest == ['\n'])

def looksNumeric (cs : List Char) : Bool :=
  endsInDigits cs ||
    match cs.dropWhile isDecimalDigit with
    | '.' :: rest => endsInDigits rest
    | _ => false

def ofLong (cs : List Char) : Except Exit (Option Token) :=
  let name := cs.takeWhile (· != '=')
  let attached := match cs.dropWhile (· != '=') with
    | _ :: rest => some rest
    | [] => none
  match Switch.ofName? name with
  | some s => .ok (some (.switch s false attached))
  | none =>
    match Switch.startingWith name with
    | [] => .ok none
    | [s] => .ok (some (.switch s false attached))
    | _ => .error .usage

def ofShort (cs : List Char) : Option Token :=
  match cs with
  | [] => none
  | c :: rest =>
    (Switch.ofLetter? c).map fun s =>
      match rest with
      | [] => .switch s true none
      | '=' :: more => .switch s true (some more)
      | more => .switch s true (some more)

def ofOther (text : String) (afterDash : List Char) : Token :=
  if looksNumeric afterDash || afterDash.contains ' ' then .value text else .unknown

def ofArgument (text : String) : Except Exit Token :=
  match text.toList with
  | '-' :: '-' :: cs => do .ok ((← ofLong cs).getD (ofOther text ('-' :: cs)))
  | ['-'] => .ok (.value text)
  | '-' :: cs => .ok ((ofShort cs).getD (ofOther text cs))
  | _ => .ok (.value text)

def ofArguments : List String → Except Exit (List Token)
  | [] => .ok []
  | text :: rest =>
    if text = "--" then .ok (.separator :: rest.map .value)
    else do
      let token ← ofArgument text
      .ok (token :: (← ofArguments rest))

end Token

end ChipEight.CommandLine
