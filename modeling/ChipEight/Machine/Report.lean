import ChipEight.Machine

/-!
# Reports on a machine

One line with all registers, for tracing, and the longer dump of a crash report.  Register VF
comes first and V0 last; the address and the word are those of the latest instruction.
-/

namespace ChipEight.Machine

def registerText (m : Machine) : String :=
  String.join (m.registers.toList.reverse.map Hex.byte)

def line (m : Machine) (text : String) : String :=
  "V: 0x" ++ m.registerText ++ " I: 0x" ++ Hex.text 4 m.index ++ " DT: 0x" ++ Hex.text 2 m.delay ++
    " ST: 0x" ++ Hex.text 2 m.sound ++ " PC: 0x" ++ Hex.text 3 m.lastCounter ++
    " OP: 0x" ++ Hex.text 4 m.lastWord ++ " IN: " ++ text

def stackText (s : CallStack) : String :=
  if s.toList.isEmpty then " (Empty)"
  else String.join (s.toList.map fun entry => " 0x" ++ Hex.text 3 entry)

def phaseText : Phase → String
  | .running => "running"
  | .waitingForKey target => "waiting_for_key (V" ++ Hex.nibble target ++ ")"

def dump (m : Machine) (text : String) : String :=
  m.line text ++ "\nStack:" ++ stackText m.stack ++ "\nState: " ++ phaseText m.phase

end ChipEight.Machine
