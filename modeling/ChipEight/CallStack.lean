import ChipEight.Attempt

/-!
# The call stack

Return addresses, held outside of memory.  Overflow and underflow are faults and change
nothing.
-/

namespace ChipEight

/-- The entries, the latest one first, and the number of entries there is room for. -/
structure CallStack where
  capacity : Int
  entries : List Int
  deriving DecidableEq, Repr

namespace CallStack

def empty (capacity : Int) : CallStack := ⟨capacity, []⟩

def depth (s : CallStack) : Nat := s.entries.length

def checkPush (s : CallStack) : Except Error Unit :=
  if s.capacity ≤ s.depth then .error (.fault .stackOverflow) else .ok ()

def push (s : CallStack) (entry : Int) : Attempt CallStack Unit :=
  (Attempt.ofExcept s s.checkPush).andThen fun s _ =>
    .succeed { s with entries := entry :: s.entries } ()

def pop (s : CallStack) : Attempt CallStack Int :=
  match s.entries with
  | [] => .refuse s (.fault .stackUnderflow)
  | entry :: rest => .succeed { s with entries := rest } entry

def clear (s : CallStack) : CallStack := { s with entries := [] }

/-- The entries, the oldest one first. -/
def toList (s : CallStack) : List Int := s.entries.reverse

theorem push_of_room {s : CallStack} (h : s.depth < s.capacity) (entry : Int) :
    s.push entry = .succeed { s with entries := entry :: s.entries } () := by
  have hn : ¬ s.capacity ≤ s.depth := by omega
  simp [push, checkPush, hn]

end CallStack

end ChipEight
