import Mathlib.Data.Fintype.Basic
import Mathlib.Tactic.FinCases
import ChipEight.Instruction

/-!
# Which words are instructions

The instruction table, read by nibbles.  A word is decoded just when the table lists it.
-/

namespace ChipEight

def Word.transferBytes : List UInt8 := [0x07, 0x0A, 0x15, 0x18, 0x1E, 0x29, 0x33, 0x55, 0x65]

/-- Whether the table has an instruction for a word.  In the families `0nnn` and `8xyn` the last
nibble decides, in `Exkk` and `Fxkk` the low byte, and in all others every word is listed. -/
def Word.Listed (word : Int) : Prop :=
  match family word with
  | 0x0 => (fields word).nibble = 0x0 ∨ (fields word).nibble = 0xE
  | 0x8 => (fields word).nibble ≤ 0x7 ∨ (fields word).nibble = 0xE
  | 0xE => (fields word).byte = 0x9E ∨ (fields word).byte = 0xA1
  | 0xF => (fields word).byte ∈ transferBytes
  | _ => True

namespace Operation

theorem isSome_system?_iff (f : Fields) :
    (system? f).isSome ↔ f.nibble = 0x0 ∨ f.nibble = 0xE := by
  unfold system?
  generalize f.nibble = n
  fin_cases n <;> simp

theorem isSome_arithmetic?_iff (f : Fields) :
    (arithmetic? f).isSome ↔ f.nibble ≤ 0x7 ∨ f.nibble = 0xE := by
  unfold arithmetic?
  generalize f.nibble = n
  fin_cases n <;> simp

theorem isSome_keys?_iff (f : Fields) : (keys? f).isSome ↔ f.byte = 0x9E ∨ f.byte = 0xA1 := by
  unfold keys?
  grind

theorem isSome_transfer?_iff (f : Fields) : (transfer? f).isSome ↔ f.byte ∈ Word.transferBytes := by
  unfold transfer? Word.transferBytes
  simp only [List.mem_cons, List.not_mem_nil, or_false]
  grind

theorem isSome_ofWord?_iff (word : Int) : (ofWord? word).isSome ↔ Word.Listed word := by
  have hs := isSome_system?_iff (Word.fields word)
  have ha := isSome_arithmetic?_iff (Word.fields word)
  have hk := isSome_keys?_iff (Word.fields word)
  have ht := isSome_transfer?_iff (Word.fields word)
  unfold ofWord? Word.Listed
  generalize Word.family word = family
  fin_cases family
  case «0» => exact hs
  case «8» => exact ha
  case «14» => exact hk
  case «15» => exact ht
  all_goals exact ⟨fun _ => trivial, fun _ => rfl⟩

theorem ofWord?_eq_none_iff (word : Int) : ofWord? word = none ↔ ¬ Word.Listed word := by
  rw [← isSome_ofWord?_iff, Option.not_isSome_iff_eq_none]

end Operation

namespace Instruction

variable {word : Int}

theorem decode_of_none (h : Operation.ofWord? word = none) :
    decode word = .error (.fault (.unknownOpcode word)) := by
  unfold decode
  rw [h]

theorem decode_of_some {op : Operation} (h : Operation.ofWord? word = some op) :
    decode word = .ok ⟨op, word⟩ := by
  unfold decode
  rw [h]

end Instruction

end ChipEight
