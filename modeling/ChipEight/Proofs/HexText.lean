import Mathlib.Algebra.Group.Nat.Defs
import ChipEight.Text.Hex

/-!
# Hexadecimal text read back

The numeral of a natural number gives the number back, whatever it was padded to.  Where it has
room it is as wide as it was to be, and it is made of sixteen characters only.
-/

namespace ChipEight

/-- What stands in front, up to the first other character, can be cut off. -/
theorem eq_of_append_eq {p : Char → Bool} {xs xs' ys ys' : List Char} (h : xs ++ ys = xs' ++ ys')
    (hxs : ∀ c ∈ xs, p c) (hxs' : ∀ c ∈ xs', p c) (hys : ys.takeWhile p = [])
    (hys' : ys'.takeWhile p = []) : xs = xs' ∧ ys = ys' := by
  have hfront := congrArg (List.takeWhile p) h
  rw [List.takeWhile_append_of_pos hxs, List.takeWhile_append_of_pos hxs', hys, hys',
    List.append_nil, List.append_nil] at hfront
  rw [hfront] at h
  exact ⟨hfront, List.append_cancel_left h⟩

namespace Hex

def alphabet : List Char := (List.range 16).map digit

def digitValue (c : Char) : Nat := alphabet.idxOf c

def value (cs : List Char) : Nat := cs.foldl (fun n c => 16 * n + digitValue c) 0

theorem digitValue_digit {n : Nat} (h : n < 16) : digitValue (digit n) = n := by
  have hall : ∀ i : Fin 16, digitValue (digit i.val) = i.val := by decide
  exact hall ⟨n, h⟩

theorem digit_mem_alphabet {n : Nat} (h : n < 16) : digit n ∈ alphabet :=
  List.mem_map_of_mem (List.mem_range.mpr h)

theorem value_concat (cs : List Char) (c : Char) :
    value (cs ++ [c]) = 16 * value cs + digitValue c := by
  simp [value]

theorem value_digits (n : Nat) : value (digits n) = n := by
  induction n using digits.induct with
  | case1 n h =>
    rw [digits, if_pos h]
    simp [value, digitValue_digit h]
  | case2 n h ih =>
    rw [digits, if_neg h, value_concat, ih, digitValue_digit (Nat.mod_lt n (by decide))]
    omega

theorem value_replicate_zero_append (k : Nat) (cs : List Char) :
    value (List.replicate k '0' ++ cs) = value cs := by
  induction k with
  | zero => rfl
  | succ k ih =>
    rw [List.replicate_succ, List.cons_append, ← ih]
    rfl

theorem mem_digits {n : Nat} {c : Char} (h : c ∈ digits n) : c ∈ alphabet := by
  induction n using digits.induct with
  | case1 n hn =>
    rw [digits, if_pos hn, List.mem_singleton] at h
    rw [h]
    exact digit_mem_alphabet hn
  | case2 n hn ih =>
    rw [digits, if_neg hn] at h
    obtain h | h := List.mem_append.mp h
    · exact ih h
    · rw [List.mem_singleton.mp h]
      exact digit_mem_alphabet (Nat.mod_lt n (by decide))

theorem length_digits_le {n width : Nat} (h : n < 16 ^ (width + 1)) :
    (digits n).length ≤ width + 1 := by
  induction n using digits.induct generalizing width with
  | case1 n hn => simp [digits, hn]
  | case2 n hn ih =>
    obtain _ | width := width
    · exact absurd h hn
    · have hdiv : n / 16 < 16 ^ (width + 1) :=
        Nat.div_lt_of_lt_mul (by rwa [Nat.pow_succ'] at h)
      rw [digits, if_neg hn, List.length_append, List.length_singleton]
      exact Nat.succ_le_succ (ih hdiv)

theorem value_pad (width n : Nat) : value (pad width (digits n)) = n := by
  rw [pad, value_replicate_zero_append, value_digits]

theorem mem_pad {width n : Nat} {c : Char} (h : c ∈ pad width (digits n)) : c ∈ alphabet := by
  obtain h | h := List.mem_append.mp h
  · rw [List.eq_of_mem_replicate h]
    decide
  · exact mem_digits h

theorem toList_text (width n : Nat) : (text width n).toList = pad width (digits n) := by
  have hn : ¬ (n : Int) < 0 := Int.not_lt.mpr (Int.natCast_nonneg n)
  simp [text, numeral, hn]

theorem value_text (width n : Nat) : value (text width n).toList = n := by
  rw [toList_text, value_pad]

theorem mem_text {width n : Nat} {c : Char} (h : c ∈ (text width n).toList) : c ∈ alphabet := by
  rw [toList_text] at h
  exact mem_pad h

theorem length_text {width n : Nat} (h : n < 16 ^ (width + 1)) :
    (text (width + 1) n).toList.length = width + 1 := by
  have hlen := length_digits_le h
  rw [toList_text, pad, List.length_append, List.length_replicate]
  omega

def signedAlphabet : List Char := '-' :: alphabet

def signedValue : List Char → Int
  | '-' :: cs => -(value cs)
  | cs => value cs

theorem signedValue_of_not_mem {cs : List Char} (h : '-' ∉ cs) : signedValue cs = value cs := by
  unfold signedValue
  split
  · exact absurd List.mem_cons_self h
  · rfl

theorem signedValue_numeral (width : Nat) (n : Int) : signedValue (numeral width n) = n := by
  unfold numeral
  split
  case isTrue hn =>
    change -(value (pad (width - 1) (digits n.natAbs)) : Int) = n
    rw [value_pad]
    omega
  case isFalse hn =>
    rw [signedValue_of_not_mem fun h => absurd (mem_pad h) (by decide), value_pad]
    omega

theorem mem_numeral {width : Nat} {n : Int} {c : Char} (h : c ∈ numeral width n) :
    c ∈ signedAlphabet := by
  unfold numeral at h
  split at h
  · obtain rfl | h := List.mem_cons.mp h
    · exact List.mem_cons_self
    · exact List.mem_cons_of_mem '-' (mem_pad h)
  · exact List.mem_cons_of_mem '-' (mem_pad h)

end Hex

end ChipEight
