import Mathlib.Data.Int.Bitwise
import ChipEight.Proofs.Decoding

/-!
# The instruction table

Every form of instructions has a pattern: a first nibble, and in four families also a last nibble
or a low byte.  No word fits two patterns.  A word that fits one decodes to the form of the pattern,
with its other nibbles as operands.  Nothing of the lowest sixteen bits of a word is lost on the
way, and nothing above them is looked at.
-/

namespace ChipEight

inductive Form
  | clearDisplay
  | ret
  | jump
  | call
  | skipIfByte
  | skipUnlessByte
  | skipIfEqual
  | loadByte
  | addByte
  | copy
  | or
  | and
  | xor
  | add
  | sub
  | shiftRight
  | subFrom
  | shiftLeft
  | skipUnlessEqual
  | loadIndex
  | jumpOffset
  | random
  | draw
  | skipIfKey
  | skipUnlessKey
  | readDelay
  | awaitKey
  | setDelay
  | setSound
  | addIndex
  | loadGlyph
  | storeDecimal
  | storeRegisters
  | loadRegisters
  deriving DecidableEq, Repr

/-- What tells the forms of one family apart. -/
inductive Selector
  | whole
  | nibble (value : Nat)
  | byte (value : Nat)
  deriving DecidableEq, Repr

structure Pattern where
  family : Nat
  selector : Selector
  deriving DecidableEq, Repr

def Selector.Picks (y last : Fin 16) : Selector → Prop
  | whole => True
  | nibble value => last.val = value
  | byte value => 16 * y.val + last.val = value

def Pattern.Fits (p : Pattern) (first y last : Fin 16) : Prop :=
  first.val = p.family ∧ p.selector.Picks y last

/-- The operand fields of a word whose last three nibbles are these. -/
def Fields.ofNibbles (x y last : Fin 16) : Fields where
  x := x
  y := y
  nibble := last
  byte := UInt8.ofNat (16 * y.val + last.val)
  address := ⟨256 * x.val + (16 * y.val + last.val), by omega⟩

namespace Form

def all : List Form :=
  [clearDisplay, ret, jump, call, skipIfByte, skipUnlessByte, skipIfEqual, loadByte, addByte, copy,
   or, and, xor, add, sub, shiftRight, subFrom, shiftLeft, skipUnlessEqual, loadIndex, jumpOffset,
   random, draw, skipIfKey, skipUnlessKey, readDelay, awaitKey, setDelay, setSound, addIndex,
   loadGlyph, storeDecimal, storeRegisters, loadRegisters]

def pattern : Form → Pattern
  | clearDisplay => ⟨0x0, .nibble 0x0⟩
  | ret => ⟨0x0, .nibble 0xE⟩
  | jump => ⟨0x1, .whole⟩
  | call => ⟨0x2, .whole⟩
  | skipIfByte => ⟨0x3, .whole⟩
  | skipUnlessByte => ⟨0x4, .whole⟩
  | skipIfEqual => ⟨0x5, .whole⟩
  | loadByte => ⟨0x6, .whole⟩
  | addByte => ⟨0x7, .whole⟩
  | copy => ⟨0x8, .nibble 0x0⟩
  | or => ⟨0x8, .nibble 0x1⟩
  | and => ⟨0x8, .nibble 0x2⟩
  | xor => ⟨0x8, .nibble 0x3⟩
  | add => ⟨0x8, .nibble 0x4⟩
  | sub => ⟨0x8, .nibble 0x5⟩
  | shiftRight => ⟨0x8, .nibble 0x6⟩
  | subFrom => ⟨0x8, .nibble 0x7⟩
  | shiftLeft => ⟨0x8, .nibble 0xE⟩
  | skipUnlessEqual => ⟨0x9, .whole⟩
  | loadIndex => ⟨0xA, .whole⟩
  | jumpOffset => ⟨0xB, .whole⟩
  | random => ⟨0xC, .whole⟩
  | draw => ⟨0xD, .whole⟩
  | skipIfKey => ⟨0xE, .byte 0x9E⟩
  | skipUnlessKey => ⟨0xE, .byte 0xA1⟩
  | readDelay => ⟨0xF, .byte 0x07⟩
  | awaitKey => ⟨0xF, .byte 0x0A⟩
  | setDelay => ⟨0xF, .byte 0x15⟩
  | setSound => ⟨0xF, .byte 0x18⟩
  | addIndex => ⟨0xF, .byte 0x1E⟩
  | loadGlyph => ⟨0xF, .byte 0x29⟩
  | storeDecimal => ⟨0xF, .byte 0x33⟩
  | storeRegisters => ⟨0xF, .byte 0x55⟩
  | loadRegisters => ⟨0xF, .byte 0x65⟩

/-- The operation of this form with the operands it takes from the fields. -/
def operation (f : Fields) : Form → Operation
  | clearDisplay => .clearDisplay
  | ret => .ret
  | jump => .jump f.address
  | call => .call f.address
  | skipIfByte => .skipIfByte f.x f.byte
  | skipUnlessByte => .skipUnlessByte f.x f.byte
  | skipIfEqual => .skipIfEqual f.x f.y
  | loadByte => .loadByte f.x f.byte
  | addByte => .addByte f.x f.byte
  | copy => .copy f.x f.y
  | or => .or f.x f.y
  | and => .and f.x f.y
  | xor => .xor f.x f.y
  | add => .add f.x f.y
  | sub => .sub f.x f.y
  | shiftRight => .shiftRight f.x
  | subFrom => .subFrom f.x f.y
  | shiftLeft => .shiftLeft f.x
  | skipUnlessEqual => .skipUnlessEqual f.x f.y
  | loadIndex => .loadIndex f.address
  | jumpOffset => .jumpOffset f.address
  | random => .random f.x f.byte
  | draw => .draw f.x f.y f.nibble
  | skipIfKey => .skipIfKey f.x
  | skipUnlessKey => .skipUnlessKey f.x
  | readDelay => .readDelay f.x
  | awaitKey => .awaitKey f.x
  | setDelay => .setDelay f.x
  | setSound => .setSound f.x
  | addIndex => .addIndex f.x
  | loadGlyph => .loadGlyph f.x
  | storeDecimal => .storeDecimal f.x
  | storeRegisters => .storeRegisters f.x
  | loadRegisters => .loadRegisters f.x

end Form

def Operation.form : Operation → Form
  | clearDisplay => .clearDisplay
  | ret => .ret
  | jump _ => .jump
  | call _ => .call
  | skipIfByte _ _ => .skipIfByte
  | skipUnlessByte _ _ => .skipUnlessByte
  | skipIfEqual _ _ => .skipIfEqual
  | loadByte _ _ => .loadByte
  | addByte _ _ => .addByte
  | copy _ _ => .copy
  | or _ _ => .or
  | and _ _ => .and
  | xor _ _ => .xor
  | add _ _ => .add
  | sub _ _ => .sub
  | shiftRight _ => .shiftRight
  | subFrom _ _ => .subFrom
  | shiftLeft _ => .shiftLeft
  | skipUnlessEqual _ _ => .skipUnlessEqual
  | loadIndex _ => .loadIndex
  | jumpOffset _ => .jumpOffset
  | random _ _ => .random
  | draw _ _ _ => .draw
  | skipIfKey _ => .skipIfKey
  | skipUnlessKey _ => .skipUnlessKey
  | readDelay _ => .readDelay
  | awaitKey _ => .awaitKey
  | setDelay _ => .setDelay
  | setSound _ => .setSound
  | addIndex _ => .addIndex
  | loadGlyph _ => .loadGlyph
  | storeDecimal _ => .storeDecimal
  | storeRegisters _ => .storeRegisters
  | loadRegisters _ => .loadRegisters

@[simp] theorem Form.form_operation (form : Form) (f : Fields) : (form.operation f).form = form := by
  cases form <;> rfl

namespace Word

variable {word : Int} {first x y last : Fin 16}

/-- The lowest sixteen bits of a word, as four nibbles. -/
def Reads (word : Int) (first x y last : Fin 16) : Prop :=
  word % 65536 = 4096 * first.val + 256 * x.val + 16 * y.val + last.val

instance : Decidable (Reads word first x y last) := inferInstanceAs (Decidable (_ = _))

theorem exists_reads (word : Int) : ∃ first x y last, Reads word first x y last := by
  have hl : 0 ≤ word % 65536 := Int.emod_nonneg word (by decide)
  have hu : word % 65536 < 65536 := Int.emod_lt_of_pos word (by decide)
  obtain ⟨m, hm⟩ := Int.eq_ofNat_of_zero_le hl
  refine ⟨⟨m / 4096, by omega⟩, ⟨m / 256 % 16, by omega⟩, ⟨m / 16 % 16, by omega⟩,
    ⟨m % 16, by omega⟩, ?_⟩
  unfold Reads
  dsimp only
  omega

theorem Reads.low_eq (h : Reads word first x y last) :
    low word = 4096 * first.val + 256 * x.val + 16 * y.val + last.val := by
  unfold Reads at h
  unfold low
  omega

theorem Reads.family_eq (h : Reads word first x y last) : family word = first := by
  apply Fin.ext
  change low word / 4096 % 16 = first.val
  rw [h.low_eq]
  omega

theorem Reads.fields_eq (h : Reads word first x y last) :
    fields word = .ofNibbles x y last := by
  have hlow := h.low_eq
  have hbyte : low word % 256 = 16 * y.val + last.val := by omega
  rw [fields, Fields.ofNibbles, Fields.mk.injEq, hbyte]
  simp only [Fin.ext_iff, true_and]
  omega

end Word

/-- The fields of a word as masks cut them out of it.  A negative word is one with ones above all
its bits. -/
structure Word.Masked (word : Int) (f : Fields) : Prop where
  x : (f.x.val : Int) = Int.land word 0xF00 >>> (8 : Nat)
  y : (f.y.val : Int) = Int.land word 0xF0 >>> (4 : Nat)
  nibble : (f.nibble.val : Int) = Int.land word 0xF
  byte : (f.byte.toNat : Int) = Int.land word 0xFF
  address : (f.address.val : Int) = Int.land word 0xFFF

namespace Word

theorem testBit_low (word : Int) {i : Nat} (h : i < 16) :
    (low word).testBit i = Int.testBit word i := by
  cases word with
  | ofNat n =>
    have hl : low (Int.ofNat n) = n % 2 ^ 16 := by
      change ((n : Int) % 65536).toNat = _
      omega
    rw [hl, Nat.testBit_mod_two_pow]
    simp [h, Int.testBit]
  | negSucc n =>
    have hl : low (Int.negSucc n) = 2 ^ 16 - (n % 2 ^ 16 + 1) := by
      change (Int.negSucc n % 65536).toNat = _
      omega
    have hlt : n % 2 ^ 16 < 2 ^ 16 := Nat.mod_lt n (by decide)
    rw [hl, Nat.testBit_two_pow_sub_succ hlt, Nat.testBit_mod_two_pow]
    simp [h, Int.testBit]

theorem exists_land_eq (word : Int) (mask : Nat) : ∃ n : Nat, Int.land word mask = n := by
  cases word with
  | ofNat m => exact ⟨_, rfl⟩
  | negSucc m => exact ⟨_, rfl⟩

theorem land_eq_low (word : Int) {mask : Nat} (h : mask < 2 ^ 16) :
    Int.land word mask = (low word &&& mask : Nat) := by
  obtain ⟨n, hn⟩ := exists_land_eq word mask
  rw [hn]
  congr 1
  apply Nat.eq_of_testBit_eq
  intro i
  have hbit : n.testBit i = (Int.testBit word i && mask.testBit i) := by
    have hland := Int.testBit_land word mask i
    rwa [hn] at hland
  rw [hbit, Nat.testBit_and]
  by_cases hi : i < 16
  · rw [testBit_low word hi]
  · have hm : mask.testBit i = false :=
      Nat.testBit_lt_two_pow (h.trans_le (Nat.pow_le_pow_right (by decide) (by omega)))
    rw [hm, Bool.and_false, Bool.and_false]

theorem land_shiftRight (word : Int) (place width : Nat) (h : place + width ≤ 16) :
    Int.land word (((2 ^ width - 1) <<< place : Nat) : Int) >>> place =
      (low word / 2 ^ place % 2 ^ width : Nat) := by
  have hmask : (2 ^ width - 1) <<< place < 2 ^ 16 := by
    rw [Nat.shiftLeft_eq]
    calc
      (2 ^ width - 1) * 2 ^ place < 2 ^ width * 2 ^ place :=
        Nat.mul_lt_mul_of_pos_right (Nat.sub_lt (Nat.two_pow_pos width) (by decide))
          (Nat.two_pow_pos place)
      _ = 2 ^ (place + width) := by rw [Nat.mul_comm, Nat.pow_add]
      _ ≤ 2 ^ 16 := Nat.pow_le_pow_right (by decide) h
  have hcut : (low word &&& ((2 ^ width - 1) <<< place)) >>> place =
      low word / 2 ^ place % 2 ^ width := by
    rw [Nat.shiftRight_and_distrib, Nat.shiftLeft_shiftRight, Nat.and_two_pow_sub_one_eq_mod,
      Nat.shiftRight_eq_div_pow]
  rw [land_eq_low word hmask, ← hcut]
  rfl

theorem land_two_pow_sub_one (word : Int) (width : Nat) (h : width ≤ 16) :
    Int.land word ((2 ^ width - 1 : Nat) : Int) = (low word % 2 ^ width : Nat) := by
  have hmask : 2 ^ width - 1 < 2 ^ 16 :=
    (Nat.sub_lt (Nat.two_pow_pos width) (by decide)).trans_le
      (Nat.pow_le_pow_right (by decide) h)
  rw [land_eq_low word hmask, Nat.and_two_pow_sub_one_eq_mod]

theorem masked_fields (word : Int) : Masked word (fields word) where
  x := (land_shiftRight word 8 4 (by decide)).symm
  y := (land_shiftRight word 4 4 (by decide)).symm
  nibble := (land_two_pow_sub_one word 4 (by decide)).symm
  byte := by
    have hb : (UInt8.ofNat (low word % 256)).toNat = low word % 256 :=
      UInt8.toNat_ofNat_of_lt' (Nat.mod_lt _ (by decide))
    change ((UInt8.ofNat (low word % 256)).toNat : Int) = _
    rw [hb]
    exact (land_two_pow_sub_one word 8 (by decide)).symm
  address := (land_two_pow_sub_one word 12 (by decide)).symm

end Word

theorem Fields.byte_ofNibbles_eq_iff {x y last : Fin 16} {value : Nat} (h : value < 256) :
    (Fields.ofNibbles x y last).byte = UInt8.ofNat value ↔ 16 * y.val + last.val = value := by
  rw [← UInt8.toNat_inj]
  change (UInt8.ofNat (16 * y.val + last.val)).toNat = _ ↔ _
  rw [UInt8.toNat_ofNat', UInt8.toNat_ofNat']
  omega

theorem Fields.byte_ofNibbles_mem_iff {x y last : Fin 16} {values : List Nat}
    (h : ∀ value ∈ values, value < 256) :
    (Fields.ofNibbles x y last).byte ∈ values.map UInt8.ofNat ↔
      16 * y.val + last.val ∈ values := by
  induction values with
  | nil => simp
  | cons value rest ih =>
    obtain ⟨hv, hr⟩ := List.forall_mem_cons.mp h
    rw [List.map_cons, List.mem_cons, List.mem_cons, byte_ofNibbles_eq_iff hv, ih hr]

/-- The nibbles of the words that have no pattern. -/
def Word.Unlisted (first y last : Fin 16) : Prop :=
  (first.val = 0x0 ∧ last.val ≠ 0x0 ∧ last.val ≠ 0xE) ∨
  (first.val = 0x8 ∧ (0x8 ≤ last.val ∧ last.val ≤ 0xD ∨ last.val = 0xF)) ∨
  (first.val = 0xE ∧ 16 * y.val + last.val ∉ [0x9E, 0xA1]) ∨
  (first.val = 0xF ∧
    16 * y.val + last.val ∉ [0x07, 0x0A, 0x15, 0x18, 0x1E, 0x29, 0x33, 0x55, 0x65])

instance (first y last : Fin 16) : Decidable (Word.Unlisted first y last) :=
  inferInstanceAs (Decidable (_ ∨ _))

namespace Operation

variable {word : Int} {first x y last : Fin 16} {form : Form}

theorem ofWord?_of_fits (h : Word.Reads word first x y last)
    (hf : form.pattern.Fits first y last) :
    ofWord? word = some (form.operation (.ofNibbles x y last)) := by
  obtain ⟨hfirst, hpicks⟩ := hf
  obtain ⟨first, hlt⟩ := first
  obtain rfl : first = form.pattern.family := hfirst
  unfold ofWord?
  rw [h.family_eq, h.fields_eq]
  cases form with
  | clearDisplay | ret | copy | or | and | xor | add | sub | shiftRight | subFrom | shiftLeft =>
    obtain ⟨last, hlast⟩ := last
    obtain rfl : last = _ := hpicks
    rfl
  | skipIfKey | skipUnlessKey =>
    have hb := (Fields.byte_ofNibbles_eq_iff (x := x) (by decide)).mpr hpicks
    change keys? _ = _
    unfold keys?
    rw [hb]
    rfl
  | readDelay | awaitKey | setDelay | setSound | addIndex | loadGlyph | storeDecimal
  | storeRegisters | loadRegisters =>
    have hb := (Fields.byte_ofNibbles_eq_iff (x := x) (by decide)).mpr hpicks
    change transfer? _ = _
    unfold transfer?
    rw [hb]
    rfl
  | _ => rfl

theorem form_eq_of_fits {other : Form} (hf : form.pattern.Fits first y last)
    (ho : other.pattern.Fits first y last) : form = other := by
  obtain ⟨word, hword⟩ : ∃ word, Word.Reads word first 0 y last :=
    ⟨4096 * first.val + 16 * y.val + last.val, by unfold Word.Reads; omega⟩
  have h := (ofWord?_of_fits hword hf).symm.trans (ofWord?_of_fits hword ho)
  rw [← form.form_operation, Option.some.inj h, Form.form_operation]

theorem exists_fits (h : ¬ Word.Unlisted first y last) :
    ∃ form : Form, form.pattern.Fits first y last := by
  have system : ∀ last : Fin 16, ¬ (last.val ≠ 0x0 ∧ last.val ≠ 0xE) →
      ∃ form ∈ Form.all, form.pattern = ⟨0x0, .nibble last.val⟩ := by decide
  have arithmetic : ∀ last : Fin 16, ¬ (0x8 ≤ last.val ∧ last.val ≤ 0xD ∨ last.val = 0xF) →
      ∃ form ∈ Form.all, form.pattern = ⟨0x8, .nibble last.val⟩ := by decide
  have keys : ∀ byte ∈ [0x9E, 0xA1],
      ∃ form ∈ Form.all, form.pattern = ⟨0xE, .byte byte⟩ := by decide
  have transfers : ∀ byte ∈ [0x07, 0x0A, 0x15, 0x18, 0x1E, 0x29, 0x33, 0x55, 0x65],
      ∃ form ∈ Form.all, form.pattern = ⟨0xF, .byte byte⟩ := by decide
  have whole : ∀ first : Fin 16, first.val ≠ 0x0 → first.val ≠ 0x8 → first.val ≠ 0xE →
      first.val ≠ 0xF → ∃ form ∈ Form.all, form.pattern = ⟨first.val, .whole⟩ := by decide
  simp only [Word.Unlisted, not_or, not_and, Decidable.not_not] at h
  obtain ⟨hsystem, harithmetic, hkeys, htransfers⟩ := h
  by_cases h0 : first.val = 0x0
  · obtain ⟨form, -, hp⟩ := system last (by simpa using hsystem h0)
    exact ⟨form, hp ▸ ⟨h0, rfl⟩⟩
  by_cases h8 : first.val = 0x8
  · obtain ⟨form, -, hp⟩ := arithmetic last (by simpa using harithmetic h8)
    exact ⟨form, hp ▸ ⟨h8, rfl⟩⟩
  by_cases hE : first.val = 0xE
  · obtain ⟨form, -, hp⟩ := keys _ (hkeys hE)
    exact ⟨form, hp ▸ ⟨hE, rfl⟩⟩
  by_cases hF : first.val = 0xF
  · obtain ⟨form, -, hp⟩ := transfers _ (htransfers hF)
    exact ⟨form, hp ▸ ⟨hF, rfl⟩⟩
  obtain ⟨form, -, hp⟩ := whole first h0 h8 hE hF
  exact ⟨form, hp ▸ ⟨rfl, trivial⟩⟩

theorem not_listed_of_unlisted (h : Word.Reads word first x y last)
    (hu : Word.Unlisted first y last) : ¬ Word.Listed word := by
  unfold Word.Listed
  rw [h.family_eq, h.fields_eq]
  obtain ⟨first, hlt⟩ := first
  obtain ⟨rfl, hl⟩ | ⟨rfl, hl⟩ | ⟨rfl, hl⟩ | ⟨rfl, hl⟩ := hu
  · change ¬ (last = 0x0 ∨ last = 0xE)
    omega
  · change ¬ (last ≤ 0x7 ∨ last = 0xE)
    omega
  · intro hbyte
    apply hl
    apply (Fields.byte_ofNibbles_mem_iff (x := x) (by decide)).mp
    simpa using hbyte
  · intro hbyte
    exact hl ((Fields.byte_ofNibbles_mem_iff (by decide)).mp hbyte)

end Operation

namespace Instruction

open Word

variable {word : Int} {first x y last : Fin 16}

theorem decode_of_fits {form : Form} (h : Reads word first x y last)
    (hf : form.pattern.Fits first y last) :
    decode word = .ok ⟨form.operation (.ofNibbles x y last), word⟩ :=
  decode_of_some (Operation.ofWord?_of_fits h hf)

theorem decode_eq_unknown_iff (h : Reads word first x y last) :
    decode word = .error (.fault (.unknownOpcode word)) ↔ Unlisted first y last := by
  constructor
  · intro he
    by_contra hu
    obtain ⟨form, hf⟩ := Operation.exists_fits hu
    rw [decode_of_fits h hf] at he
    cases he
  · intro hu
    apply decode_of_none
    rw [Operation.ofWord?_eq_none_iff]
    exact Operation.not_listed_of_unlisted h hu

theorem exists_form_of_decode {i : Instruction} (h : Reads word first x y last)
    (hd : decode word = .ok i) : ∃ form : Form, form.pattern.Fits first y last ∧
      i = ⟨form.operation (.ofNibbles x y last), word⟩ := by
  have hu : ¬ Unlisted first y last := by
    intro hu
    rw [(decode_eq_unknown_iff h).mpr hu] at hd
    cases hd
  obtain ⟨form, hf⟩ := Operation.exists_fits hu
  rw [decode_of_fits h hf] at hd
  exact ⟨form, hf, (Except.ok.inj hd).symm⟩

theorem fields_of_decode {i : Instruction} (h : Reads word first x y last)
    (hd : decode word = .ok i) : i.fields = .ofNibbles x y last := by
  obtain ⟨form, -, rfl⟩ := exists_form_of_decode h hd
  exact h.fields_eq

theorem form_fields_eq_iff {v w : Int} {i j : Instruction} (hi : decode v = .ok i)
    (hj : decode w = .ok j) :
    i.operation.form = j.operation.form ∧ i.fields = j.fields ↔ v % 65536 = w % 65536 := by
  obtain ⟨a, b, c, d, hv⟩ := exists_reads v
  constructor
  · rintro ⟨hform, hfields⟩
    obtain ⟨a', b', c', d', hw⟩ := exists_reads w
    rw [fields_of_decode hv hi, fields_of_decode hw hj] at hfields
    obtain rfl : b = b' := congrArg Fields.x hfields
    obtain rfl : c = c' := congrArg Fields.y hfields
    obtain rfl : d = d' := congrArg Fields.nibble hfields
    -- the first nibble is not among the fields, but every form has one of its own
    obtain ⟨form, hf, rfl⟩ := exists_form_of_decode hv hi
    obtain ⟨form', hf', rfl⟩ := exists_form_of_decode hw hj
    simp only [Form.form_operation] at hform
    obtain rfl : a = a' := Fin.ext (by rw [hf.1, hf'.1, hform])
    exact hv.trans hw.symm
  · intro hvw
    have hw : Reads w a b c d := hvw.symm.trans hv
    refine ⟨?_, (fields_of_decode hv hi).trans (fields_of_decode hw hj).symm⟩
    obtain ⟨form, hf, rfl⟩ := exists_form_of_decode hv hi
    obtain ⟨form', hf', rfl⟩ := exists_form_of_decode hw hj
    rw [Operation.form_eq_of_fits hf hf']

/-- A word is refused if its nibbles have no pattern.  Otherwise there is just one form whose
pattern they have, and the word decodes to that form, with the fields that the nibbles make up.
Two words decode to one form with the same fields if they agree in their lowest sixteen bits, and
only then. -/
theorem decode_by_pattern (h : Reads word first x y last) :
    (decode word = .error (.fault (.unknownOpcode word)) ↔ Unlisted first y last) ∧
    (¬ Unlisted first y last → ∃ i form, decode word = .ok i ∧
      (∀ other : Form, other.pattern.Fits first y last ↔ other = form) ∧
      i.operation = form.operation i.fields ∧ i.operation.form = form ∧ i.word = word ∧
      i.fields = .ofNibbles x y last ∧ Masked word i.fields) ∧
    ∀ other i j, decode word = .ok i → decode other = .ok j →
      (i.operation.form = j.operation.form ∧ i.fields = j.fields ↔
        word % 65536 = other % 65536) := by
  refine ⟨decode_eq_unknown_iff h, ?_, fun other i j hi hj => form_fields_eq_iff hi hj⟩
  intro hu
  obtain ⟨form, hf⟩ := Operation.exists_fits hu
  have hd := decode_of_fits h hf
  have hfields := fields_of_decode h hd
  refine ⟨_, form, hd, ?_, ?_, form.form_operation _, rfl, hfields, masked_fields word⟩
  · intro other
    constructor
    · exact fun ho => Operation.form_eq_of_fits ho hf
    · rintro rfl
      exact hf
  · rw [hfields]

/-- A negative word for shifting V1 to the right, and a wide one. -/
theorem decode_by_pattern_negative :
    Reads (-0x7EDA) 0x8 0x1 0x2 0x6 ∧ ¬ Unlisted 0x8 0x2 0x6 ∧
    ∃ i j, decode (-0x7EDA) = .ok i ∧ i.operation = .shiftRight 1 ∧ i.word = -0x7EDA ∧
      decode 0x18126 = .ok j ∧ i.operation.form = j.operation.form ∧ i.fields = j.fields := by
  have h : Reads (-0x7EDA) 0x8 0x1 0x2 0x6 := by decide
  have hu : ¬ Unlisted 0x8 0x2 0x6 := by decide
  obtain ⟨-, hknown, hwords⟩ := decode_by_pattern h
  obtain ⟨i, form, hi, hform, hop, -, hword, hfields, -⟩ := hknown hu
  have hj : decode 0x18126 = .ok ⟨.shiftRight 1, 0x18126⟩ := rfl
  obtain ⟨hsame, hequal⟩ := (hwords 0x18126 i _ hi hj).mpr (by decide)
  obtain rfl : .shiftRight = form := (hform .shiftRight).mp ⟨rfl, rfl⟩
  rw [hfields] at hop
  exact ⟨h, hu, i, _, hi, hop, hword, hj, hsame, hequal⟩

end Instruction

end ChipEight
