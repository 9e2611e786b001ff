import Mathlib.Data.List.Basic
import ChipEight.Instruction.Assembly
import ChipEight.Proofs.HexText

/-!
# Assembly text read back

An operation can be told from its text.  The text is cut into its words, the words are read as a
mnemonic and operands, and no two operations have these in common.
-/

namespace ChipEight

namespace Assembly

/-- What is named in assembly text by letters of its own. -/
inductive Place
  | index
  | block
  | delay
  | sound
  | key
  | glyph
  | decimal

namespace Place

def text : Place → String
  | index => "I"
  | block => "[I]"
  | delay => "DT"
  | sound => "ST"
  | key => "K"
  | glyph => "F"
  | decimal => "B"

def all : List Place := [index, block, delay, sound, key, glyph, decimal]

end Place

inductive Operand
  | register (x : Register)
  | nibble (n : Fin 16)
  | byte (b : UInt8)
  | address (a : Address)
  | place (p : Place)

namespace Operand

def text : Operand → String
  | register x => Assembly.register x
  | nibble n => "0x" ++ Hex.nibble n
  | byte b => Assembly.byte b
  | address a => Assembly.address a
  | place p => p.text

def numbered (n : Nat) : Operand := register ⟨n % 16, Nat.mod_lt n (by decide)⟩

theorem numbered_val (x : Register) : numbered x.val = register x :=
  congrArg register (Fin.ext (Nat.mod_eq_of_lt x.isLt))

def number? (n : Nat) : Nat → Option Operand
  | 1 => some (.nibble ⟨n % 16, Nat.mod_lt n (by decide)⟩)
  | 2 => some (.byte (UInt8.ofNat n))
  | 3 => some (.address ⟨n % 4096, Nat.mod_lt n (by decide)⟩)
  | _ => none

def read? : List Char → Option Operand
  | 'V' :: cs => some (numbered (Hex.value cs))
  | '0' :: 'x' :: cs => number? (Hex.value cs) cs.length
  | cs => (Place.all.find? fun p => p.text.toList = cs).map .place

def letters : List Char :=
  'V' :: 'x' :: Hex.alphabet ++ Place.all.flatMap fun p => p.text.toList

theorem read?_number {n width : Nat} (h : n < 16 ^ (width + 1)) :
    read? ("0x" ++ Hex.text (width + 1) n).toList = number? n (width + 1) := by
  have htext : ("0x" ++ Hex.text (width + 1) n).toList =
      '0' :: 'x' :: (Hex.text (width + 1) n).toList := String.toList_append
  rw [htext, read?, Hex.value_text, Hex.length_text h]

theorem read?_text (o : Operand) : read? o.text.toList = some o := by
  cases o with
  | register x =>
    have htext : (text (register x)).toList = 'V' :: (Hex.text 1 x.val).toList :=
      String.toList_append
    rw [htext, read?, Hex.value_text, numbered_val]
  | nibble n =>
    have hn : number? n.val 1 = some (nibble n) :=
      congrArg (fun k => some (nibble k)) (Fin.ext (Nat.mod_eq_of_lt n.isLt))
    exact (read?_number n.isLt).trans hn
  | byte b =>
    have hb : number? b.toNat 2 = some (byte b) :=
      congrArg (fun k => some (byte k)) UInt8.ofNat_toNat
    exact (read?_number b.toNat_lt).trans hb
  | address a =>
    have ha : number? a.val 3 = some (address a) :=
      congrArg (fun k => some (address k)) (Fin.ext (Nat.mod_eq_of_lt a.isLt))
    exact (read?_number a.isLt).trans ha
  | place p => cases p <;> rfl

theorem mem_text {c : Char} {o : Operand} (h : c ∈ o.text.toList) : c ∈ letters := by
  have hdigits (width n : Nat) : ∀ c ∈ (Hex.text width n).toList, c ∈ letters := fun c hc =>
    List.mem_append_left _ (.tail _ (.tail _ (Hex.mem_text hc)))
  have hnumber (width n : Nat) : ∀ c ∈ ("0x" ++ Hex.text width n).toList, c ∈ letters := by
    rw [String.toList_append]
    change ∀ c ∈ '0' :: 'x' :: (Hex.text width n).toList, c ∈ letters
    exact List.forall_mem_cons.mpr
      ⟨by decide, List.forall_mem_cons.mpr ⟨by decide, hdigits width n⟩⟩
  cases o with
  | register x =>
    rw [text, Assembly.register, String.toList_append] at h
    exact List.forall_mem_cons.mpr ⟨by decide, hdigits 1 x.val⟩ c h
  | nibble n => exact hnumber 1 n.val c h
  | byte b => exact hnumber 2 b.toNat c h
  | address a => exact hnumber 3 a.val c h
  | place p =>
    have hp : p ∈ Place.all := by cases p <;> simp [Place.all]
    exact List.mem_append_right _ (List.mem_flatMap.mpr ⟨p, hp, h⟩)

end Operand

/-- The mnemonic and the operands of an operation. -/
structure Line where
  mnemonic : String
  operands : List Operand
  no_comma : ',' ∉ mnemonic.toList := by decide
  no_blank : ' ' ∉ mnemonic.toList := by decide

namespace Line

def words (l : Line) : List (List Char) :=
  l.mnemonic.toList :: l.operands.map fun o => o.text.toList

/-- A line as it is written, with a comma between operands. -/
def text (l : Line) : List Char :=
  l.mnemonic.toList ++ match l.operands with
    | [] => []
    | operands => ' ' :: [',', ' '].intercalate (operands.map fun o => o.text.toList)

theorem filter_intercalate {p : Char → Bool} {parts : List (List Char)} (sep : List Char)
    (h : ∀ part ∈ parts, part.filter p = part) :
    (sep.intercalate parts).filter p = (sep.filter p).intercalate parts := by
  induction parts with
  | nil => rfl
  | cons part rest ih =>
    have hpart := h part List.mem_cons_self
    have hrest := ih fun other ho => h other (.tail part ho)
    cases rest with
    | nil => simpa using hpart
    | cons next rest =>
      simp only [List.intercalate_cons_cons, List.filter_append, hpart, hrest]

theorem filter_of_not_mem {cs : List Char} (h : ',' ∉ cs) : cs.filter (· ≠ ',') = cs :=
  List.filter_eq_self.mpr fun c hc => by
    have hne : c ≠ ',' := ne_of_mem_of_not_mem hc h
    simpa using hne

theorem filter_text (l : Line) : l.text.filter (· ≠ ',') = [' '].intercalate l.words := by
  obtain ⟨mnemonic, operands, hcomma, -⟩ := l
  have hm := filter_of_not_mem hcomma
  cases operands with
  | nil => simpa [text, words] using hm
  | cons first rest =>
    have hoperands : ∀ part ∈ (first :: rest).map fun o => o.text.toList,
        part.filter (· ≠ ',') = part := by
      intro part hp
      obtain ⟨o, -, rfl⟩ := List.mem_map.mp hp
      exact filter_of_not_mem fun hc => absurd (Operand.mem_text hc) (by decide)
    change (mnemonic.toList ++ ' ' :: [',', ' '].intercalate _).filter (· ≠ ',') = _
    rw [List.filter_append, hm, List.filter_cons_of_pos (by decide),
      filter_intercalate _ hoperands]
    change _ = [' '].intercalate (mnemonic.toList :: (first :: rest).map fun o => o.text.toList)
    rw [List.map_cons, List.intercalate_cons_cons, List.append_assoc]
    rfl

theorem splitOn_text (l : Line) : (l.text.filter (· ≠ ',')).splitOn ' ' = l.words := by
  rw [filter_text]
  apply List.splitOn_intercalate
  · intro word hw
    obtain rfl | hw := List.mem_cons.mp hw
    · exact l.no_blank
    · obtain ⟨o, -, rfl⟩ := List.mem_map.mp hw
      exact fun h => absurd (Operand.mem_text h) (by decide)
  · exact List.cons_ne_nil _ _

theorem words_injective {l l' : Line} (h : l.words = l'.words) : l = l' := by
  obtain ⟨mnemonic, operands, _, _⟩ := l
  obtain ⟨mnemonic', operands', _, _⟩ := l'
  obtain ⟨hmnemonic, hoperands⟩ := List.cons.inj h
  have htext : Function.Injective fun o : Operand => o.text.toList := fun o o' ho => by
    have hread := congrArg Operand.read? ho
    simpa only [Operand.read?_text, Option.some.injEq] using hread
  obtain rfl := String.toList_inj.mp hmnemonic
  obtain rfl := htext.list_map hoperands
  rfl

theorem text_injective {l l' : Line} (h : l.text = l'.text) : l = l' := by
  apply words_injective
  rw [← splitOn_text l, h, splitOn_text]

end Line

end Assembly

namespace Operation

open Assembly

def line : Operation → Line
  | clearDisplay => .mk "CLS" []
  | ret => .mk "RET" []
  | jump a => .mk "JP" [.address a]
  | call a => .mk "CALL" [.address a]
  | skipIfByte x b => .mk "SE" [.register x, .byte b]
  | skipUnlessByte x b => .mk "SNE" [.register x, .byte b]
  | skipIfEqual x y => .mk "SE" [.register x, .register y]
  | loadByte x b => .mk "LD" [.register x, .byte b]
  | addByte x b => .mk "ADD" [.register x, .byte b]
  | copy x y => .mk "LD" [.register x, .register y]
  | or x y => .mk "OR" [.register x, .register y]
  | and x y => .mk "AND" [.register x, .register y]
  | xor x y => .mk "XOR" [.register x, .register y]
  | add x y => .mk "ADD" [.register x, .register y]
  | sub x y => .mk "SUB" [.register x, .register y]
  | shiftRight x => .mk "SHR" [.register x]
  | subFrom x y => .mk "SUBN" [.register x, .register y]
  | shiftLeft x => .mk "SHL" [.register x]
  | skipUnlessEqual x y => .mk "SNE" [.register x, .register y]
  | loadIndex a => .mk "LD" [.place .index, .address a]
  | jumpOffset a => .mk "JP" [.numbered 0, .address a]
  | random x b => .mk "RND" [.register x, .byte b]
  | draw x y n => .mk "DRW" [.register x, .register y, .nibble n]
  | skipIfKey x => .mk "SKP" [.register x]
  | skipUnlessKey x => .mk "SKNP" [.register x]
  | readDelay x => .mk "LD" [.register x, .place .delay]
  | awaitKey x => .mk "LD" [.register x, .place .key]
  | setDelay x => .mk "LD" [.place .delay, .register x]
  | setSound x => .mk "LD" [.place .sound, .register x]
  | addIndex x => .mk "ADD" [.place .index, .register x]
  | loadGlyph x => .mk "LD" [.place .glyph, .register x]
  | storeDecimal x => .mk "LD" [.place .decimal, .register x]
  | storeRegisters x => .mk "LD" [.place .block, .register x]
  | loadRegisters x => .mk "LD" [.register x, .place .block]

def ofLine? : Line → Option Operation
  | ⟨"CLS", [], _, _⟩ => some .clearDisplay
  | ⟨"RET", [], _, _⟩ => some .ret
  | ⟨"JP", [.address a], _, _⟩ => some (.jump a)
  | ⟨"CALL", [.address a], _, _⟩ => some (.call a)
  | ⟨"SE", [.register x, .byte b], _, _⟩ => some (.skipIfByte x b)
  | ⟨"SNE", [.register x, .byte b], _, _⟩ => some (.skipUnlessByte x b)
  | ⟨"SE", [.register x, .register y], _, _⟩ => some (.skipIfEqual x y)
  | ⟨"LD", [.register x, .byte b], _, _⟩ => some (.loadByte x b)
  | ⟨"ADD", [.register x, .byte b], _, _⟩ => some (.addByte x b)
  | ⟨"LD", [.register x, .register y], _, _⟩ => some (.copy x y)
  | ⟨"OR", [.register x, .register y], _, _⟩ => some (.or x y)
  | ⟨"AND", [.register x, .register y], _, _⟩ => some (.and x y)
  | ⟨"XOR", [.register x, .register y], _, _⟩ => some (.xor x y)
  | ⟨"ADD", [.register x, .register y], _, _⟩ => some (.add x y)
  | ⟨"SUB", [.register x, .register y], _, _⟩ => some (.sub x y)
  | ⟨"SHR", [.register x], _, _⟩ => some (.shiftRight x)
  | ⟨"SUBN", [.register x, .register y], _, _⟩ => some (.subFrom x y)
  | ⟨"SHL", [.register x], _, _⟩ => some (.shiftLeft x)
  | ⟨"SNE", [.register x, .register y], _, _⟩ => some (.skipUnlessEqual x y)
  | ⟨"LD", [.place .index, .address a], _, _⟩ => some (.loadIndex a)
  | ⟨"JP", [.register _, .address a], _, _⟩ => some (.jumpOffset a)
  | ⟨"RND", [.register x, .byte b], _, _⟩ => some (.random x b)
  | ⟨"DRW", [.register x, .register y, .nibble n], _, _⟩ => some (.draw x y n)
  | ⟨"SKP", [.register x], _, _⟩ => some (.skipIfKey x)
  | ⟨"SKNP", [.register x], _, _⟩ => some (.skipUnlessKey x)
  | ⟨"LD", [.register x, .place .delay], _, _⟩ => some (.readDelay x)
  | ⟨"LD", [.register x, .place .key], _, _⟩ => some (.awaitKey x)
  | ⟨"LD", [.place .delay, .register x], _, _⟩ => some (.setDelay x)
  | ⟨"LD", [.place .sound, .register x], _, _⟩ => some (.setSound x)
  | ⟨"ADD", [.place .index, .register x], _, _⟩ => some (.addIndex x)
  | ⟨"LD", [.place .glyph, .register x], _, _⟩ => some (.loadGlyph x)
  | ⟨"LD", [.place .decimal, .register x], _, _⟩ => some (.storeDecimal x)
  | ⟨"LD", [.place .block, .register x], _, _⟩ => some (.storeRegisters x)
  | ⟨"LD", [.register x, .place .block], _, _⟩ => some (.loadRegisters x)
  | _ => none

theorem ofLine?_line (op : Operation) : ofLine? op.line = some op := by
  cases op <;> rfl

theorem register_zero : register 0 = "V0" := by decide +kernel

theorem text_line (op : Operation) : op.line.text = op.assembly.toList := by
  cases op <;>
    simp [line, Line.text, List.intercalate, assembly, unary, binary, Operand.text, Place.text,
      Operand.numbered, register_zero]

theorem assembly_injective {op op' : Operation} (h : op.assembly = op'.assembly) : op = op' := by
  have hline : op.line = op'.line := by
    apply Line.text_injective
    rw [text_line, text_line, h]
  have hof := congrArg ofLine? hline
  simpa only [ofLine?_line, Option.some.injEq] using hof

end Operation

end ChipEight
