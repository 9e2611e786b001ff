import ChipEight.Machine.Report
import ChipEight.Proofs.HexText
import ChipEight.Proofs.Reachable

/-!
# Dumps read back

A dump tells all that it shows of a machine.  Its fields are cut off one by one from the left: each
numeral ends where a character follows that no numeral has, the line of the instruction where it
breaks, and the stack where the state begins.
-/

namespace ChipEight

namespace Hex

variable {width : Nat} {n n' : Int} {t t' : String}

/-- A numeral in front of the text ends there. -/
def Stops (t : String) : Prop := t.toList.takeWhile (· ∈ signedAlphabet) = []

theorem stops_append {first : Char} {rest : List Char} {s : String} (hs : s.toList = first :: rest)
    (h : first ∉ signedAlphabet) (t : String) : Stops (s ++ t) := by
  unfold Stops
  rw [String.toList_append, hs, List.cons_append, List.takeWhile_cons_of_neg]
  simpa using h

theorem text_append_inj (h : Stops t) (h' : Stops t') :
    text width n ++ t = text width n' ++ t' ↔ n = n' ∧ t = t' := by
  constructor
  · intro heq
    have hlists := congrArg String.toList heq
    simp only [String.toList_append, text, String.toList_ofList] at hlists
    obtain ⟨hnumeral, ht⟩ := eq_of_append_eq hlists (fun c hc => decide_eq_true (mem_numeral hc))
      (fun c hc => decide_eq_true (mem_numeral hc)) h h'
    have hn := congrArg signedValue hnumeral
    rw [signedValue_numeral, signedValue_numeral] at hn
    exact ⟨hn, String.toList_inj.mp ht⟩
  · rintro ⟨rfl, rfl⟩
    rfl

theorem text_append_label_inj {first : Char} {rest : List Char} {label : String}
    (hlabel : label.toList = first :: rest) (h : first ∉ signedAlphabet) :
    text width n ++ (label ++ t) = text width n' ++ (label ++ t') ↔ n = n' ∧ t = t' := by
  rw [text_append_inj (stops_append hlabel h t) (stops_append hlabel h t'),
    String.append_right_inj]

theorem byte_append_inj {b b' : UInt8} : byte b ++ t = byte b' ++ t' ↔ b = b' ∧ t = t' := by
  constructor
  · intro heq
    have hlists := congrArg String.toList heq
    simp only [String.toList_append] at hlists
    have hlength : (byte b).toList.length = (byte b').toList.length :=
      (length_text b.toNat_lt).trans (length_text b'.toNat_lt).symm
    obtain ⟨hbyte, ht⟩ := List.append_inj hlists hlength
    have hvalue := congrArg value hbyte
    unfold byte at hvalue
    rw [value_text, value_text] at hvalue
    exact ⟨UInt8.toNat_inj.mp hvalue, String.toList_inj.mp ht⟩
  · rintro ⟨rfl, rfl⟩
    rfl

/-- Bytes have no gaps between them, but each of them is two digits long. -/
theorem bytes_append_inj {bytes bytes' : List UInt8} (hlength : bytes.length = bytes'.length) :
    String.join (bytes.map byte) ++ t = String.join (bytes'.map byte) ++ t' ↔
      bytes = bytes' ∧ t = t' := by
  induction bytes generalizing bytes' with
  | nil =>
    obtain rfl := List.length_eq_zero_iff.mp hlength.symm
    simp
  | cons b rest ih =>
    obtain ⟨b', rest', rfl⟩ := List.exists_cons_of_length_eq_add_one hlength.symm
    rw [List.map_cons, List.map_cons, String.join_cons, String.join_cons, String.append_assoc,
      String.append_assoc, byte_append_inj, ih (Nat.succ.inj hlength), List.cons.injEq, and_assoc]

end Hex

namespace Machine

open Hex

variable {m m' : Machine} {text text' t t' : String}

def entryText (entry : Int) : String := " 0x" ++ Hex.text 3 entry

def entriesText (entries : List Int) : String := String.join (entries.map entryText)

theorem entriesText_cons (entry : Int) (rest : List Int) (t : String) :
    entriesText (entry :: rest) ++ t = " 0x" ++ (Hex.text 3 entry ++ (entriesText rest ++ t)) := by
  rw [entriesText, List.map_cons, String.join_cons, entryText, String.append_assoc,
    String.append_assoc]
  rfl

theorem stops_entries (entries : List Int) (t : String) :
    Stops (entriesText entries ++ ("\nState: " ++ t)) := by
  cases entries with
  | nil => exact stops_append rfl (by decide) t
  | cons entry rest =>
    rw [entriesText_cons]
    exact stops_append rfl (by decide) _

theorem end_ne_entries (entry : Int) (rest : List Int) (t t' : String) :
    "\nState: " ++ t ≠ entriesText (entry :: rest) ++ t' := by
  intro h
  rw [entriesText_cons] at h
  have hhead := congrArg (fun s : String => s.toList.head?) h
  simp at hhead

theorem empty_ne_entries (entry : Int) (rest : List Int) (t t' : String) :
    " (Empty)" ++ t ≠ entriesText (entry :: rest) ++ t' := by
  intro h
  rw [entriesText_cons] at h
  have hfront := congrArg (fun s : String => s.toList.take 2) h
  simp at hfront

theorem entries_append_inj {entries entries' : List Int} :
    entriesText entries ++ ("\nState: " ++ t) = entriesText entries' ++ ("\nState: " ++ t') ↔
      entries = entries' ∧ t = t' := by
  induction entries generalizing entries' with
  | nil =>
    cases entries' with
    | nil =>
      rw [String.append_right_inj, String.append_right_inj]
      exact ⟨fun h => ⟨rfl, h⟩, And.right⟩
    | cons entry rest => exact iff_of_false (end_ne_entries entry rest t _) fun h => nomatch h.1
  | cons entry rest ih =>
    cases entries' with
    | nil => exact iff_of_false (end_ne_entries entry rest t' _).symm fun h => nomatch h.1
    | cons entry' rest' =>
      rw [entriesText_cons, entriesText_cons, String.append_right_inj,
        text_append_inj (stops_entries rest t) (stops_entries rest' t'), ih, List.cons.injEq,
        and_assoc]

theorem stack_append_inj {s s' : CallStack} :
    stackText s ++ ("\nState: " ++ t) = stackText s' ++ ("\nState: " ++ t') ↔
      s.toList = s'.toList ∧ t = t' := by
  have htext (s : CallStack) :
      stackText s = if s.toList.isEmpty then " (Empty)" else entriesText s.toList := rfl
  rw [htext, htext]
  cases s.toList with
  | nil =>
    cases s'.toList with
    | nil =>
      change " (Empty)" ++ _ = " (Empty)" ++ _ ↔ _
      rw [String.append_right_inj, String.append_right_inj]
      exact ⟨fun h => ⟨rfl, h⟩, And.right⟩
    | cons entry rest => exact iff_of_false (empty_ne_entries entry rest _ _) fun h => nomatch h.1
  | cons entry rest =>
    cases s'.toList with
    | nil => exact iff_of_false (empty_ne_entries entry rest _ _).symm fun h => nomatch h.1
    | cons entry' rest' => exact entries_append_inj

theorem registerText_append_inj :
    m.registerText ++ t = m'.registerText ++ t' ↔ m.registers = m'.registers ∧ t = t' := by
  have hlength : m.registers.toList.reverse.length = m'.registers.toList.reverse.length := by
    rw [List.length_reverse, List.length_reverse, Vector.length_toList, Vector.length_toList]
  rw [registerText, registerText, bytes_append_inj hlength, List.reverse_inj, Vector.toList_inj]

theorem line_append_inj (h : '\n' ∉ text.toList) (h' : '\n' ∉ text'.toList) :
    text ++ ("\nStack:" ++ t) = text' ++ ("\nStack:" ++ t') ↔ text = text' ∧ t = t' := by
  constructor
  · intro heq
    have hlists := congrArg String.toList heq
    simp only [String.toList_append] at hlists
    have hinside {cs : List Char} (hcs : '\n' ∉ cs) : ∀ c ∈ cs, decide (c ≠ '\n') = true :=
      fun c hc => decide_eq_true (ne_of_mem_of_not_mem hc hcs)
    obtain ⟨htext, ht⟩ := eq_of_append_eq hlists (hinside h) (hinside h') rfl rfl
    exact ⟨String.toList_inj.mp htext, String.toList_inj.mp (List.append_cancel_left ht)⟩
  · rintro ⟨rfl, rfl⟩
    rfl

theorem phaseText_waiting (target : Register) :
    phaseText (.waitingForKey target) = "waiting_for_key (V" ++ (Hex.nibble target ++ ")") := by
  unfold phaseText
  exact String.append_assoc

theorem running_ne_waiting (target : Register) :
    phaseText .running ≠ phaseText (.waitingForKey target) := by
  intro h
  rw [phaseText_waiting] at h
  have hhead := congrArg (fun s : String => s.toList.head?) h
  unfold phaseText at hhead
  simp at hhead

theorem phaseText_inj {p p' : Phase} : phaseText p = phaseText p' ↔ p = p' := by
  refine ⟨fun h => ?_, congrArg phaseText⟩
  cases p with
  | running =>
    cases p' with
    | running => rfl
    | waitingForKey target => exact absurd h (running_ne_waiting target)
  | waitingForKey target =>
    cases p' with
    | running => exact absurd h.symm (running_ne_waiting target)
    | waitingForKey target' =>
      rw [phaseText_waiting, phaseText_waiting, String.append_right_inj,
        String.append_left_inj] at h
      have hvalue := congrArg (fun s : String => value s.toList) h
      simp only [Hex.nibble, value_text] at hvalue
      rw [Fin.ext hvalue]

theorem dump_eq (m : Machine) (text : String) :
    m.dump text = "V: 0x" ++ (m.registerText ++ (" I: 0x" ++ (Hex.text 4 m.index ++
      (" DT: 0x" ++ (Hex.text 2 m.delay ++ (" ST: 0x" ++ (Hex.text 2 m.sound ++
      (" PC: 0x" ++ (Hex.text 3 m.lastCounter ++ (" OP: 0x" ++ (Hex.text 4 m.lastWord ++
      (" IN: " ++ (text ++ ("\nStack:" ++ (stackText m.stack ++
      ("\nState: " ++ phaseText m.phase)))))))))))))))) := by
  unfold dump line
  simp only [String.append_assoc]

/-- Two dumps are the same just when they show the same: the registers, the latest instruction with
its text, all entries of the stack and whether a key is awaited, and for which register. -/
theorem dump_eq_dump_iff (h : '\n' ∉ text.toList) (h' : '\n' ∉ text'.toList) :
    m.dump text = m'.dump text' ↔
      m.registers = m'.registers ∧ m.index = m'.index ∧ m.delay = m'.delay ∧ m.sound = m'.sound ∧
        m.lastCounter = m'.lastCounter ∧ m.lastWord = m'.lastWord ∧ text = text' ∧
        m.stack.toList = m'.stack.toList ∧ m.phase = m'.phase := by
  rw [dump_eq, dump_eq, String.append_right_inj, registerText_append_inj, String.append_right_inj,
    text_append_label_inj rfl (by decide), text_append_label_inj rfl (by decide),
    text_append_label_inj rfl (by decide), text_append_label_inj rfl (by decide),
    text_append_label_inj rfl (by decide), line_append_inj h h', stack_append_inj, phaseText_inj]

/-- How much room the stack has left is not shown, and what it holds is. -/
theorem dump_eq_dump_iff_stack :
    let waiting : Machine :=
      { boot false false 16 with stack := ⟨16, [0x1000, 0x20]⟩, phase := .waitingForKey 5 }
    let full : Machine := { waiting with stack := ⟨2, [0x1000, 0x20]⟩ }
    let deeper : Machine := { waiting with stack := ⟨16, [0, 0x100, 0x20]⟩ }
    '\n' ∉ "LD V5, K".toList ∧ waiting.dump "LD V5, K" = full.dump "LD V5, K" ∧
      waiting.dump "LD V5, K" ≠ deeper.dump "LD V5, K" := by
  intro waiting full deeper
  have htext : '\n' ∉ "LD V5, K".toList := by decide
  refine ⟨htext, ?_, fun h => ?_⟩
  · exact (dump_eq_dump_iff htext htext).mpr ⟨rfl, rfl, rfl, rfl, rfl, rfl, rfl, rfl, rfl⟩
  · obtain ⟨-, -, -, -, -, -, -, hstack, -⟩ := (dump_eq_dump_iff htext htext).mp h
    exact absurd hstack (by decide)

end Machine

end ChipEight
