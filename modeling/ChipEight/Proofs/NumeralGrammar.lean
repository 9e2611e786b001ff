import Mathlib.Algebra.Group.Nat.Defs
import Mathlib.Data.List.DropRight
import ChipEight.Text.Numeral

/-!
# The grammar of hexadecimal numerals

What is read as an integer in base sixteen: blanks around, a sign, a marker, and digits with single
underscores between them.  The reader accepts these numerals and no other text.
-/

namespace ChipEight.Numeral

variable {base m d : Nat} {n : Int} {c : Char} {cs body : List Char} {ds : List Nat}

/-- Digits in a row, with at most one underscore between two of them. -/
inductive Digits (base : Nat) : List Char → List Nat → Prop
  | last {c : Char} {d : Nat} (digit : digit? base c = some d) : Digits base [c] [d]
  | next {c : Char} {d : Nat} {cs : List Char} {ds : List Nat} (digit : digit? base c = some d)
      (rest : Digits base cs ds) : Digits base (c :: cs) (d :: ds)
  | spaced {c : Char} {d : Nat} {cs : List Char} {ds : List Nat} (digit : digit? base c = some d)
      (rest : Digits base cs ds) : Digits base (c :: '_' :: cs) (d :: ds)

/-- What may stand in front of hexadecimal digits. -/
def markers : List (List Char) := [[], ['0', 'x'], ['0', 'X'], ['0', 'x', '_'], ['0', 'X', '_']]

/-- A sign in front of a magnitude, and the number they make. -/
inductive Signed (m : Nat) : List Char → Int → Prop
  | unsigned : Signed m [] m
  | plus : Signed m ['+'] m
  | minus : Signed m ['-'] (-m)

/-- The characters are a hexadecimal numeral of the number. -/
def Spells (cs : List Char) (n : Int) : Prop :=
  ∃ before sign marker body after ds, cs = before ++ ((sign ++ (marker ++ body)) ++ after) ∧
    (∀ c ∈ before, isPlainBlank c = true) ∧ (∀ c ∈ after, isPlainBlank c = true) ∧
    marker ∈ markers ∧ Digits 16 body ds ∧ Signed (ofDigits 16 ds) sign n

theorem plain_of_digit? (h : digit? base c = some d) :
    isPlainBlank c = false ∧ c ≠ '+' ∧ c ≠ '-' ∧ c ≠ '_' := by
  refine ⟨?_, ?_, ?_, ?_⟩
  · cases hb : isPlainBlank c with
    | false => rfl
    | true =>
      simp only [isPlainBlank, Bool.or_eq_true, Bool.and_eq_true, beq_iff_eq,
        decide_eq_true_eq] at hb
      simp only [digit?] at h
      rw [if_neg (by omega), if_neg (by omega), if_neg (by omega)] at h
      cases h
  · rintro rfl
    cases h
  · rintro rfl
    cases h
  · rintro rfl
    cases h

theorem Digits.exists_head (h : Digits base cs ds) :
    ∃ c rest d, cs = c :: rest ∧ digit? base c = some d := by
  cases h with
  | last digit | next digit _ | spaced digit _ => exact ⟨_, _, _, rfl, digit⟩

theorem Digits.exists_last (h : Digits base cs ds) :
    ∃ front c d, cs = front ++ [c] ∧ digit? base c = some d := by
  induction h with
  | last digit => exact ⟨[], _, _, rfl, digit⟩
  | @next first _ _ _ _ _ ih =>
    obtain ⟨front, c, d, rfl, digit⟩ := ih
    exact ⟨first :: front, c, d, rfl, digit⟩
  | @spaced first _ _ _ _ _ ih =>
    obtain ⟨front, c, d, rfl, digit⟩ := ih
    exact ⟨first :: '_' :: front, c, d, rfl, digit⟩

theorem lt_of_digit? (h : digit? base c = some d) : d < base := by
  simpa using (Option.filter_eq_some_iff.mp h).2

theorem foldl_lt (hds : ∀ d ∈ ds, d < base) (start : Nat) :
    ds.foldl (fun n d => base * n + d) start < (start + 1) * base ^ ds.length := by
  induction ds generalizing start with
  | nil => simp
  | cons d rest ih =>
    obtain ⟨hd, hrest⟩ := List.forall_mem_cons.mp hds
    calc
      (d :: rest).foldl (fun n d => base * n + d) start
          < (base * start + d + 1) * base ^ rest.length := ih hrest (base * start + d)
      _ ≤ (base * (start + 1)) * base ^ rest.length := by
        refine Nat.mul_le_mul_right _ ?_
        rw [Nat.mul_succ]
        omega
      _ = (start + 1) * base ^ (d :: rest).length := by
        rw [List.length_cons, Nat.pow_succ, Nat.mul_comm base, Nat.mul_assoc, Nat.mul_comm base]

theorem Digits.bounds (h : Digits base cs ds) :
    (∀ d ∈ ds, d < base) ∧ ds.length ≤ cs.length := by
  induction h with
  | last digit => simpa using lt_of_digit? digit
  | next digit _ ih =>
    refine ⟨List.forall_mem_cons.mpr ⟨lt_of_digit? digit, ih.1⟩, ?_⟩
    simpa using ih.2
  | spaced digit _ ih =>
    refine ⟨List.forall_mem_cons.mpr ⟨lt_of_digit? digit, ih.1⟩, ?_⟩
    have hlen := ih.2
    simp only [List.length_cons]
    omega

theorem Digits.ofDigits_lt (h : Digits base cs ds) : ofDigits base ds < base ^ cs.length := by
  obtain ⟨hds, hlen⟩ := h.bounds
  obtain ⟨c, rest, d, -, hd⟩ := h.exists_head
  have hbase : 0 < base := Nat.zero_lt_of_lt (lt_of_digit? hd)
  have hlt := foldl_lt hds 0
  rw [Nat.zero_add, Nat.one_mul] at hlt
  exact Nat.lt_of_lt_of_le hlt (Nat.pow_le_pow_right hbase hlen)

theorem digits?_cons_cons {rest : List Char} {c' : Char} (h : c' ≠ '_') :
    digits? base (c :: c' :: rest) = (digit? base c).bind fun d =>
      (digits? base (c' :: rest)).bind fun ds => some (d :: ds) := by
  rw [digits?]
  · rfl
  · simp
  · simp [h]

theorem digits?_eq_some_iff : digits? base cs = some ds ↔ Digits base cs ds := by
  constructor
  · intro h
    induction cs using digits?.induct generalizing ds with
    | case1 => cases h
    | case2 c =>
      obtain ⟨d, hd, rfl⟩ := Option.map_eq_some_iff.mp h
      exact .last hd
    | case3 c rest ih =>
      obtain ⟨d, hd, h⟩ := Option.bind_eq_some_iff.mp h
      obtain ⟨ds, hds, ⟨⟩⟩ := Option.bind_eq_some_iff.mp h
      exact .spaced hd (ih hds)
    | case4 c rest hne hno ih =>
      rw [digits?] at h
      · obtain ⟨d, hd, h⟩ := Option.bind_eq_some_iff.mp h
        obtain ⟨ds, hds, ⟨⟩⟩ := Option.bind_eq_some_iff.mp h
        exact .next hd (ih hds)
      · exact hne
      · exact hno
  · intro h
    induction h with
    | last digit => simp [digits?, digit]
    | next digit rest ih =>
      obtain ⟨c', rest', d', rfl, hd'⟩ := rest.exists_head
      rw [digits?_cons_cons (plain_of_digit? hd').2.2.2, digit, ih]
      rfl
    | spaced digit rest ih => simp [digits?, digit, ih]

theorem dropMarker_of_digits (h : Digits 16 body ds) : dropMarker 16 body = body := by
  unfold dropMarker
  split
  · split
    · rename_i hmarker
      obtain ⟨-, rfl | rfl⟩ := hmarker
      -- the letter of a marker is neither a digit nor an underscore
      all_goals
        cases h with
        | next _ rest =>
          obtain ⟨_, _, _, heq, hd⟩ := rest.exists_head
          obtain ⟨rfl, -⟩ := List.cons.inj heq
          cases hd
    · rfl
  · rfl

theorem dropMarker_append {marker : List Char} (hm : marker ∈ markers) (h : Digits 16 body ds) :
    dropMarker 16 (marker ++ body) = body := by
  obtain ⟨c, rest, d, rfl, hd⟩ := h.exists_head
  have hc : c ≠ '_' := (plain_of_digit? hd).2.2.2
  simp only [markers, List.mem_cons, List.not_mem_nil, or_false] at hm
  obtain rfl | rfl | rfl | rfl | rfl := hm
  · exact dropMarker_of_digits h
  · simp [dropMarker, hc]
  · simp [dropMarker, hc]
  · rfl
  · rfl

theorem exists_marker (cs : List Char) :
    ∃ marker ∈ markers, cs = marker ++ dropMarker 16 cs := by
  unfold dropMarker
  split
  · rename_i mark rest
    split
    · rename_i h
      obtain ⟨-, rfl | rfl⟩ := h
      · split
        · exact ⟨['0', 'x', '_'], by decide, rfl⟩
        · exact ⟨['0', 'x'], by decide, rfl⟩
      · split
        · exact ⟨['0', 'X', '_'], by decide, rfl⟩
        · exact ⟨['0', 'X'], by decide, rfl⟩
    · exact ⟨[], by decide, rfl⟩
  · exact ⟨[], by decide, rfl⟩

theorem magnitude?_eq (cs : List Char) :
    magnitude? 16 cs = (digits? 16 (dropMarker 16 cs)).map (ofDigits 16) := by
  unfold magnitude?
  cases digits? 16 (dropMarker 16 cs) with
  | none => rfl
  | some ds => rfl

theorem magnitude?_eq_some_iff :
    magnitude? 16 cs = some m ↔
      ∃ marker ∈ markers, ∃ body ds, cs = marker ++ body ∧ Digits 16 body ds ∧
        ofDigits 16 ds = m := by
  rw [magnitude?_eq, Option.map_eq_some_iff]
  constructor
  · rintro ⟨ds, hds, hm⟩
    obtain ⟨marker, hmem, hcs⟩ := exists_marker cs
    exact ⟨marker, hmem, _, ds, hcs, digits?_eq_some_iff.mp hds, hm⟩
  · rintro ⟨marker, hmem, body, ds, rfl, hds, hm⟩
    rw [dropMarker_append hmem hds]
    exact ⟨ds, digits?_eq_some_iff.mpr hds, hm⟩

theorem ends_of_magnitude {marker : List Char} (hm : marker ∈ markers) (h : Digits 16 body ds) :
    (∃ c rest, marker ++ body = c :: rest ∧ isPlainBlank c = false ∧ c ≠ '+' ∧ c ≠ '-') ∧
      ∃ front c, marker ++ body = front ++ [c] ∧ isPlainBlank c = false := by
  constructor
  · obtain ⟨c, rest, d, rfl, hd⟩ := h.exists_head
    obtain ⟨hblank, hplus, hminus, -⟩ := plain_of_digit? hd
    simp only [markers, List.mem_cons, List.not_mem_nil, or_false] at hm
    obtain rfl | rfl | rfl | rfl | rfl := hm
    · exact ⟨c, rest, rfl, hblank, hplus, hminus⟩
    all_goals exact ⟨'0', _, rfl, by decide, by decide, by decide⟩
  · obtain ⟨front, c, d, rfl, hd⟩ := h.exists_last
    exact ⟨marker ++ front, c, (List.append_assoc ..).symm, (plain_of_digit? hd).1⟩

theorem signed?_minus (cs : List Char) :
    signed? 16 ('-' :: cs) = (magnitude? 16 cs).map fun (m : Nat) => -(m : Int) := by
  simp only [signed?]
  cases magnitude? 16 cs with
  | none => rfl
  | some m => rfl

theorem signed?_of_unsigned (h : ∀ rest, cs ≠ '-' :: rest ∧ cs ≠ '+' :: rest) :
    signed? 16 cs = (magnitude? 16 cs).map Int.ofNat := by
  unfold signed?
  split
  · exact absurd rfl (h _).1
  · exact absurd rfl (h _).2
  · rfl

theorem signed?_eq_some_iff :
    signed? 16 cs = some n ↔
      ∃ sign marker body ds, cs = sign ++ (marker ++ body) ∧ marker ∈ markers ∧
        Digits 16 body ds ∧ Signed (ofDigits 16 ds) sign n := by
  constructor
  · intro h
    obtain ⟨rest, rfl⟩ | ⟨rest, rfl⟩ | hno :
        (∃ rest, cs = '-' :: rest) ∨ (∃ rest, cs = '+' :: rest) ∨
          ∀ rest, cs ≠ '-' :: rest ∧ cs ≠ '+' :: rest := by
      by_cases hm : ∃ rest, cs = '-' :: rest
      · exact .inl hm
      · by_cases hp : ∃ rest, cs = '+' :: rest
        · exact .inr (.inl hp)
        · exact .inr (.inr fun rest => ⟨fun h => hm ⟨rest, h⟩, fun h => hp ⟨rest, h⟩⟩)
    · rw [signed?_minus] at h
      obtain ⟨m, hm, rfl⟩ := Option.map_eq_some_iff.mp h
      obtain ⟨marker, hmem, body, ds, rfl, hds, rfl⟩ := magnitude?_eq_some_iff.mp hm
      exact ⟨['-'], marker, body, ds, rfl, hmem, hds, .minus⟩
    · obtain ⟨m, hm, rfl⟩ := Option.map_eq_some_iff.mp h
      obtain ⟨marker, hmem, body, ds, rfl, hds, rfl⟩ := magnitude?_eq_some_iff.mp hm
      exact ⟨['+'], marker, body, ds, rfl, hmem, hds, .plus⟩
    · rw [signed?_of_unsigned hno] at h
      obtain ⟨m, hm, rfl⟩ := Option.map_eq_some_iff.mp h
      obtain ⟨marker, hmem, body, ds, rfl, hds, rfl⟩ := magnitude?_eq_some_iff.mp hm
      exact ⟨[], marker, body, ds, rfl, hmem, hds, .unsigned⟩
  · rintro ⟨sign, marker, body, ds, rfl, hmem, hds, hsign⟩
    have hm : magnitude? 16 (marker ++ body) = some (ofDigits 16 ds) :=
      magnitude?_eq_some_iff.mpr ⟨marker, hmem, body, ds, rfl, hds, rfl⟩
    cases hsign with
    | unsigned =>
      obtain ⟨⟨c, rest, hcs, -, hplus, hminus⟩, -⟩ := ends_of_magnitude hmem hds
      rw [List.nil_append, signed?_of_unsigned, hm]
      · rfl
      · intro rest'
        rw [hcs]
        exact ⟨fun h => hminus (List.cons.inj h).1, fun h => hplus (List.cons.inj h).1⟩
    | plus => simp [signed?, hm]
    | minus => simp [signed?_minus, hm]

theorem exists_blanks (cs : List Char) :
    ∃ before after, cs = before ++ (trimBlanks cs ++ after) ∧
      (∀ c ∈ before, isPlainBlank c = true) ∧ ∀ c ∈ after, isPlainBlank c = true := by
  refine ⟨cs.takeWhile isPlainBlank, (cs.dropWhile isPlainBlank).rtakeWhile isPlainBlank, ?_,
    fun c hc => List.mem_takeWhile_imp hc, fun c hc => List.mem_rtakeWhile_imp hc⟩
  calc
    cs = cs.takeWhile isPlainBlank ++ cs.dropWhile isPlainBlank :=
      List.takeWhile_append_dropWhile.symm
    _ = _ := congrArg _ (List.rdropWhile_append_rtakeWhile ..).symm

theorem trimBlanks_append {before after middle : List Char}
    (hbefore : ∀ c ∈ before, isPlainBlank c = true) (hafter : ∀ c ∈ after, isPlainBlank c = true)
    (hfirst : ∃ c rest, middle = c :: rest ∧ isPlainBlank c = false)
    (hlast : ∃ front c, middle = front ++ [c] ∧ isPlainBlank c = false) :
    trimBlanks (before ++ (middle ++ after)) = middle := by
  have hfront : (before ++ (middle ++ after)).dropWhile isPlainBlank = middle ++ after := by
    obtain ⟨c, rest, rfl, hc⟩ := hfirst
    rw [List.dropWhile_append_of_pos hbefore, List.cons_append, List.dropWhile_cons_of_neg]
    simp [hc]
  have hback : (after.reverse ++ middle.reverse).dropWhile isPlainBlank = middle.reverse := by
    obtain ⟨front, c, rfl, hc⟩ := hlast
    rw [List.dropWhile_append_of_pos fun c hc => hafter c (List.mem_reverse.mp hc),
      List.reverse_append, List.reverse_singleton, List.singleton_append,
      List.dropWhile_cons_of_neg]
    simp [hc]
  rw [trimBlanks, hfront, List.reverse_append, hback, List.reverse_reverse]

/-- The reader accepts hexadecimal numerals and no other text. -/
theorem read?_eq_some_iff {text : String} :
    read? 16 text = some n ↔ Spells (text.toList.map plain) n := by
  unfold read?
  rw [signed?_eq_some_iff]
  generalize text.toList.map plain = cs
  constructor
  · rintro ⟨sign, marker, body, ds, hcs, hmem, hds, hsign⟩
    obtain ⟨before, after, heq, hbefore, hafter⟩ := exists_blanks cs
    rw [hcs] at heq
    exact ⟨before, sign, marker, body, after, ds, heq, hbefore, hafter, hmem, hds, hsign⟩
  · rintro ⟨before, sign, marker, body, after, ds, rfl, hbefore, hafter, hmem, hds, hsign⟩
    refine ⟨sign, marker, body, ds, ?_, hmem, hds, hsign⟩
    obtain ⟨⟨c, rest, hc, hblank, -, -⟩, front, c', hc', hblank'⟩ := ends_of_magnitude hmem hds
    apply trimBlanks_append hbefore hafter
    · cases hsign with
      | unsigned => exact ⟨c, rest, hc, hblank⟩
      | plus | minus => exact ⟨_, _, rfl, by decide⟩
    · exact ⟨sign ++ front, c', by rw [hc', List.append_assoc], hblank'⟩

end ChipEight.Numeral
