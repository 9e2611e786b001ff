import ChipEight.Proofs.Completion
import ChipEight.Proofs.HexText
import ChipEight.Proofs.NumeralGrammar
import ChipEight.Window.Surface

/-!
# Palettes that are accepted

Six hexadecimal digits are the three bytes of a colour.  But a field is any numeral of six
characters, and so also one with blanks, a sign, a marker or underscores in it.  A negative number
is no colour, and is not refused as a mistake in the palette.
-/

namespace ChipEight.Window

open Attempt

variable {field : String} {fields : List String} {n : Int} {e : Error} {c : Colour}
  {palette : Palette}

def Colour.number (c : Colour) : Int := c.red.toNat * 65536 + c.green.toNat * 256 + c.blue.toNat

def Colour.bytes (c : Colour) : List UInt8 := [c.red, c.green, c.blue]

/-- The three bytes, two hexadecimal digits each. -/
def Colour.text (c : Colour) : String := Hex.byte c.red ++ Hex.byte c.green ++ Hex.byte c.blue

theorem Colour.number_nonneg (c : Colour) : 0 ≤ c.number := by
  unfold number
  omega

theorem Colour.ofInt_eq_ok_iff : ofInt n = .ok c ↔ c.number = n := by
  have hr := c.red.toNat_lt
  have hg := c.green.toNat_lt
  have hb := c.blue.toNat_lt
  unfold ofInt number
  split
  · rename_i hn
    rw [Except.ok.injEq]
    constructor
    · rintro rfl
      simp only [UInt8.toNat_ofNat']
      omega
    · intro h
      have hred : n.toNat / 65536 = c.red.toNat := by omega
      have hgreen : n.toNat / 256 % 256 = c.green.toNat := by omega
      have hblue : n.toNat % 256 = c.blue.toNat := by omega
      rw [hred, hgreen, hblue]
      simp only [UInt8.ofNat_toNat]
  · exact ⟨nofun, fun h => by omega⟩

theorem Colour.ofInt_of_outside (h : ¬ (0 ≤ n ∧ n < 0x1000000)) : ofInt n = .error .colourRange :=
  if_neg h

theorem Colour.exists_number_eq (hl : 0 ≤ n) (hu : n < 0x1000000) : ∃ c : Colour, c.number = n := by
  have hok : ∃ c, ofInt n = .ok c := ⟨_, if_pos ⟨hl, hu⟩⟩
  exact hok.imp fun _ h => ofInt_eq_ok_iff.mp h

namespace Palette

/-- The field is a numeral of six characters, of the number. -/
def Gives (field : String) (n : Int) : Prop :=
  field.length = 6 ∧ Numeral.Spells (field.toList.map Numeral.plain) n

def Proper (field : String) : Prop :=
  field.length = 6 ∧ ∀ c ∈ field.toList, c.isHexDigit = true

theorem number_eq_ok_iff : number field = .ok n ↔ Gives field n := by
  unfold number Gives
  rw [← Numeral.read?_eq_some_iff]
  by_cases hlen : field.length = 6
  · rw [if_pos hlen, and_iff_right hlen]
    cases Numeral.read? 16 field with
    | none => simp
    | some m => simp
  · simp [hlen]

theorem exists_number_eq_error (h : ¬ ∃ n, Gives field n) :
    ∃ p, number field = .error (.palette p) := by
  unfold number
  split
  · rename_i hlen
    cases hread : Numeral.read? 16 field with
    | none => exact ⟨_, rfl⟩
    | some m => exact absurd ⟨m, hlen, Numeral.read?_eq_some_iff.mp hread⟩ h
  · exact ⟨_, rfl⟩

theorem Gives.lt (h : Gives field n) : n < 0x1000000 := by
  obtain ⟨hlen, before, sign, marker, body, after, ds, hcs, -, -, -, hds, hsign⟩ := h
  have hbody : body.length ≤ 6 := by
    have hlength := congrArg List.length hcs
    rw [List.length_map, String.length_toList, hlen] at hlength
    simp only [List.length_append] at hlength
    omega
  have hmagnitude : Numeral.ofDigits 16 ds < 16 ^ 6 :=
    hds.ofDigits_lt.trans_le (Nat.pow_le_pow_right (by decide) hbody)
  cases hsign with
  | unsigned | plus | minus => omega

theorem digit?_of_isHexDigit {c : Char} (h : c.isHexDigit = true) :
    ∃ v, Numeral.digit? 16 c = some v ∧ Hex.digit v = c.toLower ∧ Numeral.plain c = c := by
  have hall : ∀ i : Fin 103, (Char.ofNat i.val).isHexDigit = true →
      (Numeral.digit? 16 (Char.ofNat i.val)).map Hex.digit = some (Char.ofNat i.val).toLower := by
    decide
  have hc : c.toNat < 103 := by
    simp only [Char.isHexDigit, Char.isDigit, Bool.or_eq_true, Bool.and_eq_true,
      decide_eq_true_eq, ge_iff_le, UInt32.le_iff_toNat_le] at h
    change c.val.toNat < 103
    have h9 : '9'.val.toNat = 57 := rfl
    have hf : 'f'.val.toNat = 102 := rfl
    have hF : 'F'.val.toNat = 70 := rfl
    omega
  have hdigit := hall ⟨c.toNat, hc⟩
  rw [Char.ofNat_toNat] at hdigit
  obtain ⟨v, hv, hlower⟩ := Option.map_eq_some_iff.mp (hdigit h)
  exact ⟨v, hv, hlower, if_pos (by omega)⟩

theorem exists_digits_of_isHexDigit {cs : List Char} (hne : cs ≠ [])
    (h : ∀ c ∈ cs, c.isHexDigit = true) :
    ∃ ds, Numeral.Digits 16 cs ds ∧ ds.map Hex.digit = cs.map Char.toLower ∧
      cs.map Numeral.plain = cs := by
  induction cs with
  | nil => exact absurd rfl hne
  | cons c rest ih =>
    obtain ⟨hc, hrest⟩ := List.forall_mem_cons.mp h
    obtain ⟨v, hv, hlower, hplain⟩ := digit?_of_isHexDigit hc
    by_cases hnil : rest = []
    · subst hnil
      exact ⟨[v], .last hv, by simp [hlower], by simp [hplain]⟩
    · obtain ⟨ds, hds, hlowers, hplains⟩ := ih hnil hrest
      exact ⟨v :: ds, .next hv hds, by simp [hlower, hlowers], by simp [hplain, hplains]⟩

theorem toList_byte (b : UInt8) :
    (Hex.byte b).toList = [Hex.digit (b.toNat / 16), Hex.digit (b.toNat % 16)] := by
  have hb := b.toNat_lt
  rw [Hex.byte, Hex.toList_text, Hex.digits]
  split
  · rename_i hsmall
    have hhigh : b.toNat / 16 = 0 := by omega
    have hlow : b.toNat % 16 = b.toNat := by omega
    rw [hhigh, hlow]
    rfl
  · rw [Hex.digits, if_pos (by omega)]
    rfl

theorem toList_colourText (c : Colour) :
    c.text.toList = c.bytes.flatMap fun b =>
      [Hex.digit (b.toNat / 16), Hex.digit (b.toNat % 16)] := by
  simp [Colour.text, Colour.bytes, toList_byte]

theorem toList_text_of_digits {ds : List Nat} (hcount : ds.length = 6) (hsmall : ∀ d ∈ ds, d < 16)
    (h : c.number = Numeral.ofDigits 16 ds) : c.text.toList = ds.map Hex.digit := by
  obtain ⟨d₀, d₁, d₂, d₃, d₄, d₅, rfl⟩ : ∃ d₀ d₁ d₂ d₃ d₄ d₅, ds = [d₀, d₁, d₂, d₃, d₄, d₅] := by
    match ds, hcount with
    | [d₀, d₁, d₂, d₃, d₄, d₅], _ => exact ⟨d₀, d₁, d₂, d₃, d₄, d₅, rfl⟩
  simp only [List.forall_mem_cons, List.not_mem_nil, false_implies, implies_true,
    and_true] at hsmall
  have hr := c.red.toNat_lt
  have hg := c.green.toNat_lt
  have hb := c.blue.toNat_lt
  simp only [Colour.number, Numeral.ofDigits, List.foldl_cons, List.foldl_nil] at h
  have h₀ : c.red.toNat / 16 = d₀ := by omega
  have h₁ : c.red.toNat % 16 = d₁ := by omega
  have h₂ : c.green.toNat / 16 = d₂ := by omega
  have h₃ : c.green.toNat % 16 = d₃ := by omega
  have h₄ : c.blue.toNat / 16 = d₄ := by omega
  have h₅ : c.blue.toNat % 16 = d₅ := by omega
  rw [toList_colourText]
  simp [Colour.bytes, h₀, h₁, h₂, h₃, h₄, h₅]

theorem Proper.exists_colour (h : Proper field) :
    ∃ c : Colour, Gives field c.number ∧ c.text = field.toLower := by
  obtain ⟨hlen, hdigits⟩ := h
  have hlength : field.toList.length = 6 := String.length_toList.trans hlen
  have hne : field.toList ≠ [] := fun hnil => by simp [hnil] at hlength
  obtain ⟨ds, hds, hlower, hplain⟩ := exists_digits_of_isHexDigit hne hdigits
  have hgives : Gives field (Numeral.ofDigits 16 ds) := by
    refine ⟨hlen, [], [], [], field.toList, [], ds, ?_, nofun, nofun, by decide, hds, .unsigned⟩
    rw [hplain]
    simp
  have hcount : ds.length = 6 := by
    simpa [hlength] using congrArg List.length hlower
  obtain ⟨c, hc⟩ := Colour.exists_number_eq (Int.natCast_nonneg _) hgives.lt
  refine ⟨c, hc ▸ hgives, String.toList_inj.mp ?_⟩
  calc
    c.text.toList = ds.map Hex.digit := toList_text_of_digits hcount hds.bounds.1 hc
    _ = field.toList.map Char.toLower := hlower
    _ = field.toLower.toList := String.toList_map.symm

/-- One field, or two, are numerals of the numbers of a background and a foreground. -/
inductive Numbers : List String → Int → Int → Prop
  | one {dark : String} {n : Int} (first : Gives dark n) : Numbers [dark] n standardForeground
  | two {dark lit : String} {n m : Int} (first : Gives dark n) (second : Gives lit m) :
      Numbers [dark, lit] n m

theorem Numbers.lt {n m : Int} (h : Numbers fields n m) : n < 0x1000000 ∧ m < 0x1000000 := by
  cases h with
  | one first => exact ⟨first.lt, by decide⟩
  | two first second => exact ⟨first.lt, second.lt⟩

theorem Numbers.length_le {n m : Int} (h : Numbers fields n m) : fields.length ≤ 2 := by
  cases h with
  | one first => exact Nat.le_succ 1
  | two first second => exact Nat.le_refl 2

theorem split_cases (text : String) :
    (∃ dark, Commas.split text = [dark]) ∨ (∃ dark lit, Commas.split text = [dark, lit]) ∨
      2 < (Commas.split text).length := by
  have hlen : 0 < (Commas.split text).length := by
    rw [Commas.split, List.length_map, Commas.length_splitList]
    exact Nat.succ_pos _
  match h : Commas.split text with
  | [] => simp [h] at hlen
  | [dark] => exact .inl ⟨dark, rfl⟩
  | [dark, lit] => exact .inr (.inl ⟨dark, lit, rfl⟩)
  | _ :: _ :: _ :: _ => simp

variable {text : String}

theorem numbers_of_one {dark : String} (h : Commas.split text = [dark]) :
    numbers (some text) = number dark >>= fun n => .ok (n, standardForeground) := by
  simp only [numbers, h]

theorem numbers_of_two {dark lit : String} (h : Commas.split text = [dark, lit]) :
    numbers (some text) = number dark >>= fun n => number lit >>= fun m => .ok (n, m) := by
  simp only [numbers, h]

theorem numbers_of_more (h : 2 < (Commas.split text).length) :
    numbers (some text) = .error (.palette .tooMany) := by
  match hs : Commas.split text with
  | [] | [_] | [_, _] => simp [hs] at h
  | _ :: _ :: _ :: _ => simp only [numbers, hs]

theorem numbers_eq_ok_iff {n m : Int} :
    numbers (some text) = .ok (n, m) ↔ Numbers (Commas.split text) n m := by
  obtain ⟨dark, h⟩ | ⟨dark, lit, h⟩ | h := split_cases text
  · rw [numbers_of_one h, h]
    constructor
    · intro hok
      obtain ⟨n, hn, ⟨⟩⟩ := of_bind_eq_ok hok
      exact .one (number_eq_ok_iff.mp hn)
    · intro hnumbers
      cases hnumbers with
      | one first =>
        rw [number_eq_ok_iff.mpr first]
        rfl
  · rw [numbers_of_two h, h]
    constructor
    · intro hok
      obtain ⟨n, hn, hok⟩ := of_bind_eq_ok hok
      obtain ⟨m, hm, ⟨⟩⟩ := of_bind_eq_ok hok
      exact .two (number_eq_ok_iff.mp hn) (number_eq_ok_iff.mp hm)
    · intro hnumbers
      cases hnumbers with
      | two first second =>
        rw [number_eq_ok_iff.mpr first, number_eq_ok_iff.mpr second]
        rfl
  · rw [numbers_of_more h]
    exact ⟨nofun, fun hnumbers => absurd hnumbers.length_le (by omega)⟩

theorem exists_palette_of_number {e : Error} (h : number field = .error e) :
    ∃ p, e = .palette p := by
  by_cases hgives : ∃ n, Gives field n
  · obtain ⟨n, hn⟩ := hgives
    cases h.symm.trans (number_eq_ok_iff.mpr hn)
  · obtain ⟨p, hp⟩ := exists_number_eq_error hgives
    exact ⟨p, Except.error.inj (h.symm.trans hp)⟩

theorem exists_palette_of_numbers (h : numbers (some text) = .error e) : ∃ p, e = .palette p := by
  obtain ⟨dark, hs⟩ | ⟨dark, lit, hs⟩ | hs := split_cases text
  · rw [numbers_of_one hs] at h
    obtain h | ⟨n, -, ⟨⟩⟩ := of_bind_eq_error h
    exact exists_palette_of_number h
  · rw [numbers_of_two hs] at h
    obtain h | ⟨n, -, h⟩ := of_bind_eq_error h
    · exact exists_palette_of_number h
    · obtain h | ⟨m, -, ⟨⟩⟩ := of_bind_eq_error h
      exact exists_palette_of_number h
  · exact ⟨.tooMany, Except.error.inj (h.symm.trans (numbers_of_more hs))⟩

theorem read_of_numbers {ns : Int × Int} (h : numbers (some text) = .ok ns) :
    read (some text) = Colour.ofInt ns.1 >>= fun background =>
      Colour.ofInt ns.2 >>= fun foreground => .ok ⟨background, foreground⟩ := by
  unfold read
  rw [h]
  rfl

theorem read_eq_ok_iff :
    read (some text) = .ok palette ↔
      Numbers (Commas.split text) palette.background.number palette.foreground.number := by
  rw [← numbers_eq_ok_iff]
  constructor
  · intro h
    obtain ⟨⟨n, m⟩, hns, h⟩ := of_bind_eq_ok h
    obtain ⟨background, hb, h⟩ := of_bind_eq_ok h
    obtain ⟨foreground, hf, ⟨⟩⟩ := of_bind_eq_ok h
    rw [hns, Colour.ofInt_eq_ok_iff.mp hb, Colour.ofInt_eq_ok_iff.mp hf]
  · intro h
    rw [read_of_numbers h, Colour.ofInt_eq_ok_iff.mpr rfl, Colour.ofInt_eq_ok_iff.mpr rfl]
    rfl

theorem exists_read_eq_ok_iff :
    (∃ palette, read (some text) = .ok palette) ↔
      ∃ n m, Numbers (Commas.split text) n m ∧ 0 ≤ n ∧ 0 ≤ m := by
  constructor
  · rintro ⟨palette, h⟩
    exact ⟨_, _, read_eq_ok_iff.mp h, palette.background.number_nonneg,
      palette.foreground.number_nonneg⟩
  · rintro ⟨n, m, h, hn, hm⟩
    obtain ⟨background, rfl⟩ := Colour.exists_number_eq hn h.lt.1
    obtain ⟨foreground, rfl⟩ := Colour.exists_number_eq hm h.lt.2
    exact ⟨⟨background, foreground⟩, read_eq_ok_iff.mpr h⟩

theorem read_of_negative {n m : Int} (h : Numbers (Commas.split text) n m) (hneg : n < 0 ∨ m < 0) :
    read (some text) = .error .colourRange := by
  rw [read_of_numbers (numbers_eq_ok_iff.mpr h)]
  by_cases hn : 0 ≤ n
  · obtain ⟨background, rfl⟩ := Colour.exists_number_eq hn h.lt.1
    rw [Colour.ofInt_eq_ok_iff.mpr rfl, Colour.ofInt_of_outside (by omega)]
    rfl
  · rw [Colour.ofInt_of_outside (by omega)]
    rfl

theorem read_of_no_numbers (h : ¬ ∃ n m, Numbers (Commas.split text) n m) :
    ∃ p, read (some text) = .error (.palette p) := by
  cases hns : numbers (some text) with
  | error e =>
    obtain ⟨p, rfl⟩ := exists_palette_of_numbers hns
    refine ⟨p, ?_⟩
    unfold read
    rw [hns]
    rfl
  | ok ns => exact absurd ⟨ns.1, ns.2, numbers_eq_ok_iff.mp hns⟩ h

theorem read_cases (text : String) :
    (∃ n m, Numbers (Commas.split text) n m ∧ 0 ≤ n ∧ 0 ≤ m) ∨
      (∃ n m, Numbers (Commas.split text) n m ∧ (n < 0 ∨ m < 0)) ∨
      ¬ ∃ n m, Numbers (Commas.split text) n m := by
  by_cases h : ∃ n m, Numbers (Commas.split text) n m
  · obtain ⟨n, m, h⟩ := h
    by_cases hneg : n < 0 ∨ m < 0
    · exact .inr (.inl ⟨n, m, h, hneg⟩)
    · exact .inl ⟨n, m, h, by omega⟩
  · exact .inr (.inr h)

theorem read_eq_colourRange_iff :
    read (some text) = .error .colourRange ↔
      ∃ n m, Numbers (Commas.split text) n m ∧ (n < 0 ∨ m < 0) := by
  refine ⟨fun h => ?_, fun ⟨n, m, hnumbers, hneg⟩ => read_of_negative hnumbers hneg⟩
  obtain hok | hneg | hno := read_cases text
  · obtain ⟨palette, hread⟩ := exists_read_eq_ok_iff.mpr hok
    cases h.symm.trans hread
  · exact hneg
  · obtain ⟨p, hread⟩ := read_of_no_numbers hno
    cases h.symm.trans hread

theorem exists_read_eq_palette_iff :
    (∃ p, read (some text) = .error (.palette p)) ↔
      ¬ ∃ n m, Numbers (Commas.split text) n m := by
  refine ⟨fun ⟨p, h⟩ => ?_, read_of_no_numbers⟩
  obtain hok | ⟨n, m, hnumbers, hneg⟩ | hno := read_cases text
  · obtain ⟨palette, hread⟩ := exists_read_eq_ok_iff.mpr hok
    cases h.symm.trans hread
  · cases h.symm.trans (read_of_negative hnumbers hneg)
  · exact hno

/-- The palette is as it is meant to be: one colour or two, of six hexadecimal digits each. -/
def Documented (text : String) : Prop :=
  (Commas.split text).length ≤ 2 ∧ ∀ field ∈ Commas.split text, Proper field

def standardLit : Colour := ⟨0xDD, 0xDD, 0xDD⟩

theorem number_standardLit : standardLit.number = standardForeground := by decide

theorem text_standardLit : standardLit.text = "dddddd" := by decide +kernel

theorem not_documented_of_mem {c : Char} (hfield : field ∈ Commas.split text)
    (hmem : c ∈ field.toList) (hc : c.isHexDigit = false) : ¬ Documented text := by
  intro h
  cases hc.symm.trans ((h.2 field hfield).2 c hmem)

theorem Documented.read (h : Documented text) :
    ∃ palette, Palette.read (some text) = .ok palette ∧
      (Commas.split text).map String.toLower =
        [palette.background.text, palette.foreground.text].take (Commas.split text).length ∧
      ((Commas.split text).length = 1 → palette.foreground.text = "dddddd") := by
  obtain ⟨hlen, hproper⟩ := h
  obtain ⟨dark, hs⟩ | ⟨dark, lit, hs⟩ | hs := split_cases text
  · obtain ⟨background, hb, hbtext⟩ := (hproper dark (by simp [hs])).exists_colour
    refine ⟨⟨background, standardLit⟩, read_eq_ok_iff.mpr ?_, ?_, fun _ => text_standardLit⟩
    · rw [hs, number_standardLit]
      exact .one hb
    · simp [hs, hbtext]
  · obtain ⟨background, hb, hbtext⟩ := (hproper dark (by simp [hs])).exists_colour
    obtain ⟨foreground, hf, hftext⟩ := (hproper lit (by simp [hs])).exists_colour
    refine ⟨⟨background, foreground⟩, read_eq_ok_iff.mpr (hs ▸ .two hb hf), ?_, fun h => ?_⟩
    · simp [hs, hbtext, hftext]
    · simp [hs] at h
  · omega

end Palette

namespace Surface

/-- A window that was just opened, with no picture as yet. -/
def fresh (scale : Option Int) (palette : Palette) (smoothing : Setting Int) : Surface :=
  let width := scale.getD standardScale
  { width := 0, height := 0, title := "", palette, smoothing, windowWidth := width
    windowHeight := width.fdiv 2, pixels := #[]
    calls := #[.start, .caption Banner.name, .mode width (width.fdiv 2)] }

theorem result_start (scale : Option Int) (text : Option String) (smoothing : Setting Int) :
    (start (scale.map .value) (text.map .value) smoothing).result =
      (Palette.read text).map fun palette => fresh scale palette smoothing := by
  have hscale : ((scale.map Setting.value).getD (.value standardScale)).number =
      .ok (scale.getD standardScale) := by cases scale <;> rfl
  have htext : (text.map Setting.value).mapM Setting.text = .ok text := by cases text <;> rfl
  unfold start
  simp only [hscale, htext, ofExcept_ok, andThen_succeed]
  cases Palette.read text with
  | error e => rfl
  | ok palette => rfl

end Surface

/-- A palette is accepted if it has one or two fields, and these are numerals of six characters that
are not negative.  With a negative one the window is refused for another cause than a mistake in
the palette.  Palettes as they are meant to be are accepted, and their digits are the bytes of the
colours. -/
theorem Surface.start_palette (scale : Option Int) (text : String) (smoothing : Setting Int) :
    let opened := (start (scale.map .value) (some (.value text)) smoothing).result
    let fields := Commas.split text
    (∀ surface, opened = .ok surface →
      Palette.Numbers fields surface.palette.background.number surface.palette.foreground.number) ∧
    ((∃ surface, opened = .ok surface) ↔
      ∃ n m, Palette.Numbers fields n m ∧ 0 ≤ n ∧ 0 ≤ m) ∧
    (opened = .error .colourRange ↔ ∃ n m, Palette.Numbers fields n m ∧ (n < 0 ∨ m < 0)) ∧
    ((∃ p, opened = .error (.palette p)) ↔ ¬ ∃ n m, Palette.Numbers fields n m) ∧
    (Palette.Documented text → ∃ surface, opened = .ok surface ∧
      fields.map String.toLower =
        [surface.palette.background.text, surface.palette.foreground.text].take fields.length ∧
      (fields.length = 1 → surface.palette.foreground.text = "dddddd")) := by
  intro opened fields
  have hopened : opened =
      (Palette.read (some text)).map fun palette => fresh scale palette smoothing :=
    result_start scale (some text) smoothing
  have hok (surface : Surface) : opened = .ok surface ↔
      ∃ palette, Palette.read (some text) = .ok palette ∧
        fresh scale palette smoothing = surface := by
    rw [hopened]
    cases Palette.read (some text) <;> simp [Except.map]
  have herror (e : Error) : opened = .error e ↔ Palette.read (some text) = .error e := by
    rw [hopened]
    cases Palette.read (some text) <;> simp [Except.map]
  simp only [herror]
  refine ⟨?_, ?_, ?_, ?_, ?_⟩
  · intro surface h
    obtain ⟨palette, hread, rfl⟩ := (hok surface).mp h
    exact Palette.read_eq_ok_iff.mp hread
  · rw [← Palette.exists_read_eq_ok_iff]
    constructor
    · rintro ⟨surface, h⟩
      obtain ⟨palette, hread, -⟩ := (hok surface).mp h
      exact ⟨palette, hread⟩
    · rintro ⟨palette, hread⟩
      exact ⟨_, (hok _).mpr ⟨palette, hread, rfl⟩⟩
  · exact Palette.read_eq_colourRange_iff
  · exact Palette.exists_read_eq_palette_iff
  · intro h
    obtain ⟨palette, hread, hcolours⟩ := h.read
    exact ⟨fresh scale palette smoothing, (hok _).mpr ⟨palette, hread, rfl⟩, hcolours⟩

/-- A marker is taken for two of the digits, and a sign for one.  A negative number is found out
only when the bytes are made. -/
theorem Surface.not_forall_palette_documented :
    (¬ Palette.Documented "0x1234" ∧
      (start none (some (.value "0x1234")) (.value 0)).result =
        .ok (fresh none ⟨⟨0x00, 0x12, 0x34⟩, Palette.standardLit⟩ (.value 0))) ∧
    ¬ Palette.Documented "-00001" ∧
      (start none (some (.value "-00001")) (.value 0)).result = .error .colourRange := by
  have hmarker : Palette.read (some "0x1234") =
      .ok ⟨⟨0x00, 0x12, 0x34⟩, Palette.standardLit⟩ := by decide +kernel
  have hsign : Palette.read (some "-00001") = .error .colourRange := by decide +kernel
  have hx : "0x1234" ∈ Commas.split "0x1234" := by decide +kernel
  have hminus : "-00001" ∈ Commas.split "-00001" := by decide +kernel
  refine ⟨⟨?_, ?_⟩, ?_, ?_⟩
  · exact Palette.not_documented_of_mem (c := 'x') hx (by decide +kernel) (by decide)
  · exact (result_start none (some "0x1234") (.value 0)).trans (by rw [hmarker]; rfl)
  · exact Palette.not_documented_of_mem (c := '-') hminus (by decide +kernel) (by decide)
  · exact (result_start none (some "-00001") (.value 0)).trans (by rw [hsign]; rfl)

end ChipEight.Window
