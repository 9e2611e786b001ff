import Mathlib.Data.List.FinRange
import Mathlib.Data.List.OfFn
import ChipEight.Proofs.Keymaps

/-!
# Accepted keymaps

A keymap is accepted just when its sixteen fields stand for sixteen different codes.  Different
numbers may stand for one code, as a capital letter and its lower case do.  In an accepted keymap
keys and codes correspond one to one.
-/

namespace ChipEight

namespace Keymap

variable {lowered : Bool} {field text : String} {fields : List String} {c : Int} {k : Keymap}

/-- The code that a field stands for: its number, in lower case where characters are meant. -/
def fieldCode? (lowered : Bool) (field : String) : Option Int :=
  (Numeral.read? 10 field).bind fun n =>
    if lowered = true then
      if LowerCase.Defined n then some (LowerCase.simple n.toNat) else none
    else some n

theorem code_eq_ok_iff : code lowered field = .ok c ↔ fieldCode? lowered field = some c := by
  unfold fieldCode?
  cases hn : Numeral.read? 10 field with
  | none => simp [code_of_no_number hn]
  | some n =>
    rw [code_of_number hn, Option.bind_some]
    cases lowered with
    | false => simp
    | true =>
      by_cases hd : LowerCase.Defined n
      · simp [LowerCase.ofCode_of_defined hd, hd]
      · obtain ⟨e, he⟩ := LowerCase.ofCode_of_not_defined hd
        simp [he, hd]

theorem isSome_fieldCode?_iff :
    (fieldCode? lowered field).isSome = true ↔
      ∃ n, Numeral.read? 10 field = some n ∧ (lowered = true → LowerCase.Defined n) := by
  unfold fieldCode?
  cases Numeral.read? 10 field with
  | none => simp
  | some n =>
    cases lowered with
    | false => simp
    | true => by_cases hd : LowerCase.Defined n <;> simp [hd]

theorem forall₂_code_iff {cs : List Int} :
    List.Forall₂ (fun field c => code lowered field = .ok c) fields cs ↔
      fields.map (fieldCode? lowered) = cs.map some := by
  induction fields generalizing cs with
  | nil => rw [List.forall₂_nil_left_iff, List.map_nil, eq_comm (a := []), List.map_eq_nil_iff]
  | cons field rest ih =>
    cases cs with
    | nil => simp
    | cons c cs =>
      rw [List.forall₂_cons, code_eq_ok_iff, ih, List.map_cons, List.map_cons, List.cons.injEq]

theorem read_eq_ok_iff :
    read lowered text = .ok k ↔
      ∃ cs : List Int, (Commas.split text).map (fieldCode? lowered) = cs.map some ∧
        cs.Nodup ∧ cs.length = 16 ∧ k.entries = cs.zip (List.finRange 16) := by
  constructor
  · intro h
    obtain ⟨cs, hall, hnodup, hlen, hentries⟩ := exists_codes_of_read h
    exact ⟨cs, forall₂_code_iff.mp hall, hnodup, hlen, hentries⟩
  · rintro ⟨cs, hcodes, hnodup, hlen, hentries⟩
    have hall := forall₂_code_iff.mpr hcodes
    have hread : codes lowered [] (Commas.split text) = .ok cs :=
      codes_eq_ok_iff.mpr ⟨hall, hnodup, fun _ _ => List.not_mem_nil⟩
    rw [read_of_count (hall.length_eq.trans hlen), hread]
    exact congrArg Except.ok (congrArg Keymap.mk hentries.symm)

theorem exists_read_eq_ok_iff :
    (∃ k, read lowered text = .ok k) ↔
      (Commas.split text).length = 16 ∧
      (∀ field ∈ Commas.split text, (fieldCode? lowered field).isSome = true) ∧
      ((Commas.split text).map (fieldCode? lowered)).Nodup := by
  have hinj := Option.some_injective Int
  constructor
  · rintro ⟨k, h⟩
    obtain ⟨cs, hcodes, hnodup, hlen, -⟩ := read_eq_ok_iff.mp h
    refine ⟨?_, fun field hf => ?_, ?_⟩
    · simpa [hlen] using congrArg List.length hcodes
    · have hmem : fieldCode? lowered field ∈ cs.map some := hcodes ▸ List.mem_map_of_mem hf
      obtain ⟨c, -, hc⟩ := List.mem_map.mp hmem
      rw [← hc]
      rfl
    · exact hcodes ▸ hnodup.map hinj
  · rintro ⟨hcount, hsome, hnodup⟩
    let cs := (Commas.split text).filterMap (fieldCode? lowered)
    have hcodes : (Commas.split text).map (fieldCode? lowered) = cs.map some := by
      rw [List.map_filterMap_some_eq_filter_map_isSome, List.filter_eq_self.mpr]
      simpa using hsome
    have hlen : cs.length = 16 := by simpa [hcount] using congrArg List.length hcodes.symm
    exact ⟨_, read_eq_ok_iff.mpr ⟨cs, hcodes, (hcodes ▸ hnodup).of_map some, hlen, rfl⟩⟩

theorem zip_finRange_eq_ofFn {cs : List Int} (hlen : cs.length = 16) :
    cs.zip (List.finRange 16) = List.ofFn fun key : Fin 16 => (cs.get (key.cast hlen.symm), key) := by
  refine List.ext_getElem (by simp [hlen]) fun i hl hr => ?_
  rw [List.getElem_ofFn, List.getElem_zip, List.getElem_finRange]
  rfl

theorem exists_injective_codes (h : read lowered text = .ok k) :
    ∃ codes : Fin 16 → Int, codes.Injective ∧
      (∀ key, ∃ field, (Commas.split text)[key.val]? = some field ∧
        fieldCode? lowered field = some (codes key)) ∧
      k.entries = List.ofFn fun key => (codes key, key) := by
  obtain ⟨cs, hcodes, hnodup, hlen, hentries⟩ := read_eq_ok_iff.mp h
  refine ⟨fun key => cs.get (key.cast hlen.symm), ?_, fun key => ?_, ?_⟩
  · intro a b hab
    exact Fin.cast_injective hlen.symm (List.nodup_iff_injective_get.mp hnodup hab)
  · have hget : ((Commas.split text).map (fieldCode? lowered))[key.val]? =
        (cs.map some)[key.val]? := by rw [hcodes]
    have hkey : cs[key.val]? = some (cs.get (key.cast hlen.symm)) := by simp [hlen]
    rw [List.getElem?_map, List.getElem?_map, hkey] at hget
    exact Option.map_eq_some_iff.mp hget
  · rw [hentries, zip_finRange_eq_ofFn hlen]

theorem key?_eq_some_iff_of_injective {codes : Fin 16 → Int} (hinj : codes.Injective)
    (hentries : k.entries = List.ofFn fun key => (codes key, key)) (c : Int) (key : Fin 16) :
    k.key? c = some key ↔ c = codes key := by
  have hnodup : (k.entries.map Prod.fst).Nodup := by
    rw [hentries, List.map_ofFn]
    exact List.nodup_ofFn.mpr hinj
  rw [key?_eq_some_of_nodup hnodup, hentries, List.mem_ofFn]
  constructor
  · rintro ⟨other, hother⟩
    obtain ⟨rfl, rfl⟩ := Prod.mk.inj hother
    rfl
  · rintro rfl
    exact ⟨key, rfl⟩

/-- Keymaps are accepted just when their codes are all different, and then every key has the code
of its field, and no other key has it. -/
theorem read_bijective (lowered : Bool) (text : String) :
    ((∃ k, read lowered text = .ok k) ↔
      (Commas.split text).length = 16 ∧
      (∀ field ∈ Commas.split text, ∃ n, Numeral.read? 10 field = some n ∧
        (lowered = true → LowerCase.Defined n)) ∧
      ((Commas.split text).map (fieldCode? lowered)).Nodup) ∧
    ∀ k, read lowered text = .ok k →
      ∃ codes : Fin 16 → Int, codes.Injective ∧
        (∀ key, ∃ field, (Commas.split text)[key.val]? = some field ∧
          fieldCode? lowered field = some (codes key)) ∧
        k.entries = (List.ofFn fun key => (codes key, key)) ∧
        ∀ c key, k.key? c = some key ↔ c = codes key := by
  refine ⟨?_, fun k h => ?_⟩
  · simp only [exists_read_eq_ok_iff, isSome_fieldCode?_iff]
  · obtain ⟨codes, hinj, hfields, hentries⟩ := exists_injective_codes h
    exact ⟨codes, hinj, hfields, hentries, key?_eq_some_iff_of_injective hinj hentries⟩

/-- A capital X in front of the standard keymap is read as its first key.  With that key after it
the keymap is refused. -/
theorem read_bijective_capital :
    let capital := "88,49,50,51,113,119,101,97,115,100,122,99,52,114,102,118"
    let both := "88,120,50,51,113,119,101,97,115,100,122,99,52,114,102,118"
    (∃ k, read true capital = .ok k ∧ k.key? 120 = some 0 ∧ k.key? 88 = none) ∧
      (∃ k, read false both = .ok k) ∧ ¬ ∃ k, read true both = .ok k := by
  intro capital both
  have hall {lowered : Bool} {text : String}
      (h : ∀ field ∈ Commas.split text, (fieldCode? lowered field).isSome = true) :
      ∀ field ∈ Commas.split text, ∃ n, Numeral.read? 10 field = some n ∧
        (lowered = true → LowerCase.Defined n) :=
    fun field hf => isSome_fieldCode?_iff.mp (h field hf)
  obtain ⟨haccepts, hkeys⟩ := read_bijective true capital
  obtain ⟨k, hk⟩ := haccepts.mpr
    ⟨by decide +kernel, hall (by decide +kernel), by decide +kernel⟩
  obtain ⟨codes, -, hfields, -, hkey⟩ := hkeys k hk
  have hfirst : codes 0 = 120 := by
    obtain ⟨field, hfield, hcode⟩ := hfields 0
    have h88 : (Commas.split capital)[0]? = some "88" := by decide +kernel
    obtain rfl := Option.some.inj (hfield.symm.trans h88)
    exact Option.some.inj (hcode.symm.trans (by decide +kernel))
  have hno : ∀ key, codes key ≠ 88 := by
    intro key hcode
    obtain ⟨field, hfield, hread⟩ := hfields key
    have hlower : ∀ field ∈ Commas.split capital, fieldCode? true field ≠ some 88 := by
      decide +kernel
    exact hlower field (List.mem_of_getElem? hfield) (hcode ▸ hread)
  refine ⟨⟨k, hk, (hkey 120 0).mpr hfirst.symm, ?_⟩, ?_, ?_⟩
  · rw [Option.eq_none_iff_forall_ne_some]
    exact fun key hsome => hno key ((hkey 88 key).mp hsome).symm
  · exact (read_bijective false both).1.mpr
      ⟨by decide +kernel, hall (by decide +kernel), by decide +kernel⟩
  · intro h
    obtain ⟨-, -, hnodup⟩ := (read_bijective true both).1.mp h
    exact absurd hnodup (by decide +kernel)

end Keymap

end ChipEight
