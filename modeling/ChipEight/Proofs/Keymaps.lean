import Mathlib.Data.List.Basic
import Mathlib.Data.List.Forall2
import Mathlib.Data.List.Nodup
import ChipEight.Keymap
import ChipEight.Proofs.Completion

/-!
# What keymaps say

The fields of a keymap are read one after the other, up to the first that is no number, has no
lower case where that is asked for, or gives a code again.  The second of these is not reported as
a mistake in the keymap.  A keymap that is accepted gives every key one code of its own.
-/

namespace ChipEight

open Attempt

namespace LowerCase

variable {n : Int}

/-- Whether a number is the code of a character whose lower case is one character. -/
def Defined (n : Int) : Prop := 0 ≤ n ∧ n ≤ 0x10FFFF ∧ n ≠ 0x130

instance (n : Int) : Decidable (Defined n) := inferInstanceAs (Decidable (_ ∧ _ ∧ _))

theorem ofCode_of_defined (h : Defined n) : ofCode n = .ok (simple n.toNat) := by
  obtain ⟨hl, hu, hne⟩ := h
  have hdotted : n ≠ dottedCapitalI := hne
  unfold ofCode
  rw [if_neg (by omega), if_neg (by omega), if_neg hdotted]

theorem ofCode_of_not_defined (h : ¬ Defined n) : ∃ c, ofCode n = .error (.character c) := by
  unfold ofCode
  split
  · exact ⟨_, rfl⟩
  · split
    · exact ⟨_, rfl⟩
    · refine ⟨.manyCharacters, if_pos ?_⟩
      change n = 0x130
      unfold Defined at h
      omega

theorem exists_ofCode_eq_error_iff (n : Int) :
    (∃ c, ofCode n = .error (.character c)) ↔ ¬ Defined n := by
  constructor
  · rintro ⟨c, hc⟩ h
    rw [ofCode_of_defined h] at hc
    cases hc
  · exact ofCode_of_not_defined

end LowerCase

namespace Keymap

variable {lowered : Bool} {taken cs : List Int} {field text : String} {fields : List String}
  {e : Error} {c n : Int}

theorem code_of_number (hn : Numeral.read? 10 field = some n) :
    code lowered field = if lowered then LowerCase.ofCode n else .ok n := by
  unfold code
  rw [hn]

theorem code_of_no_number (hn : Numeral.read? 10 field = none) :
    code lowered field = .error (.keymap .notNumeric) := by
  unfold code
  rw [hn]

theorem code_true_eq_ok_iff :
    code true field = .ok c ↔
      ∃ n, Numeral.read? 10 field = some n ∧ LowerCase.ofCode n = .ok c := by
  cases hn : Numeral.read? 10 field with
  | none => simp [code_of_no_number hn]
  | some n => simp [code_of_number hn]

theorem code_eq_error_iff :
    code lowered field = .error e ↔
      (Numeral.read? 10 field = none ∧ e = .keymap .notNumeric) ∨
      (lowered = true ∧ ∃ n, Numeral.read? 10 field = some n ∧ LowerCase.ofCode n = .error e) := by
  cases hn : Numeral.read? 10 field with
  | none => simp [code_of_no_number hn, eq_comm]
  | some n => cases lowered <;> simp [code_of_number hn]

theorem codes_cons (lowered : Bool) (taken : List Int) (field : String) (rest : List String) :
    codes lowered taken (field :: rest) =
      code lowered field >>= fun c =>
        if c ∈ taken then .error (.keymap .duplicate)
        else codes lowered (c :: taken) rest >>= fun more => .ok (c :: more) := rfl

theorem codes_cons_of_fresh {rest : List String} (hc : code lowered field = .ok c)
    (hfresh : c ∉ taken) :
    codes lowered taken (field :: rest) =
      codes lowered (c :: taken) rest >>= fun more => .ok (c :: more) := by
  rw [codes_cons, hc]
  exact if_neg hfresh

theorem codes_cons_of_taken {rest : List String} (hc : code lowered field = .ok c)
    (ht : c ∈ taken) : codes lowered taken (field :: rest) = .error (.keymap .duplicate) := by
  rw [codes_cons, hc]
  exact if_pos ht

theorem codes_cons_of_error {rest : List String} (hc : code lowered field = .error e) :
    codes lowered taken (field :: rest) = .error e := by
  rw [codes_cons, hc]
  rfl

theorem of_codes_cons_eq_ok {rest : List String} (h : codes lowered taken (field :: rest) = .ok cs) :
    ∃ c more, code lowered field = .ok c ∧ c ∉ taken ∧
      codes lowered (c :: taken) rest = .ok more ∧ cs = c :: more := by
  obtain ⟨c, hc, -⟩ := of_bind_eq_ok h
  by_cases hfresh : c ∈ taken
  · rw [codes_cons_of_taken hc hfresh] at h
    cases h
  · rw [codes_cons_of_fresh hc hfresh] at h
    obtain ⟨more, hmore, ⟨⟩⟩ := of_bind_eq_ok h
    exact ⟨c, more, hc, hfresh, hmore, rfl⟩

theorem codes_eq_ok_iff :
    codes lowered taken fields = .ok cs ↔
      List.Forall₂ (fun field c => code lowered field = .ok c) fields cs ∧
      cs.Nodup ∧ ∀ c ∈ cs, c ∉ taken := by
  induction fields generalizing taken cs with
  | nil =>
    rw [List.forall₂_nil_left_iff]
    constructor
    · rintro ⟨⟩
      exact ⟨rfl, List.nodup_nil, nofun⟩
    · rintro ⟨rfl, -, -⟩
      rfl
  | cons field rest ih =>
    rw [List.forall₂_cons_left_iff]
    constructor
    · intro h
      obtain ⟨c, more, hc, hfresh, hmore, rfl⟩ := of_codes_cons_eq_ok h
      obtain ⟨hrest, hnodup, hother⟩ := ih.mp hmore
      refine ⟨⟨c, more, hc, hrest, rfl⟩, ?_, ?_⟩
      · exact List.nodup_cons.mpr ⟨fun hm => hother c hm List.mem_cons_self, hnodup⟩
      · rintro d (_ | ⟨_, hd⟩)
        · exact hfresh
        · exact fun hm => hother d hd (List.mem_cons_of_mem c hm)
    · rintro ⟨⟨c, more, hc, hrest, rfl⟩, hnodup, hother⟩
      obtain ⟨hnew, hnodup⟩ := List.nodup_cons.mp hnodup
      have hmore : codes lowered (c :: taken) rest = .ok more := by
        refine ih.mpr ⟨hrest, hnodup, ?_⟩
        rintro d hd (_ | ⟨_, hm⟩)
        · exact hnew hd
        · exact hother d (List.mem_cons_of_mem c hd) hm
      rw [codes_cons_of_fresh hc (hother c List.mem_cons_self), hmore]
      rfl

/-- Whether a field is refused when some codes are taken. -/
def Refuses (lowered : Bool) (taken : List Int) (field : String) (e : Error) : Prop :=
  code lowered field = .error e ∨
    (e = .keymap .duplicate ∧ ∃ c ∈ taken, code lowered field = .ok c)

theorem Refuses.perm {taken' : List Int} (h : Refuses lowered taken field e)
    (hp : taken.Perm taken') : Refuses lowered taken' field e := by
  obtain he | ⟨rfl, c, ht, hc⟩ := h
  · exact .inl he
  · exact .inr ⟨rfl, c, hp.mem_iff.mp ht, hc⟩

theorem Refuses.codes_cons {rest : List String} (h : Refuses lowered taken field e) :
    codes lowered taken (field :: rest) = .error e := by
  obtain he | ⟨rfl, c, ht, hc⟩ := h
  · exact codes_cons_of_error he
  · exact codes_cons_of_taken hc ht

/-- Fields are refused at the first that is, behind those that were not. -/
theorem codes_eq_error_iff :
    codes lowered taken fields = .error e ↔
      ∃ before field after cs, fields = before ++ field :: after ∧
        codes lowered taken before = .ok cs ∧ Refuses lowered (cs ++ taken) field e := by
  induction fields generalizing taken with
  | nil =>
    constructor
    · rintro ⟨⟩
    · rintro ⟨before, field, after, cs, h, -⟩
      simp at h
  | cons first rest ih =>
    constructor
    · intro h
      by_cases hr : Refuses lowered taken first e
      · exact ⟨[], first, rest, [], rfl, rfl, hr⟩
      · obtain he | ⟨c, hc, -⟩ := of_bind_eq_error h
        · exact absurd (.inl he) hr
        · by_cases ht : c ∈ taken
          · rw [codes_cons_of_taken hc ht] at h
            cases h
            exact absurd (.inr ⟨rfl, c, ht, hc⟩) hr
          · rw [codes_cons_of_fresh hc ht] at h
            obtain h | ⟨more, -, ⟨⟩⟩ := of_bind_eq_error h
            obtain ⟨before, field, after, cs, rfl, hbefore, hrefuses⟩ := ih.mp h
            refine ⟨first :: before, field, after, c :: cs, rfl, ?_,
              hrefuses.perm List.perm_middle⟩
            rw [codes_cons_of_fresh hc ht, hbefore]
            rfl
    · rintro ⟨before, field, after, cs, heq, hbefore, hrefuses⟩
      cases before with
      | nil =>
        obtain ⟨rfl, rfl⟩ := List.cons.inj heq
        cases hbefore
        exact hrefuses.codes_cons
      | cons first' before =>
        obtain ⟨rfl, rfl⟩ := List.cons.inj heq
        obtain ⟨c, more, hc, ht, hmore, rfl⟩ := of_codes_cons_eq_ok hbefore
        have hrest := ih.mpr
          ⟨before, field, after, more, rfl, hmore, hrefuses.perm List.perm_middle.symm⟩
        rw [codes_cons_of_fresh hc ht, hrest]
        rfl

theorem read_of_count (h : (Commas.split text).length = 16) :
    read lowered text =
      codes lowered [] (Commas.split text) >>= fun cs => .ok ⟨cs.zip (List.finRange 16)⟩ := if_pos h

theorem read_of_miscount (h : (Commas.split text).length ≠ 16) :
    read lowered text = .error (.keymap .count) := if_neg h

theorem read_eq_error_iff :
    read lowered text = .error e ↔
      ((Commas.split text).length ≠ 16 ∧ e = .keymap .count) ∨
      ((Commas.split text).length = 16 ∧ codes lowered [] (Commas.split text) = .error e) := by
  by_cases h : (Commas.split text).length = 16
  · rw [read_of_count h]
    cases codes lowered [] (Commas.split text) with
    | error e' => simp [h, bind, Except.bind]
    | ok cs => simp [h, bind, Except.bind]
  · simp [read_of_miscount h, h, eq_comm]

theorem Refuses.character_iff {c : CharacterError} :
    Refuses lowered taken field (.character c) ↔
      lowered = true ∧
        ∃ n, Numeral.read? 10 field = some n ∧ LowerCase.ofCode n = .error (.character c) := by
  simp [Refuses, code_eq_error_iff]

theorem exists_read_eq_character_iff :
    (∃ c, read lowered text = .error (.character c)) ↔
      lowered = true ∧ (Commas.split text).length = 16 ∧
        ∃ before field after cs n, Commas.split text = before ++ field :: after ∧
          List.Forall₂ (fun field c => code true field = .ok c) before cs ∧ cs.Nodup ∧
          Numeral.read? 10 field = some n ∧ ¬ LowerCase.Defined n := by
  constructor
  · rintro ⟨c, h⟩
    obtain ⟨-, ⟨⟩⟩ | ⟨hcount, hcodes⟩ := read_eq_error_iff.mp h
    obtain ⟨before, field, after, cs, hfields, hbefore, hrefuses⟩ := codes_eq_error_iff.mp hcodes
    obtain ⟨rfl, n, hn, hc⟩ := Refuses.character_iff.mp hrefuses
    obtain ⟨hall, hnodup, -⟩ := codes_eq_ok_iff.mp hbefore
    exact ⟨rfl, hcount, before, field, after, cs, n, hfields, hall, hnodup, hn,
      (LowerCase.exists_ofCode_eq_error_iff n).mp ⟨c, hc⟩⟩
  · rintro ⟨rfl, hcount, before, field, after, cs, n, hfields, hall, hnodup, hn, hd⟩
    obtain ⟨c, hc⟩ := LowerCase.ofCode_of_not_defined hd
    have hbefore : codes true [] before = .ok cs :=
      codes_eq_ok_iff.mpr ⟨hall, hnodup, fun _ _ => List.not_mem_nil⟩
    have hrefuses : Refuses true (cs ++ []) field (.character c) :=
      Refuses.character_iff.mpr ⟨rfl, n, hn, hc⟩
    have hcodes := codes_eq_error_iff.mpr ⟨before, field, after, cs, hfields, hbefore, hrefuses⟩
    exact ⟨c, read_eq_error_iff.mpr (.inr ⟨hcount, hcodes⟩)⟩

theorem keymap_or_character (h : read lowered text = .error e) :
    (∃ k, e = .keymap k) ∨ (lowered = true ∧ ∃ c, e = .character c) := by
  obtain ⟨-, rfl⟩ | ⟨-, hcodes⟩ := read_eq_error_iff.mp h
  · exact .inl ⟨_, rfl⟩
  · obtain ⟨before, field, after, cs, -, -, hcode | ⟨rfl, -⟩⟩ := codes_eq_error_iff.mp hcodes
    · obtain ⟨-, rfl⟩ | ⟨hlowered, n, -, hn⟩ := code_eq_error_iff.mp hcode
      · exact .inl ⟨_, rfl⟩
      · by_cases hd : LowerCase.Defined n
        · rw [LowerCase.ofCode_of_defined hd] at hn
          cases hn
        · obtain ⟨c, hc⟩ := LowerCase.ofCode_of_not_defined hd
          rw [hc] at hn
          exact .inr ⟨hlowered, c, (Except.error.inj hn).symm⟩
    · exact .inl ⟨_, rfl⟩

/-- A keymap is refused as such, except that with lower-casing the first field that is refused may
be the number of no character, or of the one whose lower case is two characters. -/
theorem read_refusals (lowered : Bool) (text : String) :
    (∀ e, read lowered text = .error e →
      (∃ k, e = .keymap k) ∨ (lowered = true ∧ ∃ c, e = .character c)) ∧
    ((∃ c, read lowered text = .error (.character c)) ↔
      lowered = true ∧ (Commas.split text).length = 16 ∧
        ∃ before field after cs n, Commas.split text = before ++ field :: after ∧
          List.Forall₂ (fun field c => code true field = .ok c) before cs ∧ cs.Nodup ∧
          Numeral.read? 10 field = some n ∧ ¬ LowerCase.Defined n) :=
  ⟨fun _ h => keymap_or_character h, exists_read_eq_character_iff⟩

/-- The first number behind the last character is refused for having no lower case. -/
theorem not_forall_read_refused_as_keymap :
    ¬ ∀ (lowered : Bool) (text : String),
      (∃ k, read lowered text = .ok k) ∨ ∃ k, read lowered text = .error (.keymap k) := by
  intro h
  let text := "1114112,49,50,51,113,119,101,97,115,100,122,99,52,114,102,118"
  have hcount : (Commas.split text).length = 16 := by decide +kernel
  have hfields : Commas.split text =
      [] ++ "1114112" :: (Commas.split text).drop 1 := by decide +kernel
  obtain ⟨c, hc⟩ := exists_read_eq_character_iff.mpr
    ⟨rfl, hcount, [], "1114112", _, [], 1114112, hfields, .nil, List.nodup_nil,
      by decide +kernel, by decide⟩
  obtain ⟨k, hk⟩ | ⟨k, hk⟩ := h true text
  · cases hc.symm.trans hk
  · cases hc.symm.trans hk

theorem exists_codes_of_read {k : Keymap} (h : read lowered text = .ok k) :
    ∃ cs, List.Forall₂ (fun field c => code lowered field = .ok c) (Commas.split text) cs ∧
      cs.Nodup ∧ cs.length = 16 ∧ k.entries = cs.zip (List.finRange 16) := by
  by_cases hcount : (Commas.split text).length = 16
  · rw [read_of_count hcount] at h
    obtain ⟨cs, hcodes, ⟨⟩⟩ := of_bind_eq_ok h
    obtain ⟨hall, hnodup, -⟩ := codes_eq_ok_iff.mp hcodes
    exact ⟨cs, hall, hnodup, hall.length_eq.symm.trans hcount, rfl⟩
  · rw [read_of_miscount hcount] at h
    cases h

theorem key?_eq_some_of_nodup {k : Keymap} (h : (k.entries.map Prod.fst).Nodup) (c : Int)
    (key : Fin 16) : k.key? c = some key ↔ (c, key) ∈ k.entries := by
  constructor
  · intro hk
    obtain ⟨entry, hfind, rfl⟩ := Option.map_eq_some_iff.mp hk
    have hc : entry.1 = c := by simpa using List.find?_some hfind
    rw [← hc]
    exact List.mem_of_find?_eq_some hfind
  · intro hmem
    cases hfind : k.entries.find? fun entry => entry.1 == c with
    | none => simpa using List.find?_eq_none.mp hfind (c, key) hmem
    | some entry =>
      have hc : entry.1 = c := by simpa using List.find?_some hfind
      have he : entry = (c, key) :=
        List.inj_on_of_nodup_map h (List.mem_of_find?_eq_some hfind) hmem hc
      rw [key?, hfind, he]
      rfl

theorem mem_zip_finRange_iff (cs : List Int) (c : Int) (key : Fin 16) :
    (c, key) ∈ cs.zip (List.finRange 16) ↔ cs[key.val]? = some c := by
  rw [List.mem_iff_getElem?]
  simp only [List.getElem?_zip_eq_some]
  constructor
  · rintro ⟨i, hc, hkey⟩
    obtain ⟨hi, rfl⟩ := List.getElem?_eq_some_iff.mp hkey
    simpa using hc
  · intro hc
    exact ⟨key.val, hc, by simp⟩

theorem getElem?_eq_some_iff_of_codes
    (h : List.Forall₂ (fun field c => code lowered field = .ok c) fields cs) (c : Int) (i : Nat) :
    cs[i]? = some c ↔ ∃ field, fields[i]? = some field ∧ code lowered field = .ok c := by
  induction h generalizing i with
  | nil => simp
  | cons hc _ ih =>
    cases i with
    | zero => simp [hc]
    | succ i => simpa using ih i

theorem key?_eq_some_iff {k : Keymap} (h : read lowered text = .ok k) (c : Int) (key : Fin 16) :
    k.key? c = some key ↔
      ∃ field, (Commas.split text)[key.val]? = some field ∧ code lowered field = .ok c := by
  obtain ⟨cs, hall, hnodup, hlen, hentries⟩ := exists_codes_of_read h
  have hfirst : k.entries.map Prod.fst = cs := by
    rw [hentries, List.map_fst_zip (by simp [hlen])]
  rw [key?_eq_some_of_nodup (hfirst ▸ hnodup), hentries, mem_zip_finRange_iff]
  exact getElem?_eq_some_iff_of_codes hall c key.val

def typed? (k : Keymap) (code : Int) : Option (Fin 16) :=
  if code < 0 then none else (LowerCase.ofCode code).toOption.bind k.key?

theorem typed?_eq_some_iff {k : Keymap} (h : read true text = .ok k)
    (code : Int) (key : Fin 16) :
    k.typed? code = some key ↔
      0 ≤ code ∧ ∃ field n c, (Commas.split text)[key.val]? = some field ∧
        Numeral.read? 10 field = some n ∧ LowerCase.ofCode n = .ok c ∧
        LowerCase.ofCode code = .ok c := by
  by_cases hneg : code < 0
  · have hn : ¬ 0 ≤ code := by omega
    simp [typed?, hneg, hn]
  · have hp : 0 ≤ code := by omega
    rw [typed?, if_neg hneg, Option.bind_eq_some_iff]
    constructor
    · rintro ⟨c, hc, hkey⟩
      have hcode : LowerCase.ofCode code = .ok c := by
        cases ho : LowerCase.ofCode code with
        | error e => simp [ho, Except.toOption] at hc
        | ok c' => simpa [ho, Except.toOption] using hc
      obtain ⟨field, hfield, hread⟩ := (key?_eq_some_iff h c key).mp hkey
      obtain ⟨n, hn, hlower⟩ := code_true_eq_ok_iff.mp hread
      exact ⟨hp, field, n, c, hfield, hn, hlower, hcode⟩
    · rintro ⟨-, field, n, c, hfield, hn, hlower, hcode⟩
      refine ⟨c, by simp [hcode, Except.toOption], ?_⟩
      exact (key?_eq_some_iff h c key).mpr
        ⟨field, hfield, code_true_eq_ok_iff.mpr ⟨n, hn, hlower⟩⟩

end Keymap

end ChipEight
