import ChipEight.Proofs.Keymaps
import ChipEight.Proofs.QuitRequest

/-!
# What ends the reader

The reader goes on after a character unless it asks to quit or has no lower case of one character.
Whatever else comes is looked up in the keymap, and the reader waits for the next character unless
it was dismissed.
-/

namespace ChipEight.Terminal

namespace Reader

variable {r : Reader} {code : Int}

/-- The lower case of the character is escape or control-C. -/
def AsksToQuit (code : Int) : Prop :=
  LowerCase.ofCode code = .ok escape ∨ LowerCase.ofCode code = .ok interrupt

/-- There is no such character, or its lower case is two characters. -/
def Foils (code : Int) : Prop := code = LowerCase.dottedCapitalI ∨ 0x10FFFF < code

def Ends (code : Int) : Prop := AsksToQuit code ∨ Foils code

instance (code : Int) : Decidable (AsksToQuit code) :=
  inferInstanceAs (Decidable (_ ∨ _))

instance (code : Int) : Decidable (Foils code) := inferInstanceAs (Decidable (_ ∨ _))

instance (code : Int) : Decidable (Ends code) := inferInstanceAs (Decidable (_ ∨ _))

theorem foils_iff : Foils code ↔ 0 ≤ code ∧ ¬ LowerCase.Defined code := by
  have hdotted : ((LowerCase.dottedCapitalI : Nat) : Int) = 0x130 := rfl
  unfold Foils LowerCase.Defined
  omega

theorem read_of_foils (h : Foils code) :
    ∃ e, r.read code = .refuse { r with stopped := true } (.character e) := by
  obtain ⟨hl, hd⟩ := foils_iff.mp h
  obtain ⟨e, he⟩ := LowerCase.ofCode_of_not_defined hd
  have hneg : ¬ code < 0 := by omega
  exact ⟨e, by simp only [read, hneg, if_false, he]⟩

theorem nonneg_of_asksToQuit (h : AsksToQuit code) : 0 ≤ code := by
  by_contra hneg
  obtain ⟨e, he⟩ := LowerCase.ofCode_of_not_defined fun hd : LowerCase.Defined code => hneg hd.1
  obtain hq | hq := h
  · cases he.symm.trans hq
  · cases he.symm.trans hq

theorem read_of_asksToQuit (h : AsksToQuit code) :
    r.read code = .succeed { r with holding := true }.settle () := by
  have hneg : ¬ code < 0 := by
    have := nonneg_of_asksToQuit h
    omega
  obtain hq | hq := h
  · simp [read, hneg, hq]
  · simp [read, hneg, hq]

/-- What the queue gets for a character that does not end the reader. -/
def entry (r : Reader) (code : Int) : List (Option (Fin 16)) :=
  if r.queue.length < 16 then (r.keymap.typed? code).toList.map some else []

theorem take_eq_append (r : Reader) (code : Int) :
    r.take code = { r with
      queue := r.queue ++
        if r.queue.length < 16 then (r.keymap.key? code).toList.map some else [] } := by
  have hroom : r.hasRoom = true ↔ r.queue.length < 16 := decide_eq_true_iff
  unfold take
  cases r.keymap.key? code with
  | none => simp
  | some key => by_cases hlt : r.queue.length < 16 <;> simp [hroom, hlt]

theorem read_of_not_ends (h : ¬ Ends code) :
    r.read code = .succeed { r with queue := r.queue ++ r.entry code } () := by
  obtain ⟨hquit, hfoils⟩ := not_or.mp h
  by_cases hneg : code < 0
  · simp [read, entry, Keymap.typed?, hneg]
  · have hd : LowerCase.Defined code := by
      by_contra hd
      exact hfoils (foils_iff.mpr ⟨by omega, hd⟩)
    have hcode := LowerCase.ofCode_of_defined hd
    have hlow : ¬ ((LowerCase.simple code.toNat : Int) = escape ∨
        (LowerCase.simple code.toNat : Int) = interrupt) := by
      rintro (hl | hl)
      · exact hquit (.inl (hcode.trans (congrArg Except.ok hl)))
      · exact hquit (.inr (hcode.trans (congrArg Except.ok hl)))
    have htyped : r.keymap.typed? code = r.keymap.key? (LowerCase.simple code.toNat) := by
      simp [Keymap.typed?, hneg, hcode, Except.toOption]
    simp only [read, hneg, hcode, hlow, if_false, take_eq_append, entry, htyped]

/-- Nothing more is read. -/
def Through (r : Reader) : Prop := r.stopped = true ∨ r.holding = true

theorem through_settle_iff : r.settle.Through ↔ r.Through := by
  obtain ⟨hholding, -, hsettle⟩ | ⟨-, hsettle⟩ := r.settle_cases
  · simp [hsettle, Through, hholding]
  · rw [hsettle]

theorem through_read_iff : (r.read code).state.Through ↔ r.Through ∨ Ends code := by
  by_cases hends : Ends code
  · refine iff_of_true ?_ (.inr hends)
    obtain hquit | hfoils := hends
    · rw [read_of_asksToQuit hquit]
      exact through_settle_iff.mpr (.inr rfl)
    · obtain ⟨e, he⟩ := read_of_foils (r := r) hfoils
      rw [he]
      exact .inl rfl
  · rw [read_of_not_ends hends, or_iff_left hends]
    rfl

theorem listens_iff : r.listens = true ↔ r.dismissed = false ∧ ¬ r.Through := by
  simp [listens, Through, and_assoc]

theorem kept_settle (r : Reader) :
    r.settle.keymap = r.keymap ∧ r.settle.dismissed = r.dismissed := by
  obtain ⟨-, -, hsettle⟩ | ⟨-, hsettle⟩ := r.settle_cases
  · rw [hsettle]
    exact ⟨rfl, rfl⟩
  · rw [hsettle]
    exact ⟨rfl, rfl⟩

theorem kept_read (r : Reader) (code : Int) :
    (r.read code).state.keymap = r.keymap ∧ (r.read code).state.dismissed = r.dismissed := by
  obtain ⟨keys, hread, -⟩ | hread | hread := r.read_cases code
  · rw [hread]
    exact ⟨rfl, rfl⟩
  · rw [hread]
    exact ⟨rfl, rfl⟩
  · rw [hread]
    exact kept_settle _

end Reader

namespace Desk

variable {τ : Type} [Instant τ] {d : Desk τ} {keymap : Keymap} {keypad : Keypad}

/-- The character that a move brings to the reader, if any. -/
def heardAt (d : Desk τ) : Move τ → List Int
  | .typed code => if d.listening then [code] else []
  | _ => []

def heard (d : Desk τ) : List (Move τ) → List Int
  | [] => []
  | move :: rest => d.heardAt move ++ (d.respond move).heard rest

theorem heard_append (d : Desk τ) (first second : List (Move τ)) :
    d.heard (first ++ second) = d.heard first ++ (d.run first).heard second := by
  induction first generalizing d with
  | nil => rfl
  | cons move rest ih =>
    change d.heardAt move ++ (d.respond move).heard (rest ++ second) = _
    rw [ih, ← List.append_assoc]
    rfl

theorem through_respond_iff (d : Desk τ) (move : Move τ) :
    (d.respond move).keys.reader.Through ↔
      d.keys.reader.Through ∨ ∃ code ∈ d.heardAt move, Reader.Ends code := by
  cases move with
  | typed code =>
    by_cases hl : d.listening = true
    · rw [respond, if_pos hl]
      refine Reader.through_read_iff.trans (or_congr_right ?_)
      simp [heardAt, hl]
    · rw [respond, if_neg hl]
      simp [heardAt, hl]
  | settle => exact Reader.through_settle_iff.trans (by simp [heardAt])
  | listen | dismiss => exact (or_iff_left (by simp [heardAt])).symm
  | poll now =>
    rw [or_iff_left (by simp [heardAt])]
    cases hp : d.polling with
    | none => rw [respond_poll hp]
    | some p => rw [respond_poll_busy hp]
  | take =>
    rw [or_iff_left (by simp [heardAt])]
    cases hp : d.polling with
    | none => rw [respond_take_idle hp]
    | some p =>
      rw [respond_take hp, (d.reader_advance p).1]
      rfl

theorem kept_respond (d : Desk τ) (move : Move τ) :
    (d.respond move).keys.reader.keymap = d.keys.reader.keymap ∧
      ((d.respond move).keys.reader.dismissed = true ↔
        d.keys.reader.dismissed = true ∨ move = .dismiss) := by
  cases move with
  | typed code =>
    by_cases hl : d.listening = true
    · obtain ⟨hkeymap, hdismissed⟩ := d.keys.reader.kept_read code
      rw [respond, if_pos hl]
      exact ⟨hkeymap, by simp [hdismissed]⟩
    · rw [respond, if_neg hl]
      simp
  | settle =>
    obtain ⟨hkeymap, hdismissed⟩ := d.keys.reader.kept_settle
    exact ⟨hkeymap, by simp [respond, hdismissed]⟩
  | listen => simp [respond]
  | dismiss => simp [respond, Reader.dismiss]
  | poll now =>
    cases hp : d.polling with
    | none => simp [respond_poll hp]
    | some p => simp [respond_poll_busy hp]
  | take =>
    cases hp : d.polling with
    | none => simp [respond_take_idle hp]
    | some p => simp [respond_take hp, (d.reader_advance p).1]

theorem listening_respond_listen_iff (d : Desk τ) :
    (d.respond .listen).listening = true ↔
      d.listening = true ∨ d.keys.reader.dismissed = false ∧ ¬ d.keys.reader.Through := by
  rw [← Reader.listens_iff]
  exact Bool.or_eq_true_iff

theorem through_run_iff (d : Desk τ) (moves : List (Move τ)) :
    (d.run moves).keys.reader.Through ↔
      d.keys.reader.Through ∨ ∃ code ∈ d.heard moves, Reader.Ends code := by
  induction moves generalizing d with
  | nil => simp [run, heard]
  | cons move rest ih =>
    refine (ih (d.respond move)).trans ?_
    rw [through_respond_iff, or_assoc, heard]
    simp only [List.mem_append, or_and_right, exists_or]

theorem kept_run (d : Desk τ) (moves : List (Move τ)) :
    (d.run moves).keys.reader.keymap = d.keys.reader.keymap ∧
      ((d.run moves).keys.reader.dismissed = true ↔
        d.keys.reader.dismissed = true ∨ .dismiss ∈ moves) := by
  induction moves generalizing d with
  | nil => simp [run]
  | cons move rest ih =>
    obtain ⟨hkeymap, hdismissed⟩ := ih (d.respond move)
    obtain ⟨hkeymap', hdismissed'⟩ := d.kept_respond move
    refine ⟨hkeymap.trans hkeymap', hdismissed.trans ?_⟩
    rw [hdismissed', or_assoc, List.mem_cons, eq_comm (a := move)]

theorem heard_of_through (hl : d.listening = false) (ht : d.keys.reader.Through)
    (moves : List (Move τ)) : d.heard moves = [] := by
  induction moves generalizing d with
  | nil => rfl
  | cons move rest ih =>
    have hat : d.heardAt move = [] := by
      cases move with
      | typed code => simp [heardAt, hl]
      | listen | settle | poll | take | dismiss => rfl
    have hnext : (d.respond move).listening = false := by
      cases move with
      | listen =>
        rw [Bool.eq_false_iff, ne_eq, listening_respond_listen_iff]
        simp [hl, ht]
      | typed code => simp [respond, hl]
      | settle | dismiss => exact hl
      | poll now =>
        cases hp : d.polling with
        | none => rwa [respond_poll hp]
        | some p => rwa [respond_poll_busy hp]
      | take =>
        cases hp : d.polling with
        | none => rwa [respond_take_idle hp]
        | some p => rw [respond_take hp, (d.reader_advance p).2, hl]
    rw [heard, hat, List.nil_append]
    exact ih hnext ((d.through_respond_iff move).mpr (.inl ht))

/-- Only the last character that the reader got can have ended it. -/
theorem not_ends_of_mem_dropLast (d : Desk τ) (moves : List (Move τ)) :
    ∀ code ∈ (d.heard moves).dropLast, ¬ Reader.Ends code := by
  induction moves generalizing d with
  | nil => simp [heard]
  | cons move rest ih =>
    cases move with
    | typed code =>
      by_cases hl : d.listening = true
      · have hheard : d.heard (.typed code :: rest) =
            code :: (d.respond (.typed code)).heard rest := by
          simp [heard, heardAt, hl]
        rw [hheard]
        cases hmore : (d.respond (.typed code)).heard rest with
        | nil => simp
        | cons next more =>
          rw [List.dropLast_cons_cons, List.forall_mem_cons]
          refine ⟨fun hends => ?_, ?_⟩
          · have hdeaf : (d.respond (.typed code)).listening = false := by simp [respond, hl]
            have ht := (d.through_respond_iff (.typed code)).mpr
              (.inr ⟨code, by simp [heardAt, hl], hends⟩)
            rw [heard_of_through hdeaf ht] at hmore
            cases hmore
          · rw [← hmore]
            exact ih _
      · have hheard : d.heard (.typed code :: rest) = (d.respond (.typed code)).heard rest := by
          simp [heard, heardAt, hl]
        rw [hheard]
        exact ih _
    | listen | settle | poll | take | dismiss => exact ih _

def readsThrough (codes : List Int) : List (Move τ) :=
  codes.flatMap fun code => [.listen, .typed code]

omit [Instant τ] in
theorem readsThrough_cons (code : Int) (rest : List Int) :
    (readsThrough (code :: rest) : List (Move τ)) =
      .listen :: .typed code :: readsThrough rest := rfl

theorem heard_readsThrough (hd : d.keys.reader.dismissed = false) (ht : ¬ d.keys.reader.Through)
    {codes : List Int} (hc : ∀ code ∈ codes.dropLast, ¬ Reader.Ends code) :
    d.heard (readsThrough codes) = codes := by
  induction codes generalizing d with
  | nil => rfl
  | cons code rest ih =>
    have hl : (d.respond .listen).listening = true :=
      d.listening_respond_listen_iff.mpr (.inr ⟨hd, ht⟩)
    have hheard : d.heard (readsThrough (code :: rest)) =
        code :: ((d.respond .listen).respond (.typed code)).heard (readsThrough rest) := by
      rw [readsThrough_cons, heard, heard]
      simp only [heardAt, hl, if_true, List.nil_append, List.singleton_append]
    rw [hheard]
    cases rest with
    | nil => rfl
    | cons next more =>
      rw [List.dropLast_cons_cons, List.forall_mem_cons] at hc
      refine congrArg (code :: ·) (ih ?_ ?_ hc.2)
      · have hkept := (kept_respond (d.respond .listen) (.typed code)).2
        have hkept' := (kept_respond d .listen).2
        simpa [hd] using hkept.trans (or_congr_left hkept')
      · rw [through_respond_iff, through_respond_iff]
        simpa [heardAt, hl, ht] using hc.1

/-- What the reader does with a character that it gets. -/
structure Handles (keymap : Keymap) (code : Int) (d : Desk τ) : Prop where
  key : ¬ Reader.Ends code → (d.respond (.typed code)).keys.reader = { d.keys.reader with
    queue := d.keys.reader.queue ++
      if d.keys.reader.queue.length < 16 then (keymap.typed? code).toList.map some else [] }
  quit : Reader.AsksToQuit code →
    (d.respond (.typed code)).keys.reader = { d.keys.reader with holding := true }.settle
  foiled : Reader.Foils code →
    (d.respond (.typed code)).keys.reader = { d.keys.reader with stopped := true }
  refused : (∃ e, (d.keys.reader.read code).result = .error e) ↔ Reader.Foils code

theorem handles (hl : d.listening = true) (code : Int) :
    Handles d.keys.reader.keymap code d := by
  have hreader : (d.respond (.typed code)).keys.reader = (d.keys.reader.read code).state := by
    rw [respond, if_pos hl]
    rfl
  refine ⟨fun h => ?_, fun h => ?_, fun h => ?_, ?_, fun h => ?_⟩
  · rw [hreader, Reader.read_of_not_ends h]
    rfl
  · rw [hreader, Reader.read_of_asksToQuit h]
    rfl
  · obtain ⟨e, he⟩ := Reader.read_of_foils (r := d.keys.reader) h
    rw [hreader, he]
    rfl
  · rintro ⟨e, he⟩
    by_contra hfoils
    by_cases hquit : Reader.AsksToQuit code
    · rw [Reader.read_of_asksToQuit hquit] at he
      cases he
    · rw [Reader.read_of_not_ends (not_or.mpr ⟨hquit, hfoils⟩)] at he
      cases he
  · obtain ⟨e, he⟩ := Reader.read_of_foils (r := d.keys.reader) h
    exact ⟨_, by rw [he]; rfl⟩

/-- Nothing but a request to quit, or a character without a lower case of one character, ends the
reader, in whatever order it and the polls make their moves.  Until then it gets every character,
unless it is dismissed, and queues the key of each for which there is room. -/
theorem reader_goes_on (keymap : Keymap) (keypad : Keypad) (moves : List (Move τ)) :
    let start : Desk τ := new keymap keypad
    let d := start.run moves
    (d.keys.reader.Through ↔ ∃ code ∈ start.heard moves, Reader.Ends code) ∧
    (∀ code ∈ (start.heard moves).dropLast, ¬ Reader.Ends code) ∧
    (.dismiss ∉ moves → (∀ code ∈ start.heard moves, ¬ Reader.Ends code) →
      ∀ codes : List Int, (∀ code ∈ codes.dropLast, ¬ Reader.Ends code) →
        start.heard (moves ++ readsThrough codes) = start.heard moves ++ codes) ∧
    (d.listening = true → ∀ code, Handles keymap code d) := by
  intro start d
  have hthrough : d.keys.reader.Through ↔ ∃ code ∈ start.heard moves, Reader.Ends code := by
    refine (start.through_run_iff moves).trans (or_iff_right ?_)
    simp [start, new, Keys.new, Reader.new, Reader.Through]
  obtain ⟨hkeymap, hdismissed⟩ := start.kept_run moves
  refine ⟨hthrough, start.not_ends_of_mem_dropLast moves, ?_, ?_⟩
  · intro hno hnone codes hcodes
    have hkept : d.keys.reader.dismissed = false := by
      rw [Bool.eq_false_iff, ne_eq, hdismissed]
      simpa [start, new, Keys.new, Reader.new] using hno
    have hgoes : ¬ d.keys.reader.Through := by
      rw [hthrough]
      simpa using hnone
    rw [heard_append, heard_readsThrough hkept hgoes hcodes]
  · intro hl code
    have hhandles := handles hl code
    rwa [hkeymap] at hhandles

/-- The reader stops at the capital I with a dot, and the request to quit behind it is not read. -/
theorem reader_goes_on_dotted :
    let start : Desk Rat := new ⟨[(49, 1)]⟩ Keypad.released
    let past : List (Move Rat) := readsThrough [-1, 263, 49] ++ [.poll 0]
    let d := start.run (past ++ readsThrough [304, 27])
    start.heard (past ++ readsThrough [304]) = [-1, 263, 49, 304] ∧
      start.heard (past ++ readsThrough [304, 27]) = [-1, 263, 49, 304] ∧
      d.keys.reader.Through ∧ d.keys.reader.queue = [some 1] := by
  intro start past d
  have hgoes : ∀ code ∈ start.heard past, ¬ Reader.Ends code := by decide +kernel
  obtain ⟨-, -, hreads, -⟩ := reader_goes_on ⟨[(49, 1)]⟩ Keypad.released past
  obtain ⟨hthrough, -⟩ :=
    reader_goes_on ⟨[(49, 1)]⟩ Keypad.released (past ++ readsThrough [304, 27])
  have hheard : start.heard (past ++ readsThrough [304, 27]) = [-1, 263, 49, 304] := by
    decide +kernel
  refine ⟨(hreads (by simp [past, readsThrough]) hgoes [304] (by simp)).trans (by decide +kernel),
    hheard, hthrough.mpr ⟨304, ?_, .inr (.inl rfl)⟩, by decide +kernel⟩
  exact hheard ▸ (by decide : (304 : Int) ∈ [-1, 263, 49, 304])

/-- The capital I with a dot ends the reader, and asks for nothing. -/
theorem not_forall_reader_survives :
    ¬ ∀ (text : String) (keymap : Keymap), Keymap.read true text = .ok keymap →
      ∀ (keypad : Keypad) (moves : List (Move Rat)),
        (∀ code, .typed code ∈ moves → code < 0 ∨ 0 ≤ code ∧ code ≤ 0x10FFFF) →
        .dismiss ∉ moves →
        (∀ code, .typed code ∈ moves → ¬ Reader.AsksToQuit code) →
        ((new keymap keypad : Desk Rat).run moves).keys.reader.stopped = false := by
  intro h
  obtain ⟨keymap, hkeymap⟩ : ∃ k, Keymap.read true Keymap.standard = .ok k := by
    cases hread : Keymap.read true Keymap.standard with
    | ok k => exact ⟨k, rfl⟩
    | error e =>
      have hsome : (Keymap.read true Keymap.standard).toOption.isSome = true := by decide +kernel
      rw [hread] at hsome
      cases hsome
  have hstopped := h _ keymap hkeymap Keypad.released (readsThrough [304])
  have htyped (code : Int) : .typed code ∈ (readsThrough [304] : List (Move Rat)) → code = 304 := by
    simp [readsThrough]
  have hasks : ¬ Reader.AsksToQuit 304 := by decide
  have hno := hstopped (fun code hc => htyped code hc ▸ by decide) (by simp [readsThrough])
    (fun code hc => htyped code hc ▸ hasks)
  cases hno

end Desk

end ChipEight.Terminal
