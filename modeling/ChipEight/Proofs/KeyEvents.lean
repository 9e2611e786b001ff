import ChipEight.Launch.Rig

/-!
# Keys of a window after a poll

A poll follows every event it finds, also those behind a request to quit.  Afterwards a key is as
the last event about it says, and keys that no event is about are as they were.
-/

namespace ChipEight.Window

variable {keymap : Keymap} {keypad : Keypad} {key : Fin 16} {event : Event} {events : List Event}

namespace Event

def Presses (keymap : Keymap) (key : Fin 16) (event : Event) : Prop :=
  ∃ code, event = .keyDown code ∧ keymap.key? code = some key

/-- The event is that the key goes up.  Escape going up is a request to quit and nothing else. -/
def Releases (keymap : Keymap) (key : Fin 16) (event : Event) : Prop :=
  ∃ code, event = .keyUp code ∧ code ≠ 27 ∧ keymap.key? code = some key

def Concerns (keymap : Keymap) (key : Fin 16) (event : Event) : Prop :=
  event.Presses keymap key ∨ event.Releases keymap key

/-- The last event about the key is that it goes down. -/
def LastPresses (keymap : Keymap) (key : Fin 16) (events : List Event) : Prop :=
  ∃ before event after, events = before ++ event :: after ∧ event.Presses keymap key ∧
    ∀ later ∈ after, ¬ later.Concerns keymap key

theorem asksToQuit_iff : event.asksToQuit = true ↔ event = .quit ∨ event = .keyUp 27 := by
  cases event with
  | quit | keyDown code | other => simp [asksToQuit]
  | keyUp code => simp [asksToQuit, escape]

theorem apply_of_asksToQuit (h : event.asksToQuit = true) (keymap : Keymap) (keypad : Keypad) :
    event.apply keymap keypad = keypad := by
  obtain rfl | rfl := asksToQuit_iff.mp h
  · rfl
  · rfl

theorem get_setKey (keymap : Keymap) (keypad : Keypad) (code : Int) (down : Bool) (key : Fin 16) :
    (setKey keymap keypad code down).get key =
      if keymap.key? code = some key then down else keypad.get key := by
  unfold setKey
  cases keymap.key? code with
  | none => simp
  | some other => simp [Keypad.get_press]

theorem get_apply_iff (event : Event) (keymap : Keymap) (keypad : Keypad) (key : Fin 16) :
    (event.apply keymap keypad).get key = true ↔
      event.Presses keymap key ∨ (¬ event.Releases keymap key ∧ keypad.get key = true) := by
  cases event with
  | quit | other => simp [apply, Presses, Releases]
  | keyDown code => by_cases hk : keymap.key? code = some key <;>
      simp [apply, get_setKey, Presses, Releases, hk]
  | keyUp code =>
    by_cases hc : code = 27
    · simp [apply, escape, Presses, Releases, hc]
    · by_cases hk : keymap.key? code = some key <;>
        simp [apply, escape, get_setKey, Presses, Releases, hc, hk]

theorem applyAll_eq (keymap : Keymap) (keypad : Keypad) (events : List Event) :
    applyAll keymap keypad events =
      (events.any asksToQuit, events.foldl (fun k event => event.apply keymap k) keypad) := by
  induction events generalizing keypad with
  | nil => rfl
  | cons event rest ih => simp [applyAll, ih]

theorem lastPresses_cons (event : Event) (rest : List Event) :
    LastPresses keymap key (event :: rest) ↔
      LastPresses keymap key rest ∨
        (event.Presses keymap key ∧ ∀ later ∈ rest, ¬ later.Concerns keymap key) := by
  constructor
  · rintro ⟨before, pressing, after, heq, hpress, hafter⟩
    cases before with
    | nil =>
      obtain ⟨rfl, rfl⟩ := List.cons.inj heq
      exact .inr ⟨hpress, hafter⟩
    | cons first before =>
      obtain ⟨rfl, rfl⟩ := List.cons.inj heq
      exact .inl ⟨before, pressing, after, rfl, hpress, hafter⟩
  · rintro (⟨before, pressing, after, rfl, hpress, hafter⟩ | ⟨hpress, hrest⟩)
    · exact ⟨event :: before, pressing, after, rfl, hpress, hafter⟩
    · exact ⟨[], event, rest, rfl, hpress, hrest⟩

theorem get_applyAll_iff (keymap : Keymap) (keypad : Keypad) (events : List Event) (key : Fin 16) :
    (applyAll keymap keypad events).2.get key = true ↔
      LastPresses keymap key events ∨
        ((∀ event ∈ events, ¬ event.Concerns keymap key) ∧ keypad.get key = true) := by
  induction events generalizing keypad with
  | nil =>
    have hno : ¬ LastPresses keymap key [] := by
      rintro ⟨before, event, after, heq, -⟩
      simp at heq
    simp [applyAll, hno]
  | cons event rest ih =>
    change (applyAll keymap (event.apply keymap keypad) rest).2.get key = true ↔ _
    rw [ih, get_apply_iff, lastPresses_cons, List.forall_mem_cons, or_assoc]
    refine or_congr_right ?_
    by_cases hp : event.Presses keymap key
    · simp [Concerns, hp]
    · simp [Concerns, hp, and_assoc, and_left_comm]

theorem foldl_apply_filter (keymap : Keymap) (keypad : Keypad) (events : List Event) :
    (events.filter (!·.asksToQuit)).foldl (fun k event => event.apply keymap k) keypad =
      events.foldl (fun k event => event.apply keymap k) keypad := by
  induction events generalizing keypad with
  | nil => rfl
  | cons event rest ih =>
    cases h : event.asksToQuit with
    | true => simp [h, ih, apply_of_asksToQuit h]
    | false => simp [h, ih]

end Event

/-- A poll asks to quit just when one of its events does.  It leaves each key as the last event
about it says, and requests to quit among the events make no difference to the keys. -/
theorem Station.poll_follows (surface : Surface) (keymap : Keymap) (events : List Event)
    (rest : List (List Event)) (keypad : Keypad) :
    let polled := Station.poll ⟨surface, keymap, events :: rest⟩ keypad
    (polled.1 = true ↔ .quit ∈ events ∨ .keyUp 27 ∈ events) ∧
    (∀ key, polled.2.1.get key = true ↔
      Event.LastPresses keymap key events ∨
        ((∀ event ∈ events, ¬ event.Concerns keymap key) ∧ keypad.get key = true)) ∧
    polled.2.1 =
      (Station.poll ⟨surface, keymap, events.filter (!·.asksToQuit) :: rest⟩ keypad).2.1 ∧
    polled.2.2 = ⟨surface, keymap, rest⟩ := by
  have hpoll (events : List Event) : Station.poll ⟨surface, keymap, events :: rest⟩ keypad =
      ((Event.applyAll keymap keypad events).1, (Event.applyAll keymap keypad events).2,
        ⟨surface, keymap, rest⟩) := rfl
  rw [hpoll, hpoll]
  refine ⟨?_, Event.get_applyAll_iff keymap keypad events, ?_, rfl⟩
  · rw [Event.applyAll_eq, List.any_eq_true]
    constructor
    · rintro ⟨event, hmem, hasks⟩
      obtain rfl | rfl := Event.asksToQuit_iff.mp hasks
      · exact .inl hmem
      · exact .inr hmem
    · rintro (hmem | hmem)
      · exact ⟨.quit, hmem, rfl⟩
      · exact ⟨.keyUp 27, hmem, rfl⟩
  · rw [Event.applyAll_eq, Event.applyAll_eq, Event.foldl_apply_filter]

/-- Escape as a key of the keypad goes down, and letting go of it only asks to quit. -/
example : Event.applyAll ⟨[(27, 0), (49, 1)]⟩ Keypad.released
    [.keyDown 27, .keyUp 27, .keyDown 49, .keyDown 50] =
      (true, (Keypad.released.press 0 true).press 1 true) := by decide

end ChipEight.Window
