import Mathlib.Algebra.Order.Field.Rat
import Mathlib.Data.List.Induction
import Mathlib.Data.List.Pairwise
import ChipEight.Terminal.Keys
import ChipEight.Proofs.Keymaps

/-!
# How keys are delivered

The reader puts keys into the queue while polls take them out, in any order of the two.  A poll
takes the keys of the characters that were read since the poll before it, as far as the queue had
room for them, and a key is down for a fifth of a second after each poll that took it.
-/

namespace ChipEight

namespace Terminal

/-- The reader reads a character, or the host polls. -/
inductive KeyEvent
  | typed (code : Int)
  | polled (now : Rat)

namespace KeyEvent

def time? : KeyEvent → Option Rat
  | typed _ => none
  | polled now => some now

def times (events : List KeyEvent) : List Rat := events.filterMap time?

def Ordered (events : List KeyEvent) : Prop := (times events).Pairwise (· ≤ ·)

instance (events : List KeyEvent) : Decidable (Ordered events) :=
  inferInstanceAs (Decidable (List.Pairwise (· ≤ ·) (times events)))

theorem Ordered.init {events : List KeyEvent} {event : KeyEvent}
    (h : Ordered (events ++ [event])) : Ordered events :=
  h.sublist ((List.sublist_append_left events [event]).filterMap _)

/-- The reader goes on after the character, and it asks for nothing but a key. -/
def Plain : KeyEvent → Prop
  | typed code =>
    code < 0 ∨ ∃ c, LowerCase.ofCode code = .ok c ∧ c ≠ Reader.escape ∧ c ≠ Reader.interrupt
  | polled _ => True

end KeyEvent

/-- Keys that a poll took. -/
structure Delivery where
  now : Rat
  keys : List (Fin 16)

/-- The keys read since the latest poll, and what all polls took. -/
structure Ledger where
  waiting : List (Fin 16)
  delivered : List Delivery

namespace Ledger

def enter (keymap : Keymap) (l : Ledger) : KeyEvent → Ledger
  | .typed code => { l with waiting := l.waiting ++ (keymap.typed? code).toList }
  | .polled now => ⟨[], l.delivered ++ [⟨now, l.waiting.take 16⟩]⟩

def of (keymap : Keymap) (events : List KeyEvent) : Ledger := events.foldl (enter keymap) ⟨[], []⟩

theorem of_append (keymap : Keymap) (events : List KeyEvent) (event : KeyEvent) :
    of keymap (events ++ [event]) = (of keymap events).enter keymap event := by
  simp [of]

theorem map_now_delivered (keymap : Keymap) (events : List KeyEvent) :
    (of keymap events).delivered.map Delivery.now = KeyEvent.times events := by
  induction events using List.reverseRecOn with
  | nil => rfl
  | append_singleton rest event ih =>
    rw [of_append, KeyEvent.times, List.filterMap_append, ← KeyEvent.times, ← ih]
    cases event with
    | typed code => simp [enter, KeyEvent.time?]
    | polled now => simp [enter, KeyEvent.time?]

theorem delivered_le {keymap : Keymap} {events : List KeyEvent} {now : Rat}
    (h : KeyEvent.Ordered (events ++ [.polled now])) :
    ∀ d ∈ (of keymap events).delivered, d.now ≤ now := by
  intro d hd
  have hmem : d.now ∈ KeyEvent.times events := by
    rw [← map_now_delivered keymap]
    exact List.mem_map_of_mem hd
  unfold KeyEvent.Ordered KeyEvent.times at h
  rw [List.filterMap_append, List.pairwise_append] at h
  exact h.2.2 d.now hmem now List.mem_cons_self

theorem delivered_enter_le {l : Ledger} {now : Rat} (h : ∀ d ∈ l.delivered, d.now ≤ now)
    (keymap : Keymap) : ∀ d ∈ (l.enter keymap (.polled now)).delivered, d.now ≤ now := by
  intro d hd
  obtain hd | hd := List.mem_append.mp hd
  · exact h d hd
  · exact (congrArg Delivery.now (List.mem_singleton.mp hd)).le

end Ledger

/-- The keys of a terminal, and the keypad they work on. -/
structure Keyboard where
  keys : Keys Rat
  keypad : Keypad

namespace Keyboard

def new (keymap : Keymap) (keypad : Keypad) : Keyboard := ⟨Keys.new keymap, keypad⟩

def respond (k : Keyboard) : KeyEvent → Keyboard
  | .typed code => { k with keys := { k.keys with reader := (k.keys.reader.readAll [code]).state } }
  | .polled now =>
    let (_, keypad, keys) := k.keys.poll now k.keypad
    ⟨keys, keypad⟩

def run (k : Keyboard) (events : List KeyEvent) : Keyboard := events.foldl respond k

end Keyboard

namespace Reader

variable {r : Reader} {code : Int} {waiting : List (Fin 16)}

theorem take_eq (h : r.queue = (waiting.take 16).map some) (c : Int) :
    r.take c =
      { r with queue := ((waiting ++ (r.keymap.key? c).toList).take 16).map some } := by
  unfold take
  cases r.keymap.key? c with
  | none =>
    change r = { r with queue := ((waiting ++ []).take 16).map some }
    rw [List.append_nil, ← h]
  | some key =>
    have hlen : r.queue.length = min 16 waiting.length := by simp [h]
    change (if r.hasRoom then _ else r) = _
    by_cases hroom : waiting.length < 16
    · have hr : r.hasRoom = true := by simp [hasRoom, capacity, hlen, hroom]
      have hshort : (waiting ++ [key]).length ≤ 16 := by
        rw [List.length_append, List.length_singleton]
        exact hroom
      rw [if_pos hr, h, Option.toList_some, List.take_of_length_le hshort,
        List.take_of_length_le hroom.le, List.map_append]
      rfl
    · have hr : ¬ r.hasRoom = true := by simp [hasRoom, capacity, hlen, hroom]
      rw [if_neg hr, List.take_append_of_le_length (by omega), ← h]

theorem readAll_plain (h : r.queue = (waiting.take 16).map some) (hl : r.listens = true)
    (hplain : KeyEvent.Plain (.typed code)) :
    (r.readAll [code]).state =
      { r with queue := ((waiting ++ (r.keymap.typed? code).toList).take 16).map some } := by
  have hall : (r.readAll [code]).state = (r.read code).state := by
    simp only [readAll, hl, if_true]
    cases hr : (r.read code).result with
    | error e => rw [Attempt.andThen_of_error hr]; rfl
    | ok => rw [Attempt.andThen_of_ok hr]; rfl
  rw [hall]
  by_cases hneg : code < 0
  · have hnone : r.keymap.typed? code = none := if_pos hneg
    rw [hnone, Option.toList_none, List.append_nil, ← h]
    simp [read, hneg]
  · obtain hneg' | ⟨c, hc, hescape, hinterrupt⟩ := hplain
    · exact absurd hneg' hneg
    · have htyped : r.keymap.typed? code = r.keymap.key? c := by
        simp [Keymap.typed?, hneg, hc, Except.toOption]
      rw [htyped, ← take_eq h]
      simp [read, hneg, hc, hescape, hinterrupt]

end Reader

namespace Keys

variable {now : Rat}

def renew (now : Rat) (timers : Timers Rat) : List (Fin 16) → Timers Rat
  | [] => timers
  | key :: rest => renew now (timers.set key (now + 1 / 5)) rest

theorem add_hold (now : Rat) : Instant.add now hold = now + 1 / 5 := by
  have hhold : (hold : Rat) = 1 / 5 := by simp [hold, Instant.ratio]
  rw [hhold]
  rfl

theorem collect_keys (now : Rat) (timers : Timers Rat) (keys : List (Fin 16)) :
    collect now timers (keys.map some) = (false, [], renew now timers keys) := by
  induction keys generalizing timers with
  | nil => rfl
  | cons key rest ih =>
    change collect now (timers.set key (Instant.add now hold)) (rest.map some) = _
    rw [ih, add_hold]
    rfl

theorem get_renew_of_not_mem {now : Rat} {timers : Timers Rat} {keys : List (Fin 16)} {key : Fin 16}
    (h : key ∉ keys) : (renew now timers keys).get key = timers.get key := by
  induction keys generalizing timers with
  | nil => rfl
  | cons first rest ih =>
    obtain ⟨hne, hrest⟩ := List.ne_and_not_mem_of_not_mem_cons h
    have hval : first.val ≠ key.val := fun he => hne (Fin.ext he.symm)
    exact (ih hrest).trans (Vector.getElem_set_ne first.isLt key.isLt hval)

theorem get_renew_of_mem {now : Rat} {timers : Timers Rat} {keys : List (Fin 16)} {key : Fin 16}
    (h : key ∈ keys) : (renew now timers keys).get key = now + 1 / 5 := by
  induction keys generalizing timers with
  | nil => cases h
  | cons first rest ih =>
    by_cases hrest : key ∈ rest
    · exact ih hrest
    · obtain rfl | hmem := List.mem_cons.mp h
      · exact (get_renew_of_not_mem hrest).trans (Vector.getElem_set_self key.isLt)
      · exact absurd hmem hrest

theorem get_held_iff (now : Rat) (timers : Timers Rat) (key : Fin 16) :
    (held now timers).get key = true ↔ now < timers.get key := by
  change (held now timers)[key] = true ↔ now < timers[key]
  simp [held, Instant.le]

end Keys

namespace Keyboard

variable {keymap : Keymap} {k : Keyboard} {l : Ledger} {events : List KeyEvent} {now : Rat}

/-- Queue and timers are what the ledger makes them. -/
structure Keeps (keymap : Keymap) (k : Keyboard) (l : Ledger) : Prop where
  keymap : k.keys.reader.keymap = keymap
  listens : k.keys.reader.listens = true
  queue : k.keys.reader.queue = (l.waiting.take 16).map some
  timers : ∀ (key : Fin 16) (now : Rat), 0 ≤ now → (∀ d ∈ l.delivered, d.now ≤ now) →
    (now < k.keys.timers.get key ↔ ∃ d ∈ l.delivered, key ∈ d.keys ∧ now < d.now + 1 / 5)

namespace Keeps

theorem new (keymap : Keymap) (keypad : Keypad) : Keeps keymap (new keymap keypad) ⟨[], []⟩ where
  keymap := rfl
  listens := rfl
  queue := rfl
  timers key now hp _ := by
    have horigin : (Keyboard.new keymap keypad).keys.timers.get key = 0 := by
      change (Keyboard.new keymap keypad).keys.timers[key] = 0
      simp [Keyboard.new, Keys.new, Instant.origin, Instant.ratio]
    rw [horigin]
    simpa using hp

theorem typed (h : Keeps keymap k l) {code : Int} (hplain : KeyEvent.Plain (.typed code)) :
    Keeps keymap (k.respond (.typed code)) (l.enter keymap (.typed code)) := by
  have hread := Reader.readAll_plain h.queue h.listens hplain
  refine ⟨?_, ?_, ?_, h.timers⟩
  · exact (congrArg Reader.keymap hread).trans h.keymap
  · exact (congrArg Reader.listens hread).trans h.listens
  · rw [h.keymap] at hread
    exact congrArg Reader.queue hread

theorem poll_eq (h : Keeps keymap k l) (now : Rat) :
    let timers := Keys.renew now k.keys.timers (l.waiting.take 16)
    k.keys.poll now k.keypad =
      (false, Keys.held now timers, ⟨{ k.keys.reader with queue := [] }, timers⟩) := by
  simp only [Keys.poll, h.queue, Keys.collect_keys]
  rfl

theorem respond_polled (h : Keeps keymap k l) (now : Rat) :
    let timers := Keys.renew now k.keys.timers (l.waiting.take 16)
    k.respond (.polled now) =
      ⟨⟨{ k.keys.reader with queue := [] }, timers⟩, Keys.held now timers⟩ := by
  intro timers
  rw [respond, h.poll_eq now]

theorem polled (h : Keeps keymap k l) (hlate : ∀ d ∈ l.delivered, d.now ≤ now) :
    Keeps keymap (k.respond (.polled now)) (l.enter keymap (.polled now)) := by
  rw [h.respond_polled now]
  refine ⟨h.keymap, h.listens, rfl, ?_⟩
  intro key later hl hafter
  have hnow : now ≤ later := hafter ⟨now, l.waiting.take 16⟩ (by simp [Ledger.enter])
  have hbefore := h.timers key later hl fun d hd => (hlate d hd).trans hnow
  change later < (Keys.renew now k.keys.timers (l.waiting.take 16)).get key ↔
    ∃ d ∈ l.delivered ++ [⟨now, l.waiting.take 16⟩], key ∈ d.keys ∧ later < d.now + 1 / 5
  by_cases hkey : key ∈ l.waiting.take 16
  · -- a key that was just taken is held at least as long as by any poll before
    rw [Keys.get_renew_of_mem hkey]
    constructor
    · intro hlt
      exact ⟨_, List.mem_append_right _ List.mem_cons_self, hkey, hlt⟩
    · rintro ⟨d, hd, -, hlt⟩
      exact hlt.trans_le (add_le_add_left (Ledger.delivered_enter_le hlate keymap d hd) _)
  · rw [Keys.get_renew_of_not_mem hkey, hbefore]
    constructor
    · rintro ⟨d, hd, hmem, hlt⟩
      exact ⟨d, List.mem_append_left _ hd, hmem, hlt⟩
    · rintro ⟨d, hd, hmem, hlt⟩
      obtain hd | hd := List.mem_append.mp hd
      · exact ⟨d, hd, hmem, hlt⟩
      · rw [List.mem_singleton.mp hd] at hmem
        exact absurd hmem hkey

theorem run (keymap : Keymap) (keypad : Keypad) (hplain : ∀ event ∈ events, event.Plain)
    (hordered : KeyEvent.Ordered events) :
    Keeps keymap ((Keyboard.new keymap keypad).run events) (Ledger.of keymap events) := by
  induction events using List.reverseRecOn with
  | nil => exact .new keymap keypad
  | append_singleton rest event ih =>
    have hrest := ih (fun other ho => hplain other (List.mem_append_left _ ho)) hordered.init
    have hrun : (Keyboard.new keymap keypad).run (rest ++ [event]) =
        ((Keyboard.new keymap keypad).run rest).respond event := by
      simp [Keyboard.run]
    rw [hrun, Ledger.of_append]
    cases event with
    | typed code => exact hrest.typed (hplain _ (List.mem_append_right _ List.mem_cons_self))
    | polled now => exact hrest.polled (Ledger.delivered_le hordered)

end Keeps

/-- What a poll finds and does, whatever was read and polled before it. -/
theorem poll_delivers {text : String} (hkeymap : Keymap.read true text = .ok keymap)
    (keypad : Keypad) (hplain : ∀ event ∈ events, event.Plain)
    (hordered : KeyEvent.Ordered (events ++ [.polled now])) (hp : 0 ≤ now) :
    let k := (new keymap keypad).run events
    let taken := (Ledger.of keymap events).waiting.take 16
    let polls := (Ledger.of keymap (events ++ [.polled now])).delivered
    (∀ code key, keymap.typed? code = some key ↔
      0 ≤ code ∧ ∃ field n c, (Commas.split text)[key.val]? = some field ∧
        Numeral.read? 10 field = some n ∧ LowerCase.ofCode n = .ok c ∧
        LowerCase.ofCode code = .ok c) ∧
    k.keys.reader.queue = taken.map some ∧
    polls = (Ledger.of keymap events).delivered ++ [⟨now, taken⟩] ∧
    ∃ keypad' keys', k.keys.poll now k.keypad = (false, keypad', keys') ∧
      keys'.reader.queue = [] ∧
      ∀ key : Fin 16, keypad'.get key = true ↔
        ∃ d ∈ polls, key ∈ d.keys ∧ now < d.now + 1 / 5 := by
  intro k taken polls
  have hbefore : Keeps keymap k (Ledger.of keymap events) :=
    Keeps.run keymap keypad hplain hordered.init
  have hlate : ∀ d ∈ (Ledger.of keymap events).delivered, d.now ≤ now :=
    Ledger.delivered_le hordered
  have hafter := hbefore.polled hlate
  have hpolls : polls = ((Ledger.of keymap events).enter keymap (.polled now)).delivered :=
    congrArg Ledger.delivered (Ledger.of_append keymap events (.polled now))
  refine ⟨Keymap.typed?_eq_some_iff hkeymap, hbefore.queue, hpolls, _, _, hbefore.poll_eq now, rfl,
    ?_⟩
  intro key
  have htimers := hafter.timers key now hp (Ledger.delivered_enter_le hlate keymap)
  rw [hbefore.respond_polled now] at htimers
  rw [Keys.get_held_iff, hpolls]
  exact htimers

/-- Key 0 was taken a tenth of a second ago from a capital letter, key 1 fills the queue, and so
key 2 is lost. -/
theorem poll_delivers_standard :
    let events : List KeyEvent :=
      [.typed 88, .typed (-1), .polled 0] ++ List.replicate 16 (.typed 49) ++ [.typed 50]
    ∃ keymap, Keymap.read true Keymap.standard = .ok keymap ∧
      let k := (new keymap Keypad.released).run events
      k.keys.reader.queue = List.replicate 16 (some 1) ∧
      ∃ keypad' keys', k.keys.poll (1 / 10) k.keypad = (false, keypad', keys') ∧
        keypad'.get 0 = true ∧ keypad'.get 1 = true ∧
        ¬ keypad'.get 2 = true := by
  intro events
  let entries : List (Int × Fin 16) :=
    [(120, 0), (49, 1), (50, 2), (51, 3), (113, 4), (119, 5), (101, 6), (97, 7), (115, 8), (100, 9),
      (122, 10), (99, 11), (52, 12), (114, 13), (102, 14), (118, 15)]
  have hentries : (Keymap.read true Keymap.standard).toOption.map Keymap.entries = some entries := by
    decide +kernel
  have hkeymap : Keymap.read true Keymap.standard = .ok ⟨entries⟩ := by
    cases hread : Keymap.read true Keymap.standard with
    | error e => simp [hread, Except.toOption] at hentries
    | ok keymap =>
      have hkeys : keymap.entries = entries := by simpa [hread, Except.toOption] using hentries
      rw [← hkeys]
  have hplain : ∀ event ∈ events, event.Plain := by
    intro event hevent
    obtain hevent | hevent := List.mem_append.mp hevent
    · obtain hevent | hevent := List.mem_append.mp hevent
      · simp only [List.mem_cons, List.not_mem_nil, or_false] at hevent
        obtain rfl | rfl | rfl := hevent
        · exact .inr ⟨120, rfl, by decide, by decide⟩
        · exact .inl (by decide)
        · trivial
      · rw [List.eq_of_mem_replicate hevent]
        exact .inr ⟨49, rfl, by decide, by decide⟩
    · rw [List.mem_singleton.mp hevent]
      exact .inr ⟨50, rfl, by decide, by decide⟩
  have hordered : KeyEvent.Ordered (events ++ [.polled (1 / 10)]) := by decide +kernel
  obtain ⟨-, hqueue, -, keypad', keys', hpoll, -, hkeys⟩ :=
    poll_delivers hkeymap Keypad.released hplain hordered (by decide +kernel)
  refine ⟨⟨entries⟩, hkeymap, hqueue.trans (by decide +kernel), keypad', keys', hpoll, ?_, ?_, ?_⟩
  · exact (hkeys 0).mpr (by decide +kernel)
  · exact (hkeys 1).mpr (by decide +kernel)
  · exact fun h => absurd ((hkeys 2).mp h) (by decide +kernel)

end Keyboard

end Terminal

end ChipEight
