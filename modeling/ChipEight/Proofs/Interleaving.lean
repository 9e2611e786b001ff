import Mathlib.Data.List.Basic
import ChipEight.Terminal.Keys

/-!
# The reader beside the polls

The reader runs beside the polls, and the queue is all that they share.  Both are therefore taken
apart into moves that touch the queue at most once: the reader begins to wait for a character, gets
one, or finds room for a marker that it holds, and a poll begins and takes one entry after another.
The moves may come in any order.  A move that is not open to its party at the time changes nothing.
-/

namespace ChipEight.Terminal

inductive Move (τ : Type)
  /-- The reader begins to wait for a character, unless it is through. -/
  | listen
  | typed (code : Int)
  /-- The reader puts the marker that it holds into the queue, if there is room. -/
  | settle
  | poll (now : τ)
  /-- The poll takes an entry, or ends at an empty queue. -/
  | take
  | dismiss

/-- A poll on its way: when it began, with which timers, and what it took so far. -/
structure Collecting (τ : Type) where
  now : τ
  earlier : Timers τ
  taken : List (Option (Fin 16))

def Collecting.renew {τ : Type} [Instant τ] (p : Collecting τ) (timers : Timers τ)
    (key : Fin 16) : Timers τ :=
  (Keys.collect p.now timers [some key]).2.2

/-- A poll that is over: its answer, and the timers that it left. -/
structure Collected (τ : Type) extends Collecting τ where
  quit : Bool
  timers : Timers τ

/-- Where the reader and the polls meet, with a record of all polls. -/
structure Desk (τ : Type) where
  keys : Keys τ
  keypad : Keypad
  /-- The reader waits for a character. -/
  listening : Bool
  polling : Option (Collecting τ)
  polls : List (Collected τ)

namespace Desk

variable {τ : Type} [Instant τ]

def new (keymap : Keymap) (keypad : Keypad) : Desk τ := ⟨Keys.new keymap, keypad, false, none, []⟩

def withReader (d : Desk τ) (reader : Reader) : Desk τ := { d with keys := { d.keys with reader } }

omit [Instant τ] in
@[simp]
theorem withReader_reader (d : Desk τ) (reader : Reader) :
    (d.withReader reader).keys.reader = reader := rfl

def finish (d : Desk τ) (p : Collecting τ) (quit : Bool) : Desk τ :=
  { d with
    polling := none
    polls := d.polls ++ [{ toCollecting := p, quit, timers := d.keys.timers }] }

/-- The next entry of the queue goes to a poll.  The marker ends the poll, and so does an empty
queue, at which the keypad is brought up to date. -/
def advance (d : Desk τ) (p : Collecting τ) : Desk τ :=
  match d.keys.reader.queue with
  | [] => { d with keypad := Keys.held p.now d.keys.timers }.finish p false
  | none :: rest =>
    (d.withReader { d.keys.reader with queue := rest }).finish
      { p with taken := p.taken ++ [none] } true
  | some key :: rest =>
    { d with
      keys := ⟨{ d.keys.reader with queue := rest }, p.renew d.keys.timers key⟩
      polling := some { p with taken := p.taken ++ [some key] } }

def respond (d : Desk τ) : Move τ → Desk τ
  | .listen => { d with listening := d.listening || d.keys.reader.listens }
  | .typed code =>
    if d.listening then { d.withReader (d.keys.reader.read code).state with listening := false }
    else d
  | .settle => d.withReader d.keys.reader.settle
  | .poll now =>
    match d.polling with
    | none => { d with polling := some ⟨now, d.keys.timers, []⟩ }
    | some _ => d
  | .take =>
    match d.polling with
    | none => d
    | some p => d.advance p
  | .dismiss => d.withReader d.keys.reader.dismiss

def run (d : Desk τ) (moves : List (Move τ)) : Desk τ := moves.foldl respond d

/-- What polls took from the queue so far. -/
def taken (d : Desk τ) : List (Option (Fin 16)) :=
  d.polls.flatMap (fun p => p.taken) ++ (d.polling.map Collecting.taken).getD []

/-- All that ever was put into the queue, in order. -/
def passed (d : Desk τ) : List (Option (Fin 16)) := d.taken ++ d.keys.reader.queue

variable {d : Desk τ} {p : Collecting τ} {key : Fin 16} {rest : List (Option (Fin 16))}

theorem respond_take (hp : d.polling = some p) : d.respond .take = d.advance p := by
  simp only [respond, hp]

theorem respond_take_idle (hp : d.polling = none) : d.respond .take = d := by
  simp only [respond, hp]

theorem respond_poll (hp : d.polling = none) (now : τ) :
    d.respond (.poll now) = { d with polling := some ⟨now, d.keys.timers, []⟩ } := by
  simp only [respond, hp]

theorem respond_poll_busy (hp : d.polling = some p) (now : τ) : d.respond (.poll now) = d := by
  simp only [respond, hp]

theorem advance_nil (hq : d.keys.reader.queue = []) :
    d.advance p = { d with keypad := Keys.held p.now d.keys.timers }.finish p false := by
  simp only [advance, hq]

theorem advance_none (hq : d.keys.reader.queue = none :: rest) :
    d.advance p = (d.withReader { d.keys.reader with queue := rest }).finish
      { p with taken := p.taken ++ [none] } true := by
  simp only [advance, hq]

theorem advance_some (hq : d.keys.reader.queue = some key :: rest) :
    d.advance p = { d with
      keys := ⟨{ d.keys.reader with queue := rest }, p.renew d.keys.timers key⟩
      polling := some { p with taken := p.taken ++ [some key] } } := by
  simp only [advance, hq]

theorem passed_poll (d : Desk τ) (now : τ) : (d.respond (.poll now)).passed = d.passed := by
  cases hp : d.polling with
  | none =>
    rw [respond_poll hp]
    simp [passed, taken, hp]
  | some p => rw [respond_poll_busy hp]

theorem passed_advance (hp : d.polling = some p) : (d.advance p).passed = d.passed := by
  cases hq : d.keys.reader.queue with
  | nil =>
    rw [advance_nil hq]
    simp [passed, taken, finish, hp]
  | cons entry rest =>
    cases entry with
    | none =>
      rw [advance_none hq]
      simp [passed, taken, finish, withReader, hp, hq]
    | some key =>
      rw [advance_some hq]
      simp [passed, taken, hp, hq]

theorem reader_advance (d : Desk τ) (p : Collecting τ) :
    (d.advance p).keys.reader = { d.keys.reader with queue := d.keys.reader.queue.tail } ∧
      (d.advance p).listening = d.listening := by
  cases hq : d.keys.reader.queue with
  | nil =>
    rw [advance_nil hq, List.tail_nil, ← hq]
    exact ⟨rfl, rfl⟩
  | cons entry rest =>
    cases entry with
    | none =>
      rw [advance_none hq]
      exact ⟨rfl, rfl⟩
    | some key =>
      rw [advance_some hq]
      exact ⟨rfl, rfl⟩

theorem run_take_idle (hp : d.polling = none) (n : Nat) : d.run (List.replicate n .take) = d := by
  induction n with
  | zero => rfl
  | succ n ih =>
    rw [List.replicate_succ]
    change (d.respond .take).run _ = d
    rw [respond_take_idle hp, ih]

theorem run_take (hp : d.polling = some p) :
    ∃ taken, d.run (List.replicate (d.keys.reader.queue.length + 1) .take) =
      let (quit, queue, timers) := Keys.collect p.now d.keys.timers d.keys.reader.queue
      { d with
        keys := ⟨{ d.keys.reader with queue }, timers⟩
        keypad := if quit then d.keypad else Keys.held p.now timers
        polling := none
        polls := d.polls ++ [⟨{ p with taken }, quit, timers⟩] } := by
  generalize hq : d.keys.reader.queue = queue
  induction queue generalizing d p with
  | nil =>
    refine ⟨p.taken, ?_⟩
    have hcollect : Keys.collect p.now d.keys.timers [] = (false, [], d.keys.timers) := rfl
    change d.respond .take = _
    rw [respond_take hp, advance_nil hq, hcollect, ← hq]
    rfl
  | cons entry rest ih =>
    rw [List.length_cons, List.replicate_succ]
    cases entry with
    | none =>
      refine ⟨p.taken ++ [none], ?_⟩
      change (d.respond .take).run _ = _
      rw [respond_take hp, advance_none hq, run_take_idle rfl]
      rfl
    | some key =>
      change ∃ taken, (d.respond .take).run _ = _
      rw [respond_take hp, advance_some hq]
      obtain ⟨taken, hrun⟩ := ih (d := { d with
        keys := ⟨{ d.keys.reader with queue := rest }, p.renew d.keys.timers key⟩
        polling := some { p with taken := p.taken ++ [some key] } }) rfl rfl
      exact ⟨taken, hrun⟩

theorem run_poll (hp : d.polling = none) (now : τ) :
    ∃ taken, d.run (.poll now :: List.replicate (d.keys.reader.queue.length + 1) .take) =
      let (quit, keypad, keys) := d.keys.poll now d.keypad
      { d with
        keys, keypad
        polls := d.polls ++ [⟨⟨now, d.keys.timers, taken⟩, quit, keys.timers⟩] } := by
  obtain ⟨taken, hrun⟩ := run_take (d := { d with polling := some ⟨now, d.keys.timers, []⟩ }) rfl
  refine ⟨taken, ?_⟩
  change (d.respond (.poll now)).run _ = _
  rw [respond_poll hp]
  refine hrun.trans ?_
  simp only [Keys.poll]
  cases (Keys.collect now d.keys.timers d.keys.reader.queue).1 with
  | true => simp [hp]
  | false => simp [hp]

end Desk

end ChipEight.Terminal
