import ChipEight.Proofs.Reachable
import ChipEight.Proofs.Turns

/-!
# Sessions on any front end

How a run ends, whatever shows the picture and delivers the keys.  A front end that is refused is
not a fault of the machine, so only a step can raise one, and a run succeeds only by a poll that
asks to quit.
-/

namespace ChipEight

open Attempt

variable {τ σ : Type} {f : FrontEnd τ σ} {env : Surroundings} {capacity : Int}

namespace FrontEnd

/-- No call on the front end raises a fault of the machine. -/
structure Faultless (f : FrontEnd τ σ) : Prop where
  receive : ∀ state signal, (f.receive state signal).Faultless
  poll : ∀ state now m e, (f.poll state now m).quit = .error e → e.isFault = false

/-- Every call on the front end keeps a property of its state. -/
structure Keeps (P : σ → Prop) (f : FrontEnd τ σ) : Prop where
  receive : ∀ state signal, P state → P (f.receive state signal).state
  poll : ∀ state now m, P state → P (f.poll state now m).state

theorem Faultless.receiveAll (h : f.Faultless) (state : σ) (signals : List Signal) :
    (f.receiveAll state signals).Faultless := by
  induction signals generalizing state with
  | nil => exact .succeed state ()
  | cons signal rest ih => exact (h.receive state signal).andThen fun state' _ => ih state'

theorem Keeps.receiveAll {P : σ → Prop} (h : f.Keeps P) (state : σ) (hs : P state)
    (signals : List Signal) : P (f.receiveAll state signals).state := by
  induction signals generalizing state with
  | nil => exact hs
  | cons signal rest ih =>
    exact keeps_andThen (P := P) (h.receive state signal hs) fun state' _ hs' => ih state' hs'

end FrontEnd

namespace Session

variable {s s' : Session τ σ} {P : σ → Prop}

/-- Nothing was done to the machine but to its keys, and nothing was printed. -/
structure Untouched (s s' : Session τ σ) : Prop where
  machine : ∃ keypad, s'.machine = { s.machine with keypad }
  printed : s'.printed = s.printed

theorem Untouched.refl (s : Session τ σ) : s.Untouched s := ⟨⟨s.machine.keypad, rfl⟩, rfl⟩

theorem Untouched.withKeypad (h : s.Untouched s') (keypad : Keypad) (frontEnd : σ) :
    s.Untouched { s' with machine := { s'.machine with keypad }, frontEnd } := by
  obtain ⟨before, hb⟩ := h.machine
  refine ⟨⟨keypad, ?_⟩, h.printed⟩
  change { s'.machine with keypad } = _
  rw [hb]

theorem refresh_untouched (f : FrontEnd τ σ) (h : s.Untouched s') :
    s.Untouched (s'.refresh f).state :=
  keeps_andThen (P := s.Untouched) ⟨h.machine, h.printed⟩ fun _ _ hs => ⟨hs.machine, hs.printed⟩

theorem send_faultless (hf : f.Faultless) (s : Session τ σ) (signals : List Signal) :
    (s.send f signals).Faultless := (hf.receiveAll s.frontEnd signals).mapState _

theorem refresh_faultless (hf : f.Faultless) (s : Session τ σ) : (s.refresh f).Faultless :=
  (send_faultless hf s _).andThen fun _ _ => .succeed _ ()

/-- The session with its machine stepped and the trace line printed, and nobody told as yet. -/
def stepped (env : Surroundings) (s : Session τ σ) : Session τ σ :=
  { s with
    machine := (s.machine.step env).machine
    printed := match (s.machine.step env).trace with
      | some line => s.printed.push line
      | none => s.printed }

theorem printed_stepped (env : Surroundings) (s : Session τ σ) :
    (s.stepped env).printed.toList = s.printed.toList ++ (s.machine.step env).trace.toList := by
  unfold stepped
  cases (s.machine.step env).trace with
  | none => simp
  | some line => simp

theorem advance_keeps (f : FrontEnd τ σ) (env : Surroundings) (s : Session τ σ) :
    (s.advance f env).state.machine = (s.machine.step env).machine ∧
    (s.advance f env).state.printed = (s.stepped env).printed := by
  let P : Session τ σ → Prop := fun s' =>
    s'.machine = (s.machine.step env).machine ∧ s'.printed = (s.stepped env).printed
  refine keeps_andThen (P := P) ⟨rfl, rfl⟩ fun s' _ hs => ?_
  exact keeps_andThen (P := P) hs fun s'' outcome hs => hs

/-- A step that raises a fault sends nothing, so there is nothing to be refused before it. -/
theorem advance_of_fault (f : FrontEnd τ σ) (h : s.machine.WellFormed capacity) {φ : Fault}
    (hφ : (s.machine.step env).result = .error (.fault φ)) :
    (s.advance f env).result = .error (.fault φ) := by
  have hsent := (Machine.step_of_error h.steady hφ).2
  unfold advance
  simp only [hsent, hφ]
  rfl

theorem fault_of_advance (hf : f.Faultless) {φ : Fault}
    (h : (s.advance f env).result = .error (.fault φ)) :
    (s.machine.step env).result = .error (.fault φ) := by
  have hsend := send_faultless hf (s.stepped env) (s.machine.step env).signals
  change (((s.stepped env).send f (s.machine.step env).signals).andThen _).result = _ at h
  cases hs : ((s.stepped env).send f (s.machine.step env).signals).result with
  | error e =>
    rw [andThen_of_error hs] at h
    obtain rfl := Except.error.inj h
    cases hsend _ hs
  | ok =>
    rw [andThen_of_ok hs] at h
    cases hr : (s.machine.step env).result with
    | error e =>
      rw [hr] at h
      rw [Except.error.inj h]
    | ok outcome =>
      rw [hr] at h
      cases h

theorem keeps_frontEnd_andThen {α β : Type} {a : Attempt (Session τ σ) α}
    {next : Session τ σ → α → Attempt (Session τ σ) β} (ha : P a.state.frontEnd)
    (hn : ∀ s value, P s.frontEnd → P (next s value).state.frontEnd) :
    P (a.andThen next).state.frontEnd :=
  keeps_andThen (P := fun s : Session τ σ => P s.frontEnd) ha hn

theorem keeps_refresh (hf : f.Keeps P) (hs : P s.frontEnd) : P (s.refresh f).state.frontEnd := by
  unfold refresh
  exact keeps_frontEnd_andThen (hf.receiveAll s.frontEnd hs _) fun _ _ h => h

theorem keeps_advance (hf : f.Keeps P) (env : Surroundings) (hs : P s.frontEnd) :
    P (s.advance f env).state.frontEnd := by
  have hsent : P ((s.stepped env).send f (s.machine.step env).signals).state.frontEnd :=
    hf.receiveAll s.frontEnd hs _
  unfold advance
  refine keeps_frontEnd_andThen hsent fun s' _ hs' => ?_
  exact keeps_frontEnd_andThen hs' fun _ _ h => h

variable [Instant τ]

def polled (f : FrontEnd τ σ) (now : Moment τ) (s : Session τ σ) : Session τ σ :=
  { s with
    machine := { s.machine with keypad := (f.poll s.frontEnd now s.machine).keypad }
    frontEnd := (f.poll s.frontEnd now s.machine).state }

def postponed (now : τ) (s : Session τ σ) : Session τ σ :=
  { s with nextPoll := Instant.add now (Instant.ratio 1 pollRate) }

/-- What a poll of the keys can come to. -/
inductive Polls (f : FrontEnd τ σ) (now : Moment τ) (s : Session τ σ) : Prop
  | early (due : Instant.le s.nextPoll now.steady = false)
      (work : s.pollKeys f now = .succeed s false)
  | failed (e : Error) (due : Instant.le s.nextPoll now.steady = true)
      (quit : (f.poll s.frontEnd now s.machine).quit = .error e)
      (work : s.pollKeys f now = .refuse (s.polled f now) e)
  | quit (due : Instant.le s.nextPoll now.steady = true)
      (quit : (f.poll s.frontEnd now s.machine).quit = .ok true)
      (work : s.pollKeys f now = .succeed (s.polled f now) true)
  | refreshed (due : Instant.le s.nextPoll now.steady = true)
      (quit : (f.poll s.frontEnd now s.machine).quit = .ok false)
      (work : s.pollKeys f now = (((s.polled f now).postponed now.steady).refresh f).andThen
        fun s' _ => .succeed s' false)

theorem polls (f : FrontEnd τ σ) (now : Moment τ) (s : Session τ σ) : s.Polls f now := by
  cases hdue : Instant.le s.nextPoll now.steady with
  | false =>
    refine .early hdue ?_
    unfold pollKeys
    rw [hdue]
    rfl
  | true =>
    have hpoll : s.pollKeys f now = (ofExcept (s.polled f now)
        (f.poll s.frontEnd now s.machine).quit).andThen fun s' quit =>
          if quit then .succeed s' true
          else ((s'.postponed now.steady).refresh f).andThen fun s'' _ => .succeed s'' false :=
      if_pos hdue
    cases hquit : (f.poll s.frontEnd now s.machine).quit with
    | error e => exact .failed e hdue hquit (by rw [hpoll, hquit]; rfl)
    | ok quit =>
      cases quit with
      | true => exact .quit hdue hquit (by rw [hpoll, hquit]; rfl)
      | false => exact .refreshed hdue hquit (by rw [hpoll, hquit]; rfl)

theorem report_untouched (f : FrontEnd τ σ) (now : τ) (s : Session τ σ) :
    s.Untouched (s.report f now).state := by
  unfold report
  split
  · refine keeps_andThen (P := s.Untouched) ?_ fun s' _ hs => ⟨hs.machine, hs.printed⟩
    exact ⟨⟨s.machine.keypad, rfl⟩, rfl⟩
  · exact .refl s

theorem pollKeys_untouched (f : FrontEnd τ σ) (now : Moment τ) (h : s.Untouched s') :
    s.Untouched (s'.pollKeys f now).state := by
  have hpolled : s.Untouched (s'.polled f now) := h.withKeypad _ _
  cases s'.polls f now with
  | early due work =>
    rw [work]
    exact h
  | failed e due quit work =>
    rw [work]
    exact hpolled
  | quit due quit work =>
    rw [work]
    exact hpolled
  | refreshed due quit work =>
    have hr : s.Untouched (((s'.polled f now).postponed now.steady).refresh f).state :=
      refresh_untouched f ⟨hpolled.machine, hpolled.printed⟩
    rw [work]
    exact keeps_andThen (P := s.Untouched) hr fun _ _ hs => hs

theorem prepare_untouched (f : FrontEnd τ σ) (now : Moment τ) (s : Session τ σ) :
    s.Untouched (s.prepare f now).state :=
  keeps_andThen (P := s.Untouched) (report_untouched f now.steady s) fun _ _ hs =>
    pollKeys_untouched f now hs

theorem report_faultless (hf : f.Faultless) (now : τ) (s : Session τ σ) :
    (s.report f now).Faultless := by
  unfold report
  split
  · exact (send_faultless hf _ _).andThen fun _ _ => .succeed _ ()
  · exact .succeed s ()

theorem pollKeys_faultless (hf : f.Faultless) (now : Moment τ) (s : Session τ σ) :
    (s.pollKeys f now).Faultless := by
  cases s.polls f now with
  | early due work => exact work ▸ .succeed s false
  | failed e due quit work => exact work ▸ .refuse _ (hf.poll _ _ _ _ quit)
  | quit due quit work => exact work ▸ .succeed _ true
  | refreshed due quit work =>
    exact work ▸ (refresh_faultless hf _).andThen fun s' _ => .succeed s' false

theorem prepare_faultless (hf : f.Faultless) (now : Moment τ) (s : Session τ σ) :
    (s.prepare f now).Faultless :=
  (report_faultless hf now.steady s).andThen fun s' _ => pollKeys_faultless hf now s'

theorem keeps_prepare (hf : f.Keeps P) (now : Moment τ) (hs : P s.frontEnd) :
    P (s.prepare f now).state.frontEnd := by
  unfold prepare
  refine keeps_frontEnd_andThen ?_ fun s' _ hs' => ?_
  · unfold report
    split
    · exact keeps_frontEnd_andThen (hf.receiveAll s.frontEnd hs _) fun _ _ h => h
    · exact hs
  · have hpolled : P (s'.polled f now).frontEnd := hf.poll _ now s'.machine hs'
    cases s'.polls f now with
    | early due work => exact work ▸ hs'
    | failed e due quit work => exact work ▸ hpolled
    | quit due quit work => exact work ▸ hpolled
    | refreshed due quit work =>
      rw [work]
      exact keeps_frontEnd_andThen (keeps_refresh hf hpolled) fun _ _ h => h

theorem keeps_turn (hf : f.Keeps P) (env : Surroundings) (now : Moment τ) (hs : P s.frontEnd) :
    P (s.turn f env now).state.frontEnd := by
  rw [turn_eq]
  refine keeps_frontEnd_andThen (keeps_prepare hf now hs) fun s' quit hs' => ?_
  cases quit with
  | true => exact hs'
  | false =>
    rw [if_neg Bool.false_ne_true]
    exact keeps_frontEnd_andThen (keeps_advance hf env hs') fun _ _ h => h

end Session

variable [Instant τ]

namespace Turn

variable {t : Turn τ σ} {s' : Session τ σ} {φ : Fault} {m : Machine}

/-- The keys are polled in this turn, and ask to quit. -/
def AsksToQuit (f : FrontEnd τ σ) (t : Turn τ σ) : Prop :=
  ∃ s, t.session.report f t.now.steady = .succeed s () ∧
    Instant.le s.nextPoll t.now.steady = true ∧
    (f.poll s.frontEnd t.now s.machine).quit = .ok true

/-- The machine is stepped in this turn and raises a fault, and this is the machine then. -/
def Faults (f : FrontEnd τ σ) (env : Surroundings) (t : Turn τ σ) (φ : Fault) (m : Machine) :
    Prop :=
  ∃ s, t.session.prepare f t.now = .succeed s false ∧
    (s.machine.step env).result = .error (.fault φ) ∧ m = (s.machine.step env).machine

/-- The line that the step of this turn prints, if there is a step and it does. -/
def trace (f : FrontEnd τ σ) (env : Surroundings) (t : Turn τ σ) : Option String :=
  match t.session.prepare f t.now with
  | ⟨s, .ok false⟩ => (s.machine.step env).trace
  | _ => none

inductive Goes (f : FrontEnd τ σ) (env : Surroundings) (t : Turn τ σ) : Prop
  | failed (s : Session τ σ) (e : Error) (prepared : t.session.prepare f t.now = .refuse s e)
      (turn : t.session.turn f env t.now = .refuse s e)
  | quit (s : Session τ σ) (prepared : t.session.prepare f t.now = .succeed s true)
      (turn : t.session.turn f env t.now = .succeed s .quit)
  | refused (s : Session τ σ) (e : Error) (prepared : t.session.prepare f t.now = .succeed s false)
      (advance : (s.advance f env).result = .error e)
      (turn : t.session.turn f env t.now = .refuse (s.advance f env).state e)
  | next (s : Session τ σ) (due : Option τ)
      (prepared : t.session.prepare f t.now = .succeed s false)
      (advance : (s.advance f env).result = .ok ())
      (turn : t.session.turn f env t.now = .succeed (s.advance f env).state (.next due))

theorem goes (f : FrontEnd τ σ) (env : Surroundings) (t : Turn τ σ) : t.Goes f env := by
  have hturn := Session.turn_eq f env t.now t.session
  cases hp : t.session.prepare f t.now with
  | mk s result =>
    rw [hp] at hturn
    cases result with
    | error e => exact .failed s e hp hturn
    | ok quit =>
      cases quit with
      | true => exact .quit s hp hturn
      | false =>
        have hrest : t.session.turn f env t.now = (s.advance f env).andThen fun s' _ =>
          .succeed s' (.next (s'.interval.map (Instant.add t.now.steady))) := hturn
        cases ha : (s.advance f env).result with
        | error e =>
          rw [andThen_of_error ha] at hrest
          exact .refused s e hp ha hrest
        | ok =>
          rw [andThen_of_ok ha] at hrest
          exact .next s _ hp ha hrest

theorem asksToQuit_iff : t.AsksToQuit f ↔ ∃ s, t.session.prepare f t.now = .succeed s true := by
  constructor
  · rintro ⟨s, hreport, hdue, hquit⟩
    refine ⟨s.polled f t.now, ?_⟩
    rw [Session.prepare, hreport, andThen_succeed]
    cases s.polls f t.now with
    | early due => cases hdue.symm.trans due
    | failed e _ quit => cases hquit.symm.trans quit
    | quit _ _ work => exact work
    | refreshed _ quit => cases hquit.symm.trans quit
  · rintro ⟨s', hs'⟩
    obtain ⟨s, ⟨⟩, hreport, hpoll⟩ := of_andThen hs'
    refine ⟨s, hreport, ?_⟩
    cases s.polls f t.now with
    | early due work => cases hpoll.symm.trans work
    | failed e due quit work => cases hpoll.symm.trans work
    | quit due quit => exact ⟨due, quit⟩
    | refreshed due quit work =>
      obtain ⟨s'', -, -, hfalse⟩ := of_andThen (work.symm.trans hpoll)
      cases hfalse

theorem turn_of_asksToQuit (h : t.AsksToQuit f) (env : Surroundings) :
    ∃ s', t.session.turn f env t.now = .succeed s' .quit := by
  obtain ⟨s, hs⟩ := asksToQuit_iff.mp h
  cases t.goes f env with
  | failed _ _ prepared | refused _ _ prepared | next _ _ prepared => cases hs.symm.trans prepared
  | quit s' _ turn => exact ⟨s', turn⟩

theorem asksToQuit_of_turn (h : t.session.turn f env t.now = .succeed s' .quit) :
    t.AsksToQuit f := by
  cases t.goes f env with
  | failed _ _ _ turn | refused _ _ _ _ turn | next _ _ _ _ turn => cases h.symm.trans turn
  | quit s prepared => exact asksToQuit_iff.mpr ⟨s, prepared⟩

theorem wellFormed_prepared (h : t.session.machine.WellFormed capacity) {s : Session τ σ}
    {quit : Bool} (hs : t.session.prepare f t.now = .succeed s quit) :
    s.machine.WellFormed capacity := by
  obtain ⟨keypad, hk⟩ := (Session.prepare_untouched f t.now t.session).machine
  rw [hs, state_succeed] at hk
  rw [hk]
  exact { h with }

theorem wellFormed_of_next {due : Option τ} (h : t.session.machine.WellFormed capacity)
    (hn : t.session.turn f env t.now = .succeed s' (.next due)) :
    s'.machine.WellFormed capacity := by
  cases t.goes f env with
  | failed _ _ _ turn | quit _ _ turn | refused _ _ _ _ turn => cases hn.symm.trans turn
  | next s _ prepared _ turn =>
    obtain rfl := congrArg Attempt.state (hn.symm.trans turn)
    rw [state_succeed, (Session.advance_keeps f env s).1]
    exact (wellFormed_prepared h prepared).step env

theorem turn_of_faults (h : t.session.machine.WellFormed capacity) (hφ : t.Faults f env φ m) :
    ∃ s', t.session.turn f env t.now = .refuse s' (.fault φ) ∧ s'.machine = m := by
  obtain ⟨s, hs, hstep, rfl⟩ := hφ
  have hadvance := Session.advance_of_fault f (wellFormed_prepared h hs) hstep
  cases t.goes f env with
  | failed _ _ prepared | quit _ prepared => cases hs.symm.trans prepared
  | refused s' e prepared advance turn =>
    obtain rfl := congrArg Attempt.state (hs.symm.trans prepared)
    obtain rfl := Except.error.inj (hadvance.symm.trans advance)
    exact ⟨_, turn, (Session.advance_keeps f env s).1⟩
  | next s' due prepared advance =>
    obtain rfl := congrArg Attempt.state (hs.symm.trans prepared)
    cases hadvance.symm.trans advance

theorem faults_of_turn (hf : f.Faultless)
    (h : t.session.turn f env t.now = .refuse s' (.fault φ)) : t.Faults f env φ s'.machine := by
  cases t.goes f env with
  | failed s e prepared turn =>
    obtain rfl := Except.error.inj (congrArg Attempt.result (h.symm.trans turn))
    have hno := Session.prepare_faultless hf t.now t.session (.fault φ)
    rw [prepared] at hno
    cases hno rfl
  | quit _ _ turn | next _ _ _ _ turn => cases h.symm.trans turn
  | refused s e prepared advance turn =>
    obtain rfl := Except.error.inj (congrArg Attempt.result (h.symm.trans turn))
    obtain rfl := congrArg Attempt.state (h.symm.trans turn)
    exact ⟨s, prepared, Session.fault_of_advance hf advance, (Session.advance_keeps f env s).1⟩

theorem printed_turn (f : FrontEnd τ σ) (env : Surroundings) (t : Turn τ σ) :
    (t.session.turn f env t.now).state.printed.toList =
      t.session.printed.toList ++ (t.trace f env).toList := by
  have hprinted := (Session.prepare_untouched f t.now t.session).printed
  have hstepped {s : Session τ σ} (hs : t.session.prepare f t.now = .succeed s false) :
      (s.advance f env).state.printed.toList =
        t.session.printed.toList ++ (t.trace f env).toList := by
    rw [hs, state_succeed] at hprinted
    rw [(Session.advance_keeps f env s).2, Session.printed_stepped, hprinted, trace, hs]
    rfl
  cases t.goes f env with
  | failed s e prepared turn =>
    rw [prepared, state_refuse] at hprinted
    rw [turn, state_refuse, hprinted, trace, prepared]
    exact (List.append_nil _).symm
  | quit s prepared turn =>
    rw [prepared, state_succeed] at hprinted
    rw [turn, state_succeed, hprinted, trace, prepared]
    exact (List.append_nil _).symm
  | refused s e prepared advance turn =>
    rw [turn, state_refuse]
    exact hstepped prepared
  | next s due prepared advance turn =>
    rw [turn, state_succeed]
    exact hstepped prepared

end Turn

namespace Session.Runs

variable {s : Session τ σ} {clock : List (Moment τ)} {turns : List (Turn τ σ)} {t : Turn τ σ}
  {ending : Attempt (Session τ σ) Unit} {φ : Fault} {m : Machine}

theorem asksToQuit (h : Runs f env s clock turns ending) (ho : ending.result = .ok ()) :
    ∃ t ∈ turns, t.AsksToQuit f := by
  induction h with
  | stopped | refused | starved => cases ho
  | @quit s s' now clock turn =>
    exact ⟨⟨s, now⟩, List.mem_singleton_self _, Turn.asksToQuit_of_turn (t := ⟨s, now⟩) turn⟩
  | next turn wait runs ih =>
    obtain ⟨t, ht, hquit⟩ := ih ho
    exact ⟨t, List.mem_cons_of_mem _ ht, hquit⟩

theorem of_asksToQuit (h : Runs f env s clock turns ending) (ht : t ∈ turns)
    (hquit : t.AsksToQuit f) : ending.result = .ok () := by
  obtain ⟨before, after, rfl⟩ := List.append_of_mem ht
  obtain ⟨clock', hsuffix⟩ := h.suffix
  obtain ⟨s', hturn⟩ := Turn.turn_of_asksToQuit hquit env
  rw [(hsuffix.of_quit hturn).2]
  rfl

theorem faults (h : Runs f env s clock turns ending) (hf : f.Faultless)
    (he : ending.result = .error (.fault φ)) :
    ∃ t ∈ turns, t.Faults f env φ ending.state.machine := by
  induction h with
  | stopped | quit | starved => cases he
  | @refused s s' now e clock turn =>
    obtain rfl := Except.error.inj he
    exact ⟨⟨s, now⟩, List.mem_singleton_self _, Turn.faults_of_turn (t := ⟨s, now⟩) hf turn⟩
  | next turn wait runs ih =>
    obtain ⟨t, ht, hφ⟩ := ih he
    exact ⟨t, List.mem_cons_of_mem _ ht, hφ⟩

theorem of_faults (h : Runs f env s clock turns ending) (hs : s.machine.WellFormed capacity)
    (ht : t ∈ turns) (hφ : t.Faults f env φ m) :
    ending.result = .error (.fault φ) ∧ ending.state.machine = m := by
  obtain ⟨before, after, rfl⟩ := List.append_of_mem ht
  have hw : t.session.machine.WellFormed capacity :=
    h.keeps (P := fun s => s.machine.WellFormed capacity) hs fun s now s' due hw hturn =>
      Turn.wellFormed_of_next (t := ⟨s, now⟩) hw hturn
  obtain ⟨clock', hsuffix⟩ := h.suffix
  obtain ⟨s', hturn, hm⟩ := Turn.turn_of_faults hw hφ
  rw [(hsuffix.of_refused hturn).2]
  exact ⟨rfl, hm⟩

theorem printed (h : Runs f env s clock turns ending) :
    ending.state.printed.toList = s.printed.toList ++ turns.filterMap (Turn.trace f env) := by
  have hlast {s s' : Session τ σ} {now : Moment τ} {result : Except Error (Ending τ)}
      (turn : s.turn f env now = ⟨s', result⟩) : s'.printed.toList =
        s.printed.toList ++ (Turn.trace f env ⟨s, now⟩).toList := by
    have hprinted := Turn.printed_turn f env ⟨s, now⟩
    rw [turn] at hprinted
    exact hprinted
  have hcons (t : Turn τ σ) (rest : List (Turn τ σ)) : (t :: rest).filterMap (Turn.trace f env) =
      (t.trace f env).toList ++ rest.filterMap (Turn.trace f env) := by
    rw [List.filterMap_cons]
    cases t.trace f env <;> rfl
  induction h with
  | stopped s => exact (List.append_nil _).symm
  | refused clock turn | quit clock turn | starved turn wait =>
    rw [hcons, List.filterMap_nil, List.append_nil]
    exact hlast turn
  | next turn wait runs ih => rw [ih, hlast turn, hcons, List.append_assoc]

theorem keeps_frontEnd {P : σ → Prop} (h : Runs f env s clock turns ending) (hf : f.Keeps P)
    (hs : P s.frontEnd) : P ending.state.frontEnd := by
  have hturn {s s' : Session τ σ} {now : Moment τ} {result : Except Error (Ending τ)}
      (turn : s.turn f env now = ⟨s', result⟩) (hs : P s.frontEnd) : P s'.frontEnd := by
    have hkept := keeps_turn hf env now hs
    rw [turn] at hkept
    exact hkept
  induction h with
  | stopped s => exact hs
  | refused clock turn | quit clock turn | starved turn wait => exact hturn turn hs
  | next turn wait runs ih => exact ih (hturn turn hs)

end Session.Runs

end ChipEight
