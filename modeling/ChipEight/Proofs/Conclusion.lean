import ChipEight.Proofs.Rigs

/-!
# How a launch ends

Once all parts of a launch are there, the keys and the screen are closed in the end, whatever
becomes of the session.  The exit code says whether the keys asked to quit or a fault was raised,
and a fault is reported, with the machine as it stood, after all was closed.
-/

namespace ChipEight.Launch

open Attempt

variable {τ σ : Type} [Instant τ] {w : World τ} {o : Options} {rom : List UInt8} {parts : Parts τ}
  {rig : Rig τ σ} {origin state : σ} {calls : σ → Calls} {turns : List (Turn τ σ)}

/-- A display system that was started: its rig with the state that has, and where the calls are
that it makes. -/
inductive Starts [Room] (w : World τ) (look : Look) :
    Renderer → (σ : Type) → Rig τ σ → σ → (σ → Calls) → Prop
  | headless : Starts w look .headless Headless (Headless.rig τ) (.new look.scale) fun _ => .none
  | terminal {screen : Terminal.Screen}
      (started : (Terminal.Screen.start w.terminal look.scale look.cursorMode).result =
        .ok screen) :
      Starts w look .terminal (Terminal.Station τ) Terminal.rig (.new screen w.characters)
        fun station => .terminal station.screen.host.calls
  | window {surface : Window.Surface}
      (started : (Window.Surface.start look.scale look.palette look.smoothing).result =
        .ok surface) :
      Starts w look .window Window.Station (Window.rig τ) (.new surface w.events)
        fun station => .window station.surface.calls

/-- The ROM is read, a display system started, and the parts are set up on it. -/
structure Prepared [Room] (w : World τ) (o : Options) (rom : List UInt8) (parts : Parts τ)
    (rig : Rig τ σ) (origin state : σ) (calls : σ → Calls) : Prop where
  starts : ∃ renderer look, settle w o = .ok (renderer, rom, look) ∧
    Starts w look renderer σ rig origin calls
  assembled : assemble rig o origin = .succeed state parts

/-- The session of a launch: the program is loaded and run, or it is too long and there are no
turns. -/
inductive Plays (rig : Rig τ σ) (w : World τ) (rom : List UInt8) (parts : Parts τ) (state : σ) :
    List (Turn τ σ) → Attempt (Session τ σ) Unit → Prop
  | loaded {turns : List (Turn τ σ)} {ending : Attempt (Session τ σ) Unit}
      (fits : (parts.machine.load rom).result = .ok ())
      (runs : Session.Runs rig.toFrontEnd ⟨w.random, parts.traced⟩
        (.start (parts.machine.load rom).state state parts.interval) w.clock turns ending) :
      Plays rig w rom parts state turns ending
  | tooLarge (large : 3584 < rom.length) :
      Plays rig w rom parts state []
        (.refuse (.start parts.machine state parts.interval) (.fault (.romTooLarge rom.length 3584)))

/-- The faults that the session raises, with the machine as it stood. -/
inductive Raised (rig : Rig τ σ) (w : World τ) (rom : List UInt8) (parts : Parts τ)
    (turns : List (Turn τ σ)) : Fault → Machine → Prop
  | load (large : 3584 < rom.length) :
      Raised rig w rom parts turns (.romTooLarge rom.length 3584) parts.machine
  | step {t : Turn τ σ} {f : Fault} {m : Machine} (mem : t ∈ turns)
      (faults : t.Faults rig.toFrontEnd ⟨w.random, parts.traced⟩ f m) :
      Raised rig w rom parts turns f m

theorem machine_of_assembled (h : assemble rig o origin = .succeed state parts) :
    ∃ toggles, parts.machine = Machine.boot toggles true 16 := by
  unfold assemble at h
  obtain ⟨_, toggles, -, h⟩ := of_andThen h
  obtain ⟨_, _, -, h⟩ := of_andThen h
  obtain ⟨_, keymap, -, h⟩ := of_andThen h
  obtain ⟨_, _, -, h⟩ := of_andThen h
  obtain ⟨_, traced, -, h⟩ := of_andThen h
  obtain ⟨_, _, -, h⟩ := of_andThen h
  obtain ⟨_, _, -, h⟩ := of_andThen h
  obtain ⟨_, _, -, h⟩ := of_andThen h
  obtain ⟨_, _, -, h⟩ := of_andThen h
  cases h
  exact ⟨toggles, rfl⟩

theorem plays (hm : parts.machine.WellFormed 16) (rig : Rig τ σ) (w : World τ)
    (rom : List UInt8) (state : σ) :
    ∃ turns, Plays rig w rom parts state turns (session rig w.random w.clock rom parts state) := by
  have hlimit : Layout.programLimit = 3584 := rfl
  by_cases hlarge : 3584 < rom.length
  · have hload := Machine.load_of_large (show Layout.programLimit < rom.length by omega)
      parts.machine
    refine ⟨[], ?_⟩
    unfold session
    rw [hload]
    exact .tooLarge hlarge
  · have hload := Machine.load_of_fits (show rom.length ≤ Layout.programLimit by omega)
      hm.size_memory
    obtain ⟨turns, hruns⟩ := Session.runs rig.toFrontEnd ⟨w.random, parts.traced⟩
      (.start (parts.machine.load rom).state state parts.interval) w.clock
    have hsession : session rig w.random w.clock rom parts state =
        (Session.start (parts.machine.load rom).state state parts.interval).run rig.toFrontEnd
          ⟨w.random, parts.traced⟩ w.clock := by
      unfold session
      rw [hload]
      rfl
    rw [hsession]
    exact ⟨turns, .loaded (by rw [hload]; rfl) hruns⟩

namespace Plays

variable {played : Attempt (Session τ σ) Unit} {f : Fault} {m : Machine}

theorem quit_iff (h : Plays rig w rom parts state turns played) :
    played.result = .ok () ↔ ∃ t ∈ turns, t.AsksToQuit rig.toFrontEnd := by
  cases h with
  | loaded fits runs =>
    constructor
    · exact runs.asksToQuit
    · rintro ⟨t, ht, hquit⟩
      exact runs.of_asksToQuit ht hquit
  | tooLarge large => simp [Attempt.refuse]

theorem raised (h : Plays rig w rom parts state turns played) (hf : rig.toFrontEnd.Faultless)
    (he : played.result = .error (.fault f)) :
    Raised rig w rom parts turns f played.state.machine := by
  cases h with
  | loaded fits runs =>
    obtain ⟨t, ht, hfaults⟩ := runs.faults hf he
    exact .step ht hfaults
  | tooLarge large =>
    cases he
    exact .load large

theorem of_raised (h : Plays rig w rom parts state turns played)
    (hm : parts.machine.WellFormed 16) (hr : Raised rig w rom parts turns f m) :
    played.result = .error (.fault f) ∧ played.state.machine = m := by
  have hlimit : Layout.programLimit = 3584 := rfl
  cases h with
  | loaded fits runs =>
    cases hr with
    | load large =>
      rw [Machine.load_of_large (by omega)] at fits
      cases fits
    | step mem faults => exact runs.of_faults (hm.load rom) mem faults
  | tooLarge large =>
    cases hr with
    | load => exact ⟨rfl, rfl⟩
    | step mem => cases mem

theorem printed (h : Plays rig w rom parts state turns played) :
    played.state.printed.toList =
      turns.filterMap (Turn.trace rig.toFrontEnd ⟨w.random, parts.traced⟩) := by
  cases h with
  | loaded fits runs => exact runs.printed
  | tooLarge large => rfl

end Plays

theorem faultless_of_starts [Room] {look : Look} {renderer : Renderer}
    (h : Starts w look renderer σ rig origin calls) : rig.toFrontEnd.Faultless := by
  cases h with
  | headless => exact Headless.faultless τ
  | terminal => exact Terminal.faultless τ
  | window => exact Window.faultless τ

theorem play_of_assembled (h : assemble rig o origin = .succeed state parts)
    (random : Nat → Int) (clock : List (Moment τ)) (rom : List UInt8) :
    play rig random clock o rom origin =
      let played := session rig random clock rom parts state
      let closed := rig.close played.state.frontEnd
      (closed.state, match closed.result with
        | .ok () => finish played.state.printed played.state.machine played.result
        | .error e => ⟨.error e, played.state.printed⟩) := by
  unfold play
  rw [h]
  rfl

def plainOptions (renderer keymap : String) : Options :=
  { renderer := some (some (.value renderer)), filename := some "rom", scale := some none
    palette := some none, cursorMode := some (.value 0), smoothing := some (.value 0)
    toggles := some false, keymap := some (.value keymap), traced := some false
    speed := some none }

/-- A terminal at which nothing is typed, and one second on the clock. -/
def quietWorld (rom : List UInt8) : World Rat :=
  { hasWindow := false, hasTerminal := true, files := fun _ => some rom, clock := [⟨1, 1⟩]
    random := fun _ => 0, terminal := ⟨[], none, true, #[]⟩, characters := [], events := [] }

/-- What is left of a launch whose parts are there and whose session went so. -/
structure Concludes [Room] (w : World τ) (o : Options) (rom : List UInt8) (parts : Parts τ)
    (rig : Rig τ σ) (origin : σ) (calls : σ → Calls) (turns : List (Turn τ σ))
    (played : Attempt (Session τ σ) Unit) : Prop where
  /-- The keys are closed and then the screen, after all else that the launch does on them. -/
  closed : ∃ keys screen, rig.releaseKeys played.state.frontEnd = .succeed keys () ∧
    rig.releaseScreen keys = .succeed screen () ∧ (run w o).1 = calls screen
  /-- Whatever it means to close them, that is done once. -/
  once : ∀ keys screen : σ → σ,
    (play { rig with
        releaseKeys := fun s => .succeed (keys s) ()
        releaseScreen := fun s => .succeed (screen s) () } w.random w.clock o rom origin).1 =
      screen (keys played.state.frontEnd)
  quit : (run w o).2.result = .ok 0 ↔ ∃ t ∈ turns, t.AsksToQuit rig.toFrontEnd
  halted : (run w o).2.result = .ok 1 ↔ ∃ f m, Raised rig w rom parts turns f m
  propagated : ∀ e, (run w o).2.result = .error e ↔
    played.result = .error e ∧ e.isFault = false
  /-- One report, with the whole dump of the machine and the message of the fault. -/
  reported : ∀ f m, Raised rig w rom parts turns f m →
    (run w o).2.printed = #[greeting] ++ played.state.printed.push
      ("Emulation halted.\n\n" ++ Banner.intro ++ "Debug info:\n" ++ m.dump "???" ++ "\n\n" ++
        f.message)
  unreported : (∀ f m, ¬ Raised rig w rom parts turns f m) →
    (run w o).2.printed = #[greeting] ++ played.state.printed
  traced : played.state.printed.toList =
    turns.filterMap (Turn.trace rig.toFrontEnd ⟨w.random, parts.traced⟩)
  /-- As long as the screen is not closed, nothing is reported. -/
  late : ∀ (e : Error) (release : σ → Attempt σ Unit), (∀ s, (release s).result = .error e) →
    (play { rig with releaseScreen := release } w.random w.clock o rom origin).2 =
      ⟨.error e, played.state.printed⟩

theorem run_of_prepared [Room] (h : Prepared w o rom parts rig origin state calls) :
    let played := session rig w.random w.clock rom parts state
    ∃ keys screen, rig.releaseKeys played.state.frontEnd = .succeed keys () ∧
      rig.releaseScreen keys = .succeed screen () ∧
      (run w o).1 = calls screen ∧
      (run w o).2.result = (finish played.state.printed played.state.machine played.result).result ∧
      (run w o).2.printed =
        #[greeting] ++ (finish played.state.printed played.state.machine played.result).printed := by
  intro played
  obtain ⟨renderer, look, hsettled, hstarts⟩ := h.starts
  have hplay := play_of_assembled h.assembled w.random w.clock rom
  cases hstarts with
  | headless =>
    refine ⟨_, _, rfl, rfl, ?_⟩
    simp only [run, hsettled, playHeadless, hplay]
    exact ⟨trivial, rfl, rfl⟩
  | terminal started =>
    refine ⟨_, _, rfl, rfl, ?_⟩
    simp only [run, hsettled, playTerminal, started, hplay]
    exact ⟨rfl, rfl, rfl⟩
  | window started =>
    refine ⟨_, _, rfl, rfl, ?_⟩
    simp only [run, hsettled, playWindow, started, hplay]
    exact ⟨rfl, rfl, rfl⟩

section

variable (printed : Array String) (m : Machine) (result : Except Error Unit)

theorem finish_quit_iff : (finish printed m result).result = .ok 0 ↔ result = .ok () := by
  cases result with
  | ok => simp [finish]
  | error e => cases e <;> simp [finish]

theorem finish_halted_iff :
    (finish printed m result).result = .ok 1 ↔ ∃ f, result = .error (.fault f) := by
  cases result with
  | ok => simp [finish]
  | error e => cases e <;> simp [finish]

theorem finish_error_iff (e : Error) :
    (finish printed m result).result = .error e ↔ result = .error e ∧ e.isFault = false := by
  cases result with
  | ok => simp [finish]
  | error e' =>
    cases e' with
    | fault f =>
      constructor
      · nofun
      · rintro ⟨⟨⟩, ⟨⟩⟩
    | _ =>
      constructor
      · rintro ⟨⟩
        exact ⟨rfl, rfl⟩
      · rintro ⟨⟨⟩, -⟩
        rfl

theorem finish_of_no_fault (h : ∀ f, result ≠ .error (.fault f)) :
    (finish printed m result).printed = printed := by
  cases result with
  | ok => rfl
  | error e =>
    cases e with
    | fault f => exact absurd rfl (h f)
    | _ => rfl

end

/-- How a launch ends, for every program and everything that comes from outside. -/
theorem run_concludes [Room] (h : Prepared w o rom parts rig origin state calls) :
    let played := session rig w.random w.clock rom parts state
    ∃ turns, Plays rig w rom parts state turns played ∧
      Concludes w o rom parts rig origin calls turns played := by
  intro played
  obtain ⟨toggles, hboot⟩ := machine_of_assembled h.assembled
  have hm : parts.machine.WellFormed 16 := hboot ▸ .boot toggles true 16
  obtain ⟨renderer, look, hsettled, hstarts⟩ := h.starts
  have hf := faultless_of_starts hstarts
  obtain ⟨turns, hplays⟩ := plays hm rig w rom state
  obtain ⟨keys, screen, hkeys, hscreen, hcalls, hresult, hprinted⟩ := run_of_prepared h
  refine ⟨turns, hplays, {
    closed := ⟨keys, screen, hkeys, hscreen, hcalls⟩
    once := ?_
    quit := ?_
    halted := ?_
    propagated := ?_
    reported := ?_
    unreported := ?_
    traced := hplays.printed
    late := ?_ }⟩
  · intro keys screen
    have hassembled : assemble { rig with
        releaseKeys := fun s => .succeed (keys s) ()
        releaseScreen := fun s => .succeed (screen s) () } o origin = .succeed state parts :=
      h.assembled
    rw [play_of_assembled hassembled]
    rfl
  · rw [hresult, finish_quit_iff]
    exact hplays.quit_iff
  · rw [hresult, finish_halted_iff]
    constructor
    · rintro ⟨f, he⟩
      exact ⟨f, _, hplays.raised hf he⟩
    · rintro ⟨f, m, hr⟩
      exact ⟨f, (hplays.of_raised hm hr).1⟩
  · intro e
    rw [hresult, finish_error_iff]
  · intro f m hr
    obtain ⟨he, hmachine⟩ := hplays.of_raised hm hr
    rw [hprinted, he, hmachine]
    rfl
  · intro hno
    rw [hprinted, finish_of_no_fault]
    exact fun f he => hno f _ (hplays.raised hf he)
  · intro e release hrelease
    have hassembled : assemble { rig with releaseScreen := release } o origin =
        .succeed state parts := h.assembled
    have hclosed : (Rig.close { rig with releaseScreen := release } played.state.frontEnd).result =
        .error e := by
      change ((rig.releaseKeys played.state.frontEnd).andThen fun s _ => release s).result = _
      rw [hkeys]
      exact hrelease keys
    rw [play_of_assembled hassembled]
    change (match (Rig.close _ played.state.frontEnd).result with | .ok () => _ | .error e => _) = _
    rw [hclosed]
    rfl

def unknownReport : String :=
  "Emulation halted.\n\nPyChip8 Interpreter V1.0.0 -- Debug info:\n" ++
  "V: 0x00000000000000000000000000000000 I: 0x0000 DT: 0x00 ST: 0x00 PC: 0x200 OP: 0xffff IN: ???\n" ++
  "Stack: (Empty)\nState: running\n\nOpcode 0xffff is not a CHIP-8 instruction"

/-- The first word of the program is no instruction. -/
theorem run_concludes_unknown :
    letI := Room.standard
    let w := quietWorld [0xFF, 0xFF]
    let o := plainOptions "null" Keymap.standard
    let rig := Headless.rig Rat
    ∃ parts state turns f m,
      Prepared w o [0xFF, 0xFF] parts rig (.new none) state (fun _ => .none) ∧
      (run w o).2.result = .ok 1 ∧ Raised rig w [0xFF, 0xFF] parts turns f m ∧
      (run w o).2.printed = #[greeting, "Emulation halted.\n\n" ++ Banner.intro ++ "Debug info:\n" ++
        m.dump "???" ++ "\n\n" ++ f.message] ∧
      (run w o).2.printed[1]? = some unknownReport := by
  let : Room := .standard
  intro w o rig
  have hsettled : settle w o = .ok (.headless, [0xFF, 0xFF], ⟨none, none, .value 0, .value 0⟩) :=
    rfl
  have hrun : (assemble rig o (.new none)).result.toOption.isSome = true ∧
      (run w o).2.result = .ok 1 ∧ (run w o).2.printed.size = 2 ∧
      (run w o).2.printed[1]? = some unknownReport := by
    decide +kernel
  obtain ⟨hassembled, hhalted, hsize, htext⟩ := hrun
  obtain ⟨parts, hparts⟩ := exists_eq_ok hassembled
  let state := (assemble rig o (.new none)).state
  have h : Prepared w o [0xFF, 0xFF] parts rig (.new none) state (fun _ => .none) :=
    ⟨⟨_, _, hsettled, .headless⟩, eq_succeed hparts⟩
  obtain ⟨turns, -, hend⟩ := run_concludes h
  obtain ⟨f, m, hraised⟩ := hend.halted.mp hhalted
  have hprinted := hend.reported f m hraised
  rw [hprinted, Array.size_append, Array.size_push] at hsize
  have hlines := Array.eq_empty_of_size_eq_zero (Nat.add_right_cancel (Nat.add_left_cancel hsize))
  rw [hlines] at hprinted
  exact ⟨parts, state, turns, f, m, h, hhalted, hraised, hprinted, htext⟩

end ChipEight.Launch
