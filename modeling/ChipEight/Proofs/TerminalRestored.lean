import ChipEight.Proofs.Conclusion
import ChipEight.Proofs.TerminalSetUp

/-!
# Giving the terminal back

A launch takes the terminal over before its parts are set up, and gives it back after its session.
The calls it makes are therefore complete if all parts could be set up, whatever the session comes
to.  If one of them is refused, the terminal stays as it is.
-/

namespace ChipEight

open Attempt

namespace Terminal

/-- Takes a terminal over that can change its cursor. -/
def taken (mode : Setting Int) : List Call :=
  [.start, .cursor mode true, .echo false, .unbuffered true]

theorem Host.toList_setCursor (h : Host) (mode : Setting Int) :
    (h.setCursor mode).2.calls.toList = h.calls.toList ++ [.cursor mode (h.setCursor mode).1] := by
  unfold setCursor
  split <;> exact toList_call h _

theorem Host.setCursor_eq_true_iff (h : Host) (mode : Setting Int) :
    (h.setCursor mode).1 = true ↔ h.cursorChanges ≠ some 0 := by
  unfold setCursor
  split
  all_goals
    rename_i hchanges
    simp [hchanges]

namespace Screen

def bare (host : Host) (n : Int) (mode : Setting Int) : Screen :=
  { host := host, scale := n, cursorMode := mode, pad := Pad.new 0 0, title := ""
    width := 0, height := 0, pending := false, lastSize := (-1, -1) }

variable {scale : Option (Setting Int)} {n : Int}

section Room

variable [Room]

theorem result_setResolution_empty (s : Screen) : (s.setResolution 0 0).result = .ok () := by
  have hroom : Room.check (0 * s.scale + 1) = .ok () :=
    Room.check_of_le_ample (by omega) (by omega)
  have hopened : (s.setResolution 0 0).Succeeds :=
    succeeds_andThen_iff.mpr ⟨(), hroom, succeeds_succeed _ ()⟩
  obtain ⟨⟨⟩, hresult⟩ := hopened
  exact hresult

theorem scale_setResolution (s : Screen) (width height : Int) :
    (s.setResolution width height).state.scale = s.scale :=
  keeps_andThen (P := fun s' : Screen => s'.scale = s.scale) rfl fun _ _ hs => hs

theorem start_of_room (host : Host) (mode : Setting Int)
    (hn : (scale.getD (.value standardScale)).number = .ok n)
    (hr : Room.check n = .ok ()) : start host scale mode =
      let asked := (host.call .start).setCursor mode
      if asked.1 then
        let opened := ((bare ((asked.2.call (.echo false)).call (.unbuffered true)) n
          mode).setResolution 0 0).state
        .succeed opened.host opened
      else .refuse asked.2 .terminal := by
  unfold start
  rw [hn, ofExcept_ok, andThen_succeed, hr, ofExcept_ok, andThen_succeed]
  generalize (host.call .start).setCursor mode = asked
  obtain ⟨accepted, host'⟩ := asked
  cases accepted with
  | false => rfl
  | true =>
    change (⟨_, Except.map _ ((bare _ n mode).setResolution 0 0).result⟩ : Attempt Host Screen) = _
    rw [result_setResolution_empty]
    rfl

/-- How a terminal is taken over. -/
inductive Opens (host : Host) (scale : Option (Setting Int)) (mode : Setting Int) : Prop
  | untouched (e : Error) (start : start host scale mode = .refuse host e)
      (unmet : ∀ n, (scale.getD (.value standardScale)).number = .ok n → Room.check n ≠ .ok ())
  | refused (host' : Host) (e : Error) (start : start host scale mode = .refuse host' e)
      (cursor : host.cursorChanges = some 0)
      (calls : host'.calls.toList = host.calls.toList ++ [.start, .cursor mode false])
  | opened (n : Int) (screen : Screen) (start : start host scale mode = .succeed screen.host screen)
      (cursor : host.cursorChanges ≠ some 0)
      (number : (scale.getD (.value standardScale)).number = .ok n) (width : screen.scale = n)
      (drew : screen.host.Drew (host.calls.toList ++ taken mode))

theorem opens_of_room (host : Host) (mode : Setting Int)
    (hn : (scale.getD (.value standardScale)).number = .ok n) (hr : Room.check n = .ok ()) :
    Opens host scale mode := by
  have hstart := start_of_room host mode hn hr
  have hcalls := (host.call .start).toList_setCursor mode
  have haccepted : _ ↔ host.cursorChanges ≠ some 0 := (host.call .start).setCursor_eq_true_iff mode
  generalize (host.call .start).setCursor mode = asked at hstart hcalls haccepted
  obtain ⟨accepted, host'⟩ := asked
  rw [Host.toList_call, List.append_assoc] at hcalls
  cases accepted with
  | false => exact .refused host' .terminal hstart (by simpa using haccepted) hcalls
  | true =>
    have hdrew : ((host'.call (.echo false)).call (.unbuffered true)).Drew
        (host.calls.toList ++ taken mode) := by
      refine ⟨[], ?_, nofun⟩
      rw [Host.toList_call, Host.toList_call, hcalls, List.append_nil, List.append_assoc,
        List.append_assoc]
      rfl
    exact .opened n _ hstart (haccepted.mp rfl) hn (scale_setResolution _ 0 0)
      (setResolution_drew hdrew 0 0)

theorem opens (host : Host) (scale : Option (Setting Int)) (mode : Setting Int) :
    Opens host scale mode := by
  cases hn : (scale.getD (.value standardScale)).number with
  | error e =>
    refine .untouched e ?_ fun n hn' => nomatch hn.symm.trans hn'
    unfold start
    rw [hn]
    rfl
  | ok n =>
    cases hr : Room.check n with
    | error e =>
      refine .untouched e ?_ fun n' hn' => ?_
      · unfold start
        rw [hn, ofExcept_ok, andThen_succeed, hr]
        rfl
      · obtain rfl := Except.ok.inj (hn.symm.trans hn')
        rw [hr]
        nofun
    | ok => exact opens_of_room host mode hn hr

end Room

theorem toList_stop (s : Screen) : ∃ cursor, s.stop.host.calls.toList =
    s.host.calls.toList ++ ([.unbuffered false, .echo true] ++ cursor ++ [.stop]) ∧
      .start ∉ cursor := by
  let released := (s.call (.unbuffered false)).call (.echo true)
  have hreleased : released.host.calls.toList =
      s.host.calls.toList ++ [.unbuffered false, .echo true] := by
    change ((s.host.call _).call _).calls.toList = _
    rw [Host.toList_call, Host.toList_call, List.append_assoc]
    rfl
  by_cases hcursor : s.cursorMode = plainCursor
  · have hstop : s.stop = released.call .stop := if_pos hcursor
    refine ⟨[], ?_, nofun⟩
    rw [hstop]
    change (released.host.call _).calls.toList = _
    rw [Host.toList_call, hreleased, List.append_assoc, List.append_nil]
  · have hstop : s.stop = Screen.call
        { released with host := (released.host.setCursor plainCursor).2 } .stop := if_neg hcursor
    refine ⟨[.cursor plainCursor (released.host.setCursor plainCursor).1], ?_, by simp⟩
    rw [hstop]
    change ((released.host.setCursor plainCursor).2.call _).calls.toList = _
    rw [Host.toList_call, Host.toList_setCursor, hreleased]
    simp only [List.append_assoc]

end Screen

end Terminal

namespace Launch

variable {τ σ : Type} {w : World τ} {o : Options} {rom : List UInt8} {look : Look}
  {rig : Rig τ σ} {state : σ} {P : σ → Prop}

theorem scale_of_settled {renderer : Renderer}
    (h : settle w o = .ok (renderer, rom, look)) : o.scale = some look.scale := by
  unfold settle at h
  obtain ⟨name, -, h⟩ := of_bind_eq_ok h
  obtain ⟨renderer', -, h⟩ := of_bind_eq_ok h
  obtain ⟨rom', -, h⟩ := of_bind_eq_ok h
  split at h
  · cases h
  · obtain ⟨look', hlook, h⟩ := of_bind_eq_ok h
    cases h
    obtain ⟨scale, hscale, hlook⟩ := of_bind_eq_ok hlook
    obtain ⟨palette, -, hlook⟩ := of_bind_eq_ok hlook
    obtain ⟨mode, -, hlook⟩ := of_bind_eq_ok hlook
    obtain ⟨smoothing, -, hlook⟩ := of_bind_eq_ok hlook
    cases hlook
    exact require_eq_ok_iff.mp hscale

variable [Instant τ]

theorem keeps_assemble (hf : rig.toFrontEnd.Keeps P)
    (ha : ∀ s text, P s → P (rig.attach s text).state) (o : Options) (h : P state) :
    P (assemble rig o state).state := by
  unfold assemble
  refine keeps_andThen (P := P) h fun s toggles hs => ?_
  refine keeps_andThen (P := P) (hf.receiveAll s hs _) fun s _ hs => ?_
  refine keeps_andThen (P := P) hs fun s text hs => ?_
  refine keeps_andThen (P := P) (ha s text hs) fun s _ hs => ?_
  refine keeps_andThen (P := P) hs fun s traced hs => ?_
  refine keeps_andThen (P := P) (hf.receiveAll s hs _) fun s _ hs => ?_
  refine keeps_andThen (P := P) hs fun s given hs => ?_
  refine keeps_andThen (P := P) hs fun s speed hs => ?_
  exact keeps_andThen (P := P) hs fun s interval hs => hs

theorem keeps_session (hf : rig.toFrontEnd.Keeps P) (random : Nat → Int) (clock : List (Moment τ))
    (rom : List UInt8) (parts : Parts τ) (h : P state) :
    P (session rig random clock rom parts state).state.frontEnd := by
  unfold session
  refine Session.keeps_frontEnd_andThen h fun s _ hs => ?_
  obtain ⟨turns, hruns⟩ := Session.runs rig.toFrontEnd ⟨random, parts.traced⟩ s clock
  exact hruns.keeps_frontEnd hf hs

/-- The terminal is given back: since it was last taken over, it was told to pass on whole lines
and to echo what is typed, and was let go. -/
def Restored (calls : List Terminal.Call) : Prop :=
  ∃ before after, calls = before ++ .start :: after ∧ .start ∉ after ∧
    .unbuffered false ∈ after ∧ .echo true ∈ after ∧ .stop ∈ after

theorem Restored.stop_mem {calls : List Terminal.Call} (h : Restored calls) : .stop ∈ calls := by
  obtain ⟨before, after, rfl, -, -, -, hstop⟩ := h
  exact List.mem_append_right before (List.mem_cons_of_mem _ hstop)

section Room

variable [Room]

def terminalCalls (w : World τ) (o : Options) : List Terminal.Call :=
  match (run w o).1 with
  | .terminal calls => calls.toList.drop w.terminal.calls.size
  | .none | .window _ => []

/-- The terminal can change its cursor, and the parts of a launch can be set up on it. -/
structure Sound (w : World τ) (o : Options) : Prop where
  cursor : w.terminal.cursorChanges ≠ some 0
  serves : ∃ scale n, o.scale = some scale ∧
    (scale.getD (.value Terminal.Screen.standardScale)).number = .ok n ∧
    Terminal.Serves τ o n w.characters

/-- What a launch does on its terminal. -/
inductive OnTerminal (w : World τ) (o : Options) : Prop
  | untouched (calls : terminalCalls w o = [])
      (unmet : ∀ rom look n, settle w o = .ok (.terminal, rom, look) →
        (look.scale.getD (.value Terminal.Screen.standardScale)).number = .ok n →
        Room.check n ≠ .ok ())
  | refused (e : Error) (mode : Setting Int) (unsound : ¬ Sound w o)
      (result : (run w o).2.result = .error e)
      (calls : terminalCalls w o = [.start, .cursor mode false])
  | abandoned (e : Error) (mode : Setting Int) (drawn : List Terminal.Call) (unsound : ¬ Sound w o)
      (result : (run w o).2.result = .error e) (draws : ∀ c ∈ drawn, c.Draws)
      (calls : terminalCalls w o = Terminal.taken mode ++ drawn)
  | restored (mode : Setting Int) (drawn cursor : List Terminal.Call) (sound : Sound w o)
      (draws : ∀ c ∈ drawn, c.Draws) (quiet : .start ∉ cursor)
      (calls : terminalCalls w o = Terminal.taken mode ++ drawn ++
        ([.unbuffered false, .echo true] ++ cursor ++ [.stop]))

theorem terminalCalls_eq {calls : Array Terminal.Call} {added : List Terminal.Call}
    (h : (run w o).1 = .terminal calls) (hc : calls.toList = w.terminal.calls.toList ++ added) :
    terminalCalls w o = added := by
  unfold terminalCalls
  rw [h]
  change calls.toList.drop _ = _
  rw [hc, ← Array.length_toList, List.drop_left]

theorem sound_iff {n : Int} (hs : o.scale = some look.scale)
    (hn : (look.scale.getD (.value Terminal.Screen.standardScale)).number = .ok n)
    (hc : w.terminal.cursorChanges ≠ some 0) :
    Sound w o ↔ Terminal.Serves τ o n w.characters := by
  constructor
  · rintro ⟨-, scale, n', hscale, hn', hserves⟩
    obtain rfl := Option.some.inj (hs.symm.trans hscale)
    obtain rfl := Except.ok.inj (hn.symm.trans hn')
    exact hserves
  · intro hserves
    exact ⟨hc, look.scale, n, hs, hn, hserves⟩

/-- Once its parts are there, a launch closes what it opened, whatever the session comes to. -/
theorem toList_play_of_serves {before : List Terminal.Call} {screen : Terminal.Screen}
    (hd : screen.host.Drew before) (hs : Terminal.Serves τ o screen.scale w.characters)
    (rom : List UInt8) :
    ∃ drawn cursor, (play Terminal.rig w.random w.clock o rom
      (.new screen w.characters)).1.screen.host.calls.toList = before ++ drawn ++
        ([.unbuffered false, .echo true] ++ cursor ++ [.stop]) ∧
      (∀ c ∈ drawn, c.Draws) ∧ .start ∉ cursor := by
  have hkeeps := Terminal.keeps_drew τ before
  obtain ⟨parts, hparts⟩ :=
    (Terminal.succeeds_assemble_iff o (.new screen w.characters)).mpr hs
  have hassembled := eq_succeed hparts
  have hstation : (Terminal.Station.new (τ := τ) screen w.characters).screen.host.Drew before := hd
  have hready := keeps_assemble hkeeps Terminal.attach_drew o hstation
  obtain ⟨drawn, hdrawn, hdraws⟩ := keeps_session hkeeps w.random w.clock rom parts hready
  obtain ⟨cursor, hstop, hquiet⟩ := Terminal.Screen.toList_stop
    (session Terminal.rig w.random w.clock rom parts
      (assemble Terminal.rig o (.new screen w.characters)).state).state.frontEnd.screen
  refine ⟨drawn, cursor, ?_, hdraws, hquiet⟩
  rw [play_of_assembled hassembled, ← hdrawn]
  exact hstop

theorem play_of_not_serves {before : List Terminal.Call} {screen : Terminal.Screen}
    (hd : screen.host.Drew before) (hs : ¬ Terminal.Serves τ o screen.scale w.characters)
    (rom : List UInt8) : ∃ e station, station.screen.host.Drew before ∧
      play Terminal.rig w.random w.clock o rom (.new screen w.characters) =
        (station, ⟨.error e, #[]⟩) := by
  obtain ⟨e, he⟩ := eq_refuse_of_not_succeeds fun h =>
    hs ((Terminal.succeeds_assemble_iff o (.new screen w.characters)).mp h)
  have hstation : (Terminal.Station.new (τ := τ) screen w.characters).screen.host.Drew before := hd
  have hready := keeps_assemble (Terminal.keeps_drew τ before) Terminal.attach_drew o hstation
  refine ⟨e, _, hready, ?_⟩
  unfold play
  rw [he]
  rfl

theorem onTerminal_of_settled (hs : settle w o = .ok (.terminal, rom, look)) :
    OnTerminal w o := by
  have hcalls : (run w o).1 = (playTerminal w o rom look).1 := by simp only [run, hs]
  have hresult : (run w o).2.result = (playTerminal w o rom look).2.result := by
    simp only [run, hs]
  unfold playTerminal at hcalls hresult
  cases Terminal.Screen.opens w.terminal look.scale look.cursorMode with
  | untouched e start unmet =>
    rw [start] at hcalls
    refine .untouched (terminalCalls_eq hcalls (List.append_nil _).symm) fun rom' look' n hs' => ?_
    obtain ⟨-, rfl⟩ := Prod.mk.inj (Prod.mk.inj (Except.ok.inj (hs.symm.trans hs'))).2
    exact unmet n
  | refused host e start cursor calls =>
    rw [start] at hcalls hresult
    exact .refused e look.cursorMode (fun h => h.cursor cursor) hresult
      (terminalCalls_eq hcalls calls)
  | opened n screen start cursor number width drew =>
    subst width
    rw [start] at hcalls hresult
    have hplayed : (run w o).1 = .terminal (play Terminal.rig w.random w.clock o rom
      (.new screen w.characters)).1.screen.host.calls := hcalls
    have hsound := sound_iff (w := w) (scale_of_settled hs) number cursor
    by_cases hserves : Terminal.Serves τ o screen.scale w.characters
    · obtain ⟨drawn, closing, hstopped, hdraws, hquiet⟩ := toList_play_of_serves drew hserves rom
      refine .restored look.cursorMode drawn closing (hsound.mpr hserves) hdraws hquiet
        (terminalCalls_eq hplayed ?_)
      rw [hstopped]
      simp only [List.append_assoc]
    · obtain ⟨e, station, ⟨drawn, hdrawn, hdraws⟩, hplay⟩ := play_of_not_serves drew hserves rom
      refine .abandoned e look.cursorMode drawn (fun h => hserves (hsound.mp h)) ?_ hdraws
        (terminalCalls_eq hplayed ?_)
      · rw [hresult]
        change (play Terminal.rig w.random w.clock o rom (.new screen w.characters)).2.result = _
        rw [hplay]
      · rw [hplay]
        change station.screen.host.calls.toList = _
        rw [hdrawn, List.append_assoc]

theorem exists_window_calls (w : World τ) (o : Options) (rom : List UInt8) (look : Look) :
    ∃ calls, (playWindow w o rom look).1 = .window calls := by
  unfold playWindow
  simp only
  split
  · exact ⟨_, rfl⟩
  · exact ⟨_, rfl⟩

theorem onTerminal (w : World τ) (o : Options) : OnTerminal w o := by
  cases hs : settle w o with
  | error e =>
    refine .untouched ?_ fun rom look n h => by cases hs.symm.trans h
    simp only [terminalCalls, run, hs]
  | ok found =>
    obtain ⟨renderer, rom, look⟩ := found
    cases renderer with
    | terminal => exact onTerminal_of_settled hs
    | headless | unknown =>
      refine .untouched ?_ fun rom look n h => by cases hs.symm.trans h
      simp only [terminalCalls, run, hs, playHeadless]
    | window =>
      refine .untouched ?_ fun rom look n h => by cases hs.symm.trans h
      obtain ⟨calls, hcalls⟩ := exists_window_calls w o rom look
      simp only [terminalCalls, run, hs, hcalls]

theorem start_mem {n : Int} (hs : settle w o = .ok (.terminal, rom, look))
    (hn : (look.scale.getD (.value Terminal.Screen.standardScale)).number = .ok n)
    (hr : Room.check n = .ok ()) : .start ∈ terminalCalls w o := by
  cases onTerminal w o with
  | untouched _ unmet => exact absurd hr (unmet rom look n hs hn)
  | refused e mode _ _ calls =>
    rw [calls]
    exact List.mem_cons_self ..
  | abandoned e mode drawn _ _ _ calls =>
    rw [calls]
    exact List.mem_cons_self ..
  | restored mode drawn cursor _ _ _ calls =>
    rw [calls]
    exact List.mem_cons_self ..

theorem not_restored_of_unsound (h : ¬ Sound w o) : ¬ Restored (terminalCalls w o) := by
  intro hr
  have hstop := hr.stop_mem
  cases onTerminal w o with
  | untouched calls =>
    rw [calls] at hstop
    cases hstop
  | refused e mode _ _ calls =>
    rw [calls] at hstop
    simp at hstop
  | abandoned e mode drawn _ _ draws calls =>
    rw [calls] at hstop
    obtain hstop | hstop := List.mem_append.mp hstop
    · simp [Terminal.taken] at hstop
    · exact draws _ hstop
  | restored _ _ _ sound => exact h sound

theorem restored_of_sound (h : Sound w o) (hstart : .start ∈ terminalCalls w o) :
    Restored (terminalCalls w o) := by
  cases onTerminal w o with
  | untouched calls =>
    rw [calls] at hstart
    cases hstart
  | refused _ _ unsound => exact absurd h unsound
  | abandoned _ _ _ unsound => exact absurd h unsound
  | restored mode drawn cursor _ draws quiet calls =>
    have hdrawn : .start ∉ drawn := fun hmem => draws _ hmem
    let after : List Terminal.Call := [.cursor mode true, .echo false, .unbuffered true] ++ drawn ++
      ([.unbuffered false, .echo true] ++ cursor ++ [.stop])
    refine ⟨[], after, calls, ?_, ?_, ?_, ?_⟩
    · simp [after, hdrawn, quiet]
    · simp [after]
    · simp [after]
    · simp [after]

theorem error_of_unsound (h : ¬ Sound w o) (hstart : .start ∈ terminalCalls w o) :
    ∃ e, (run w o).2.result = .error e := by
  cases onTerminal w o with
  | untouched calls =>
    rw [calls] at hstart
    cases hstart
  | refused e _ _ result | abandoned e _ _ _ result => exact ⟨e, result⟩
  | restored _ _ _ sound => exact absurd sound h

/-- A launch that takes the terminal over gives it back if all of its parts can be set up, and
otherwise not.  What the program does makes no difference. -/
theorem restored_iff_sound (h : .start ∈ terminalCalls w o) :
    (Restored (terminalCalls w o) ↔ Sound w o) ∧
      (¬ Restored (terminalCalls w o) → ∃ e, (run w o).2.result = .error e) := by
  have hiff : Restored (terminalCalls w o) ↔ Sound w o := by
    constructor
    · intro hr
      by_contra hunsound
      exact not_restored_of_unsound hunsound hr
    · exact fun hsound => restored_of_sound hsound h
  refine ⟨hiff, fun hno => error_of_unsound (fun hsound => hno (hiff.mpr hsound)) h⟩

end Room

/-- The standard keymap, and nothing typed. -/
theorem restored_iff_sound_standard :
    letI := Room.standard
    let w := quietWorld [0xFF, 0xFF]
    let o := plainOptions "curses" Keymap.standard
    .start ∈ terminalCalls w o ∧ Sound w o ∧ Restored (terminalCalls w o) := by
  let : Room := .standard
  intro w o
  have hsettled : settle w o = .ok (.terminal, [0xFF, 0xFF], ⟨none, none, .value 0, .value 0⟩) :=
    rfl
  have hstart : .start ∈ terminalCalls w o := start_mem hsettled rfl (by decide)
  have hread : (Keymap.read true Keymap.standard).toOption.isSome = true := by decide +kernel
  obtain ⟨keymap, hkeymap⟩ := exists_eq_ok hread
  have hsound : Sound w o := by
    refine ⟨nofun, none, 2, rfl, rfl, ?_⟩
    exact ⟨⟨by decide, by decide⟩, ⟨_, keymap, .outOfCharacters, rfl, hkeymap, rfl⟩, ⟨rfl, rfl⟩,
      ⟨none, none, rfl, rfl, _, rfl⟩⟩
  exact ⟨hstart, hsound, (restored_iff_sound hstart).1.mpr hsound⟩

structure Complete (o : Options) : Prop where
  renderer : o.renderer.isSome
  filename : o.filename.isSome
  scale : o.scale.isSome
  palette : o.palette.isSome
  cursorMode : o.cursorMode.isSome
  smoothing : o.smoothing.isSome
  toggles : o.toggles.isSome
  keymap : o.keymap.isSome
  traced : o.traced.isSome
  speed : o.speed.isSome

/-- A keymap of a single key is refused when the terminal was taken over already. -/
theorem not_forall_restored :
    letI := Room.standard
    ¬ ∀ (w : World Rat) (o : Options), Complete o → o.renderer = some (some (.value "curses")) →
      .start ∈ terminalCalls w o → Restored (terminalCalls w o) := by
  let : Room := .standard
  intro h
  have hsettled : settle (quietWorld [0xFF, 0xFF]) (plainOptions "curses" "1") =
      .ok (.terminal, [0xFF, 0xFF], ⟨none, none, .value 0, .value 0⟩) := rfl
  have hstart := start_mem hsettled rfl (by decide)
  have hshort : Keymap.read true "1" = .error (.keymap .count) := if_neg (by decide +kernel)
  refine not_restored_of_unsound ?_ (h (quietWorld [0xFF, 0xFF]) (plainOptions "curses" "1")
    ⟨rfl, rfl, rfl, rfl, rfl, rfl, rfl, rfl, rfl, rfl⟩ rfl hstart)
  rintro ⟨-, scale, n, -, -, hserves⟩
  obtain ⟨text, keymap, halt, ⟨⟩, hkeymap, -⟩ := hserves.keys
  cases hshort.symm.trans hkeymap

end Launch

end ChipEight
