import ChipEight.Proofs.Frames
import ChipEight.Proofs.Recording
import ChipEight.Proofs.Turns

/-!
# Refreshing the picture

A turn polls the keys at most once.  A poll that asks to quit ends the session; any other is
answered by one refresh, and then the machine makes one step.  A refresh says that the picture
changed if it is the first one, or if a step since the last one said so, and so no change of the
picture is ever passed over.
-/

namespace ChipEight

variable {τ : Type} [Instant τ]

/-- What a session needs its machine to be. -/
structure Machine.Playable (capacity : Int) (m : Machine) : Prop where
  wellFormed : m.WellFormed capacity
  watched : m.display.watched = true

theorem Machine.Playable.withKeypad {capacity : Int} {m : Machine} (h : m.Playable capacity)
    (keypad : Keypad) : { m with keypad }.Playable capacity := ⟨{ h.wellFormed with }, h.watched⟩

namespace Turn

variable {script : Script τ} {env : Surroundings} {t : Turn τ (List Call)}
  {capacity : Int} {s' : Session τ (List Call)} {due : Option τ}

/-- The session as the machine is about to be stepped. -/
def ready (script : Script τ) (t : Turn τ (List Call)) : Session τ (List Call) :=
  (t.session.prepare (recorder script) t.now).state

def step (script : Script τ) (env : Surroundings) (t : Turn τ (List Call)) : Step :=
  (t.ready script).machine.step env

def done (script : Script τ) (env : Surroundings) (t : Turn τ (List Call)) :
    Attempt (Session τ (List Call)) (Session.Ending τ) :=
  t.session.turn (recorder script) env t.now

def calls (script : Script τ) (env : Surroundings) (t : Turn τ (List Call)) : List Call :=
  (t.done script env).state.frontEnd.drop t.session.frontEnd.length

def Refreshes (script : Script τ) (env : Surroundings) (t : Turn τ (List Call)) : Prop :=
  ∃ flag, Call.signal (.refresh flag) ∈ t.calls script env

def Dirties (script : Script τ) (env : Surroundings) (t : Turn τ (List Call)) : Prop :=
  ∃ outcome, (t.step script env).result = .ok outcome ∧ outcome.displayChanged = true

inductive Course (script : Script τ) (env : Surroundings) (t : Turn τ (List Call)) : Prop
  | idle (called : t.session.Called [] (t.ready script))
      (dirty : (t.ready script).dirty = t.session.dirty)
      (stepped : (t.ready script).Stepped env (t.done script env))
  | refreshed
      (called : t.session.Called [.poll (.ok false), .signal (.refresh t.session.dirty)]
        (t.ready script))
      (dirty : (t.ready script).dirty = false)
      (stepped : (t.ready script).Stepped env (t.done script env))
  | quit (called : t.session.Called [.poll (.ok true)] (t.ready script))
      (done : t.done script env = .succeed (t.ready script) .quit)
  | failed (e : Error) (called : t.session.Called [.poll (.error e)] (t.ready script))
      (done : t.done script env = .refuse (t.ready script) e)

theorem course (script : Script τ) (env : Surroundings)
    (hw : t.session.machine.display.watched = true) : t.Course script env := by
  have hpolled := t.session.prepare_recorder script t.now hw
  have hdone : t.done script env = _ := Session.turn_eq (recorder script) env t.now t.session
  have hready : t.ready script = (t.session.prepare (recorder script) t.now).state := rfl
  generalize t.session.prepare (recorder script) t.now = polled at hpolled hdone hready
  cases hpolled with
  | idle s' called dirty =>
    obtain rfl : t.ready script = s' := hready
    exact .idle called dirty (hdone ▸ Session.advance_stepped script env _ t.now)
  | refreshed s' called dirty =>
    obtain rfl : t.ready script = s' := hready
    exact .refreshed called dirty (hdone ▸ Session.advance_stepped script env _ t.now)
  | quit s' called =>
    obtain rfl : t.ready script = s' := hready
    exact .quit called hdone
  | failed s' e called =>
    obtain rfl : t.ready script = s' := hready
    exact .failed e called hdone

theorem calls_eq {made : List Call}
    (h : (t.done script env).state.frontEnd = t.session.frontEnd ++ made) :
    t.calls script env = made := by
  rw [calls, h, List.drop_left]

theorem machine_ready (script : Script τ) (hw : t.session.machine.display.watched = true) :
    (t.ready script).machine =
      { t.session.machine with keypad := (t.ready script).machine.keypad } := by
  obtain ⟨made, called⟩ := (t.session.prepare_recorder script t.now hw).called
  exact called.machine

theorem display_ready (script : Script τ) (hw : t.session.machine.display.watched = true) :
    (t.ready script).machine.display = t.session.machine.display := by
  rw [machine_ready script hw]

theorem ready_playable (script : Script τ) (h : t.session.machine.Playable capacity) :
    (t.ready script).machine.Playable capacity := by
  rw [machine_ready script h.watched]
  exact h.withKeypad _

theorem step_framed (script : Script τ) (env : Surroundings)
    (h : t.session.machine.Playable capacity) :
    Machine.Framed t.session.machine.display (t.step script env) := by
  have hr := ready_playable script h
  rw [← display_ready script h.watched]
  exact hr.wellFormed.step_framed hr.watched env

section

variable {made : List Call}

theorem mem_calls {signals : List Signal} {call : Call}
    (called : t.session.Called made (t.ready script))
    (log : (t.done script env).state.frontEnd = (t.ready script).frontEnd ++ signals.map .signal)
    (hpixels : ∀ signal ∈ signals, ∃ x y lit, signal = .pixel x y lit)
    (hcall : ∀ signal, call = .signal signal → ∃ flag, signal = .refresh flag) :
    call ∈ t.calls script env ↔ call ∈ made := by
  obtain ⟨titles, htitles, hlog⟩ := called.log
  have hcalls : t.calls script env = titles ++ made ++ signals.map .signal :=
    calls_eq (by rw [log, hlog, List.append_assoc])
  rw [hcalls, List.mem_append, List.mem_append]
  constructor
  · rintro ((hmem | hmem) | hmem)
    · obtain ⟨text, rfl⟩ := htitles call hmem
      obtain ⟨flag, hflag⟩ := hcall _ rfl
      cases hflag
    · exact hmem
    · obtain ⟨signal, hsignal, rfl⟩ := List.mem_map.mp hmem
      obtain ⟨x, y, lit, rfl⟩ := hpixels signal hsignal
      obtain ⟨flag, hflag⟩ := hcall _ rfl
      cases hflag
  · exact fun hmem => .inl (.inr hmem)

theorem refreshes_of_stepped (h : t.session.machine.Playable capacity)
    (called : t.session.Called made (t.ready script))
    (stepped : (t.ready script).Stepped env (t.done script env)) :
    t.Refreshes script env ↔ ∃ flag, Call.signal (.refresh flag) ∈ made := by
  refine exists_congr fun flag => ?_
  refine mem_calls called stepped.log (step_framed script env h).pixels ?_
  rintro _ ⟨⟩
  exact ⟨flag, rfl⟩

theorem done_of_quit (h : t.session.machine.Playable capacity)
    (hq : .poll (.ok true) ∈ t.calls script env) :
    t.done script env = .succeed (t.ready script) .quit := by
  have hnone : ∀ signal, Call.poll (.ok true) = .signal signal → ∃ flag, signal = .refresh flag :=
    fun signal hsignal => nomatch hsignal
  cases t.course script env h.watched with
  | idle called dirty stepped =>
    rw [mem_calls called stepped.log (step_framed script env h).pixels hnone] at hq
    cases hq
  | refreshed called dirty stepped =>
    rw [mem_calls called stepped.log (step_framed script env h).pixels hnone] at hq
    simp at hq
  | quit called done => exact done
  | failed e called done =>
    have hlog : (t.done script env).state.frontEnd = (t.ready script).frontEnd ++ [].map .signal := by
      rw [done, List.map_nil, List.append_nil]
      rfl
    rw [mem_calls called hlog (by simp) hnone] at hq
    simp at hq

end

theorem next_of_done (h : t.session.machine.Playable capacity)
    (hn : t.done script env = .succeed s' (.next due)) :
    (∃ outcome, (t.step script env).result = .ok outcome) ∧
    s'.machine = (t.step script env).machine ∧
    (s'.dirty = true ↔
      (t.session.dirty = true ∧ ¬ t.Refreshes script env) ∨ t.Dirties script env) := by
  have hstepped : (t.ready script).Stepped env (t.done script env) ∧
      ((t.ready script).dirty = true ↔ t.session.dirty = true ∧ ¬ t.Refreshes script env) := by
    cases t.course script env h.watched with
    | idle called dirty stepped =>
      refine ⟨stepped, ?_⟩
      rw [dirty, refreshes_of_stepped h called stepped]
      simp
    | refreshed called dirty stepped =>
      refine ⟨stepped, ?_⟩
      rw [dirty, refreshes_of_stepped h called stepped]
      simp
    | quit called done => cases done.symm.trans hn
    | failed e called done => cases done.symm.trans hn
  obtain ⟨stepped, hready⟩ := hstepped
  obtain ⟨outcome, ho, hmachine, hdirty⟩ := stepped.of_next hn
  have hdirties : t.Dirties script env ↔ outcome.displayChanged = true := by
    constructor
    · rintro ⟨outcome', ho', hc⟩
      obtain rfl := Except.ok.inj (ho.symm.trans ho')
      exact hc
    · exact fun hc => ⟨outcome, ho, hc⟩
  refine ⟨⟨outcome, ho⟩, hmachine, ?_⟩
  rw [hdirty, Bool.or_eq_true, hready, hdirties]

theorem playable_of_next (h : t.session.machine.Playable capacity)
    (hn : t.done script env = .succeed s' (.next due)) : s'.machine.Playable capacity := by
  obtain ⟨-, hmachine, -⟩ := next_of_done h hn
  rw [hmachine]
  exact ⟨(ready_playable script h).wellFormed.step env, (step_framed script env h).watched.trans h.watched⟩

theorem snapshot_of_next (h : t.session.machine.Playable capacity)
    (hn : t.done script env = .succeed s' (.next due)) (hd : ¬ t.Dirties script env) :
    s'.machine.display.snapshot = t.session.machine.display.snapshot := by
  obtain ⟨⟨outcome, ho⟩, hmachine, -⟩ := next_of_done h hn
  rw [hmachine]
  refine (step_framed script env h).picture outcome ho (Bool.eq_false_iff.mpr fun hc => ?_)
  exact hd ⟨outcome, ho, hc⟩

theorem log_done (script : Script τ) (env : Surroundings) (h : t.session.machine.Playable capacity) :
    (t.done script env).state.frontEnd = t.session.frontEnd ++ t.calls script env := by
  have hlog : ∃ made, (t.done script env).state.frontEnd = t.session.frontEnd ++ made := by
    cases t.course script env h.watched with
    | idle called dirty stepped | refreshed called dirty stepped =>
      obtain ⟨titles, -, hlog⟩ := called.log
      rw [stepped.log, hlog, List.append_assoc]
      exact ⟨_, rfl⟩
    | quit called done | failed e called done =>
      obtain ⟨titles, -, hlog⟩ := called.log
      rw [done]
      exact ⟨_, hlog⟩
  obtain ⟨made, hmade⟩ := hlog
  rw [calls_eq hmade, hmade]

/-- One of the turns says that the display changed, and none after it refreshes the picture. -/
def Stale (script : Script τ) (env : Surroundings) (turns : List (Turn τ (List Call))) : Prop :=
  ∃ older u newer, turns = older ++ u :: newer ∧ u.Dirties script env ∧
    ∀ v ∈ newer, ¬ v.Refreshes script env

theorem not_stale_nil : ¬ Stale script env [] := by
  rintro ⟨older, u, newer, heq, -⟩
  simp at heq

theorem stale_of_mem {u : Turn τ (List Call)} {turns : List (Turn τ (List Call))} (hu : u ∈ turns)
    (hd : u.Dirties script env) (hn : ∀ v ∈ turns, ¬ v.Refreshes script env) :
    Stale script env turns := by
  obtain ⟨older, newer, rfl⟩ := List.append_of_mem hu
  refine ⟨older, u, newer, rfl, hd, fun v hv => hn v ?_⟩
  exact List.mem_append_right older (List.mem_cons_of_mem u hv)

theorem stale_cons {u : Turn τ (List Call)} {rest : List (Turn τ (List Call))} :
    Stale script env (u :: rest) ↔
      (u.Dirties script env ∧ ∀ v ∈ rest, ¬ v.Refreshes script env) ∨ Stale script env rest := by
  constructor
  · rintro ⟨older, v, newer, heq, hd, hn⟩
    cases older with
    | nil =>
      obtain ⟨rfl, rfl⟩ := List.cons.inj heq
      exact .inl ⟨hd, hn⟩
    | cons w older =>
      obtain ⟨rfl, rfl⟩ := List.cons.inj heq
      exact .inr ⟨older, v, newer, rfl, hd, hn⟩
  · rintro (⟨hd, hn⟩ | ⟨older, v, newer, rfl, hd, hn⟩)
    · exact ⟨[], u, rest, rfl, hd, hn⟩
    · exact ⟨u :: older, v, newer, rfl, hd, hn⟩

end Turn

namespace Session

variable {script : Script τ} {env : Surroundings} {capacity : Int} {s : Session τ (List Call)}
  {clock : List (Moment τ)} {t : Turn τ (List Call)}
  {turns before after : List (Turn τ (List Call))} {ending : Attempt (Session τ (List Call)) Unit}

theorem Runs.playable (h : Runs (recorder script) env s clock (before ++ t :: after) ending)
    (hp : s.machine.Playable capacity) : t.session.machine.Playable capacity := by
  refine h.keeps (P := fun s => s.machine.Playable capacity) hp ?_
  intro s now s' due hs hturn
  exact Turn.playable_of_next (t := ⟨s, now⟩) hs hturn

theorem Runs.dirty_iff (h : Runs (recorder script) env s clock (before ++ t :: after) ending)
    (hp : s.machine.Playable capacity) :
    t.session.dirty = true ↔
      (s.dirty = true ∧ ∀ u ∈ before, ¬ u.Refreshes script env) ∨
        Turn.Stale script env before := by
  induction before generalizing s clock with
  | nil =>
    rw [h.session_head]
    simp [Turn.not_stale_nil]
  | cons u rest ih =>
    obtain rfl : u.session = s := h.session_head
    obtain ⟨s', due, clock', hturn, hruns⟩ := h.tail
    obtain ⟨-, -, hdirty⟩ := Turn.next_of_done hp hturn
    -- the flag after the first turn stands for all that the turn leaves to be shown
    rw [ih hruns (Turn.playable_of_next hp hturn), hdirty, Turn.stale_cons, List.forall_mem_cons]
    constructor
    · rintro (⟨⟨hs, hu⟩ | hu, hrest⟩ | hrest)
      · exact .inl ⟨hs, hu, hrest⟩
      · exact .inr (.inl ⟨hu, hrest⟩)
      · exact .inr (.inr hrest)
    · rintro (⟨hs, hu, hrest⟩ | ⟨hu, hrest⟩ | hrest)
      · exact .inl ⟨.inl ⟨hs, hu⟩, hrest⟩
      · exact .inl ⟨.inr hu, hrest⟩
      · exact .inr hrest

theorem Runs.snapshot_eq (h : Runs (recorder script) env s clock (before ++ t :: after) ending)
    (hp : s.machine.Playable capacity) (hd : ∀ u ∈ before, ¬ u.Dirties script env) :
    t.session.machine.display.snapshot = s.machine.display.snapshot := by
  induction before generalizing s clock with
  | nil => rw [h.session_head]
  | cons u rest ih =>
    obtain rfl : u.session = s := h.session_head
    obtain ⟨s', due, clock', hturn, hruns⟩ := h.tail
    obtain ⟨hu, hrest⟩ := List.forall_mem_cons.mp hd
    rw [ih hruns (Turn.playable_of_next hp hturn) hrest, Turn.snapshot_of_next hp hturn hu]

theorem Runs.log (h : Runs (recorder script) env s clock turns ending)
    (hp : s.machine.Playable capacity) :
    ending.state.frontEnd = s.frontEnd ++ turns.flatMap (Turn.calls script env) := by
  have hlast {s s' : Session τ (List Call)} {now : Moment τ} {result : Except Error (Ending τ)}
      (hp : s.machine.Playable capacity)
      (turn : s.turn (recorder script) env now = ⟨s', result⟩) :
      s'.frontEnd = s.frontEnd ++ Turn.calls script env ⟨s, now⟩ := by
    have hlog := Turn.log_done script env (t := ⟨s, now⟩) hp
    rw [Turn.done, turn] at hlog
    exact hlog
  induction h with
  | stopped s => simp
  | refused clock turn | quit clock turn | starved turn wait =>
    rw [List.flatMap_cons, List.flatMap_nil, List.append_nil]
    exact hlast hp turn
  | @next s s' now due clock rest turns ending turn wait runs ih =>
    rw [ih (Turn.playable_of_next (t := ⟨s, now⟩) hp turn), hlast hp turn, List.flatMap_cons,
      List.append_assoc]

/-- If the picture is not what it was before the last turn to refresh it, a step said so. -/
theorem Runs.dirty_of_snapshot {u : Turn τ (List Call)} {newer : List (Turn τ (List Call))}
    (h : Runs (recorder script) env s clock (u :: newer ++ t :: after) ending)
    (hp : s.machine.Playable capacity) (hn : ∀ v ∈ newer, ¬ v.Refreshes script env)
    (hne : t.session.machine.display.snapshot ≠ s.machine.display.snapshot) :
    t.session.dirty = true := by
  rw [h.dirty_iff hp, Turn.stale_cons]
  right
  -- if no step since the last refresh said so, none of them changed the picture
  by_contra hno
  obtain ⟨hu, hrest⟩ := not_or.mp hno
  refine hne (h.snapshot_eq hp ?_)
  rintro v hv hd
  obtain rfl | hmem := List.mem_cons.mp hv
  · exact hu ⟨hd, hn⟩
  · exact hrest (Turn.stale_of_mem hmem hd hn)

/-- What one turn of a run does, where the run has its other turns before and after it. -/
structure Orderly (script : Script τ) (env : Surroundings)
    (ending : Attempt (Session τ (List Call)) Unit) (before : List (Turn τ (List Call)))
    (t : Turn τ (List Call)) (after : List (Turn τ (List Call))) : Prop where
  course : t.Course script env
  pixels : ∀ signal ∈ (t.step script env).signals, ∃ x y lit, signal = .pixel x y lit
  quit : .poll (.ok true) ∈ t.calls script env →
    after = [] ∧ ending = .succeed (t.ready script) ()
  /-- This flag is what the turn tells when it refreshes the picture. -/
  dirty : t.session.dirty = true ↔
    (∀ u ∈ before, ¬ u.Refreshes script env) ∨ Turn.Stale script env before
  picture : ∀ older u newer, before = older ++ u :: newer → u.Refreshes script env →
    (∀ v ∈ newer, ¬ v.Refreshes script env) →
    (t.ready script).machine.display.snapshot ≠ (u.ready script).machine.display.snapshot →
    t.session.dirty = true

/-- A run on a machine that was switched on with a program, whatever the clock and the polls give. -/
theorem run_orderly (toggles : Bool) (capacity : Int) (rom : List UInt8) (interval : Option τ)
    (script : Script τ) (env : Surroundings) (clock : List (Moment τ)) :
    let m := (Machine.boot toggles true capacity).run [.load rom]
    let s : Session τ (List Call) := start m [] interval
    let ending := s.run (recorder script) env clock
    ∃ turns, Runs (recorder script) env s clock turns ending ∧
      ending.state.frontEnd = turns.flatMap (Turn.calls script env) ∧
      ∀ before t after, turns = before ++ t :: after →
        Orderly script env ending before t after := by
  intro m s ending
  have hp : s.machine.Playable capacity := by
    refine ⟨(Machine.WellFormed.boot toggles true capacity).run _, ?_⟩
    change ((Machine.boot toggles true capacity).load rom).state.display.watched = true
    unfold Machine.load
    split
    · rfl
    · rfl
  obtain ⟨turns, hruns⟩ := runs (recorder script) env s clock
  refine ⟨turns, hruns, hruns.log hp, ?_⟩
  rintro before t after rfl
  have ht := hruns.playable hp
  obtain ⟨clock', hsuffix⟩ := hruns.suffix
  refine {
    course := t.course script env ht.watched
    pixels := (Turn.step_framed script env ht).pixels
    quit := fun hq => hsuffix.of_quit (Turn.done_of_quit ht hq)
    dirty := ?_
    picture := ?_ }
  · rw [hruns.dirty_iff hp]
    exact or_congr_left (and_iff_right rfl)
  · rintro older u newer rfl - hn hne
    rw [List.append_assoc] at hruns
    have hu := hruns.playable hp
    obtain ⟨clock'', hafter⟩ := hruns.suffix
    rw [Turn.display_ready script ht.watched, Turn.display_ready script hu.watched] at hne
    exact hafter.dirty_of_snapshot hu hn hne

end Session

end ChipEight
