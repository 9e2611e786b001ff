import ChipEight.Proofs.Turns

/-!
# A session on record

A front end that writes down all calls it gets, and is polled from a script.  On it every part of a
turn can be told from the calls that it makes.
-/

namespace ChipEight

open Attempt

variable {τ : Type}

inductive Call
  | poll (quit : Except Error Bool)
  | signal (signal : Signal)

/-- The outcome of each poll, and the keypad after it, from all that happened before. -/
abbrev Script (τ : Type) : Type := List Call → Moment τ → Machine → Except Error Bool × Keypad

/-- A front end that writes down every call, and is polled from a script. -/
def recorder (script : Script τ) : FrontEnd τ (List Call) where
  receive log signal := .succeed (log ++ [.signal signal]) ()
  poll log now m :=
    { quit := (script log now m).1
      keypad := (script log now m).2
      state := log ++ [.poll (script log now m).1] }

theorem poll_recorder (script : Script τ) (log : List Call) (now : Moment τ) (m : Machine) :
    (recorder script).poll log now m =
      ⟨(script log now m).1, (script log now m).2, log ++ [.poll (script log now m).1]⟩ := rfl

theorem receiveAll_recorder (script : Script τ) (log : List Call) (signals : List Signal) :
    (recorder script).receiveAll log signals = .succeed (log ++ signals.map .signal) () := by
  induction signals generalizing log with
  | nil =>
    rw [List.map_nil, List.append_nil]
    rfl
  | cons signal rest ih =>
    change (recorder script).receiveAll (log ++ [.signal signal]) rest = _
    rw [ih, List.map_cons, List.append_assoc]
    rfl

namespace Session

variable {script : Script τ} {env : Surroundings} {s : Session τ (List Call)}

theorem send_recorder (script : Script τ) (s : Session τ (List Call)) (signals : List Signal) :
    s.send (recorder script) signals =
      .succeed { s with frontEnd := s.frontEnd ++ signals.map .signal } () := by
  rw [send, receiveAll_recorder]
  rfl

theorem refresh_recorder (script : Script τ) (hw : s.machine.display.watched = true) :
    s.refresh (recorder script) = .succeed
      { s with
        frontEnd := s.frontEnd ++ [.signal (.refresh s.dirty)]
        dirty := false
        frames := s.frames + 1 } () := by
  rw [refresh, Display.refresh, Display.tell, if_pos hw, send_recorder]
  rfl

/-- The front end was called, after titles for it if any, and the machine is the same but for its
keys. -/
structure Called (s : Session τ (List Call)) (calls : List Call) (s' : Session τ (List Call)) :
    Prop where
  machine : s'.machine = { s.machine with keypad := s'.machine.keypad }
  log : ∃ titles, (∀ call ∈ titles, ∃ text, call = .signal (.title text)) ∧
    s'.frontEnd = s.frontEnd ++ (titles ++ calls)

theorem Called.of_log {s' : Session τ (List Call)} {calls : List Call}
    (machine : s'.machine = { s.machine with keypad := s'.machine.keypad })
    (log : s'.frontEnd = s.frontEnd ++ calls) : s.Called calls s' :=
  ⟨machine, [], by simp, log⟩

theorem Called.trans {s' s'' : Session τ (List Call)} {calls : List Call} (h : s.Called [] s')
    (hn : s'.Called calls s'') : s.Called calls s'' := by
  obtain ⟨titles, htitles, hlog⟩ := h.log
  obtain ⟨titles', htitles', hlog'⟩ := hn.log
  refine ⟨?_, titles ++ titles', ?_, ?_⟩
  · rw [hn.machine, h.machine]
  · intro call hmem
    obtain hmem | hmem := List.mem_append.mp hmem
    · exact htitles call hmem
    · exact htitles' call hmem
  · rw [hlog', hlog]
    simp

/-- How far a turn gets before the machine is stepped. -/
inductive Polled (s : Session τ (List Call)) : Attempt (Session τ (List Call)) Bool → Prop
  | idle (s' : Session τ (List Call)) (called : s.Called [] s') (dirty : s'.dirty = s.dirty) :
      Polled s (.succeed s' false)
  | refreshed (s' : Session τ (List Call))
      (called : s.Called [.poll (.ok false), .signal (.refresh s.dirty)] s')
      (dirty : s'.dirty = false) : Polled s (.succeed s' false)
  | quit (s' : Session τ (List Call)) (called : s.Called [.poll (.ok true)] s') :
      Polled s (.succeed s' true)
  | failed (s' : Session τ (List Call)) (e : Error) (called : s.Called [.poll (.error e)] s') :
      Polled s (.refuse s' e)

theorem Polled.called {work : Attempt (Session τ (List Call)) Bool} (h : s.Polled work) :
    ∃ calls, s.Called calls work.state := by
  cases h with
  | idle s' called | refreshed s' called | quit s' called | failed s' e called => exact ⟨_, called⟩

/-- What is left of a turn from where the machine is stepped. -/
structure Stepped (env : Surroundings) (s : Session τ (List Call))
    (work : Attempt (Session τ (List Call)) (Ending τ)) : Prop where
  machine : work.state.machine = (s.machine.step env).machine
  log : work.state.frontEnd = s.frontEnd ++ (s.machine.step env).signals.map .signal
  refused : ∀ e, (s.machine.step env).result = .error e → work.result = .error e
  returned : ∀ outcome, (s.machine.step env).result = .ok outcome →
    (∃ due, work.result = .ok (.next due)) ∧ work.state.dirty = (s.dirty || outcome.displayChanged)

theorem Stepped.of_next {work : Attempt (Session τ (List Call)) (Ending τ)}
    {s' : Session τ (List Call)} {due : Option τ} (h : s.Stepped env work)
    (hn : work = .succeed s' (.next due)) :
    ∃ outcome, (s.machine.step env).result = .ok outcome ∧
      s'.machine = (s.machine.step env).machine ∧
      s'.dirty = (s.dirty || outcome.displayChanged) := by
  subst hn
  cases hr : (s.machine.step env).result with
  | error e => cases h.refused e hr
  | ok outcome => exact ⟨outcome, rfl, h.machine, (h.returned outcome hr).2⟩

variable [Instant τ]

theorem report_recorder (script : Script τ) (now : τ) (s : Session τ (List Call)) :
    ∃ s', s.report (recorder script) now = .succeed s' () ∧ s.Called [] s' ∧
      s'.dirty = s.dirty := by
  unfold report
  split
  · simp only [send_recorder, andThen_succeed]
    refine ⟨_, rfl, ⟨rfl, _, ?_, by rw [List.append_nil]⟩, rfl⟩
    intro call hmem
    obtain ⟨signal, hsignal, rfl⟩ := List.mem_map.mp hmem
    unfold Display.reportRate Display.tell at hsignal
    split at hsignal
    · exact ⟨_, by rw [List.mem_singleton.mp hsignal]⟩
    · cases hsignal
  · exact ⟨s, rfl, ⟨rfl, [], by simp, by simp⟩, rfl⟩

theorem pollKeys_recorder (script : Script τ) (now : Moment τ)
    (hw : s.machine.display.watched = true) :
    s.Polled (s.pollKeys (recorder script) now) := by
  unfold pollKeys
  split
  · simp only [poll_recorder]
    cases (script s.frontEnd now s.machine).1 with
    | error e => exact .failed _ e (.of_log rfl rfl)
    | ok quit =>
      cases quit with
      | true => exact .quit _ (.of_log rfl rfl)
      | false =>
        simp only [ofExcept_ok, andThen_succeed, Bool.false_eq_true, if_false]
        rw [refresh_recorder, andThen_succeed]
        · exact .refreshed _ (.of_log rfl (List.append_assoc _ _ _)) rfl
        · exact hw
  · exact .idle s (.of_log rfl (List.append_nil _).symm) rfl

theorem prepare_recorder (script : Script τ) (now : Moment τ)
    (hw : s.machine.display.watched = true) :
    s.Polled (s.prepare (recorder script) now) := by
  obtain ⟨s', hreport, hcalled, hdirty⟩ := report_recorder script now.steady s
  have hw' : s'.machine.display.watched = true := by
    rw [hcalled.machine]
    exact hw
  have hpolled := pollKeys_recorder script now hw'
  rw [prepare, hreport, andThen_succeed]
  generalize s'.pollKeys (recorder script) now = polled at hpolled
  cases hpolled with
  | idle s'' called dirty => exact .idle s'' (hcalled.trans called) (dirty.trans hdirty)
  | refreshed s'' called dirty => exact .refreshed s'' (hcalled.trans (hdirty ▸ called)) dirty
  | quit s'' called => exact .quit s'' (hcalled.trans called)
  | failed s'' e called => exact .failed s'' e (hcalled.trans called)

theorem advance_stepped (script : Script τ) (env : Surroundings) (s : Session τ (List Call))
    (now : Moment τ) :
    s.Stepped env ((s.advance (recorder script) env).andThen fun s' _ =>
      .succeed s' (.next (s'.interval.map (Instant.add now.steady)))) := by
  unfold advance
  simp only [send_recorder, andThen_succeed]
  cases hr : (s.machine.step env).result with
  | error e =>
    exact {
      machine := rfl
      log := rfl
      refused := fun e' he => by
        obtain rfl := Except.error.inj (hr.symm.trans he)
        rfl
      returned := fun outcome ho => nomatch hr.symm.trans ho }
  | ok outcome =>
    exact {
      machine := rfl
      log := rfl
      refused := fun e he => nomatch hr.symm.trans he
      returned := fun outcome' ho => by
        obtain rfl := Except.ok.inj (hr.symm.trans ho)
        exact ⟨⟨_, rfl⟩, rfl⟩ }

end Session

end ChipEight
