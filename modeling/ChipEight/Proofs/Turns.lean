import Mathlib.Data.List.Basic
import ChipEight.Session

/-!
# The turns of a session

A run is taken apart into the turns of its loop.  Each turn but the last hands its session over to
the next one, and what all of them keep holds throughout the run.
-/

namespace ChipEight

variable {τ σ : Type} [Instant τ]

/-- A turn of a session: the session before it, and the reading it begins with. -/
structure Turn (τ σ : Type) where
  session : Session τ σ
  now : Moment τ

namespace Session

/-- A turn up to where the machine is stepped.  Says whether the keys asked to quit. -/
def prepare (f : FrontEnd τ σ) (now : Moment τ) (s : Session τ σ) : Attempt (Session τ σ) Bool :=
  (s.report f now.steady).andThen fun s _ => s.pollKeys f now

theorem turn_eq (f : FrontEnd τ σ) (env : Surroundings) (now : Moment τ) (s : Session τ σ) :
    s.turn f env now = (s.prepare f now).andThen fun s' quit =>
      if quit then .succeed s' .quit
      else (s'.advance f env).andThen fun s'' _ =>
        .succeed s'' (.next (s''.interval.map (Instant.add now.steady))) := by
  unfold turn prepare
  cases hreport : s.report f now.steady with
  | mk s' result =>
    cases result with
    | error e => rfl
    | ok => rfl

/-- A run from a session to its end, with the turns it makes. -/
inductive Runs (f : FrontEnd τ σ) (env : Surroundings) :
    Session τ σ → List (Moment τ) → List (Turn τ σ) → Attempt (Session τ σ) Unit → Prop
  | stopped (s : Session τ σ) : Runs f env s [] [] (.refuse s .clockStopped)
  | refused {s s' : Session τ σ} {now : Moment τ} {e : Error} (clock : List (Moment τ))
      (turn : s.turn f env now = .refuse s' e) :
      Runs f env s (now :: clock) [⟨s, now⟩] (.refuse s' e)
  | quit {s s' : Session τ σ} {now : Moment τ} (clock : List (Moment τ))
      (turn : s.turn f env now = .succeed s' .quit) :
      Runs f env s (now :: clock) [⟨s, now⟩] (.succeed s' ())
  | starved {s s' : Session τ σ} {now : Moment τ} {due : Option τ} {clock : List (Moment τ)}
      (turn : s.turn f env now = .succeed s' (.next due)) (wait : wait due clock = none) :
      Runs f env s (now :: clock) [⟨s, now⟩] (.refuse s' .clockStopped)
  | next {s s' : Session τ σ} {now : Moment τ} {due : Option τ} {clock rest : List (Moment τ)}
      {turns : List (Turn τ σ)} {ending : Attempt (Session τ σ) Unit}
      (turn : s.turn f env now = .succeed s' (.next due)) (wait : wait due clock = some rest)
      (runs : Runs f env s' rest turns ending) :
      Runs f env s (now :: clock) (⟨s, now⟩ :: turns) ending

variable {f : FrontEnd τ σ} {env : Surroundings} {s : Session τ σ} {clock : List (Moment τ)}
  {t u : Turn τ σ} {turns before after : List (Turn τ σ)} {ending : Attempt (Session τ σ) Unit}

theorem runs (f : FrontEnd τ σ) (env : Surroundings) (s : Session τ σ) (clock : List (Moment τ)) :
    ∃ turns, Runs f env s clock turns (s.run f env clock) := by
  generalize hn : clock.length = n
  induction n using Nat.strongRecOn generalizing s clock with
  | ind n ih =>
    cases clock with
    | nil =>
      rw [run_nil]
      exact ⟨_, .stopped s⟩
    | cons now clock =>
      rw [run_cons]
      cases hturn : s.turn f env now with
      | mk s' result =>
        cases result with
        | error e => exact ⟨_, .refused clock hturn⟩
        | ok ending =>
          cases ending with
          | quit => exact ⟨_, .quit clock hturn⟩
          | next due =>
            simp only [Attempt.andThen]
            cases hwait : wait due clock with
            | none => exact ⟨_, .starved hturn hwait⟩
            | some rest =>
              have hlen := length_le_of_wait hwait
              rw [List.length_cons] at hn
              obtain ⟨turns, hruns⟩ := ih rest.length (by omega) s' rest rfl
              exact ⟨_, .next hturn hwait hruns⟩

theorem Runs.session_head (h : Runs f env s clock (t :: after) ending) : t.session = s := by
  cases h with
  | refused | quit | starved | next => rfl

theorem Runs.tail (h : Runs f env s clock (t :: before ++ u :: after) ending) :
    ∃ s' due clock', s.turn f env t.now = .succeed s' (.next due) ∧
      Runs f env s' clock' (before ++ u :: after) ending := by
  generalize hrest : before ++ u :: after = rest at h
  rw [List.cons_append, hrest] at h
  have hne : rest ≠ [] := by simp [← hrest]
  cases h with
  | refused | quit | starved => exact absurd rfl hne
  | next turn wait runs => exact ⟨_, _, _, turn, runs⟩

theorem Runs.suffix (h : Runs f env s clock (before ++ t :: after) ending) :
    ∃ clock', Runs f env t.session clock' (t :: after) ending := by
  induction before generalizing s clock with
  | nil =>
    have hs := h.session_head
    subst hs
    exact ⟨clock, h⟩
  | cons u rest ih =>
    obtain ⟨s', due, clock', -, hruns⟩ := h.tail
    exact ih hruns

theorem Runs.keeps {P : Session τ σ → Prop} (h : Runs f env s clock (before ++ t :: after) ending)
    (hs : P s) (hp : ∀ s now s' due, P s → s.turn f env now = .succeed s' (.next due) → P s') :
    P t.session := by
  induction before generalizing s clock with
  | nil => exact h.session_head ▸ hs
  | cons u rest ih =>
    obtain ⟨s', due, clock', hturn, hruns⟩ := h.tail
    exact ih hruns (hp s u.now s' due hs hturn)

theorem Runs.of_quit {s' : Session τ σ} (h : Runs f env s clock (t :: after) ending)
    (hq : t.session.turn f env t.now = .succeed s' .quit) : after = [] ∧ ending = .succeed s' () := by
  cases h with
  | refused clock turn => cases turn.symm.trans hq
  | quit clock turn =>
    cases turn.symm.trans hq
    exact ⟨rfl, rfl⟩
  | starved turn wait => cases turn.symm.trans hq
  | next turn wait runs => cases turn.symm.trans hq

theorem Runs.of_refused {s' : Session τ σ} {e : Error}
    (h : Runs f env s clock (t :: after) ending)
    (hr : t.session.turn f env t.now = .refuse s' e) : after = [] ∧ ending = .refuse s' e := by
  cases h with
  | refused clock turn =>
    cases turn.symm.trans hr
    exact ⟨rfl, rfl⟩
  | quit clock turn => cases turn.symm.trans hr
  | starved turn wait => cases turn.symm.trans hr
  | next turn wait runs => cases turn.symm.trans hr

end Session

end ChipEight
