import ChipEight.Proofs.PadPicture
import ChipEight.Proofs.TerminalRestored

/-!
# Repainting a terminal

A refresh that finds the screen as large as the refresh before it leaves the pad as it is on the
screen.  What carries this through a run: while nothing is pending, the last call on the terminal
showed the pad, and nothing was written to it since.  A refresh that finds another size clears the
screen, and the pad is shown as soon as the size stays.
-/

namespace ChipEight

namespace Signal

def KeepsSize : Signal → Prop
  | .resolution .. => False
  | .pixel .. | .refresh _ | .title _ => True

instance : DecidablePred KeepsSize
  | .resolution .. => inferInstanceAs (Decidable False)
  | .pixel .. | .refresh _ | .title _ => inferInstanceAs (Decidable True)

def isRefresh : Signal → Bool
  | .refresh _ => true
  | .resolution .. | .pixel .. | .title _ => false

end Signal

namespace Terminal

open Attempt

def refreshes (signals : List Signal) : Nat := signals.countP Signal.isRefresh

theorem refreshes_cons (signal : Signal) (rest : List Signal) :
    refreshes (signal :: rest) = refreshes [signal] + refreshes rest := by
  rw [refreshes, refreshes, refreshes, ← List.countP_append]
  rfl

namespace Host

variable {h : Host} {n : Nat}

def Proper (h : Host) : Prop := ∀ size ∈ h.sizes, 0 ≤ size.1 ∧ 0 ≤ size.2

/-- The size of a terminal that was asked for it `n` times before. -/
def sizeAt (h : Host) (n : Nat) : Int × Int :=
  h.sizes[n]?.getD (h.sizes.getLast?.getD standardSize)

/-- The size of a terminal that was asked for it `n` times before is the one it had then. -/
def Settled (h : Host) : Nat → Prop
  | 0 => False
  | n + 1 => h.sizeAt (n + 1) = h.sizeAt n

/-- The size that is remembered of a terminal that was asked for it `n` times. -/
def remembered (h : Host) : Nat → Int × Int
  | 0 => (-1, -1)
  | n + 1 => h.sizeAt n

theorem size_eq (h : Host) : h.size.1 = h.sizeAt 0 := by
  obtain ⟨sizes, _, _, _⟩ := h
  obtain _ | ⟨first, _ | ⟨second, rest⟩⟩ := sizes <;> rfl

theorem sizeAt_size (h : Host) (n : Nat) : h.size.2.sizeAt n = h.sizeAt (n + 1) := by
  obtain ⟨sizes, _, _, _⟩ := h
  obtain _ | ⟨first, _ | ⟨second, rest⟩⟩ := sizes
  · rfl
  · cases n <;> rfl
  · rfl

theorem sizeAt_mem (h : Host) (n : Nat) : h.sizeAt n ∈ h.sizes ∨ h.sizeAt n = standardSize := by
  unfold sizeAt
  cases hn : h.sizes[n]? with
  | some size => exact .inl (List.mem_of_getElem? hn)
  | none =>
    cases hlast : h.sizes.getLast? with
    | some size => exact .inl (List.mem_of_getLast? hlast)
    | none => exact .inr rfl

theorem Settled.pos (hs : h.Settled n) : 0 < n := by
  cases n with
  | zero => exact hs.elim
  | succ n => exact n.succ_pos

theorem Proper.settled_iff (hp : h.Proper) : h.Settled n ↔ h.sizeAt n = h.remembered n := by
  cases n with
  | succ n => rfl
  | zero =>
    refine ⟨False.elim, fun heq => ?_⟩
    have hrows : 0 ≤ (h.sizeAt 0).1 := by
      obtain hmem | hstandard := h.sizeAt_mem 0
      · exact (hp _ hmem).1
      · rw [hstandard]
        decide
    rw [heq] at hrows
    exact absurd hrows (by decide : ¬ (0 : Int) ≤ -1)

theorem setCursor_keeps (h : Host) (mode : Setting Int) :
    (h.setCursor mode).2.sizes = h.sizes ∧ (h.setCursor mode).2.resizable = h.resizable := by
  unfold setCursor
  split <;> exact ⟨rfl, rfl⟩

end Host

namespace Screen

variable {s t : Screen} {host : Host} {n : Nat} {signal : Signal} {signals : List Signal}

/-- The pad is left alone, or it has to be shown. -/
structure Marks (s t : Screen) : Prop where
  host : t.host = s.host
  lastSize : t.lastSize = s.lastSize
  pad : t.pending = true ∨ (t.pad = s.pad ∧ t.pending = s.pending)

theorem Marks.refl (s : Screen) : s.Marks s := ⟨rfl, rfl, .inr ⟨rfl, rfl⟩⟩

theorem write_marks (h : s.Marks t) (row column : Int) (text : List Char) (blanks : Int)
    (reversed : Bool) : s.Marks (t.write row column text blanks reversed).state := by
  unfold write
  split
  · exact ⟨h.host, h.lastSize, .inl rfl⟩
  · exact h

theorem setTitle_marks [Room] (s : Screen) (title : String) : s.Marks (s.setTitle title).state :=
  keeps_setTitle (P := s.Marks) (.refl s)
    (fun _ text blanks h => write_marks h 0 0 text blanks true)
    (fun _ _ h => ⟨h.host, h.lastSize, h.pad⟩) title

theorem receive_marks [Room] (s : Screen) (hkeeps : signal.KeepsSize) (hother : signal.isRefresh = false) :
    s.Marks (s.receive signal).state := by
  cases signal with
  | resolution => exact hkeeps.elim
  | pixel x y lit => exact write_marks (.refl s) _ _ _ _ _
  | refresh => cases hother
  | title text => exact setTitle_marks s text

/-- The pad as it is was shown last, up to the edges of the screen, and nothing was called since. -/
def UpToDate (s : Screen) : Prop :=
  ∃ shown, s.host.calls.toList.getLast? =
      some (.showPad (s.lastSize.1 - 1) (s.lastSize.2 - 1) shown) ∧
    s.pad = { shown with writes := 0 }

/-- How a screen stands after `n` refreshes on a terminal. -/
structure Follows (host : Host) (n : Nat) (s : Screen) : Prop where
  proper : host.Proper
  sizes : ∀ i, s.host.sizeAt i = host.sizeAt (n + i)
  resizable : s.host.resizable = host.resizable
  lastSize : s.lastSize = host.remembered n
  upToDate : s.pending = false → 0 < n → s.UpToDate

namespace Follows

theorem marks (h : s.Follows host n) (hm : s.Marks t) : t.Follows host n where
  proper := h.proper
  sizes := hm.host ▸ h.sizes
  resizable := hm.host ▸ h.resizable
  lastSize := hm.lastSize.trans h.lastSize
  upToDate hclean hn := by
    obtain hpending | ⟨hpad, hpending⟩ := hm.pad
    · exact absurd (hclean.symm.trans hpending) (by decide)
    · unfold UpToDate
      rw [hm.host, hm.lastSize, hpad]
      exact h.upToDate (hpending ▸ hclean) hn

theorem found (h : s.Follows host n) : s.host.size.1 = host.sizeAt n :=
  s.host.size_eq.trans (h.sizes 0)

theorem same_iff (h : s.Follows host n) : s.host.size.1 = s.lastSize ↔ host.Settled n := by
  rw [h.found, h.lastSize, h.proper.settled_iff]

/-- Where the size stays, a refresh leaves the pad on the screen, shown now or before. -/
theorem refresh_settled (h : s.Follows host n) (hsettled : host.Settled n) (changed : Bool) :
    (s.refresh changed).UpToDate ∧ (s.refresh changed).lastSize = host.sizeAt n := by
  have hsame : s.host.size.1 = s.lastSize := h.same_iff.mpr hsettled
  rw [← h.found, hsame]
  cases s.refreshed changed with
  | shown _ heq =>
    rw [heq, UpToDate, Host.callAll_eq]
    exact ⟨⟨s.pad, by simp, rfl⟩, rfl⟩
  | idle _ hclean _ heq =>
    have hlast := h.upToDate hclean hsettled.pos
    rw [UpToDate] at hlast
    rw [heq, UpToDate, Host.callAll_eq, Array.appendList_nil, Host.calls_size]
    exact ⟨hlast, rfl⟩
  | cleared hmoved => exact absurd hsame hmoved

theorem refresh_due (h : s.Follows host n) (hsettled : host.Settled n) (hpending : s.pending = true)
    (changed : Bool) : s.refresh changed = { s with
      host := s.host.size.2.callAll
        [.showPad ((host.sizeAt n).1 - 1) ((host.sizeAt n).2 - 1) s.pad]
      pad := { s.pad with writes := 0 }, pending := false } := by
  have hsame : s.host.size.1 = s.lastSize := h.same_iff.mpr hsettled
  cases s.refreshed changed with
  | shown _ heq => rw [heq, ← hsame, h.found]
  | idle _ hclean => exact absurd (hclean.symm.trans hpending) (by decide)
  | cleared hmoved => exact absurd hsame hmoved

theorem refresh_moved (h : s.Follows host n) (hmoved : ¬ host.Settled n) (changed : Bool) :
    s.refresh changed = { s with
      host := s.host.size.2.callAll (clearing host.resizable (host.sizeAt n))
      lastSize := host.sizeAt n, pending := true } := by
  cases s.refreshed changed with
  | shown hsame | idle hsame => exact absurd (h.same_iff.mp hsame) hmoved
  | cleared _ heq => rw [heq, h.found, h.resizable]

theorem refresh (h : s.Follows host n) (changed : Bool) :
    (s.refresh changed).Follows host (n + 1) := by
  obtain ⟨calls, -, hhost⟩ := s.refresh_host changed
  rw [Host.callAll_eq] at hhost
  refine ⟨h.proper, fun i => ?_, ?_, ?_, fun hclean _ => ?_⟩
  · rw [hhost]
    calc
      s.host.size.2.sizeAt i = s.host.sizeAt (i + 1) := s.host.sizeAt_size i
      _ = host.sizeAt (n + (i + 1)) := h.sizes (i + 1)
      _ = host.sizeAt (n + 1 + i) := congrArg host.sizeAt (by omega)
  · rw [hhost]
    exact s.host.resizable_size.trans h.resizable
  · by_cases hsettled : host.Settled n
    · exact (h.refresh_settled hsettled changed).2
    · rw [h.refresh_moved hsettled]
      rfl
  · by_cases hsettled : host.Settled n
    · exact (h.refresh_settled hsettled changed).1
    · rw [h.refresh_moved hsettled] at hclean
      cases hclean

variable [Room]

theorem receive (h : s.Follows host n) (hkeeps : signal.KeepsSize) :
    (s.receive signal).state.Follows host (n + refreshes [signal]) := by
  cases hr : signal.isRefresh with
  | true =>
    cases signal with
    | refresh changed => exact h.refresh changed
    | resolution | pixel | title => cases hr
  | false =>
    have hnone : refreshes [signal] = 0 := by simp [refreshes, hr]
    rw [hnone]
    exact h.marks (receive_marks s hkeeps hr)

theorem after (h : s.Follows host n) (hkeeps : ∀ signal ∈ signals, signal.KeepsSize) :
    (s.after signals).Follows host (n + refreshes signals) := by
  induction signals generalizing s n with
  | nil => exact h
  | cons signal rest ih =>
    obtain ⟨hsignal, hrest⟩ := List.forall_mem_cons.mp hkeeps
    rw [refreshes_cons, ← Nat.add_assoc]
    exact ih (h.receive hsignal) hrest

theorem pending_receive (h : s.Follows host n) (hkeeps : signal.KeepsSize)
    (hmoved : ∀ i < refreshes [signal], ¬ host.Settled (n + i)) (hpending : s.pending = true) :
    (s.receive signal).state.pending = true := by
  cases hr : signal.isRefresh with
  | true =>
    cases signal with
    | refresh changed =>
      change (s.refresh changed).pending = true
      rw [h.refresh_moved (hmoved 0 Nat.one_pos)]
    | resolution | pixel | title => cases hr
  | false =>
    obtain hmarked | ⟨-, hkept⟩ := (receive_marks s hkeeps hr).pad
    · exact hmarked
    · exact hkept.trans hpending

theorem pending_after (h : s.Follows host n) (hkeeps : ∀ signal ∈ signals, signal.KeepsSize)
    (hmoved : ∀ i < refreshes signals, ¬ host.Settled (n + i)) (hpending : s.pending = true) :
    (s.after signals).pending = true := by
  induction signals generalizing s n with
  | nil => exact hpending
  | cons signal rest ih =>
    obtain ⟨hsignal, hrest⟩ := List.forall_mem_cons.mp hkeeps
    rw [refreshes_cons] at hmoved
    refine ih (h.receive hsignal) hrest (fun i hi => ?_)
      (h.pending_receive hsignal (fun i hi => hmoved i (by omega)) hpending)
    rw [Nat.add_assoc]
    exact hmoved _ (by omega)

end Follows

variable {opened : Screen} {scale : Option (Setting Int)} {mode : Setting Int}

theorem setResolution_keeps [Room] (s : Screen) (width height : Int) :
    let t := (s.setResolution width height).state
    t.host.sizes = s.host.sizes ∧ t.host.resizable = s.host.resizable ∧ t.lastSize = s.lastSize :=
  keeps_andThen (P := fun t : Screen => t.host.sizes = s.host.sizes ∧
    t.host.resizable = s.host.resizable ∧ t.lastSize = s.lastSize) ⟨rfl, rfl, rfl⟩ fun _ _ h => h

theorem start_keeps [Room] (h : (start host scale mode).result = .ok opened) :
    opened.host.sizes = host.sizes ∧ opened.host.resizable = host.resizable ∧
      opened.lastSize = (-1, -1) := by
  have hstart : (start host scale mode).Succeeds := ⟨opened, h⟩
  unfold start at hstart
  obtain ⟨n, hn, hstart⟩ := succeeds_andThen_iff.mp hstart
  obtain ⟨⟨⟩, hr, -⟩ := succeeds_andThen_iff.mp hstart
  rw [start_of_room host mode hn hr] at h
  simp only at h
  split at h
  · obtain rfl := Except.ok.inj h
    obtain ⟨hsizes, hresizable⟩ := (host.call .start).setCursor_keeps mode
    refine ⟨?_, ?_, ?_⟩
    · exact (setResolution_keeps _ 0 0).1.trans hsizes
    · exact (setResolution_keeps _ 0 0).2.1.trans hresizable
    · exact (setResolution_keeps _ 0 0).2.2
  · cases h

theorem follows_start [Room] (hp : host.Proper) (h : (start host scale mode).result = .ok opened)
    (width height : Int) : (opened.setResolution width height).state.Follows host 0 := by
  obtain ⟨hsizes, hresizable, hlast⟩ := start_keeps h
  obtain ⟨hsizes', hresizable', hlast'⟩ := opened.setResolution_keeps width height
  exact {
    proper := hp
    sizes i := by
      rw [Nat.zero_add, Host.sizeAt, hsizes', hsizes]
      rfl
    resizable := hresizable'.trans hresizable
    lastSize := hlast'.trans hlast
    upToDate _ hn := absurd hn (Nat.lt_irrefl 0) }

end Screen

end Terminal

end ChipEight
