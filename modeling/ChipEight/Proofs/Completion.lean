import ChipEight.Attempt

/-!
# How attempts end

Laws of attempts made of several parts.  A property that every part keeps holds of the state
that was reached, also where a part was refused.  If no part is refused, neither is the whole.
-/

namespace ChipEight.Attempt

variable {σ α β ε : Type} {P Q : σ → Prop}

theorem of_bind_eq_ok {x : Except ε α} {f : α → Except ε β} {b : β} (h : x >>= f = .ok b) :
    ∃ a, x = .ok a ∧ f a = .ok b := by
  cases x with
  | error e => cases h
  | ok a => exact ⟨a, rfl, h⟩

theorem of_bind_eq_error {x : Except ε α} {f : α → Except ε β} {e : ε} (h : x >>= f = .error e) :
    x = .error e ∨ ∃ a, x = .ok a ∧ f a = .error e := by
  cases x with
  | error e' =>
    obtain rfl := Except.error.inj h
    exact .inl rfl
  | ok a => exact .inr ⟨a, rfl, h⟩

theorem followedBy_of_error {a : Attempt (σ × List ε) α} {e : Error} (h : a.result = .error e)
    (next : σ → α → Attempt (σ × List ε) β) : a.followedBy next = .refuse a.state e := by
  unfold followedBy andThen
  rw [h]

theorem followedBy_of_ok {a : Attempt (σ × List ε) α} {value : α} (h : a.result = .ok value)
    (next : σ → α → Attempt (σ × List ε) β) :
    a.followedBy next =
      (next a.state.1 value).mapState fun after => (after.1, a.state.2 ++ after.2) := by
  unfold followedBy andThen
  rw [h]

theorem followedBy_silent_value (a : Attempt (σ × List ε) α) (f : α → β) :
    (a.followedBy fun state value => .succeed (state, []) (f value)) =
      ⟨a.state, a.result.map f⟩ := by
  cases h : a.result with
  | error e =>
    rw [followedBy_of_error h]
    rfl
  | ok value =>
    rw [followedBy_of_ok h]
    simp only [mapState_succeed, List.append_nil]
    rfl

/-- To look at the state and at what was sent in another way, it does not matter whether that is
done at the end or on the way. -/
theorem map_followedBy {ρ : Type} {f : σ → ρ} {g : List ε → List ε}
    (hg : ∀ before after, g (before ++ after) = g before ++ g after) (a : Attempt (σ × List ε) α)
    {next : σ → α → Attempt (σ × List ε) β} {next' : ρ → α → Attempt (ρ × List ε) β}
    (h : ∀ state value, next' (f state) value =
      (next state value).mapState fun after => (f after.1, g after.2)) :
    (a.mapState fun after => (f after.1, g after.2)).followedBy next' =
      (a.followedBy next).mapState fun after => (f after.1, g after.2) := by
  obtain ⟨⟨state, sent⟩, result⟩ := a
  cases result with
  | error e => rfl
  | ok value =>
    rw [followedBy_of_ok rfl, followedBy_of_ok rfl]
    change ((next' (f state) value).mapState _) = _
    rw [h]
    simp only [mapState, hg]

theorem mapState_followedBy {ρ : Type} {f : σ → ρ} (a : Attempt (σ × List ε) α)
    {next : σ → α → Attempt (σ × List ε) β} {next' : ρ → α → Attempt (ρ × List ε) β}
    (h : ∀ state value, next' (f state) value =
      (next state value).mapState fun after => (f after.1, [])) :
    (a.mapState fun after => (f after.1, [])).followedBy next' =
      (a.followedBy next).mapState fun after => (f after.1, []) :=
  map_followedBy (g := fun _ => []) (fun _ _ => rfl) a h

theorem keeps_followedBy {a : Attempt (σ × List ε) α} {next : σ → α → Attempt (σ × List ε) β}
    (ha : P a.state.1) (hn : ∀ state value, P state → P (next state value).state.1) :
    P (a.followedBy next).state.1 := by
  cases h : a.result with
  | error e =>
    rw [followedBy_of_error h]
    exact ha
  | ok value =>
    rw [followedBy_of_ok h]
    exact hn a.state.1 value ha

theorem sent_followedBy {a : Attempt (σ × List ε) α} {next : σ → α → Attempt (σ × List ε) β}
    (ha : a.state.2 = []) (hn : ∀ state value, (next state value).state.2 = []) :
    (a.followedBy next).state.2 = [] := by
  cases h : a.result with
  | error e =>
    rw [followedBy_of_error h]
    exact ha
  | ok value =>
    rw [followedBy_of_ok h]
    exact List.append_eq_nil_iff.mpr ⟨ha, hn a.state.1 value⟩

theorem andThen_of_error {a : Attempt σ α} {e : Error} (h : a.result = .error e)
    (next : σ → α → Attempt σ β) : a.andThen next = .refuse a.state e := by
  unfold andThen
  rw [h]

theorem andThen_of_ok {a : Attempt σ α} {value : α} (h : a.result = .ok value)
    (next : σ → α → Attempt σ β) : a.andThen next = next a.state value := by
  unfold andThen
  rw [h]

theorem of_andThen {a : Attempt σ α} {next : σ → α → Attempt σ β} {state : σ} {value : β}
    (h : a.andThen next = .succeed state value) :
    ∃ state' value', a = .succeed state' value' ∧ next state' value' = .succeed state value := by
  obtain ⟨state', result⟩ := a
  cases result with
  | error e => cases h
  | ok value' => exact ⟨state', value', rfl, h⟩

theorem keeps_andThen {a : Attempt σ α} {next : σ → α → Attempt σ β} (ha : P a.state)
    (hn : ∀ state value, P state → P (next state value).state) : P (a.andThen next).state := by
  obtain ⟨state, result⟩ := a
  cases result with
  | error e => exact ha
  | ok value => exact hn state value ha

/-- The attempt is not refused. -/
def Succeeds (a : Attempt σ α) : Prop := ∃ value, a.result = .ok value

theorem exists_eq_ok {result : Except Error α} (h : result.toOption.isSome = true) :
    ∃ value, result = .ok value := by
  cases result with
  | error e => cases h
  | ok value => exact ⟨value, rfl⟩

theorem eq_succeed {a : Attempt σ α} {value : α} (h : a.result = .ok value) :
    a = .succeed a.state value := by
  obtain ⟨state, result⟩ := a
  cases h
  rfl

theorem eq_refuse_of_not_succeeds {a : Attempt σ α} (h : ¬ a.Succeeds) :
    ∃ e, a = .refuse a.state e := by
  obtain ⟨state, result⟩ := a
  cases result with
  | error e => exact ⟨e, rfl⟩
  | ok value => exact absurd ⟨value, rfl⟩ h

theorem succeeds_succeed (state : σ) (value : α) : (succeed state value).Succeeds := ⟨value, rfl⟩

theorem not_succeeds_refuse (state : σ) (e : Error) :
    ¬ (refuse state e : Attempt σ α).Succeeds := by
  rintro ⟨value, ⟨⟩⟩

theorem succeeds_andThen_iff {a : Attempt σ α} {next : σ → α → Attempt σ β} :
    (a.andThen next).Succeeds ↔
      ∃ value, a.result = .ok value ∧ (next a.state value).Succeeds := by
  obtain ⟨state, result⟩ := a
  cases result with
  | error e =>
    constructor
    · exact fun h => absurd h (not_succeeds_refuse state e)
    · rintro ⟨value, ⟨⟩, -⟩
  | ok value =>
    constructor
    · exact fun h => ⟨value, rfl, h⟩
    · rintro ⟨_, ⟨⟩, h⟩
      exact h

/-- If the attempt is refused, that is for another cause than a fault of the machine. -/
def Faultless (a : Attempt σ α) : Prop := ∀ e, a.result = .error e → e.isFault = false

namespace Faultless

theorem succeed (state : σ) (value : α) : (Attempt.succeed state value).Faultless :=
  fun _ h => nomatch h

theorem refuse (state : σ) {e : Error} (h : e.isFault = false) :
    (Attempt.refuse state e : Attempt σ α).Faultless := by
  rintro _ ⟨⟩
  exact h

theorem mapState {ρ : Type} {a : Attempt σ α} (h : a.Faultless) (f : σ → ρ) :
    (a.mapState f).Faultless := h

theorem andThen {a : Attempt σ α} {next : σ → α → Attempt σ β} (ha : a.Faultless)
    (hn : ∀ state value, (next state value).Faultless) : (a.andThen next).Faultless := by
  obtain ⟨state, result⟩ := a
  cases result with
  | error e => exact .refuse state (ha e rfl)
  | ok value => exact hn state value

end Faultless

/-- The attempt succeeds, in a state with the property. -/
def Completes (P : σ → Prop) (a : Attempt (σ × List ε) α) : Prop :=
  (∃ value, a.result = .ok value) ∧ P a.state.1

theorem Completes.succeed {state : σ} (h : P state) (sent : List ε) (value : α) :
    Completes P (succeed (state, sent) value) := ⟨⟨value, rfl⟩, h⟩

theorem Completes.mono {a : Attempt (σ × List ε) α} (h : a.Completes P)
    (hpq : ∀ state, P state → Q state) : a.Completes Q := ⟨h.1, hpq a.state.1 h.2⟩

theorem Completes.followedBy {a : Attempt (σ × List ε) α}
    {next : σ → α → Attempt (σ × List ε) β} (ha : a.Completes P)
    (hn : ∀ state value, P state → (next state value).Completes Q) :
    (a.followedBy next).Completes Q := by
  obtain ⟨⟨value, hv⟩, hp⟩ := ha
  rw [followedBy_of_ok hv]
  exact hn a.state.1 value hp

end ChipEight.Attempt
