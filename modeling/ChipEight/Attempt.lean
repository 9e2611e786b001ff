import ChipEight.Error

/-!
# Attempts

Work on a state that may be refused on the way.  Unlike a plain refusal, an attempt keeps the
state it came to: calls already made on the outside world are not undone.
-/

namespace ChipEight

/-- The state that was reached, and the result or the cause of the refusal. -/
structure Attempt (σ α : Type) where
  state : σ
  result : Except Error α

namespace Attempt

variable {σ ρ α β ε : Type}

def succeed (state : σ) (value : α) : Attempt σ α := ⟨state, .ok value⟩

def refuse (state : σ) (e : Error) : Attempt σ α := ⟨state, .error e⟩

@[inline] def andThen (a : Attempt σ α) (next : σ → α → Attempt σ β) : Attempt σ β :=
  match a.result with
  | .ok value => next a.state value
  | .error e => refuse a.state e

def mapState (a : Attempt σ α) (f : σ → ρ) : Attempt ρ α := ⟨f a.state, a.result⟩

def ofExcept (state : σ) (result : Except Error α) : Attempt σ α := ⟨state, result⟩

/-- Goes on from a success.  What is sent from then on comes behind what was sent before, and a
refusal takes nothing back. -/
def followedBy (a : Attempt (σ × List ε) α) (next : σ → α → Attempt (σ × List ε) β) :
    Attempt (σ × List ε) β :=
  a.andThen fun before value =>
    (next before.1 value).mapState fun after => (after.1, before.2 ++ after.2)

@[simp] theorem andThen_succeed (state : σ) (value : α) (next : σ → α → Attempt σ β) :
    (succeed state value).andThen next = next state value := rfl

@[simp] theorem andThen_refuse (state : σ) (e : Error) (next : σ → α → Attempt σ β) :
    (refuse state e).andThen next = refuse state e := rfl

@[simp] theorem state_succeed (state : σ) (value : α) : (succeed state value).state = state := rfl

@[simp] theorem result_succeed (state : σ) (value : α) :
    (succeed state value).result = .ok value := rfl

@[simp] theorem state_refuse (state : σ) (e : Error) :
    (refuse state e : Attempt σ α).state = state := rfl

@[simp] theorem result_refuse (state : σ) (e : Error) :
    (refuse state e : Attempt σ α).result = .error e := rfl

@[simp] theorem mapState_succeed (state : σ) (value : α) (f : σ → ρ) :
    (succeed state value).mapState f = succeed (f state) value := rfl

@[simp] theorem mapState_refuse (state : σ) (e : Error) (f : σ → ρ) :
    (refuse state e : Attempt σ α).mapState f = refuse (f state) e := rfl

@[simp] theorem ofExcept_ok (state : σ) (value : α) :
    ofExcept state (.ok value) = succeed state value := rfl

@[simp] theorem ofExcept_error (state : σ) (e : Error) :
    (ofExcept state (.error e) : Attempt σ α) = refuse state e := rfl

@[simp] theorem followedBy_refuse (state : σ × List ε) (e : Error)
    (next : σ → α → Attempt (σ × List ε) β) :
    (refuse state e).followedBy next = refuse state e := rfl

@[simp] theorem followedBy_silent (state : σ) (value : α)
    (next : σ → α → Attempt (σ × List ε) β) :
    (succeed (state, []) value).followedBy next = next state value := rfl

end Attempt

end ChipEight
