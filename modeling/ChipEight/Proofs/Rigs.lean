import ChipEight.Launch
import ChipEight.Proofs.FrontEnds

/-!
# The three rigs

Screens and keys may be refused for many reasons, but none of them is a fault of the machine.
-/

namespace ChipEight

open Attempt

theorem Room.isFault_of_check [Room] {count : Int} {e : Error} (h : check count = .error e) :
    e.isFault = false := by
  unfold check at h
  split at h
  · split at h
    · cases h
    · cases h
      rfl
  · cases h
    rfl

theorem Setting.isFault_of_number {n : Setting Int} {e : Error} (h : n.number = .error e) :
    e.isFault = false := by
  cases n with
  | value n => cases h
  | blank =>
    cases h
    rfl

theorem Headless.faultless (τ : Type) : (Headless.rig τ).toFrontEnd.Faultless where
  receive h signal := .succeed (h.receive signal) ()
  poll _ _ _ _ hq := nomatch hq

namespace Terminal

namespace Screen

theorem write_faultless (s : Screen) (row column : Int) (text : List Char) (blanks : Int)
    (reversed : Bool) : (s.write row column text blanks reversed).Faultless := by
  unfold write
  split
  · exact .succeed _ ()
  · exact .refuse s rfl

theorem setResolution_faultless [Room] (s : Screen) (width height : Int) :
    (s.setResolution width height).Faultless := by
  unfold setResolution
  refine Faultless.andThen ?_ fun s' _ => .succeed _ ()
  intro e he
  change (if _ then _ else _) = _ at he
  split at he
  · exact Room.isFault_of_check he
  · cases he

theorem setTitle_faultless [Room] (s : Screen) (title : String) : (s.setTitle title).Faultless := by
  unfold setTitle
  refine Faultless.andThen ?_ fun s' _ => .succeed _ ()
  split
  · refine Faultless.andThen (fun e he => Room.isFault_of_check he) fun s' _ => ?_
    exact write_faultless s' _ _ _ _ _
  · exact .succeed s ()

theorem receive_faultless [Room] (s : Screen) (signal : Signal) : (s.receive signal).Faultless := by
  cases signal with
  | resolution width height => exact setResolution_faultless s width height
  | pixel x y lit => exact write_faultless s _ _ _ _ _
  | refresh changed => exact .succeed _ ()
  | title text => exact setTitle_faultless s text

end Screen

theorem faultless [Room] (τ : Type) [Instant τ] : (rig : Rig τ (Station τ)).toFrontEnd.Faultless where
  receive s signal := (s.screen.receive_faultless signal).mapState _
  poll _ _ _ _ hq := nomatch hq

end Terminal

namespace Window

theorem Palette.isFault_of_lookUp {p : Palette} {value : Int} {e : Error}
    (h : p.lookUp value = .error e) : e.isFault = false := by
  unfold lookUp at h
  split at h
  · cases h
  · split at h
    · cases h
    · cases h
      rfl

namespace Surface

theorem refresh_faultless (s : Surface) (changed : Bool) : (s.refresh changed).Faultless := by
  unfold refresh
  split
  · refine Faultless.andThen (fun e he => Setting.isFault_of_number he) fun s' _ => ?_
    exact .succeed _ ()
  · exact .succeed s ()

theorem setResolution_faultless [Room] (s : Surface) (width height : Int) :
    (s.setResolution width height).Faultless := by
  unfold setResolution
  refine Faultless.andThen (fun e he => Room.isFault_of_check he) fun s' _ => ?_
  split
  · exact .refuse s' rfl
  · exact refresh_faultless _ true

theorem setPixel_faultless (s : Surface) (x y value : Int) : (s.setPixel x y value).Faultless := by
  unfold setPixel
  refine Faultless.andThen (fun e he => Palette.isFault_of_lookUp he) fun s' _ => ?_
  split
  · exact .succeed _ ()
  · exact .refuse s' rfl

theorem receive_faultless [Room] (s : Surface) (signal : Signal) : (s.receive signal).Faultless := by
  cases signal with
  | resolution width height => exact setResolution_faultless s width height
  | pixel x y lit => exact setPixel_faultless s x y _
  | refresh changed => exact refresh_faultless s changed
  | title text => exact .succeed _ ()

end Surface

theorem faultless [Room] (τ : Type) : (rig τ).toFrontEnd.Faultless where
  receive s signal := (s.surface.receive_faultless signal).mapState _
  poll _ _ _ _ hq := nomatch hq

end Window

end ChipEight
