import ChipEight.Proofs.Picture
import ChipEight.Proofs.Rigs

/-!
# Setting up a terminal

What the parts of a launch need to be set up on a terminal that was taken over, and that nothing
is done to the terminal meanwhile but to draw on it.
-/

namespace ChipEight

open Attempt

variable {τ σ : Type}

namespace FrontEnd

/-- Signals are received to the end if each of them is received for itself, where that does not
depend on those before it. -/
theorem succeeds_receiveAll_iff {f : FrontEnd τ σ} {P : σ → Prop} {A : Signal → Prop}
    {signals : List Signal} {state : σ} (hs : P state)
    (h : ∀ signal ∈ signals, ∀ s, P s →
      P (f.receive s signal).state ∧ ((f.receive s signal).Succeeds ↔ A signal)) :
    (f.receiveAll state signals).Succeeds ↔ ∀ signal ∈ signals, A signal := by
  induction signals generalizing state with
  | nil => exact ⟨fun _ => nofun, fun _ => succeeds_succeed state ()⟩
  | cons signal rest ih =>
    obtain ⟨hkept, hsignal⟩ := h signal (List.mem_cons_self ..) state hs
    have hrest := ih hkept fun signal' hmem => h signal' (List.mem_cons_of_mem _ hmem)
    change ((f.receive state signal).andThen fun s _ => f.receiveAll s rest).Succeeds ↔ _
    rw [succeeds_andThen_iff, List.forall_mem_cons, ← hsignal, ← hrest]
    constructor
    · rintro ⟨value, hvalue, hgo⟩
      exact ⟨⟨value, hvalue⟩, hgo⟩
    · rintro ⟨⟨value, hvalue⟩, hgo⟩
      exact ⟨value, hvalue, hgo⟩

end FrontEnd

namespace Launch

theorem require_eq_ok_iff {α : Type} {a : Option α} {value : α} :
    require a = .ok value ↔ a = some value := by
  cases a with
  | none => exact ⟨nofun, nofun⟩
  | some a =>
    constructor
    · exact fun h => congrArg some (Except.ok.inj h)
    · exact fun h => congrArg Except.ok (Option.some.inj h)

theorem text_eq_ok_iff {a : Option (Setting String)} {text : String} :
    (require a >>= Setting.text) = .ok text ↔ a = some (.value text) := by
  cases a with
  | none => exact ⟨nofun, nofun⟩
  | some a =>
    cases a with
    | blank => exact ⟨nofun, nofun⟩
    | value a =>
      constructor
      · rintro ⟨⟩
        rfl
      · rintro ⟨⟩
        rfl

end Launch

namespace Terminal

/-- The call draws, or prepares to. -/
def Call.Draws : Call → Prop
  | .newPad .. | .clearScreen | .refreshScreen | .resize .. | .showPad .. => True
  | .start | .cursor .. | .echo _ | .unbuffered _ | .stop => False

/-- Since the host had made these calls, it only drew. -/
def Host.Drew (before : List Call) (h : Host) : Prop :=
  ∃ drawn, h.calls.toList = before ++ drawn ∧ ∀ c ∈ drawn, c.Draws

theorem Host.toList_call (h : Host) (c : Call) :
    (h.call c).calls.toList = h.calls.toList ++ [c] := Array.toList_push

theorem Host.Drew.call {before : List Call} {h : Host} {c : Call} (hd : h.Drew before)
    (hc : c.Draws) : (h.call c).Drew before := by
  obtain ⟨drawn, hcalls, hdraws⟩ := hd
  refine ⟨drawn ++ [c], ?_, ?_⟩
  · rw [Host.toList_call, hcalls, List.append_assoc]
  · intro c' hmem
    obtain hmem | hmem := List.mem_append.mp hmem
    · exact hdraws c' hmem
    · rw [List.mem_singleton.mp hmem]
      exact hc

theorem Host.calls_size (h : Host) : h.size.2.calls = h.calls := by
  unfold size
  split <;> rfl

theorem Host.resizable_size (h : Host) : h.size.2.resizable = h.resizable := by
  unfold size
  split <;> rfl

def Host.callAll (h : Host) (calls : List Call) : Host := calls.foldl call h

theorem Host.callAll_eq (h : Host) (calls : List Call) :
    h.callAll calls = { h with calls := h.calls ++ calls } := by
  induction calls generalizing h with
  | nil => rw [Array.appendList_nil]; rfl
  | cons c rest ih =>
    change (h.call c).callAll rest = _
    rw [ih, Array.appendList_cons]
    rfl

theorem Host.toList_callAll (h : Host) (calls : List Call) :
    (h.callAll calls).calls.toList = h.calls.toList ++ calls := by
  rw [callAll_eq, Array.toList_appendList]

theorem Host.Drew.callAll {before : List Call} {h : Host} {calls : List Call} (hd : h.Drew before)
    (hcalls : ∀ c ∈ calls, c.Draws) : (h.callAll calls).Drew before := by
  induction calls generalizing h with
  | nil => exact hd
  | cons c rest ih =>
    obtain ⟨hc, hrest⟩ := List.forall_mem_cons.mp hcalls
    exact ih (hd.call hc) hrest

namespace Screen

/-- The calls by which notice is taken of another size. -/
def clearing (resizable : Bool) (size : Int × Int) : List Call :=
  .clearScreen :: (if resizable then [.resize size.1 size.2] else []) ++ [.refreshScreen]

inductive Refreshed (s : Screen) (changed : Bool) : Prop
  | shown (same : s.host.size.1 = s.lastSize)
      (eq : s.refresh changed = { s with
        host := s.host.size.2.callAll [.showPad (s.lastSize.1 - 1) (s.lastSize.2 - 1) s.pad]
        pad := { s.pad with writes := 0 }, pending := false })
  | idle (same : s.host.size.1 = s.lastSize) (clean : s.pending = false) (unasked : changed = false)
      (eq : s.refresh changed = { s with host := s.host.size.2.callAll [] })
  | cleared (moved : s.host.size.1 ≠ s.lastSize)
      (eq : s.refresh changed = { s with
        host := s.host.size.2.callAll (clearing s.host.resizable s.host.size.1)
        lastSize := s.host.size.1, pending := true })

theorem refreshed (s : Screen) (changed : Bool) : s.Refreshed changed := by
  by_cases hsame : s.host.size.1 = s.lastSize
  · by_cases hdue : (s.pending || changed) = true
    · refine .shown hsame ?_
      unfold refresh
      simp only [hsame, hdue, if_true]
      rfl
    · obtain ⟨hclean, hunasked⟩ := Bool.or_eq_false_iff.mp (Bool.eq_false_iff.mpr hdue)
      refine .idle hsame hclean hunasked ?_
      unfold refresh
      simp only [hsame, hdue, if_true]
      rfl
  · refine .cleared hsame ?_
    unfold refresh clearing
    simp only [hsame, if_false]
    rw [← s.host.resizable_size]
    split
    · rename_i hresizable
      rw [if_pos (show s.host.size.2.resizable = true from hresizable)]
      rfl
    · rename_i hfixed
      rw [if_neg (show ¬ s.host.size.2.resizable = true from hfixed)]
      rfl

theorem clearing_draws (resizable : Bool) (size : Int × Int) :
    ∀ c ∈ clearing resizable size, c.Draws := by
  cases resizable <;> simp [clearing, Call.Draws]

theorem refresh_host (s : Screen) (changed : Bool) : ∃ calls : List Call,
    (∀ c ∈ calls, c.Draws) ∧ (s.refresh changed).host = s.host.size.2.callAll calls := by
  cases s.refreshed changed with
  | shown _ heq => exact ⟨_, by simp [Call.Draws], congrArg Screen.host heq⟩
  | idle _ _ _ heq => exact ⟨_, List.forall_mem_nil _, congrArg Screen.host heq⟩
  | cleared _ heq => exact ⟨_, clearing_draws _ _, congrArg Screen.host heq⟩

theorem keeps_setTitle [Room] {P : Screen → Prop} {s : Screen} (h : P s)
    (hwrite : ∀ t text blanks, P t → P (t.write 0 0 text blanks true).state)
    (hname : ∀ t title, P t → P { t with title }) (title : String) :
    P (s.setTitle title).state := by
  refine keeps_andThen (P := P) ?_ fun t _ ht => hname t title ht
  split
  · exact keeps_andThen (P := P) h fun t _ ht => hwrite t _ _ ht
  · exact h

variable {before : List Call}

theorem setResolution_drew [Room] {s : Screen} (h : s.host.Drew before) (width height : Int) :
    (s.setResolution width height).state.host.Drew before :=
  keeps_andThen (P := fun s : Screen => s.host.Drew before) (h.call trivial) fun _ _ hs => hs

theorem write_drew {s : Screen} (h : s.host.Drew before) (row column : Int) (text : List Char)
    (blanks : Int) (reversed : Bool) :
    (s.write row column text blanks reversed).state.host.Drew before := by
  unfold write
  split
  · exact h
  · exact h

theorem setTitle_drew [Room] {s : Screen} (h : s.host.Drew before) (title : String) :
    (s.setTitle title).state.host.Drew before :=
  keeps_setTitle (P := fun s => s.host.Drew before) h
    (fun _ text blanks ht => write_drew ht 0 0 text blanks true) (fun _ _ ht => ht) title

theorem refresh_drew {s : Screen} (h : s.host.Drew before) (changed : Bool) :
    (s.refresh changed).host.Drew before := by
  have hsize : s.host.size.2.Drew before := by
    unfold Host.Drew
    rw [Host.calls_size]
    exact h
  obtain ⟨calls, hdraws, hhost⟩ := s.refresh_host changed
  rw [hhost]
  exact hsize.callAll hdraws

theorem receive_drew [Room] {s : Screen} (h : s.host.Drew before) (signal : Signal) :
    (s.receive signal).state.host.Drew before := by
  cases signal with
  | resolution width height => exact setResolution_drew h width height
  | pixel x y lit => exact write_drew h _ _ _ _ _
  | refresh changed => exact refresh_drew h changed
  | title text => exact setTitle_drew h text

end Screen

theorem keeps_drew [Room] (τ : Type) [Instant τ] (before : List Call) :
    (rig : Rig τ (Station τ)).toFrontEnd.Keeps fun s => s.screen.host.Drew before where
  receive _ signal hs := Screen.receive_drew hs signal
  poll _ _ _ hs := hs

/-- The pad of the screen holds a picture of the standard size, each pixel `n` blanks wide. -/
structure Screen.Padded (n : Int) (s : Screen) : Prop where
  scale : s.scale = n
  width : s.width = 64
  rows : s.pad.rows = 33
  columns : s.pad.columns = (64 * n + 1).toNat

/-- Such a pad has room for the pixel. -/
def Holds (n : Int) : Signal → Prop
  | .pixel x y _ => 0 ≤ y + 1 ∧ y + 1 < 33 ∧ 0 ≤ x * n ∧ x * n + n.toNat ≤ (64 * n + 1).toNat
  | _ => True

namespace Screen

variable {s : Screen} {n : Int}

theorem succeeds_setResolution_iff [Room] (s : Screen) :
    (s.setResolution 64 32).Succeeds ↔ Room.check (64 * s.scale + 1) = .ok () := by
  unfold setResolution
  rw [succeeds_andThen_iff]
  constructor
  · rintro ⟨⟨⟩, hroom, -⟩
    exact hroom
  · intro hroom
    exact ⟨(), hroom, succeeds_succeed _ ()⟩

theorem padded_setResolution [Room] (h : Room.check (64 * s.scale + 1) = .ok ()) :
    (s.setResolution 64 32).state.Padded s.scale := by
  unfold setResolution
  rw [andThen_of_ok (show _ = Except.ok () from h)]
  exact ⟨rfl, rfl, rfl, rfl⟩

theorem succeeds_write_iff (s : Screen) (row column : Int) (text : List Char) (blanks : Int)
    (reversed : Bool) : (s.write row column text blanks reversed).Succeeds ↔
      s.pad.Fits row column (text.length + blanks.toNat) := by
  unfold write
  split
  case isTrue h => exact ⟨fun _ => h, fun _ => succeeds_succeed _ ()⟩
  case isFalse h =>
    exact ⟨fun hs => absurd hs (not_succeeds_refuse s _), fun hfits => absurd hfits h⟩

theorem Padded.write (h : s.Padded n) (row column : Int) (text : List Char) (blanks : Int)
    (reversed : Bool) : (s.write row column text blanks reversed).state.Padded n := by
  unfold Screen.write
  split
  · exact ⟨h.scale, h.width, h.rows, h.columns⟩
  · exact h

theorem succeeds_setTitle [Room] (h : s.Padded n) (hroom : Room.check (64 * n + 1) = .ok ())
    (title : String) : (s.setTitle title).Succeeds := by
  unfold setTitle
  rw [succeeds_andThen_iff, h.width, h.scale]
  split
  case isTrue hshort =>
    have hblanks : Room.check (64 * n - title.length) = .ok () :=
      Room.check_of_le hroom (by omega) (by omega)
    have hfits : s.pad.Fits 0 0 (title.toList.length + (64 * n - title.length).toNat) := by
      have hlength : title.toList.length = title.length := String.length_toList
      unfold Pad.Fits
      rw [h.rows, h.columns]
      omega
    obtain ⟨⟨⟩, hwrite⟩ := (succeeds_write_iff s 0 0 _ _ true).mpr hfits
    refine ⟨(), ?_, succeeds_succeed _ ()⟩
    rw [hblanks]
    exact hwrite
  case isFalse => exact ⟨(), rfl, succeeds_succeed _ ()⟩

theorem Padded.setTitle [Room] (h : s.Padded n) (title : String) :
    (s.setTitle title).state.Padded n :=
  keeps_setTitle h (fun _ text blanks ht => ht.write 0 0 text blanks true)
    (fun _ _ ht => ⟨ht.scale, ht.width, ht.rows, ht.columns⟩) title

theorem succeeds_setPixel_iff (h : s.Padded n) (x y : Int) (lit : Bool) :
    (s.setPixel x y lit).Succeeds ↔ Holds n (.pixel x y lit) := by
  unfold setPixel Holds
  rw [succeeds_write_iff, Pad.Fits, h.scale, h.rows, h.columns]
  simp only [List.length_nil, Nat.zero_add]
  exact Iff.rfl

end Screen

theorem inside_new_iff (toggles : Bool) (x y : Int) :
    (Display.new toggles true).1.Inside x y ↔ 0 ≤ x ∧ x < 64 ∧ 0 ≤ y ∧ y < 32 := Iff.rfl

/-- At a negative scale all pixels but those at the left edge are out of reach. -/
theorem forall_clear_holds_iff (toggles : Bool) (n : Int) :
    (∀ signal ∈ (Display.new toggles true).1.clear.state.2, Holds n signal) ↔ 0 ≤ n := by
  have hmem (signal : Signal) := (Display.new_whole toggles true).mem_clear rfl signal
  constructor
  · intro h
    have hinside : (Display.new toggles true).1.Inside 1 0 :=
      (inside_new_iff toggles 1 0).mpr ⟨by omega, by omega, by omega, by omega⟩
    obtain ⟨-, -, hcolumn, -⟩ := h _ ((hmem _).mpr ⟨1, 0, hinside, rfl⟩)
    omega
  · intro hn signal hsignal
    obtain ⟨x, y, hinside, rfl⟩ := (hmem signal).mp hsignal
    obtain ⟨hx, hwidth, hy, hheight⟩ := (inside_new_iff toggles x y).mp hinside
    have hright : (x + 1) * n ≤ 64 * n := Int.mul_le_mul_of_nonneg_right (by omega) hn
    rw [Int.add_mul, Int.one_mul] at hright
    exact ⟨by omega, by omega, Int.mul_nonneg hx hn, by omega⟩

/-- What the options and the characters typed before the start have to be for the parts to be set
up on a screen whose pixels are `n` blanks wide. -/
structure Serves [Room] (τ : Type) [Instant τ] (o : Options) (n : Int)
    (characters : List Int) : Prop where
  /-- The picture is not written backwards, and there is room for its pad. -/
  picture : 0 ≤ n ∧ 64 * n + 1 ≤ Room.capacity
  keys : ∃ text keymap halt, o.keymap = some (.value text) ∧ Keymap.read true text = .ok keymap ∧
    ((Reader.new keymap).resume characters).result = .ok halt
  modes : o.toggles.isSome ∧ o.traced.isSome
  speed : ∃ given speed, o.speed = some given ∧ given.mapM Setting.number = .ok speed ∧
    ∃ interval : Option τ, Session.intervalOf speed = .ok interval

variable [Instant τ] {o : Options} {screen : Screen} {characters : List Int} {s : Station τ}

theorem succeeds_attach_iff (s : Station τ) (text : String) :
    (s.attach text).Succeeds ↔ ∃ keymap halt, Keymap.read true text = .ok keymap ∧
      ((Reader.new keymap).resume s.characters).result = .ok halt := by
  unfold Station.attach
  rw [succeeds_andThen_iff]
  constructor
  · rintro ⟨keymap, hkeymap, hread⟩
    obtain ⟨halt, hhalt, -⟩ := succeeds_andThen_iff.mp hread
    exact ⟨keymap, halt, hkeymap, hhalt⟩
  · rintro ⟨keymap, halt, hkeymap, hhalt⟩
    exact ⟨keymap, hkeymap, succeeds_andThen_iff.mpr ⟨halt, hhalt, succeeds_succeed _ ()⟩⟩

theorem attach_screen (s : Station τ) (text : String) : (s.attach text).state.screen = s.screen := by
  refine keeps_andThen (P := fun s' : Station τ => s'.screen = s.screen) rfl fun s' _ hs => ?_
  exact keeps_andThen (P := fun s' : Station τ => s'.screen = s.screen) hs fun _ _ hs => hs

theorem attach_drew {before : List Call} (s : Station τ) (text : String)
    (hs : s.screen.host.Drew before) : (s.attach text).state.screen.host.Drew before := by
  rw [attach_screen]
  exact hs

theorem keeps_characters [Room] (τ : Type) [Instant τ] (characters : List Int) :
    (rig : Rig τ (Station τ)).toFrontEnd.Keeps fun s => s.characters = characters where
  receive _ _ hs := hs
  poll _ _ _ hs := hs

theorem new_signals (toggles : Bool) :
    (Display.new toggles true).2 = [.resolution 64 32, .title (Banner.title 0 0)] := rfl

theorem succeeds_introduction_iff [Room] (toggles : Bool) (s : Station τ) :
    ((rig : Rig τ (Station τ)).receiveAll s (Display.new toggles true).2).Succeeds ↔
      Room.check (64 * s.screen.scale + 1) = .ok () := by
  rw [← Screen.succeeds_setResolution_iff, new_signals, FrontEnd.receiveAll, succeeds_andThen_iff]
  constructor
  · rintro ⟨value, hvalue, -⟩
    exact ⟨value, hvalue⟩
  · rintro ⟨value, hvalue⟩
    have hroom := (Screen.succeeds_setResolution_iff s.screen).mp ⟨value, hvalue⟩
    obtain ⟨⟨⟩, htitle⟩ :=
      Screen.succeeds_setTitle (Screen.padded_setResolution hroom) hroom (Banner.title 0 0)
    exact ⟨value, hvalue, succeeds_andThen_iff.mpr ⟨(), htitle, succeeds_succeed _ ()⟩⟩

theorem padded_introduction [Room] (toggles : Bool)
    (h : Room.check (64 * s.screen.scale + 1) = .ok ()) :
    ((rig : Rig τ (Station τ)).receiveAll s (Display.new toggles true).2).state.screen.Padded
      s.screen.scale := by
  let P : Station τ → Prop := fun s' => s'.screen.Padded s.screen.scale
  have hresolution : P ((rig : Rig τ (Station τ)).receive s (.resolution 64 32)).state :=
    Screen.padded_setResolution h
  rw [new_signals, FrontEnd.receiveAll]
  refine keeps_andThen (P := P) hresolution fun s' _ hs => ?_
  exact keeps_andThen (P := P) (hs.setTitle (Banner.title 0 0)) fun _ _ hs' => hs'

theorem sent_new (display : Display) (capacity : Int) :
    (Machine.new display capacity).2 = display.clear.state.2 := rfl

theorem succeeds_clear_iff [Room] (toggles : Bool) {n : Int} (h : s.screen.Padded n) :
    ((rig : Rig τ (Station τ)).receiveAll s
      (Machine.new (Display.new toggles true).1 Layout.stackDepth).2).Succeeds ↔ 0 ≤ n := by
  rw [sent_new, ← forall_clear_holds_iff toggles n]
  refine FrontEnd.succeeds_receiveAll_iff (P := fun s => s.screen.Padded n) h ?_
  intro signal hsignal s hs
  obtain ⟨x, y, -, rfl⟩ := Display.inside_of_mem_clear hsignal
  exact ⟨hs.write _ _ _ _ _, Screen.succeeds_setPixel_iff hs x y false⟩

theorem succeeds_assemble_iff [Room] (o : Options) (s : Station τ) :
    (Launch.assemble rig o s).Succeeds ↔ Serves τ o s.screen.scale s.characters := by
  have hcharacters (signals : List Signal) :
      ((rig : Rig τ (Station τ)).receiveAll s signals).state.characters = s.characters :=
    (keeps_characters τ s.characters).receiveAll s rfl signals
  -- the keymap is attached between the signals of the display and those of the machine
  have hpadded {toggles : Bool} (text : String)
      (hroom : Room.check (64 * s.screen.scale + 1) = .ok ()) :
      (((rig : Rig τ (Station τ)).receiveAll s (Display.new toggles true).2).state.attach
        text).state.screen.Padded s.screen.scale := by
    rw [attach_screen]
    exact padded_introduction toggles hroom
  unfold Launch.assemble
  constructor
  · intro h
    obtain ⟨toggles, htoggles, h⟩ := succeeds_andThen_iff.mp h
    obtain ⟨⟨⟩, hintroduced, h⟩ := succeeds_andThen_iff.mp h
    obtain ⟨text, htext, h⟩ := succeeds_andThen_iff.mp h
    obtain ⟨⟨⟩, hattached, h⟩ := succeeds_andThen_iff.mp h
    obtain ⟨traced, htraced, h⟩ := succeeds_andThen_iff.mp h
    obtain ⟨⟨⟩, hcleared, h⟩ := succeeds_andThen_iff.mp h
    obtain ⟨given, hgiven, h⟩ := succeeds_andThen_iff.mp h
    obtain ⟨speed, hspeed, h⟩ := succeeds_andThen_iff.mp h
    obtain ⟨interval, hinterval, -⟩ := succeeds_andThen_iff.mp h
    have hroom := (succeeds_introduction_iff toggles s).mp ⟨(), hintroduced⟩
    have hscale := (succeeds_clear_iff toggles (hpadded text hroom)).mp ⟨(), hcleared⟩
    obtain ⟨keymap, halt, hkeymap, hhalt⟩ := (succeeds_attach_iff _ text).mp ⟨(), hattached⟩
    refine ⟨⟨hscale, (Room.check_eq_ok_iff_of_nonneg (by omega)).mp hroom⟩,
      ⟨text, keymap, halt, Launch.text_eq_ok_iff.mp htext, hkeymap, ?_⟩, ⟨?_, ?_⟩,
      ⟨given, speed, Launch.require_eq_ok_iff.mp hgiven, hspeed, interval, hinterval⟩⟩
    · rw [← hcharacters]
      exact hhalt
    · rw [Launch.require_eq_ok_iff.mp htoggles]
      rfl
    · rw [Launch.require_eq_ok_iff.mp htraced]
      rfl
  · rintro ⟨⟨hscale, hcapacity⟩, ⟨text, keymap, halt, htext, hkeymap, hhalt⟩, ⟨htoggles, htraced⟩,
      ⟨given, speed, hgiven, hspeed, interval, hinterval⟩⟩
    obtain ⟨toggles, htoggles⟩ := Option.isSome_iff_exists.mp htoggles
    obtain ⟨traced, htraced⟩ := Option.isSome_iff_exists.mp htraced
    have hroom := (Room.check_eq_ok_iff_of_nonneg (by omega)).mpr hcapacity
    obtain ⟨⟨⟩, hintroduced⟩ := (succeeds_introduction_iff toggles s).mpr hroom
    obtain ⟨⟨⟩, hcleared⟩ := (succeeds_clear_iff toggles (hpadded text hroom)).mpr hscale
    rw [← hcharacters (Display.new toggles true).2] at hhalt
    obtain ⟨⟨⟩, hattached⟩ := (succeeds_attach_iff _ text).mpr ⟨keymap, halt, hkeymap, hhalt⟩
    refine succeeds_andThen_iff.mpr ⟨toggles, Launch.require_eq_ok_iff.mpr htoggles, ?_⟩
    refine succeeds_andThen_iff.mpr ⟨(), hintroduced, ?_⟩
    refine succeeds_andThen_iff.mpr ⟨text, Launch.text_eq_ok_iff.mpr htext, ?_⟩
    refine succeeds_andThen_iff.mpr ⟨(), hattached, ?_⟩
    refine succeeds_andThen_iff.mpr ⟨traced, Launch.require_eq_ok_iff.mpr htraced, ?_⟩
    refine succeeds_andThen_iff.mpr ⟨(), hcleared, ?_⟩
    refine succeeds_andThen_iff.mpr ⟨given, Launch.require_eq_ok_iff.mpr hgiven, ?_⟩
    refine succeeds_andThen_iff.mpr ⟨speed, hspeed, ?_⟩
    exact succeeds_andThen_iff.mpr ⟨interval, hinterval, succeeds_succeed _ _⟩

end Terminal

end ChipEight
