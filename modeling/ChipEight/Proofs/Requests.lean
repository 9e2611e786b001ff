import ChipEight.Proofs.Execution
import ChipEight.Proofs.Overhang

/-!
# Requests to a memory

A memory is resized, read, written and cleared in any order, at any addresses.  All along it is an
array with an end: what lies inside is found again and nothing else is touched, and what does not
lie inside is refused and touches nothing.
-/

namespace ChipEight

open Attempt

namespace Bank

variable {α : Type} {b c : Bank α} {address : Int}

theorem read_eq (b : Bank α) (address : Int) :
    b.read address = (b.get? address).elim (.error (.fault (.outOfBounds address))) .ok := by
  unfold read
  split
  · rename_i h
    have hlt := h.lt_size
    have hcell : b.get? address = some b.cells[address.toNat] := by
      rw [get?, if_pos h.1, Array.getElem?_eq_getElem h.lt_size]
    rw [hcell]
    rfl
  · rename_i h
    rw [(b.get?_eq_none_iff address).mpr h]
    rfl

theorem read_congr (h : b.get? address = c.get? address) : b.read address = c.read address := by
  rw [read_eq, read_eq, h]

theorem read_of_some {value : α} (h : b.get? address = some value) : b.read address = .ok value :=
  (b.read_eq_ok_iff address value).mpr h

theorem fits_iff {size : Int} (h : 0 ≤ size) :
    b.Fits address size ↔ size = 0 ∨ 0 ≤ address ∧ address + size ≤ b.size := by
  unfold Fits
  omega

theorem succeeds_access_iff [Inhabited α] (b : Bank α) (address : Int) (a : Access α) :
    (b.access address a).Succeeds ↔ b.Fits address a.size := by
  unfold Succeeds
  rw [result_access, ← checkRange_eq_ok_iff]
  exact ⟨fun ⟨⟨⟩, h⟩ => h, fun h => ⟨(), h⟩⟩

theorem size_access [Inhabited α] (b : Bank α) (address : Int) (a : Access α) :
    (b.access address a).state.size = b.size := by
  cases a with
  | read size => rfl
  | write block => exact size_writeBlock b address block
  | zero size =>
    change (b.zeroBlock address size).state.size = b.size
    cases h : b.checkRange address size with
    | error e => rw [zeroBlock_of_error h]; rfl
    | ok => rw [zeroBlock_of_ok h]; exact size_putList b address _

theorem writeBlock_of_succeeds [Inhabited α] {block : List α}
    (h : (b.writeBlock address block).Succeeds) :
    b.Fits address block.length ∧
      b.writeBlock address block = .succeed (b.putList address block) () := by
  have hfits := (b.succeeds_access_iff address (.write block)).mp h
  exact ⟨hfits, writeBlock_of_ok (checkRange_of_fits hfits)⟩

theorem zeroBlock_of_succeeds [Inhabited α] {size : Int} (h : (b.zeroBlock address size).Succeeds) :
    b.Fits address size ∧ b.zeroBlock address size =
      .succeed (b.putList address (List.replicate size.toNat default)) () := by
  have hfits := (b.succeeds_access_iff address (.zero size)).mp h
  exact ⟨hfits, zeroBlock_of_ok (checkRange_of_fits hfits)⟩

theorem readBlock_eq_ok {size : Nat} {block : List α} (h : b.readBlock address size = .ok block) :
    block.length = size ∧ ∀ i < size, block[i]? = b.get? (address + i) := by
  cases hr : b.checkRange address size with
  | error e =>
    rw [readBlock_of_error hr] at h
    cases h
  | ok =>
    obtain ⟨block', hblock, hcells⟩ := readBlock_of_ok hr
    obtain rfl := Except.ok.inj (h.symm.trans hblock)
    exact hcells

theorem readBlock_putList {block : List α} (h : b.Fits address block.length) :
    (b.putList address block).readBlock address block.length = .ok block := by
  have hfits : (b.putList address block).Fits address block.length := by
    unfold Fits
    rw [size_putList]
    exact h
  obtain ⟨block', hread, hlength, hcells⟩ := readBlock_of_ok (checkRange_of_fits hfits)
  rw [hread]
  refine congrArg Except.ok (List.ext_getElem? fun i => ?_)
  by_cases hi : i < block.length
  · have hplace : (address + i - address).toNat = i := by omega
    rw [hcells i hi, get?_putList h, if_pos (by omega), hplace]
  · rw [List.getElem?_eq_none (by omega), List.getElem?_eq_none (by omega)]

theorem read_putList_of_outside {block : List α} {i : Int}
    (h : ¬ (address ≤ i ∧ i < address + block.length)) :
    (b.putList address block).read i = b.read i :=
  read_congr (get?_putList_of_outside (by omega))

section Blank

variable [Inhabited α]

theorem read_zeroes {size : Nat} (h : b.Fits address size) (i : Int) :
    (b.putList address (List.replicate size default)).read i =
      if address ≤ i ∧ i < address + size then .ok default else b.read i := by
  have hlength : (List.replicate size (default : α)).length = size := List.length_replicate
  split
  · rename_i hin
    apply read_of_some
    rw [get?_putList (hlength.symm ▸ h), hlength, if_pos hin, List.getElem?_replicate,
      if_pos (by omega)]
  · rename_i hout
    exact read_putList_of_outside (hlength.symm ▸ hout)

/-- To clear a bank is to zero the block of all its cells. -/
theorem zeroBlock_all (h : 0 ≤ b.size) : b.zeroBlock 0 b.size = .succeed b.clear () := by
  have hfits : b.Fits 0 b.size := .inr ⟨Int.le_refl 0, by omega⟩
  have hlength : ((List.replicate b.size.toNat (default : α)).length : Int) = b.size := by
    rw [List.length_replicate]
    exact Int.toNat_of_nonneg h
  rw [zeroBlock_of_ok (checkRange_of_fits hfits)]
  refine congrArg (Attempt.succeed · ()) (eq_of_get? (size_putList _ _ _) fun i => ?_)
  rw [get?_putList (hlength.symm ▸ hfits), hlength, clear, get?_ofSize, Int.zero_add]
  split
  · rw [List.getElem?_replicate, if_pos (by omega)]
  · rename_i hout
    exact (b.get?_eq_none_iff i).mpr fun hc => hout (covers_iff.mp hc)

theorem read_clear (b : Bank α) (i : Int) :
    b.clear.read i = if 0 ≤ i ∧ i < b.size then .ok default else b.read i := by
  rw [read_eq, clear, get?_ofSize]
  split
  · rfl
  · rename_i hout
    rw [read_eq, (b.get?_eq_none_iff i).mpr fun hc => hout (covers_iff.mp hc)]

end Blank

end Bank

namespace Memory

open Bank

inductive Request
  | resize (size : Nat)
  | read (address : Int)
  | write (address : Int) (value : UInt8)
  | block (address : Int) (access : Access UInt8)
  | clear

/-- A request to a memory, with what is read left aside. -/
def serve [Room] (m : Memory) : Request → Attempt Memory Unit
  | .resize size => (ofExcept m (allocate size)).andThen fun _ fresh => .succeed fresh ()
  | .read address => .ofExcept m ((m.read address).map fun _ => ())
  | .write address value => m.write address value.toNat
  | .block address a => m.access address a
  | .clear => .succeed m.clear ()

def serveAll [Room] (m : Memory) (requests : List Request) : Memory :=
  requests.foldl (fun m request => (m.serve request).state) m

variable {m : Memory} {request : Request} {requests : List Request} {address : Int} {e : Error}

theorem write_of_covers (h : m.Covers address) (value : UInt8) :
    m.write address value.toNat = .succeed (m.put address value) () := by
  have hvalue := value.toNat_lt
  have hbyte : byteOfInt value.toNat = .ok value := by
    rw [byteOfInt_of_bounds (by omega) (by omega), Int.toNat_natCast, UInt8.ofNat_toNat]
  unfold write store
  rw [checkAddress_of_covers h, hbyte]
  simp only [ofExcept_ok, andThen_succeed, checkAddress_of_covers h]

theorem write_of_not_covers (h : ¬ m.Covers address) (value : Int) :
    m.write address value = .refuse m (.fault (.outOfBounds address)) := by
  unfold write
  rw [checkAddress_of_not_covers h]
  rfl

theorem succeeds_resize_iff [Room] (m : Memory) (size : Nat) :
    (m.serve (.resize size)).Succeeds ↔ size ≤ Room.capacity := by
  rw [← Room.check_eq_ok_iff_of_nonneg (Int.natCast_nonneg size)]
  simp only [serve, allocate]
  cases Room.check size with
  | error e => exact iff_of_false (not_succeeds_refuse m e) nofun
  | ok => exact iff_of_true (succeeds_succeed _ ()) rfl

theorem resize_of_succeeds [Room] {size : Nat} (h : (m.serve (.resize size)).Succeeds) :
    m.serve (.resize size) = .succeed (ofSize size) () := by
  simp only [serve, allocate] at h ⊢
  cases hroom : Room.check size with
  | error e =>
    rw [hroom] at h
    exact absurd h (not_succeeds_refuse m e)
  | ok => rfl

theorem read_ofSize (size i : Int) :
    (ofSize size : Memory).read i =
      if 0 ≤ i ∧ i < size then .ok 0 else .error (.fault (.outOfBounds i)) := by
  rw [read_eq, get?_ofSize]
  split
  · rfl
  · rfl

/-- A request is refused and touches nothing, or it leaves a memory that has an end. -/
theorem serve_cases [Room] (h : 0 ≤ m.size) (request : Request) :
    (∃ e, m.serve request = .refuse m e) ∨
      ∃ t : Memory, m.serve request = .succeed t () ∧ 0 ≤ t.size := by
  cases request with
  | resize size =>
    simp only [serve, allocate]
    cases Room.check size with
    | error e => exact .inl ⟨e, rfl⟩
    | ok => exact .inr ⟨ofSize size, rfl, Int.natCast_nonneg size⟩
  | read address =>
    simp only [serve]
    cases m.read address with
    | error e => exact .inl ⟨e, rfl⟩
    | ok value => exact .inr ⟨m, rfl, h⟩
  | write address value =>
    by_cases hc : m.Covers address
    · exact .inr ⟨m.put address value, write_of_covers hc value, h⟩
    · exact .inl ⟨_, write_of_not_covers hc value.toNat⟩
  | block address a =>
    cases hr : m.checkRange address a.size with
    | error e => exact .inl ⟨e, m.access_of_error address a hr⟩
    | ok =>
      have hresult : (m.access address a).result = .ok () := (m.result_access address a).trans hr
      exact .inr ⟨_, eq_succeed hresult, (m.size_access address a).symm ▸ h⟩
  | clear => exact .inr ⟨m.clear, rfl, h⟩

theorem size_serveAll [Room] (h : 0 ≤ m.size) (requests : List Request) :
    0 ≤ (m.serveAll requests).size := by
  induction requests generalizing m with
  | nil => exact h
  | cons request rest ih =>
    refine ih (m := (m.serve request).state) ?_
    obtain ⟨e, hrefused⟩ | ⟨t, hserved, ht⟩ := serve_cases h request
    · rwa [hrefused]
    · rwa [hserved]

/-- A memory that starts without cells is an array with an end, whatever is asked of it.  A new size
is granted where there is room, and gives it as many zeros.  A block is served just when it lies inside.  What was written is read back,
zeroing and clearing reach their cells only, and a request that is refused touches nothing. -/
theorem array_law [Room] (requests : List Request) :
    let m := serveAll (ofSize 0) requests
    (m.cells.size = m.size ∧ m.size = m.top + 1) ∧
    (∀ size : Nat, ((m.serve (.resize size)).Succeeds ↔ size ≤ Room.capacity) ∧
      ((m.serve (.resize size)).Succeeds →
        let t := (m.serve (.resize size)).state
        t.size = size ∧
          ∀ i, t.read i = if 0 ≤ i ∧ i < size then .ok 0 else .error (.fault (.outOfBounds i)))) ∧
    (∀ address (a : Access UInt8), 0 ≤ a.size → ((m.access address a).Succeeds ↔
      a.size = 0 ∨ 0 ≤ address ∧ address + a.size ≤ m.size)) ∧
    (∀ address block, (m.writeBlock address block).Succeeds →
      let t := (m.writeBlock address block).state
      t.readBlock address block.length = .ok block ∧
        ∀ i, ¬ (address ≤ i ∧ i < address + block.length) → t.read i = m.read i) ∧
    (∀ address (size : Nat), (m.zeroBlock address size).Succeeds →
      ∀ i, (m.zeroBlock address size).state.read i =
        if address ≤ i ∧ i < address + size then .ok 0 else m.read i) ∧
    (m.zeroBlock 0 m.size = .succeed m.clear () ∧
      ∀ i, m.clear.read i = if 0 ≤ i ∧ i < m.size then .ok 0 else m.read i) ∧
    (∀ address (size : Nat) block, m.readBlock address size = .ok block →
      block.length = size ∧ ∀ i (hi : i < block.length), m.read (address + i) = .ok block[i]) ∧
    ∀ request e, (m.serve request).result = .error e → m.serve request = .refuse m e := by
  intro m
  have hm : 0 ≤ m.size := size_serveAll (Int.le_refl 0) requests
  have hcells : (m.cells.size : Int) = m.size := by
    rw [m.size_cells]
    exact Int.toNat_of_nonneg hm
  refine ⟨⟨hcells, by rw [m.top_eq, Int.sub_add_cancel]⟩,
    fun size => ⟨m.succeeds_resize_iff size, fun hs => ?_⟩, fun address a ha => ?_,
    fun address block hw => ?_, fun address size hz => ?_, ⟨zeroBlock_all hm, m.read_clear⟩,
    fun address size block hr => ?_, fun request e he => ?_⟩
  · rw [resize_of_succeeds hs]
    exact ⟨rfl, read_ofSize size⟩
  · rw [succeeds_access_iff, fits_iff ha]
  · obtain ⟨hfits, hwritten⟩ := writeBlock_of_succeeds hw
    rw [hwritten]
    exact ⟨readBlock_putList hfits, fun i => read_putList_of_outside⟩
  · obtain ⟨hfits, hzeroed⟩ := zeroBlock_of_succeeds hz
    rw [hzeroed]
    exact read_zeroes hfits
  · obtain ⟨hlength, hblock⟩ := readBlock_eq_ok hr
    refine ⟨hlength, fun i hi => read_of_some ?_⟩
    rw [← hblock i (hlength ▸ hi), List.getElem?_eq_getElem hi]
  · obtain ⟨e', hrefused⟩ | ⟨t, hserved, -⟩ := serve_cases hm request
    · rw [hrefused] at he ⊢
      obtain rfl := Except.error.inj he
      rfl
    · rw [hserved] at he
      cases he

end Memory

end ChipEight
