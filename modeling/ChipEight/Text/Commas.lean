/-!
# Fields between commas
-/

namespace ChipEight.Commas

/-- The stretches between the commas, of which there is always one more than commas. -/
def splitList : List Char → List (List Char)
  | [] => [[]]
  | c :: rest =>
    if c = ',' then [] :: splitList rest
    else match splitList rest with
      | [] => [[c]]
      | first :: others => (c :: first) :: others

def split (text : String) : List String := (splitList text.toList).map String.ofList

theorem length_splitList (cs : List Char) : (splitList cs).length = cs.count ',' + 1 := by
  induction cs with
  | nil => rfl
  | cons c rest ih =>
    by_cases h : c = ','
    · simp [splitList, h, ih]
    · rw [splitList, if_neg h, List.count_cons_of_ne h, ← ih]
      cases hs : splitList rest with
      | nil => simp [hs] at ih
      | cons first others => rfl

end ChipEight.Commas
