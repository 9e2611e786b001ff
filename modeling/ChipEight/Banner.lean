/-!
# What the program says about itself
-/

namespace ChipEight.Banner

def name : String := "PyChip8 Interpreter"

def version : String := "1.0.0"

def rights : String :=
  "Copyright (C) 2022 Gregory Maynard-Hoare, licensed under GNU Affero General Public License v3.0"

def intro : String := name ++ " V" ++ version ++ " -- "

/-- The window title, with the frames and operations counted over the last second. -/
def title (frames operations : Int) : String :=
  name ++ " - " ++ toString frames ++ " FPS, " ++ toString operations ++ " OPS"

end ChipEight.Banner
