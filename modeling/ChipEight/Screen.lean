import ChipEight.Frame
/-!
# A screen without a window

It keeps the frame it was shown last and counts frames and beeps.  It writes that frame in strips
as they lie in the buffer, where the text of a frame (`Frame.text`) goes by coordinates.
-/

namespace ChipEight

namespace Frame

/-- The cells of a buffer in strips as wide as a frame, to its end. -/
def strips (cells : List Bool) : List (List Bool) :=
  if cells.isEmpty then []
  else cells.take Platform.frameWidth :: strips (cells.drop Platform.frameWidth)
termination_by cells.length
decreasing_by
  rename_i full
  rw [List.isEmpty_iff, ← List.length_eq_zero_iff] at full
  rw [List.length_drop]
  exact Nat.sub_lt (Nat.pos_of_ne_zero full) (by decide)

/-- The text of a frame, written strip by strip. -/
def printed (f : Frame) : String :=
  String.ofList ((strips f.pixels.toList).flatMap fun strip =>
    strip.map (fun on => if on then '#' else '.') ++ ['\n'])

end Frame

/-- What a screen has received. -/
structure Screen where
  frame : Frame := .blank
  frames : Nat := 0
  beeps : Nat := 0

namespace Screen

/-- A frame is received (`refresh`). -/
def showFrame (s : Screen) (f : Frame) : Screen := { s with frame := f, frames := s.frames + 1 }

/-- The buzzer is sounded (`beep`). -/
def beep (s : Screen) : Screen := { s with beeps := s.beeps + 1 }

/-- The frame it was shown last, as text (`dump`). -/
def text (s : Screen) : String := s.frame.printed

end Screen

end ChipEight
