import ChipEight.Platform
/-!
# Frames and sprites

A frame is a picture of 64 by 32 pixels that are on or off.  Coordinates wrap around on both
axes.  A sprite is a list of bytes, one a row, the leftmost pixel in the most significant bit;
drawing it flips the pixels its bits lie on.
-/

namespace ChipEight

/-- A picture, row by row from the top. -/
structure Frame where
  pixels : Vector Bool 2048
  deriving DecidableEq

/-- A column and a row, before wrapping. -/
structure Point where
  x : Nat
  y : Nat
  deriving DecidableEq, Repr

/-- The place of a point in a frame, after wrapping. -/
def Point.index (p : Point) : Fin 2048 :=
  ⟨p.x % Platform.frameWidth + p.y % Platform.frameHeight * Platform.frameWidth, by
    change p.x % 64 + p.y % 32 * 64 < 2048
    omega⟩

theorem Point.val_index (p : Point) : p.index.val = p.x % 64 + p.y % 32 * 64 := rfl

namespace Frame

def blank : Frame := ⟨Vector.replicate Platform.frameSize false⟩

def isOn (f : Frame) (p : Point) : Bool := f.pixels[p.index]

/-- The frame with the pixel at one point switched over (`xor_pixel`). -/
def flip (f : Frame) (p : Point) : Frame := ⟨f.pixels.set p.index (!f.pixels[p.index])⟩

def flipAll (f : Frame) (ps : List Point) : Frame := ps.foldl flip f

/-- The pixels of one row, from the left. -/
def row (f : Frame) (y : Nat) : List Bool :=
  (List.range Platform.frameWidth).map fun x => f.isOn ⟨x, y⟩

/-- All rows, from the top. -/
def rows (f : Frame) : List (List Bool) :=
  (List.range Platform.frameHeight).map f.row

/-- The frame as text: a line for each row, `#` for a pixel that is on and `.` for one that is
off (`dump_display`). -/
def text (f : Frame) : String :=
  String.ofList (f.rows.flatMap fun r => r.map (fun on => if on then '#' else '.') ++ ['\n'])

theorem isOn_flip (f : Frame) (p q : Point) :
    (f.flip p).isOn q = (f.isOn q != decide (p.index = q.index)) := by
  unfold flip isOn
  by_cases h : p.index = q.index
  · simp [h]
  · have : p.index.val ≠ q.index.val := fun e => h (Fin.ext e)
    simp [h, this]

/-- Frames with the same pixels on are equal. -/
theorem eq_of_isOn {f g : Frame} (h : ∀ p, f.isOn p = g.isOn p) : f = g := by
  obtain ⟨a⟩ := f
  obtain ⟨b⟩ := g
  congr
  apply Vector.ext
  intro i hi
  have place : (⟨i % 64, i / 64⟩ : Point).index = ⟨i, hi⟩ := by
    apply Fin.ext
    rw [Point.val_index]
    change i % 64 % 64 + i / 64 % 32 * 64 = i
    omega
  have same := h ⟨i % 64, i / 64⟩
  simp only [isOn, place] at same
  exact same

end Frame

namespace Sprite

/-- Whether column `c` of a row of a sprite is set, counting from the left. -/
def isSet (b : UInt8) (c : Nat) : Bool := b.toNat.testBit (7 - c)

/-- The points of one row of a sprite whose left end is at `(x, y)`. -/
def rowPoints (b : UInt8) (x y : Nat) : List Point :=
  ((List.range Platform.spriteWidth).filter (isSet b)).map fun c => ⟨x + c, y⟩

/-- The points of a sprite whose upper left corner is at `(x, y)`. -/
def points : List UInt8 → (x y : Nat) → List Point
  | [], _, _ => []
  | b :: rest, x, y => rowPoints b x y ++ points rest x (y + 1)

end Sprite

end ChipEight
