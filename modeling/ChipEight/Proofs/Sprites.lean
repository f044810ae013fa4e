import ChipEight.Frame
import Mathlib.Data.List.Nodup
/-!
# Sprites

A sprite is drawn point after point, and each point is looked at when its turn comes.  A sprite
of at most 32 rows lies on different pixels (`Sprite.nodup_index`), so it makes no difference
whether its points are looked at one by one or all before the first is flipped.
-/

namespace ChipEight

namespace Frame

/-- Whether one of the points is on when its turn to be flipped comes. -/
def hits (f : Frame) : List Point → Bool
  | [] => false
  | p :: rest => f.isOn p || (f.flip p).hits rest

theorem flipAll_append (f : Frame) (ps qs : List Point) :
    f.flipAll (ps ++ qs) = (f.flipAll ps).flipAll qs := by
  simp only [flipAll, List.foldl_append]

theorem hits_append (f : Frame) (ps qs : List Point) :
    f.hits (ps ++ qs) = (f.hits ps || (f.flipAll ps).hits qs) := by
  induction ps generalizing f with
  | nil => simp [hits, flipAll]
  | cons p ps ih => simp only [List.cons_append, hits, ih, Bool.or_assoc]; rfl

theorem isOn_flip_of_ne {f : Frame} {p q : Point} (apart : p.index ≠ q.index) :
    (f.flip p).isOn q = f.isOn q := by
  simp [isOn_flip, apart]

/-- On different pixels all points can be looked at first. -/
theorem hits_eq_any {f : Frame} {ps : List Point} (apart : (ps.map Point.index).Nodup) :
    f.hits ps = ps.any f.isOn := by
  induction ps generalizing f with
  | nil => rfl
  | cons p ps ih =>
    rw [List.map_cons, List.nodup_cons] at apart
    have same : ps.any (f.flip p).isOn = ps.any f.isOn := by
      rw [Bool.eq_iff_iff, List.any_eq_true, List.any_eq_true]
      refine exists_congr fun q => and_congr_right fun mem => ?_
      have other : p.index ≠ q.index := fun same => apart.1 (same ▸ List.mem_map_of_mem mem)
      rw [isOn_flip_of_ne other]
    rw [hits, ih apart.2, same, List.any_cons]

/-- A pixel changes if an odd number of the points lie on it. -/
theorem isOn_flipAll_eq_parity (f : Frame) (ps : List Point) (q : Point) :
    (f.flipAll ps).isOn q =
      (f.isOn q != decide ((ps.map Point.index).count q.index % 2 = 1)) := by
  induction ps generalizing f with
  | nil => simp [flipAll]
  | cons p ps ih =>
    have next : (f.flipAll (p :: ps)).isOn q =
        ((f.flip p).isOn q != decide ((ps.map Point.index).count q.index % 2 = 1)) := ih (f.flip p)
    rw [next, isOn_flip, List.map_cons, List.count_cons]
    by_cases here : p.index = q.index
    · have turned : decide (((ps.map Point.index).count q.index + 1) % 2 = 1) =
          !decide ((ps.map Point.index).count q.index % 2 = 1) := by
        rw [← decide_not, decide_eq_decide]
        omega
      simp [here, turned]
    · simp [here]

/-- On different pixels the flipped points are those that change. -/
theorem isOn_flipAll {f : Frame} {ps : List Point} (apart : (ps.map Point.index).Nodup)
    (q : Point) : (f.flipAll ps).isOn q = (f.isOn q != (ps.map Point.index).contains q.index) := by
  rw [isOn_flipAll_eq_parity, apart.count]
  by_cases mem : q.index ∈ ps.map Point.index
  · rw [if_pos mem, List.contains_iff_mem.2 mem]
    rfl
  · have absent : (ps.map Point.index).contains q.index = false := by simpa using mem
    rw [if_neg mem, absent]
    rfl

/-- The order of the points does not matter. -/
theorem flipAll_eq_of_perm {ps qs : List Point} (perm : ps.Perm qs) (f : Frame) :
    f.flipAll ps = f.flipAll qs := by
  apply eq_of_isOn
  intro q
  rw [isOn_flipAll_eq_parity, isOn_flipAll_eq_parity, (perm.map Point.index).count_eq]

/-- The same points once more, in any order, bring the frame back. -/
theorem flipAll_flipAll_of_perm {ps qs : List Point} (perm : qs.Perm ps) (f : Frame) :
    (f.flipAll ps).flipAll qs = f := by
  apply eq_of_isOn
  intro q
  have even : ((ps ++ qs).map Point.index).count q.index % 2 ≠ 1 := by
    rw [List.map_append, List.count_append, (perm.map Point.index).count_eq]
    omega
  rw [← flipAll_append, isOn_flipAll_eq_parity, decide_eq_false even, Bool.bne_false]

/-- Flipping different pixels changes the frame, unless there are none. -/
theorem flipAll_eq_self_iff {f : Frame} {ps : List Point}
    (apart : (ps.map Point.index).Nodup) : f.flipAll ps = f ↔ ps = [] := by
  constructor
  · intro same
    cases ps with
    | nil => rfl
    | cons p ps =>
      have flipped := isOn_flipAll (f := f) apart p
      rw [same] at flipped
      simp at flipped
  · rintro rfl
    rfl

end Frame

theorem Point.index_eq_iff {p q : Point} :
    p.index = q.index ↔ p.x % 64 = q.x % 64 ∧ p.y % 32 = q.y % 32 := by
  rw [← Fin.val_inj, Point.val_index, Point.val_index]
  omega

namespace Sprite

theorem mem_rowPoints {b : UInt8} {x y : Nat} {p : Point} (mem : p ∈ rowPoints b x y) :
    x ≤ p.x ∧ p.x < x + 8 ∧ p.y = y := by
  simp only [rowPoints, List.mem_map, List.mem_filter, List.mem_range] at mem
  obtain ⟨c, ⟨below, -⟩, rfl⟩ := mem
  exact ⟨Nat.le_add_right .., by simpa using below, rfl⟩

theorem mem_points {bs : List UInt8} {x y : Nat} {p : Point} (mem : p ∈ points bs x y) :
    y ≤ p.y ∧ p.y < y + bs.length := by
  induction bs generalizing y with
  | nil => cases mem
  | cons b bs ih =>
    rw [points, List.mem_append] at mem
    rw [List.length_cons]
    rcases mem with here | below
    · have := mem_rowPoints here
      omega
    · have := ih below
      omega

/-- The points of a sprite are those of the bits that are set. -/
theorem mem_points_iff {bs : List UInt8} {x y : Nat} {p : Point} :
    p ∈ points bs x y ↔
      ∃ r b, bs[r]? = some b ∧ ∃ c < 8, isSet b c = true ∧ p = ⟨x + c, y + r⟩ := by
  induction bs generalizing y with
  | nil => simp [points]
  | cons b bs ih =>
    have row : p ∈ rowPoints b x y ↔ ∃ c < 8, isSet b c = true ∧ p = ⟨x + c, y⟩ := by
      simp only [rowPoints, List.mem_map, List.mem_filter, List.mem_range, and_assoc, eq_comm]
    rw [points, List.mem_append, row, ih]
    constructor
    · rintro (here | ⟨r, b', found, c, lt, set, same⟩)
      · exact ⟨0, b, rfl, here⟩
      · refine ⟨r + 1, b', found, c, lt, set, ?_⟩
        rw [same, Nat.add_assoc, Nat.add_comm 1 r]
    · rintro ⟨r, b', found, c, lt, set, same⟩
      cases r with
      | zero =>
        cases found
        exact .inl ⟨c, lt, set, same⟩
      | succ r =>
        refine .inr ⟨r, b', found, c, lt, set, ?_⟩
        rw [same, Nat.add_assoc, Nat.add_comm 1 r]

theorem nodup_index_rowPoints (b : UInt8) (x y : Nat) :
    ((rowPoints b x y).map Point.index).Nodup := by
  have columns : ((List.range 8).filter (isSet b)).Nodup :=
    List.Nodup.filter _ List.nodup_range
  rw [rowPoints, List.map_map]
  refine List.Nodup.map_on (fun c c_mem d d_mem same => ?_) columns
  have c_lt : c < 8 := List.mem_range.1 (List.mem_filter.1 c_mem).1
  have d_lt : d < 8 := List.mem_range.1 (List.mem_filter.1 d_mem).1
  have columns := (Point.index_eq_iff.1 same).1
  simp only at columns
  omega

/-- A sprite that is not higher than the frame lies on different pixels. -/
theorem nodup_index {bs : List UInt8} (short : bs.length ≤ 32) (x y : Nat) :
    ((points bs x y).map Point.index).Nodup := by
  induction bs generalizing y with
  | nil => exact List.nodup_nil
  | cons b bs ih =>
    rw [List.length_cons] at short
    rw [points, List.map_append]
    refine List.Nodup.append (nodup_index_rowPoints b x y) (ih (by omega) (y + 1)) ?_
    -- The rows below are fewer than 32, so that none of them wraps around to this one.
    intro i here below
    obtain ⟨p, p_mem, rfl⟩ := List.mem_map.1 here
    obtain ⟨q, q_mem, same⟩ := List.mem_map.1 below
    have row := (mem_rowPoints p_mem).2.2
    have rows := mem_points q_mem
    have wrapped := (Point.index_eq_iff.1 same).2
    omega

end Sprite

end ChipEight
