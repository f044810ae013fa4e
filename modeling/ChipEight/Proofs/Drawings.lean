import ChipEight.Proofs.Checked.Processor
import ChipEight.Proofs.Footprints
import ChipEight.Proofs.Sprites
/-!
# Drawings

A drawing is a sprite at a place of the frame.  It switches the pixels over that its set bits lie
on, all others stay, and the flag tells whether one of them was on: `draw_exact`.  What becomes of
the frame under several drawings depends on how often each pixel is covered, and so neither on
their order nor on drawings that are done twice: `drawings_commute`.
-/

namespace ChipEight

variable {σ : Type}

/-- A sprite by its address and height, and the coordinates of its upper left corner. -/
structure Drawing where
  address : Address
  rows : Fin 16
  x : UInt8
  y : UInt8
  deriving DecidableEq, Repr

namespace Drawing

/-- The bytes of the sprite lie in memory. -/
def InRange (d : Drawing) : Prop := d.rows.val = 0 ∨ d.address.toNat + d.rows.val ≤ 4096

/-- A set bit of the sprite lies on the pixel in column `p` and row `q`. -/
def covers (d : Drawing) (memory : Memory) (p q : Nat) : Bool :=
  decide (∃ r : Nat, r < d.rows.val ∧ ∃ c : Nat, c < 8 ∧
    p = (d.x.toNat + c) % 64 ∧ q = (d.y.toNat + r) % 32 ∧
      (memory.get (d.address.toNat + r)).toNat.testBit (7 - c) = true)

/-- The points that the drawing flips. -/
def points (d : Drawing) (memory : Memory) : List Point :=
  Sprite.points (memory.read d.address.toNat d.rows.val) d.x.toNat d.y.toNat

/-- No two of them lie on one pixel. -/
theorem nodup_points (d : Drawing) (memory : Memory) :
    ((d.points memory).map Point.index).Nodup := by
  have few := d.rows.isLt
  exact Sprite.nodup_index (by rw [Memory.length_read]; omega) d.x.toNat d.y.toNat

theorem getElem?_read (memory : Memory) (start length r : Nat) (b : UInt8) :
    (memory.read start length)[r]? = some b ↔ r < length ∧ memory.get (start + r) = b := by
  rw [Memory.read, List.getElem?_map]
  by_cases within : r < length
  · simp [within]
  · simp [within]

theorem covers_iff_mem_points {d : Drawing} {memory : Memory} {p q : Nat} :
    d.covers memory p q = true ↔ ∃ pt ∈ d.points memory, p = pt.x % 64 ∧ q = pt.y % 32 := by
  rw [covers, decide_eq_true_iff]
  constructor
  · rintro ⟨r, r_lt, c, c_lt, column, row, set⟩
    refine ⟨⟨d.x.toNat + c, d.y.toNat + r⟩, ?_, column, row⟩
    exact Sprite.mem_points_iff.2 ⟨r, _, (getElem?_read ..).2 ⟨r_lt, rfl⟩, c, c_lt, set, rfl⟩
  · rintro ⟨pt, mem, column, row⟩
    obtain ⟨r, b, found, c, c_lt, set, rfl⟩ := Sprite.mem_points_iff.1 mem
    obtain ⟨r_lt, rfl⟩ := (getElem?_read ..).1 found
    exact ⟨r, r_lt, c, c_lt, column, row, set⟩

/-- The covered pixels are those of the points. -/
theorem exists_covered_iff {d : Drawing} {memory : Memory} {P : Point → Prop}
    (wraps : ∀ pt : Point, P ⟨pt.x % 64, pt.y % 32⟩ ↔ P pt) :
    (∃ p : Nat, p < 64 ∧ ∃ q : Nat, q < 32 ∧ d.covers memory p q = true ∧ P ⟨p, q⟩) ↔
      ∃ pt ∈ d.points memory, P pt := by
  constructor
  · rintro ⟨p, -, q, -, covered, holds⟩
    obtain ⟨pt, mem, rfl, rfl⟩ := covers_iff_mem_points.1 covered
    exact ⟨pt, mem, (wraps pt).1 holds⟩
  · rintro ⟨pt, mem, holds⟩
    refine ⟨pt.x % 64, Nat.mod_lt _ (by decide), pt.y % 32, Nat.mod_lt _ (by decide), ?_, ?_⟩
    · exact covers_iff_mem_points.2 ⟨pt, mem, rfl, rfl⟩
    · exact (wraps pt).2 holds

/-- The frame after a drawing, pixel by pixel. -/
theorem isOn_flipAll_points (d : Drawing) (memory : Memory) (f : Frame) {p q : Nat}
    (p_lt : p < 64) (q_lt : q < 32) :
    (f.flipAll (d.points memory)).isOn ⟨p, q⟩ = (f.isOn ⟨p, q⟩ ^^ d.covers memory p q) := by
  have covered : ((d.points memory).map Point.index).contains (⟨p, q⟩ : Point).index =
      d.covers memory p q := by
    rw [Bool.eq_iff_iff, List.contains_iff_mem, List.mem_map, covers_iff_mem_points]
    refine exists_congr fun pt => and_congr_right fun _ => ?_
    rw [Point.index_eq_iff, Nat.mod_eq_of_lt p_lt, Nat.mod_eq_of_lt q_lt, eq_comm,
      @eq_comm _ (pt.y % 32)]
  rw [Frame.isOn_flipAll (d.nodup_points memory), covered]

end Drawing

theorem Frame.isOn_mod (f : Frame) (p : Point) : f.isOn ⟨p.x % 64, p.y % 32⟩ = f.isOn p := by
  have place : (⟨p.x % 64, p.y % 32⟩ : Point).index = p.index := by
    rw [Point.index_eq_iff]
    exact ⟨Nat.mod_mod .., Nat.mod_mod ..⟩
  simp only [isOn, place]

/-! ### One drawing -/

namespace Machine

/-- The drawing of the sprite of `rows` bytes at `I`, placed by the values of two registers. -/
def drawing (m : Machine) (x y : Register) (rows : Fin 16) : Drawing where
  address := m.index
  rows := rows
  x := m.reg x
  y := m.reg y

/-- What a drawing makes of a machine. -/
structure Drawn (m : Machine) (d : Drawing) (m' : Machine) : Prop where
  /-- Each pixel is what it was, XOR the sprite's bit that lies on it. -/
  pixel : ∀ p < 64, ∀ q < 32,
    m'.frame.isOn ⟨p, q⟩ = (m.frame.isOn ⟨p, q⟩ ^^ d.covers m.memory p q)
  /-- `VF` tells whether a pixel was on and is off. -/
  flag : m'.reg flagRegister = if ∃ p : Nat, p < 64 ∧ ∃ q : Nat, q < 32 ∧
    m.frame.isOn ⟨p, q⟩ = true ∧ m'.frame.isOn ⟨p, q⟩ = false then 1 else 0
  dirty : m'.dirty = true ↔ m.dirty = true ∨ ∃ p : Nat, p < 64 ∧ ∃ q : Nat, q < 32 ∧
    m'.frame.isOn ⟨p, q⟩ ≠ m.frame.isOn ⟨p, q⟩
  registers : ∀ x ≠ flagRegister, m'.reg x = m.reg x
  rest : m' = { m with registers := m'.registers, frame := m'.frame, dirty := m'.dirty }

theorem reg_flag_flipPoints (m : Machine) (ps : List Point) :
    (m.flipPoints ps).reg flagRegister = if ∃ pt ∈ ps, m.frame.isOn pt = true then 1 else 0 := by
  change (m.setReg flagRegister _).reg flagRegister = _
  simp only [reg_setReg, if_true, ← List.any_eq_true]
  cases ps.any m.frame.isOn <;> rfl

theorem drawn_flipPoints (m : Machine) (d : Drawing) :
    m.Drawn d (m.flipPoints (d.points m.memory)) := by
  have pixel (p : Nat) (p_lt : p < 64) (q : Nat) (q_lt : q < 32) :
      (m.flipPoints (d.points m.memory)).frame.isOn ⟨p, q⟩ =
        (m.frame.isOn ⟨p, q⟩ ^^ d.covers m.memory p q) :=
    d.isOn_flipAll_points m.memory m.frame p_lt q_lt
  -- A pixel goes off if it was on and is covered, and it changes if it is covered.
  have off (p : Nat) (p_lt : p < 64) (q : Nat) (q_lt : q < 32) :
      (m.frame.isOn ⟨p, q⟩ = true ∧
          (m.flipPoints (d.points m.memory)).frame.isOn ⟨p, q⟩ = false) ↔
        (d.covers m.memory p q = true ∧ m.frame.isOn ⟨p, q⟩ = true) := by
    rw [pixel p p_lt q q_lt]
    cases m.frame.isOn ⟨p, q⟩ <;> simp
  have changed (p : Nat) (p_lt : p < 64) (q : Nat) (q_lt : q < 32) :
      (m.flipPoints (d.points m.memory)).frame.isOn ⟨p, q⟩ ≠ m.frame.isOn ⟨p, q⟩ ↔
        (d.covers m.memory p q = true ∧ True) := by
    rw [pixel p p_lt q q_lt]
    cases m.frame.isOn ⟨p, q⟩ <;> simp
  refine ⟨pixel, ?_, ?_, ?_, rfl⟩
  · rw [reg_flag_flipPoints]
    refine if_congr ?_ rfl rfl
    rw [← Drawing.exists_covered_iff fun pt => by rw [Frame.isOn_mod]]
    refine exists_congr fun p => and_congr_right fun p_lt => ?_
    exact exists_congr fun q => and_congr_right fun q_lt => (off p p_lt q q_lt).symm
  · have dirty : (m.flipPoints (d.points m.memory)).dirty = true ↔
        m.dirty = true ∨ ∃ pt ∈ d.points m.memory, True := by
      cases d.points m.memory <;> simp [flipPoints]
    rw [dirty, ← Drawing.exists_covered_iff fun _ => Iff.rfl]
    refine or_congr_right (exists_congr fun p => and_congr_right fun p_lt => ?_)
    exact exists_congr fun q => and_congr_right fun q_lt => (changed p p_lt q q_lt).symm
  · intro x other
    have apart : Part.register x ≠ .register flagRegister := by
      intro same
      cases same
      exact other rfl
    have kept : m.Shares (m.flipPoints (d.points m.memory)) (.register x) :=
      shares_flipPoints _ apart nofun
    exact kept

end Machine

namespace Instr

/-- A sprite is drawn if its bytes lie in memory. -/
theorem exec_draw_eq_ok_iff {key : Option Key} {m m' : Machine} {x y : Register} {rows : Fin 16}
    {flow : Flow} : (draw x y rows).exec key m = .ok (flow, m') ↔
      (m.drawing x y rows).InRange ∧ flow = .draw ∧
        m' = m.flipPoints ((m.drawing x y rows).points m.memory) := by
  rw [exec]
  constructor
  · intro effect
    split at effect
    · rename_i reach
      cases effect
      exact ⟨reach, rfl, rfl⟩
    · cases effect
  · rintro ⟨inRange, rfl, rfl⟩
    exact if_pos inRange

theorem decode_of_family_draw {op : Opcode} (family : op.family = 0xD) :
    decode op = .ok (.draw op.x op.y op.n) := by
  simp only [decode, family]

end Instr

/-- **Sprite drawing is an exact wrapped XOR with exact collision.**  On any machine on which its
bytes are in reach, an opcode `Dxyn` is executed.  With the coordinates that `Vx` and `Vy` held
before, also where one of them is `VF`, each pixel of the frame becomes what it was, XOR the bit of
the sprite that comes to lie on it, wrapping around both edges; `VF` becomes 1 if a pixel has gone
off and else 0; the frame is marked as changed if it was before or a pixel has changed; all other
registers and all else are as they were.  The checked interpreter, which goes through the bits of
the sprite one by one and asks each pixel when its turn comes, arrives at the same machine. -/
theorem draw_exact (h : Host σ) (op : Opcode) (m : Machine) (w : World σ)
    (family : op.family = 0xD)
    (inRange : op.n.val = 0 ∨ m.index.toNat + op.n.val ≤ 4096) :
    ∃ m', (m.execute h op w).1 = .ok (.draw, m') ∧ m.Drawn (m.drawing op.x op.y op.n) m' ∧
      ∀ b : Checked.Bench σ, b.store.Sound → b.store.view = m → b.world = w →
        ∃ st, (Checked.Bench.execute h op).run b =
          .done .draw ⟨st, (m.execute h op w).2⟩ ∧ st.view = m' := by
  have decoded := Instr.decode_of_family_draw family
  have effect (key : Option Key) : (Instr.draw op.x op.y op.n).exec key m =
      .ok (.draw, m.flipPoints ((m.drawing op.x op.y op.n).points m.memory)) :=
    Instr.exec_draw_eq_ok_iff.2 ⟨inRange, rfl, rfl⟩
  have done : (m.execute h op w).1 =
      .ok (.draw, m.flipPoints ((m.drawing op.x op.y op.n).points m.memory)) :=
    (Machine.execute_within h w decoded effect).1
  refine ⟨_, done, m.drawn_flipPoints _, ?_⟩
  rintro b sound rfl rfl
  have follows := Checked.Bench.execute_follows h op sound
  rw [show b.store.view.execute h op b.world = (_, _) from Prod.ext done rfl] at follows
  obtain ⟨st, ran, -, view⟩ := follows
  exact ⟨st, ran, view⟩

/-- The top row of the glyph of 0. -/
theorem Memory.get_initial_zero : Memory.initial.get 0 = 0xF0 := by
  rw [Memory.initial, Memory.get_write]
  rfl

/-- The top row of the glyph of 0, drawn where `VF` says, in column 62 and row 62, lies on the last
two and the first two pixels of row 30. -/
theorem draw_exact_wraps :
    let h := Script.host { millis := fun _ => 0.0 }
    let st : Checked.Store :=
      { Checked.Store.initial (.ofSeed 0) with registers := (Vector.replicate 16 0).set 15 62 }
    let w : World Console := { devices := {} }
    ∃ m', (st.view.execute h 0xDFF1 w).1 = .ok (.draw, m') ∧
      m'.frame.isOn ⟨63, 30⟩ = true ∧ m'.frame.isOn ⟨1, 30⟩ = true ∧
      m'.frame.isOn ⟨2, 30⟩ = false ∧ m'.frame.isOn ⟨62, 31⟩ = false ∧
      m'.reg flagRegister = 0 ∧
      ∃ st', (Checked.Bench.execute h 0xDFF1).run ⟨st, w⟩ =
        .done .draw ⟨st', (st.view.execute h 0xDFF1 w).2⟩ ∧ st'.view = m' := by
  intro h st w
  have byte : st.view.memory.get 0 = 0xF0 := Memory.get_initial_zero
  have blank (pt : Point) : st.view.frame.isOn pt = false := by
    change Frame.blank.isOn pt = false
    simp [Frame.isOn, Frame.blank]
  have sound : st.Sound := (Checked.Store.sound_initial (.ofSeed 0)).of_sp_eq rfl
  have covers (p q : Nat) : (st.view.drawing 15 15 1).covers st.view.memory p q =
      decide (q = 30 ∧ ∃ c : Nat, c < 4 ∧ p = (62 + c) % 64) := by
    have bits : ∀ c < 8, (0xF0 : UInt8).toNat.testBit (7 - c) = true ↔ c < 4 := by decide
    have y : (st.view.drawing 15 15 1).y = 62 := rfl
    have wraps : ((st.view.drawing 15 15 1).y.toNat + 0) % 32 = 30 := by rw [y]; rfl
    rw [Drawing.covers, decide_eq_decide]
    constructor
    · rintro ⟨r, r_lt, c, c_lt, column, row, set⟩
      obtain rfl : r = 0 := Nat.lt_one_iff.1 r_lt
      exact ⟨row.trans wraps, c, (bits c c_lt).1 (byte ▸ set), column⟩
    · rintro ⟨row, c, c_lt, column⟩
      refine ⟨0, Nat.one_pos, c, by omega, column, row.trans wraps.symm, ?_⟩
      exact byte ▸ (bits c (by omega)).2 c_lt
  obtain ⟨m', done, drawn, checked⟩ := draw_exact h 0xDFF1 st.view w rfl (.inr (by decide))
  have pixel (p : Nat) (p_lt : p < 64) (q : Nat) (q_lt : q < 32) : m'.frame.isOn ⟨p, q⟩ =
      decide (q = 30 ∧ ∃ c : Nat, c < 4 ∧ p = (62 + c) % 64) := by
    rw [drawn.pixel p p_lt q q_lt, blank, Bool.false_xor]
    exact covers p q
  refine ⟨m', done, pixel 63 (by decide) 30 (by decide), pixel 1 (by decide) 30 (by decide),
    pixel 2 (by decide) 30 (by decide), pixel 62 (by decide) 31 (by decide), ?_,
    checked ⟨st, w⟩ sound rfl rfl⟩
  rw [drawn.flag]
  simp [blank]

/-! ### Drawings one after the other -/

namespace Machine

/-- The machines have the same memory and the same frame. -/
def SameScene (m m' : Machine) : Prop := m'.memory = m.memory ∧ m'.frame = m.frame

theorem SameScene.trans {m m' m'' : Machine} (first : m.SameScene m')
    (second : m'.SameScene m'') : m.SameScene m'' :=
  ⟨second.1.trans first.1, second.2.trans first.2⟩

/-- On `m` some `Dxyn` makes the drawing, and `m'` comes of it. -/
def Draws (m : Machine) (d : Drawing) (m' : Machine) : Prop :=
  ∃ key x y, m.drawing x y d.rows = d ∧ (Instr.draw x y d.rows).exec key m = .ok (.draw, m')

/-- The drawings are made one after the other.  In between, and before and after, anything may
happen that leaves memory and the frame alone. -/
inductive DrawsAll : Machine → List Drawing → Machine → Prop where
  | nil {m m' : Machine} (same : m.SameScene m') : DrawsAll m [] m'
  | cons {m u v m' : Machine} {d : Drawing} {ds : List Drawing} (same : m.SameScene u)
    (first : u.Draws d v) (later : DrawsAll v ds m') : DrawsAll m (d :: ds) m'

variable {m m' m'' : Machine} {d : Drawing} {ds es : List Drawing}

theorem Draws.eq (draws : m.Draws d m') : m' = m.flipPoints (d.points m.memory) := by
  obtain ⟨key, x, y, place, effect⟩ := draws
  have done := (Instr.exec_draw_eq_ok_iff.1 effect).2.2
  rw [place] at done
  exact done

theorem Draws.drawn (draws : m.Draws d m') : m.Drawn d m' := by
  rw [draws.eq]
  exact m.drawn_flipPoints d

/-- A drawing within memory can be made, once `I` and two registers are set. -/
theorem exists_draws (m : Machine) (inRange : d.InRange) :
    ∃ u v, m.SameScene u ∧ u.Draws d v := by
  let u := ({ m with index := d.address }.setReg 0 d.x).setReg 1 d.y
  have place : u.drawing 0 1 d.rows = d := by
    have x : u.reg 0 = d.x := by
      simp only [u, reg_setReg, if_neg (show (1 : Register) ≠ 0 by decide), if_true]
    have y : u.reg 1 = d.y := by
      simp only [u, reg_setReg, if_true]
    rw [drawing, x, y]
    rfl
  have effect : (Instr.draw 0 1 d.rows).exec none u =
      .ok (.draw, u.flipPoints ((u.drawing 0 1 d.rows).points u.memory)) :=
    Instr.exec_draw_eq_ok_iff.2 ⟨place.symm ▸ inRange, rfl, rfl⟩
  exact ⟨u, _, ⟨rfl, rfl⟩, none, 0, 1, place, effect⟩

theorem exists_drawsAll (m : Machine) (inRange : ∀ d ∈ ds, d.InRange) :
    ∃ m', m.DrawsAll ds m' := by
  induction ds generalizing m with
  | nil => exact ⟨m, .nil ⟨rfl, rfl⟩⟩
  | cons d ds ih =>
    obtain ⟨u, v, same, first⟩ := m.exists_draws (inRange d (List.mem_cons_self ..))
    obtain ⟨m', later⟩ := ih v fun e mem => inRange e (List.mem_cons_of_mem d mem)
    exact ⟨m', .cons same first later⟩

theorem DrawsAll.of_sameScene (same : m.SameScene m') (all : m'.DrawsAll ds m'') :
    m.DrawsAll ds m'' := by
  cases all with
  | nil same' => exact .nil (same.trans same')
  | cons same' first later => exact .cons (same.trans same') first later

theorem DrawsAll.append (first : m.DrawsAll ds m') (second : m'.DrawsAll es m'') :
    m.DrawsAll (ds ++ es) m'' := by
  induction first with
  | nil same => exact second.of_sameScene same
  | cons same draws _ ih => exact .cons same draws (ih second)

theorem DrawsAll.to_sameScene (all : m.DrawsAll ds m') (same : m'.SameScene m'') :
    m.DrawsAll ds m'' := by
  rw [← List.append_nil ds]
  exact all.append (.nil same)

/-- The frame after some drawings has all their points flipped. -/
theorem DrawsAll.scene (all : m.DrawsAll ds m') :
    m'.memory = m.memory ∧ m'.frame = m.frame.flipAll (ds.flatMap fun d => d.points m.memory) := by
  induction all with
  | nil same => exact same
  | @cons m u v m' d ds same first later ih =>
    have memory : v.memory = m.memory := by
      rw [first.eq]
      exact same.1
    have frame : v.frame = m.frame.flipAll (d.points m.memory) := by
      rw [first.eq, ← same.1, ← same.2]
      rfl
    rw [memory, frame, ← Frame.flipAll_append] at ih
    exact ih

end Machine

/-! ### Drawings in the course of a run -/

namespace Instr

/-- The drawing that an instruction makes on `m`. -/
def drawing? (m : Machine) : Instr → Option Drawing
  | .draw x y rows => some (m.drawing x y rows)
  | _ => none

/-- The instruction changes memory and the frame by drawing only: it is neither `00E0` nor `Fx33`
nor `Fx55`. -/
def OnlyDraws (i : Instr) : Prop := i ≠ .clear ∧ ∀ x, i ≠ .decimal x ∧ i ≠ .store x

theorem drawsAll_of_exec {key : Option Key} {m m' : Machine} {i : Instr} {flow : Flow}
    (effect : i.exec key m = .ok (flow, m')) (only : i.OnlyDraws) :
    m.DrawsAll (i.drawing? m).toList m' := by
  cases i with
  | draw x y rows =>
    obtain ⟨-, rfl, -⟩ := exec_draw_eq_ok_iff.1 effect
    exact .cons ⟨rfl, rfl⟩ ⟨key, x, y, rfl, effect⟩ (.nil ⟨rfl, rfl⟩)
  | clear => exact absurd rfl only.1
  | decimal x => exact absurd rfl (only.2 x).1
  | store x => exact absurd rfl (only.2 x).2
  | _ =>
    have memory : m.Shares m' .memory := shares_of_exec effect (by simp [footprint])
    have frame : m.Shares m' .frame := shares_of_exec effect (by simp [footprint])
    exact .nil ⟨memory, frame.1⟩

end Instr

theorem Vm.sameScene_elapse (millis : Float) (vm : Vm) :
    vm.machine.SameScene (vm.elapse millis).machine := by
  obtain ⟨_, _, _, same⟩ := Vm.sameButTime_elapse millis vm
  rw [same]
  exact ⟨rfl, rfl⟩

/-- The drawing that a turn makes. -/
def Turn.drawing? (turn : Turn σ) : Option Drawing :=
  turn.executed?.bind fun e => e.instr.drawing? turn.session.vm.machine

/-- A turn that neither clears the frame nor stores in memory makes its drawing, if any. -/
theorem Turn.drawsAll {turn : Turn σ}
    (only : ∀ e, turn.executed? = some e → e.instr.OnlyDraws) :
    turn.session.vm.machine.DrawsAll turn.drawing?.toList turn.after.vm.machine := by
  have account := turn.account
  unfold drawing?
  generalize turn.executed? = did at account only
  generalize turn.result = result, turn.after.vm = vm, turn.calls = calls at account
  cases account with
  | outOfRange | refused => exact .nil ⟨rfl, rfl⟩
  | waited | keyed => exact .nil (Vm.sameScene_elapse ..)
  | @executed i flow m mode fetched effect =>
    have drawing : i.drawing? turn.session.vm.machine.advance =
        i.drawing? turn.session.vm.machine := by
      cases i <;> rfl
    have done := Instr.drawsAll_of_exec effect (only _ rfl)
    have advanced : turn.session.vm.machine.SameScene turn.session.vm.machine.advance := ⟨rfl, rfl⟩
    have marked : m.SameScene { m with dirty := false } := ⟨rfl, rfl⟩
    have elapsed := Vm.sameScene_elapse turn.millis
      { turn.session.vm with machine := { m with dirty := false }, mode := .after flow }
    rw [drawing] at done
    exact (done.to_sameScene (marked.trans elapsed)).of_sameScene advanced

/-- The drawings that are made in the course of calls are made one after the other. -/
theorem Session.drawsAll_of_turns {calls : List (Call σ)} {s t : Session σ}
    (keep : ∀ c ∈ calls, c.restarts = false) (performed : s.performAll calls = some t) :
    (∀ e ∈ executedBy (s.turns calls), e.instr.OnlyDraws) →
      s.vm.machine.DrawsAll ((s.turns calls).filterMap Turn.drawing?) t.vm.machine := by
  refine (performAll_at_every_turn (P := fun turns t =>
    (∀ e ∈ executedBy turns, e.instr.OnlyDraws) →
      s.vm.machine.DrawsAll (turns.filterMap Turn.drawing?) t.vm.machine)
    ?cycle ?quiet keep ?start performed).1
  case start =>
    intro _
    exact .nil ⟨rfl, rfl⟩
  case cycle =>
    intro h past u held only
    have before := held fun e mem => only e (mem_executedBy_append_left mem)
    have next : u.vm.machine.DrawsAll (Turn.drawing? ⟨h, u⟩).toList (u.cycle h).2.vm.machine :=
      Turn.drawsAll fun e did => only e (mem_executedBy_concat did)
    have one : [(⟨h, u⟩ : Turn σ)].filterMap Turn.drawing? = (Turn.drawing? ⟨h, u⟩).toList := by
      cases drawn : Turn.drawing? ⟨h, u⟩ with
      | none => exact List.filterMap_cons_none drawn
      | some d => exact List.filterMap_cons_some drawn
    rw [List.filterMap_append, one]
    exact before.append next
  case quiet =>
    intro past u v running same held only
    rw [same]
    exact held only

/-! ### The order of drawings -/

/-- A drawing made at once again tells whether it has switched a pixel on. -/
theorem Machine.Draws.flag_again {m a b : Machine} {d : Drawing} (first : m.DrawsAll [d] a)
    (second : a.Draws d b) :
    b.reg flagRegister = if ∃ p : Nat, p < 64 ∧ ∃ q : Nat, q < 32 ∧
      d.covers m.memory p q = true ∧ m.frame.isOn ⟨p, q⟩ = false then 1 else 0 := by
  obtain ⟨memory, frame⟩ := first.scene
  rw [List.flatMap_singleton] at frame
  rw [second.drawn.flag]
  refine if_congr ?_ rfl rfl
  refine exists_congr fun p => and_congr_right fun p_lt => ?_
  refine exists_congr fun q => and_congr_right fun q_lt => ?_
  rw [second.drawn.pixel p p_lt q q_lt, memory, frame, d.isOn_flipAll_points _ _ p_lt q_lt]
  cases m.frame.isOn ⟨p, q⟩ <;> simp

/-- **Drawings commute and undo themselves.**  Drawings within memory can be made one after the
other on any machine.  In whichever order they are made, the frame comes out the same, and made
once more, again in any order, they bring the first frame back.  If a sprite is drawn and drawn
again at its place, the second drawing sets `VF` exactly if one of the pixels that the sprite covers
was off before the first: always on a blank area, unless no bit of the sprite is set, and never
where all these pixels were on.  The drawings of a run are such a course of drawings, as long as
nothing clears the frame or stores in memory. -/
theorem drawings_commute :
    (∀ (m : Machine) (ds : List Drawing), (∀ d ∈ ds, d.InRange) → ∃ m', m.DrawsAll ds m') ∧
    (∀ (m : Machine) (ds es : List Drawing) (a b : Machine), ds.Perm es →
      m.DrawsAll ds a → m.DrawsAll es b → a.frame = b.frame) ∧
    (∀ (m : Machine) (ds es : List Drawing) (a b : Machine), ds.Perm es →
      m.DrawsAll ds a → a.DrawsAll es b → b.frame = m.frame) ∧
    (∀ (m : Machine) (d : Drawing) (a b : Machine), m.DrawsAll [d] a → a.Draws d b →
      (b.reg flagRegister = if ∃ p : Nat, p < 64 ∧ ∃ q : Nat, q < 32 ∧
        d.covers m.memory p q = true ∧ m.frame.isOn ⟨p, q⟩ = false then 1 else 0) ∧
      ((∃ p < 64, ∃ q < 32, d.covers m.memory p q = true) →
        (∀ p < 64, ∀ q < 32, d.covers m.memory p q = true → m.frame.isOn ⟨p, q⟩ = false) →
        b.reg flagRegister = 1) ∧
      ((∀ p < 64, ∀ q < 32, d.covers m.memory p q = true → m.frame.isOn ⟨p, q⟩ = true) →
        b.reg flagRegister = 0)) ∧
    ∀ (s t : Session σ) (calls : List (Call σ)), (∀ c ∈ calls, c.restarts = false) →
      s.performAll calls = some t →
      (∀ e ∈ executedBy (s.turns calls), e.instr.OnlyDraws) →
      s.vm.machine.DrawsAll ((s.turns calls).filterMap Turn.drawing?) t.vm.machine := by
  refine ⟨fun m ds => m.exists_drawsAll, ?_, ?_, ?_, ?_⟩
  · intro m ds es a b perm first second
    rw [first.scene.2, second.scene.2]
    exact Frame.flipAll_eq_of_perm (perm.flatMap_right _) _
  · intro m ds es a b perm first second
    rw [second.scene.2, first.scene.1, first.scene.2]
    exact Frame.flipAll_flipAll_of_perm (perm.symm.flatMap_right _) _
  · intro m d a b first second
    have flag := Machine.Draws.flag_again first second
    refine ⟨flag, ?_, ?_⟩
    · rintro ⟨p, p_lt, q, q_lt, covered⟩ blank
      rw [flag, if_pos ⟨p, p_lt, q, q_lt, covered, blank p p_lt q q_lt covered⟩]
    · intro full
      rw [flag, if_neg]
      rintro ⟨p, p_lt, q, q_lt, covered, off⟩
      rw [full p p_lt q q_lt covered] at off
      cases off
  · intro s t calls keep performed
    exact Session.drawsAll_of_turns keep performed

/-- The glyph of 0, drawn twice in the corner of the blank frame, sets `VF` the second time and
leaves the frame blank. -/
theorem drawings_commute_twice :
    ∃ a b, (Machine.initial (.ofSeed 0)).DrawsAll [⟨0, 5, 0, 0⟩] a ∧ a.Draws ⟨0, 5, 0, 0⟩ b ∧
      b.frame = .blank ∧ b.reg flagRegister = 1 := by
  let m := Machine.initial (.ofSeed 0)
  let d : Drawing := ⟨0, 5, 0, 0⟩
  obtain ⟨possible, -, undone, again, -⟩ := @drawings_commute Console
  have inRange : ∀ e ∈ [d, d], e.InRange := by
    intro e mem
    obtain rfl : e = d := by simpa using mem
    exact .inr (by decide)
  have set : (m.memory.get (d.address.toNat + 0)).toNat.testBit (7 - 0) = true := by
    change (Memory.initial.get 0).toNat.testBit 7 = true
    rw [Memory.get_initial_zero]
    rfl
  have covered : d.covers m.memory 0 0 = true :=
    decide_eq_true ⟨0, by decide, 0, by decide, rfl, rfl, set⟩
  obtain ⟨m', all⟩ := possible m [d, d] inRange
  cases all with
  | @cons _ _ v _ _ _ same first later =>
    cases later with
    | @cons _ a b _ _ _ same' second rest =>
      have once : m.DrawsAll [d] a := .cons same first (.nil same')
      have twice : a.DrawsAll [d] b := .cons ⟨rfl, rfl⟩ second (.nil ⟨rfl, rfl⟩)
      refine ⟨a, b, once, second, undone m [d] [d] a b (.refl _) once twice, ?_⟩
      apply (again m d a b once second).2.1 ⟨0, by decide, 0, by decide, covered⟩
      intro p _ q _ _
      simp [m, Machine.initial, Frame.isOn, Frame.blank]

end ChipEight
