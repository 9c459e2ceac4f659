import Mathlib.Tactic.IntervalCases
import FpgaCraft.Hardware.L3Memory
import FpgaCraft.Library.Ring
import FpgaCraft.Library.Scan

/-! The addresses and the pointers of the L3 cache for any parameters (`l3_cache.sv`): the
memory is a window on the world that moves without moving a word. -/
namespace FpgaCraft.Hardware
open Library

structure WindowParams where
  LENGTH : Nat
  WIDTH : Nat
  HEIGHT : Nat
  length : 2 ≤ LENGTH
  width : 2 ≤ WIDTH
  height : 2 ≤ HEIGHT

namespace WindowParams
variable (p : WindowParams)

def DEPTH : Nat := p.LENGTH * p.WIDTH * p.HEIGHT

def ADDR_WIDTH : Nat := Nat.clog 2 p.DEPTH

end WindowParams

/-- `xread`, `yread` and `zread`, or `xwrite`, `ywrite` and `zwrite`. -/
@[ext] structure Coords (p : WindowParams) where
  x : BitVec (Nat.clog 2 p.LENGTH)
  y : BitVec (Nat.clog 2 p.HEIGHT)
  z : BitVec (Nat.clog 2 p.WIDTH)

structure WindowIn (p : WindowParams) where
  read : Coords p
  write : Coords p
  controlInput : BitVec 4
  controlTrigger : Bool
  validIn : Bool
  writeEnable : Bool
  readEnable : Bool

structure SlidingWindow (p : WindowParams) where
  addra : BitVec p.ADDR_WIDTH
  addrb : BitVec p.ADDR_WIDTH
  xpointer : BitVec (Nat.clog 2 p.LENGTH)
  zpointer : BitVec (Nat.clog 2 p.WIDTH)

namespace SlidingWindow
variable {p : WindowParams}

/-- `x_read_ref` and its siblings: the sum is stored in as many bits as a coordinate has
before it is compared with the size. -/
def ref {w : Nat} (pointer coord : BitVec w) (size : Nat) : BitVec w :=
  let sum := pointer + coord
  if size ≤ sum.toNat then BitVec.ofNat w (sum.toNat - size) else sum

def address (c : Coords p) (self : SlidingWindow p) : BitVec p.ADDR_WIDTH :=
  BitVec.ofNat _ ((ref self.xpointer c.x p.LENGTH).toNat * (p.WIDTH * p.HEIGHT) +
    c.y.toNat * p.WIDTH + (ref self.zpointer c.z p.WIDTH).toNat)

def convert (i : WindowIn p) (self : SlidingWindow p) : SlidingWindow p :=
  if i.writeEnable && !i.readEnable then { self with addrb := self.address i.write }
  else if !i.writeEnable && i.readEnable then { self with addra := self.address i.read }
  else self

def move (i : WindowIn p) (self : SlidingWindow p) : SlidingWindow p :=
  let x := self.xpointer.toNat
  let z := self.zpointer.toNat
  if i.validIn && i.controlTrigger then
    match i.controlInput with
    | 0b0001#4 => { self with xpointer := BitVec.ofNat _ ((x + 1) % p.LENGTH) }
    | 0b0010#4 => { self with xpointer := BitVec.ofNat _ ((x + p.LENGTH - 1) % p.LENGTH) }
    | 0b0100#4 => { self with zpointer := BitVec.ofNat _ ((z + 1) % p.WIDTH) }
    | 0b1000#4 => { self with zpointer := BitVec.ofNat _ ((z + p.WIDTH - 1) % p.WIDTH) }
    | _ => self
  else self

def risingClkEdge (rst : Bool) (i : WindowIn p) (self : SlidingWindow p) : SlidingWindow p :=
  if rst then { self.convert i with xpointer := 0, zpointer := 0 }
  else (self.convert i).move i

end SlidingWindow

def WindowIn.step {p : WindowParams} (i : WindowIn p) : Int × Int :=
  if i.validIn && i.controlTrigger then
    match i.controlInput with
    | 0b0001#4 => (1, 0)
    | 0b0010#4 => (-1, 0)
    | 0b0100#4 => (0, 1)
    | 0b1000#4 => (0, -1)
    | _ => (0, 0)
  else (0, 0)

def netMoves {p : WindowParams} (input : Nat → WindowIn p) : Nat → Int × Int
  | 0 => (0, 0)
  | n + 1 => netMoves input n + (input n).step

structure Coords.InRange {p : WindowParams} (c : Coords p) : Prop where
  x : c.x.toNat < p.LENGTH
  y : c.y.toNat < p.HEIGHT
  z : c.z.toNat < p.WIDTH

namespace SlidingWindow
variable {p : WindowParams} {s : SlidingWindow p} {i : WindowIn p}

/-! ### The pointers -/

theorem toNat_ofNat_clog {size n : Nat} (inside : n < size) :
    (BitVec.ofNat (Nat.clog 2 size) n).toNat = n := by
  rw [BitVec.toNat_ofNat]
  exact Nat.mod_eq_of_lt (Nat.lt_of_lt_of_le inside (Nat.le_pow_clog Nat.one_lt_two size))

/-- A pointer that has gone `a` steps around its ring. -/
def At {size : Nat} (a : Int) (pointer : BitVec (Nat.clog 2 size)) : Prop :=
  (pointer.toNat : Int) = a % size

theorem At.forward {size : Nat} {a : Int} {pointer : BitVec (Nat.clog 2 size)} (two : 2 ≤ size)
    (h : At a pointer) :
    @At size (a + 1) (BitVec.ofNat _ ((pointer.toNat + 1) % size)) := by
  unfold At at *
  rw [toNat_ofNat_clog (Nat.mod_lt _ (by omega)), Int.natCast_mod, Int.natCast_add, h,
    Int.emod_add_emod]
  rfl

theorem At.backward {size : Nat} {a : Int} {pointer : BitVec (Nat.clog 2 size)} (two : 2 ≤ size)
    (h : At a pointer) :
    @At size (a + -1) (BitVec.ofNat _ ((pointer.toNat + size - 1) % size)) := by
  unfold At at *
  have around : ((pointer.toNat + size - 1 : Nat) : Int) = pointer.toNat + -1 + size := by omega
  rw [toNat_ofNat_clog (Nat.mod_lt _ (by omega)), Int.natCast_mod, around, Int.add_emod_right, h,
    Int.emod_add_emod]

structure Moved (a b : Int) (s : SlidingWindow p) : Prop where
  xpointer : At a s.xpointer
  zpointer : At b s.zpointer

theorem Moved.move {a b : Int} (h : s.Moved a b) (i : WindowIn p) :
    (s.move i).Moved (a + i.step.1) (b + i.step.2) := by
  have still : s.Moved (a + 0) (b + 0) := by simpa only [Int.add_zero] using h
  unfold SlidingWindow.move WindowIn.step
  dsimp only
  split
  · split
    · exact ⟨h.xpointer.forward p.length, still.zpointer⟩
    · exact ⟨h.xpointer.backward p.length, still.zpointer⟩
    · exact ⟨still.xpointer, h.zpointer.forward p.width⟩
    · exact ⟨still.xpointer, h.zpointer.backward p.width⟩
    · exact still
  · exact still

theorem Moved.convert {a b : Int} (h : s.Moved a b) (i : WindowIn p) : (s.convert i).Moved a b := by
  unfold SlidingWindow.convert
  split
  · exact ⟨h.xpointer, h.zpointer⟩
  · split <;> exact ⟨h.xpointer, h.zpointer⟩

theorem Moved.risingClkEdge {a b : Int} (h : s.Moved a b) (i : WindowIn p) :
    (s.risingClkEdge false i).Moved (a + i.step.1) (b + i.step.2) :=
  (h.convert i).move i

def afterReset (s : SlidingWindow p) (i : WindowIn p) (input : Nat → WindowIn p) (n : Nat) :
    SlidingWindow p :=
  trace (risingClkEdge false) input (s.risingClkEdge true i) n

theorem moved_afterReset (s : SlidingWindow p) (i : WindowIn p) (input : Nat → WindowIn p) (n : Nat) :
    (afterReset s i input n).Moved (netMoves input n).1 (netMoves input n).2 := by
  induction n with
  | zero => exact ⟨(Int.zero_emod _).symm, (Int.zero_emod _).symm⟩
  | succ n ih => exact ih.risingClkEdge (input n)

/-! ### The addresses -/

theorem toNat_ref {size : Nat} (pointer coord : BitVec (Nat.clog 2 size)) :
    (ref pointer coord size).toNat =
      wrapAdd (Nat.clog 2 size) size pointer.toNat coord.toNat := by
  unfold ref wrapAdd
  rw [← BitVec.toNat_add]
  dsimp only
  split
  · have bound := (pointer + coord).isLt
    rw [BitVec.toNat_ofNat, Nat.mod_eq_of_lt (by omega)]
  · rfl

theorem ref_lt {size : Nat} (two : 2 ≤ size) (pointer coord : BitVec (Nat.clog 2 size)) :
    (ref pointer coord size).toNat < size := by
  have narrow := pow_clog_add_two_le two
  rw [toNat_ref]
  exact wrapAdd_lt (by omega)

theorem toNat_address {c : Coords p} (line : c.y.toNat < p.HEIGHT) (s : SlidingWindow p) :
    (s.address c).toNat = (ref s.xpointer c.x p.LENGTH).toNat * (p.WIDTH * p.HEIGHT) +
      c.y.toNat * p.WIDTH + (ref s.zpointer c.z p.WIDTH).toNat :=
  toNat_ofNat_clog (rowMajor_lt (ref_lt p.length _ _) line (ref_lt p.width _ _))

def cellAddress (s : SlidingWindow p) (c : Coords p) : Nat :=
  (s.xpointer.toNat + c.x.toNat) % p.LENGTH * (p.WIDTH * p.HEIGHT) + c.y.toNat * p.WIDTH +
    (s.zpointer.toNat + c.z.toNat) % p.WIDTH

theorem cellAddress_lt {c : Coords p} (h : c.InRange) (s : SlidingWindow p) :
    s.cellAddress c < p.DEPTH :=
  rowMajor_lt (Nat.mod_lt _ (Nat.zero_lt_of_lt h.x)) h.y (Nat.mod_lt _ (Nat.zero_lt_of_lt h.z))

theorem cellAddress_eq_iff {c : Coords p} (h : c.InRange) (s : SlidingWindow p) {n : Nat} :
    s.cellAddress c = n ↔ (s.xpointer.toNat + c.x.toNat) % p.LENGTH = n / (p.WIDTH * p.HEIGHT) ∧
      c.y.toNat = n / p.WIDTH % p.HEIGHT ∧
      (s.zpointer.toNat + c.z.toNat) % p.WIDTH = n % p.WIDTH :=
  rowMajor_eq_iff h.y (Nat.mod_lt _ (Nat.zero_lt_of_lt h.z))

theorem address_eq_iff {c : Coords p} (h : c.InRange) (s : SlidingWindow p) :
    (s.address c).toNat = s.cellAddress c ↔
      (ref s.xpointer c.x p.LENGTH).toNat = (s.xpointer.toNat + c.x.toNat) % p.LENGTH ∧
        (ref s.zpointer c.z p.WIDTH).toNat = (s.zpointer.toNat + c.z.toNat) % p.WIDTH := by
  rw [toNat_address h.y, rowMajor_eq_iff h.y (ref_lt p.width _ _)]
  obtain ⟨slice, line, place⟩ := (cellAddress_eq_iff h s).mp rfl
  rw [slice, place]
  constructor
  · rintro ⟨x, -, z⟩
    exact ⟨x, z⟩
  · rintro ⟨x, z⟩
    exact ⟨x, line, z⟩

theorem existsUnique_cellAddress (s : SlidingWindow p) {n : Nat} (inside : n < p.DEPTH) :
    ∃! c : Coords p, c.InRange ∧ s.cellAddress c = n := by
  have width := p.width
  have height := p.height
  have slice : n / (p.WIDTH * p.HEIGHT) < p.LENGTH := by
    apply Nat.div_lt_of_lt_mul
    rwa [Nat.mul_comm, ← Nat.mul_assoc]
  have line : n / p.WIDTH % p.HEIGHT < p.HEIGHT := Nat.mod_lt _ (by omega)
  have place : n % p.WIDTH < p.WIDTH := Nat.mod_lt _ (by omega)
  obtain ⟨x, ⟨hx, atX⟩, uniqueX⟩ := existsUnique_rotation s.xpointer.toNat slice
  obtain ⟨z, ⟨hz, atZ⟩, uniqueZ⟩ := existsUnique_rotation s.zpointer.toNat place
  let c : Coords p := ⟨BitVec.ofNat _ x, BitVec.ofNat _ (n / p.WIDTH % p.HEIGHT), BitVec.ofNat _ z⟩
  have cx : c.x.toNat = x := toNat_ofNat_clog hx
  have cy : c.y.toNat = n / p.WIDTH % p.HEIGHT := toNat_ofNat_clog line
  have cz : c.z.toNat = z := toNat_ofNat_clog hz
  have inRange : c.InRange := ⟨cx ▸ hx, cy ▸ line, cz ▸ hz⟩
  refine ⟨c, ⟨inRange, ?_⟩, ?_⟩
  · rw [cellAddress_eq_iff inRange, cx, cy, cz]
    exact ⟨atX, rfl, atZ⟩
  · rintro d ⟨hd, same⟩
    obtain ⟨dx, dy, dz⟩ := (cellAddress_eq_iff hd s).mp same
    apply Coords.ext
    · apply BitVec.eq_of_toNat_eq
      rw [cx, uniqueX d.x.toNat ⟨hd.x, dx⟩]
    · apply BitVec.eq_of_toNat_eq
      rw [cy, dy]
    · apply BitVec.eq_of_toNat_eq
      rw [cz, uniqueZ d.z.toNat ⟨hd.z, dz⟩]

/-- The state shows the world through a window that has moved by `a` and `b`. -/
structure Addressed (a b : Int) (s : SlidingWindow p) : Prop where
  xpointer : (s.xpointer.toNat : Int) = a % p.LENGTH
  zpointer : (s.zpointer.toNat : Int) = b % p.WIDTH
  address : ∀ c : Coords p, c.InRange → (s.address c).toNat = s.cellAddress c
  inside : ∀ c : Coords p, c.InRange → (s.address c).toNat < p.DEPTH
  onto : ∀ n, n < p.DEPTH → ∃! c : Coords p, c.InRange ∧ (s.address c).toNat = n
  read : ∀ i : WindowIn p, i.readEnable = true → i.writeEnable = false →
    (s.convert i).addra = s.address i.read
  write : ∀ i : WindowIn p, i.writeEnable = true → i.readEnable = false →
    (s.convert i).addrb = s.address i.write
  forward : ∀ i : WindowIn p, i.step = (1, 0) → ∀ c : Coords p, c.InRange →
    c.x.toNat + 1 < p.LENGTH →
    (s.risingClkEdge false i).address c = s.address { c with x := c.x + 1 }

theorem At.lt {size : Nat} {a : Int} {pointer : BitVec (Nat.clog 2 size)} (two : 2 ≤ size)
    (h : At a pointer) : pointer.toNat < size := by
  have bound : (pointer.toNat : Int) < size := h ▸ Int.emod_lt_of_pos a (by omega)
  omega

theorem Moved.address {a b : Int} (h : s.Moved a b) (length : ∃ k, p.LENGTH = 2 ^ k)
    (width : ∃ k, p.WIDTH = 2 ^ k) {c : Coords p} (inRange : c.InRange) :
    (s.address c).toNat = s.cellAddress c := by
  rw [address_eq_iff inRange, toNat_ref, toNat_ref]
  exact ⟨(wrapAdd_clog_iff p.length).mpr length _ (h.xpointer.lt p.length) _ inRange.x,
    (wrapAdd_clog_iff p.width).mpr width _ (h.zpointer.lt p.width) _ inRange.z⟩

theorem At.toNat_eq {size a : Nat} {pointer : BitVec (Nat.clog 2 size)} (h : At a pointer)
    (inside : a < size) : pointer.toNat = a := by
  have steps : (pointer.toNat : Int) = (a : Int) % size := h
  rw [Int.emod_eq_of_lt (by omega) (by omega)] at steps
  exact_mod_cast steps

theorem At.forward_add {size : Nat} {a : Int} {pointer pointer' : BitVec (Nat.clog 2 size)}
    (h : At a pointer) (h' : At (a + 1) pointer') (x : Nat) :
    (pointer'.toNat + x) % size = (pointer.toNat + (x + 1)) % size := by
  have here : (pointer.toNat : Int) = a % size := h
  have there : (pointer'.toNat : Int) = (a + 1) % size := h'
  have same : ((pointer'.toNat : Int) + x) % size = ((pointer.toNat : Int) + (x + 1)) % size := by
    rw [here, there, Int.emod_add_emod, Int.emod_add_emod]
    congr 1
    omega
  exact_mod_cast same

theorem Moved.addressed {a b : Int} (h : s.Moved a b) (length : ∃ k, p.LENGTH = 2 ^ k)
    (width : ∃ k, p.WIDTH = 2 ^ k) : s.Addressed a b := by
  have exact : ∀ c : Coords p, c.InRange → (s.address c).toNat = s.cellAddress c :=
    fun c inRange => h.address length width inRange
  refine ⟨h.xpointer, h.zpointer, exact, fun c inRange => ?_, fun n inside => ?_,
    fun i read write => ?_, fun i write read => ?_, fun i forward c inRange next => ?_⟩
  · rw [exact c inRange]
    exact cellAddress_lt inRange s
  · obtain ⟨c, ⟨inRange, same⟩, unique⟩ := existsUnique_cellAddress s inside
    refine ⟨c, ⟨inRange, (exact c inRange).trans same⟩, fun d hd => ?_⟩
    exact unique d ⟨hd.1, (exact d hd.1).symm.trans hd.2⟩
  · simp [SlidingWindow.convert, read, write]
  · simp [SlidingWindow.convert, read, write]
  · have moved := h.risingClkEdge i
    rw [forward, Int.add_zero] at moved
    have column : (c.x + 1).toNat = c.x.toNat + 1 :=
      counter_succ _ (Nat.le_pow_clog Nat.one_lt_two _) next
    have neighbour : Coords.InRange { c with x := c.x + 1 } :=
      ⟨column ▸ next, inRange.y, inRange.z⟩
    have same : (s.risingClkEdge false i).zpointer.toNat = s.zpointer.toNat := by
      have here : (s.zpointer.toNat : Int) = b % p.WIDTH := h.zpointer
      have there : ((s.risingClkEdge false i).zpointer.toNat : Int) = b % p.WIDTH := moved.zpointer
      omega
    apply BitVec.eq_of_toNat_eq
    rw [moved.address length width inRange, exact _ neighbour, cellAddress, cellAddress, same,
      At.forward_add h.xpointer moved.xpointer, column]

def mover (control : BitVec 4) : WindowIn p := ⟨⟨0, 0, 0⟩, ⟨0, 0, 0⟩, control, true, true, false, false⟩

theorem netMoves_forward (n : Nat) : netMoves (fun _ => @mover p 0b0001) n = ((n : Int), 0) := by
  induction n with
  | zero => rfl
  | succ n ih =>
    rw [netMoves, ih]
    rfl

theorem netMoves_right (n : Nat) : netMoves (fun _ => @mover p 0b0100) n = (0, (n : Int)) := by
  induction n with
  | zero => rfl
  | succ n ih =>
    rw [netMoves, ih]
    rfl

theorem Addressed.wraps_x {a b : Int} (h : s.Addressed a b) {x : Nat} (inside : x < p.LENGTH) :
    wrapAdd (Nat.clog 2 p.LENGTH) p.LENGTH s.xpointer.toNat x = (s.xpointer.toNat + x) % p.LENGTH := by
  have height := p.height
  have width := p.width
  let c : Coords p := ⟨BitVec.ofNat _ x, 0, 0⟩
  have column : c.x.toNat = x := toNat_ofNat_clog inside
  have inRange : c.InRange := ⟨column ▸ inside, by simp [c]; omega, by simp [c]; omega⟩
  have same := ((address_eq_iff inRange s).mp (h.address c inRange)).1
  rwa [toNat_ref, column] at same

theorem Addressed.wraps_z {a b : Int} (h : s.Addressed a b) {z : Nat} (inside : z < p.WIDTH) :
    wrapAdd (Nat.clog 2 p.WIDTH) p.WIDTH s.zpointer.toNat z = (s.zpointer.toNat + z) % p.WIDTH := by
  have height := p.height
  have length := p.length
  let c : Coords p := ⟨0, 0, BitVec.ofNat _ z⟩
  have column : c.z.toNat = z := toNat_ofNat_clog inside
  have inRange : c.InRange := ⟨by simp [c]; omega, by simp [c]; omega, column ▸ inside⟩
  have same := ((address_eq_iff inRange s).mp (h.address c inRange)).2
  rwa [toNat_ref, column] at same

/-- The window is addressed as it should be in every state, exactly if its two moving sizes
are powers of two. -/
theorem sliding_window_iff (p : WindowParams) :
    (∀ (s : SlidingWindow p) (i : WindowIn p) (input : Nat → WindowIn p) (n : Nat),
        (afterReset s i input n).Addressed (netMoves input n).1 (netMoves input n).2) ↔
      (∃ k, p.LENGTH = 2 ^ k) ∧ ∃ k, p.WIDTH = 2 ^ k := by
  constructor
  · intro addressed
    let start : SlidingWindow p := ⟨0, 0, 0, 0⟩
    refine ⟨(wrapAdd_clog_iff p.length).mp fun a ha b hb => ?_,
      (wrapAdd_clog_iff p.width).mp fun a ha b hb => ?_⟩
    · have there := addressed start (mover 0) (fun _ => mover 0b0001) a
      rw [netMoves_forward] at there
      have wraps := there.wraps_x hb
      rwa [At.toNat_eq there.xpointer ha] at wraps
    · have there := addressed start (mover 0) (fun _ => mover 0b0100) a
      rw [netMoves_right] at there
      have wraps := there.wraps_z hb
      rwa [At.toNat_eq there.zpointer ha] at wraps
  · rintro ⟨length, width⟩ s i input n
    exact (moved_afterReset s i input n).addressed length width

/-- A window of length 3 after one step back: the last cell of the window is read at the
address of the cell in front of it. -/
theorem odd_window_aliases :
    let p : WindowParams := ⟨3, 2, 2, by decide, by decide, by decide⟩
    let back : WindowIn p := ⟨⟨0, 0, 0⟩, ⟨0, 0, 0⟩, 0b0010, true, true, false, false⟩
    let s := afterReset (⟨0, 0, 0, 0⟩ : SlidingWindow p) back (fun _ => back) 1
    s.xpointer = 2 ∧ s.address ⟨2, 0, 0⟩ = 0 ∧ s.cellAddress ⟨2, 0, 0⟩ = 4 ∧
      s.address ⟨2, 0, 0⟩ = s.address ⟨1, 0, 0⟩ := by
  decide

/-! ### The default parameters -/

def standard : WindowParams := ⟨L3.LENGTH, L3.WIDTH, L3.HEIGHT, by decide, by decide, by decide⟩

def ofCache (c : L3.Cache) : SlidingWindow standard := ⟨c.addra, c.addrb, c.xpointer, c.zpointer⟩

def coordsOfCache (x y z : BitVec 6) : Coords standard := ⟨x, y, z⟩

def inOfCache (i : L3.CacheIn) : WindowIn standard where
  read := coordsOfCache i.xread i.yread i.zread
  write := coordsOfCache i.xwrite i.ywrite i.zwrite
  controlInput := i.controlInput
  controlTrigger := i.controlTrigger
  validIn := i.validIn
  writeEnable := i.writeEnable
  readEnable := i.readEnable

theorem address_ofCache (c : L3.Cache) (x y z : BitVec 6) :
    (ofCache c).address (coordsOfCache x y z) = (c.cell x y z).address := by
  apply BitVec.eq_of_toNat_eq
  have line : (coordsOfCache x y z).y.toNat < standard.HEIGHT := y.isLt
  exact (toNat_address line _).trans (L3.Cell.toNat_address (c.cell x y z)).symm

theorem convert_ofCache (c : L3.Cache) (i : L3.CacheIn) :
    ofCache (c.convert i) = (ofCache c).convert (inOfCache i) := by
  have read : (ofCache c).address (inOfCache i).read = (c.readCell i).address := address_ofCache c _ _ _
  have write : (ofCache c).address (inOfCache i).write = (c.writeCell i).address :=
    address_ofCache c _ _ _
  unfold L3.Cache.convert convert
  rw [read, write, apply_ite ofCache, apply_ite ofCache]
  rfl

theorem move_ofCache (c : L3.Cache) (i : L3.CacheIn) :
    (ofCache c).move (inOfCache i) =
      { ofCache c with xpointer := (c.move i).1, zpointer := (c.move i).2 } := by
  unfold L3.Cache.move move
  cases triggered : i.validIn && i.controlTrigger with
  | true =>
    simp only [inOfCache, triggered, if_true]
    generalize i.controlInput = control
    obtain ⟨⟨control, small⟩⟩ := control
    interval_cases control <;> rfl
  | false =>
    simp only [inOfCache, triggered, Bool.false_eq_true, if_false]
    rfl

/-- The pointers and addresses of the cache with its default parameters are those of the
window of that size. -/
theorem ofCache_risingClkEdge (rst : Bool) (i : L3.CacheIn) (c : L3.Cache) :
    ofCache (c.risingClkEdge rst i) = (ofCache c).risingClkEdge rst (inOfCache i) := by
  unfold risingClkEdge
  rw [← convert_ofCache]
  cases rst with
  | true => rfl
  | false =>
    simp only [Bool.false_eq_true, if_false, move_ofCache]
    rfl

end SlidingWindow
end FpgaCraft.Hardware
