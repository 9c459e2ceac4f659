import FpgaCraft.Library.Machine

/-! The fixed-point numbers of the hardware and their two pipelined functions (`fixed.sv`). -/
namespace FpgaCraft.Hardware
open Library

abbrev B : Nat := 20

/-- Number of bits in the decimal portion of fixed numbers. -/
abbrev D : Nat := 8

abbrev Fixed := BitVec B

def fadd (a b : Fixed) : Fixed := a + b
def fsub (a b : Fixed) : Fixed := a - b

def fmul (a b : Fixed) : Fixed :=
  ((a.signExtend (2 * B) * b.signExtend (2 * B)).sshiftRight D).setWidth B

def FIXED_1 : Fixed := 0x100
def FIXED_1_5 : Fixed := 0x180
def FIXED_MAX : Fixed := 0x7FFFF

namespace InvSqrt

/-- The look-up table by the leading one among the low `n` bits. -/
def lutFrom (m : Fixed) : List Fixed → Nat → Fixed
  | entry :: entries, n + 1 => if m.getLsbD n then entry else lutFrom m entries n
  | _, _ => 0x1000

/-- Generated with `fixed_inv_sqrt.py`, from bit 18 down to bit 0. -/
def table : List Fixed :=
  [0x4, 0x6, 0x9, 0xd, 0x12, 0x1a, 0x24, 0x34, 0x49, 0x68, 0x93, 0xd1, 0x127, 0x1a2, 0x24f, 0x344,
    0x49e, 0x688, 0x93c]

def lut (m : Fixed) : Fixed := lutFrom m table (B - 1)

end InvSqrt

structure InvSqrt where
  inPipe0 : Fixed
  inPipe1 : Fixed
  iter00 : Fixed
  iter01 : Fixed
  iter10 : Fixed
  iter11 : Fixed
deriving DecidableEq

def InvSqrt.risingClkEdge (i : Fixed) (self : InvSqrt) : InvSqrt where
  inPipe0 := i
  inPipe1 := self.inPipe0
  iter00 := InvSqrt.lut self.inPipe0
  -- Cycle #3: Newton's method (intermediate). A struct is unsigned, so the shift is logical
  iter10 := fmul (fmul self.iter00 self.iter00) (self.inPipe1 >>> 1)
  iter01 := self.iter00
  iter11 := fmul self.iter01 (fsub FIXED_1_5 self.iter10)

def invSqrt (m : Fixed) : Fixed :=
  fmul (InvSqrt.lut m) (fsub FIXED_1_5 (fmul (fmul (InvSqrt.lut m) (InvSqrt.lut m)) (m >>> 1)))

namespace RecipLte1

/-- Twice the entry of the look-up table and its square, pre-computed. Generated with
`fixed_recip.py`, from index 63 down to 1. -/
def table : List (Fixed × Fixed) :=
  [(0x208, 0x108), (0x210, 0x110), (0x219, 0x119), (0x222, 0x123), (0x22b, 0x12d), (0x234, 0x137),
    (0x23e, 0x142), (0x249, 0x14e), (0x253, 0x15a), (0x25e, 0x167), (0x26a, 0x175), (0x276, 0x183),
    (0x282, 0x193), (0x28f, 0x1a3), (0x29c, 0x1b4), (0x2aa, 0x1c7), (0x2b9, 0x1da), (0x2c8, 0x1ef),
    (0x2d8, 0x205), (0x2e8, 0x21d), (0x2fa, 0x237), (0x30c, 0x252), (0x31f, 0x26f), (0x333, 0x28f),
    (0x348, 0x2b1), (0x35e, 0x2d6), (0x375, 0x2fd), (0x38e, 0x329), (0x3a8, 0x357), (0x3c3, 0x38b),
    (0x3e0, 0x3c2), (0x400, 0x400), (0x421, 0x443), (0x444, 0x48d), (0x469, 0x4de), (0x492, 0x539),
    (0x4bd, 0x59e), (0x4ec, 0x60f), (0x51e, 0x68d), (0x555, 0x71c), (0x590, 0x7be), (0x5d1, 0x876),
    (0x618, 0x949), (0x666, 0xa3d), (0x6bc, 0xb58), (0x71c, 0xca4), (0x787, 0xe2c), (0x800, 0x1000),
    (0x888, 0x1234), (0x924, 0x14e5), (0x9d8, 0x183c), (0xaaa, 0x1c71), (0xba2, 0x21d9), (0xccc, 0x28f5),
    (0xe38, 0x3291), (0x1000, 0x4000), (0x1249, 0x5397), (0x1555, 0x71c7), (0x1999, 0xa3d7),
    (0x2000, 0x10000), (0x2aaa, 0x1c71c), (0x4000, 0x40000), (0x8000, 0x7FFFF)]

def lut (x : Fixed) : Fixed × Fixed :=
  let idx : Fixed := if x.msb then -x else x
  table.getD (63 - (idx.extractLsb' (D - 6) 6).toNat) (0x100, 0x100)

end RecipLte1

structure RecipLte1 where
  inPipe0 : Fixed
  inPipe1 : Fixed
  iter0Sqr : Fixed
  iter0Dbl : Fixed
  iter1 : Fixed
deriving DecidableEq

def RecipLte1.risingClkEdge (i : Fixed) (self : RecipLte1) : RecipLte1 where
  inPipe0 := i
  iter0Sqr := (RecipLte1.lut self.inPipe0).2
  iter0Dbl := if self.inPipe0.msb then -(RecipLte1.lut self.inPipe0).1 else (RecipLte1.lut self.inPipe0).1
  inPipe1 := self.inPipe0
  iter1 := fsub self.iter0Dbl (fmul self.inPipe1 self.iter0Sqr)

def recipLte1 (x : Fixed) : Fixed :=
  fsub (if x.msb then -(RecipLte1.lut x).1 else (RecipLte1.lut x).1) (fmul x (RecipLte1.lut x).2)

theorem RecipLte1.latency (inputs : Nat → Fixed) (s : RecipLte1) (n : Nat) :
    (trace risingClkEdge inputs s (n + 3)).iter1 = recipLte1 (inputs n) := rfl

theorem InvSqrt.latency (inputs : Nat → Fixed) (s : InvSqrt) (n : Nat) :
    (trace risingClkEdge inputs s (n + 4)).iter11 = invSqrt (inputs n) := rfl

end FpgaCraft.Hardware
