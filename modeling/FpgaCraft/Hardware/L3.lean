import FpgaCraft.Hardware.Types
import FpgaCraft.Library.Machine
import FpgaCraft.Library.PostedWrite
import FpgaCraft.Library.Registers

/-! The L3 cache that is filled over UART (`l3_cache.sv`, with its default parameters), over
its dual port RAM (`xilinx_true_dual_port_read_first_2_clock_ram.v`): port A only reads and
port B writes on every edge. -/
namespace FpgaCraft.Hardware.L3
open Library

abbrev LENGTH : Nat := 64
abbrev WIDTH : Nat := 64
abbrev HEIGHT : Nat := 64

structure DualPortRam where
  bram : BitVec 18 → BlockType
  ramDataA : BlockType
  doutaReg : BlockType

def DualPortRam.risingClkEdge (addra : BitVec 18) (rsta : Bool) (addrb : BitVec 18)
    (dinb : BlockType) (self : DualPortRam) : DualPortRam where
  bram := Function.update self.bram addrb dinb
  ramDataA := self.bram addra
  doutaReg := if rsta then 0 else self.ramDataA

/-- A cell of the memory, by its coordinates after the pointers are applied. -/
@[ext] structure Cell where
  x : BitVec 6
  y : BitVec 6
  z : BitVec 6
deriving DecidableEq

def Cell.address (c : Cell) : BitVec 18 :=
  c.x.setWidth 18 * BitVec.ofNat 18 (WIDTH * HEIGHT) + c.y.setWidth 18 * BitVec.ofNat 18 WIDTH +
    c.z.setWidth 18

structure CacheIn where
  xread : BitVec 6
  yread : BitVec 6
  zread : BitVec 6
  xwrite : BitVec 6
  ywrite : BitVec 6
  zwrite : BitVec 6
  uartDataIn : BitVec 8
  controlInput : BitVec 4
  controlTrigger : Bool
  validIn : Bool
  writeEnable : Bool
  readEnable : Bool

/-- `addra` and `addrb` are assigned in `always_comb`, but not in every branch: they keep
their values otherwise. -/
structure Cache where
  addra : BitVec 18
  addrb : BitVec 18
  dinb : BlockType
  xpointer : BitVec 6
  zpointer : BitVec 6
  ram : DualPortRam
  validOut : Bool
  blockDataOut : BlockType

def ref (pointer coord : BitVec 6) (size : Nat) : BitVec 6 :=
  let sum := pointer + coord
  if size ≤ sum.toNat then BitVec.ofNat 6 (sum.toNat - size) else sum

namespace Cache

def cell (x y z : BitVec 6) (self : Cache) : Cell :=
  ⟨ref self.xpointer x LENGTH, y, ref self.zpointer z WIDTH⟩

def readCell (i : CacheIn) (self : Cache) : Cell := self.cell i.xread i.yread i.zread

def writeCell (i : CacheIn) (self : Cache) : Cell := self.cell i.xwrite i.ywrite i.zwrite

def convert (i : CacheIn) (self : Cache) : Cache :=
  if i.writeEnable && !i.readEnable then { self with addrb := (self.writeCell i).address }
  else if !i.writeEnable && i.readEnable then { self with addra := (self.readCell i).address }
  else self

def move (i : CacheIn) (self : Cache) : BitVec 6 × BitVec 6 :=
  let x := self.xpointer.toNat
  let z := self.zpointer.toNat
  if i.validIn && i.controlTrigger then
    match i.controlInput with
    | 0b0001#4 => (BitVec.ofNat 6 ((x + 1) % LENGTH), self.zpointer)
    | 0b0010#4 => (BitVec.ofNat 6 ((x + LENGTH - 1) % LENGTH), self.zpointer)
    | 0b0100#4 => (self.xpointer, BitVec.ofNat 6 ((z + 1) % WIDTH))
    | 0b1000#4 => (self.xpointer, BitVec.ofNat 6 ((z + WIDTH - 1) % WIDTH))
    | _ => (self.xpointer, self.zpointer)
  else (self.xpointer, self.zpointer)

def risingClkEdge (rst : Bool) (i : CacheIn) (self : Cache) : Cache :=
  let self := self.convert i
  let ram := self.ram.risingClkEdge self.addra rst self.addrb self.dinb
  if rst then
    { self with ram := ram, validOut := false, blockDataOut := 0, xpointer := 0, zpointer := 0 }
  else
    { self with
      ram := ram
      xpointer := (self.move i).1
      zpointer := (self.move i).2
      dinb := if i.writeEnable then i.uartDataIn.setWidth 5 else self.dinb
      blockDataOut :=
        if i.writeEnable then self.blockDataOut
        else if i.readEnable then self.ram.doutaReg
        else self.blockDataOut }

def powerUp : Cache := ⟨0, 0, 0, 0, 0, ⟨fun _ => 0, 0, 0⟩, false, 0⟩

end Cache
end FpgaCraft.Hardware.L3
