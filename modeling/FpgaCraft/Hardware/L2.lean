import Mathlib.Data.Nat.Log
import FpgaCraft.Hardware.Types
import FpgaCraft.Library.Machine

/-! The hardware L2 cache (`l2_cache.sv`), on its own and with an L3 that serves one query
at a time after an arbitrary delay (`mock_l3_cache` of its test). -/
namespace FpgaCraft.Hardware
open Library

structure L2Cache (PORTS CACHE_SIZE : Nat) where
  out : Fin PORTS → BlockType
  valid : Fin PORTS → Bool
  l3Addr : BlockPos
  l3ReadEnable : Bool
  tags : Fin CACHE_SIZE → BlockPos
  entries : Fin CACHE_SIZE → BlockType
  occupied : Fin CACHE_SIZE → Bool
  nextReplacement : BitVec (Nat.clog 2 CACHE_SIZE)

structure L2In (PORTS : Nat) where
  rst : Bool
  addr : Fin PORTS → BlockPos
  readEnable : Fin PORTS → Bool
  l3Out : BlockType
  l3Valid : Bool

namespace L2Cache
variable {PORTS CACHE_SIZE : Nat}

def lookup (self : L2Cache PORTS CACHE_SIZE) (addr : BlockPos) (e : Fin CACHE_SIZE) : Bool :=
  self.occupied e && decide (self.tags e = addr)

def misses (self : L2Cache PORTS CACHE_SIZE) (addr : BlockPos) : Bool :=
  !(List.finRange CACHE_SIZE).any (self.lookup addr)

def reset (self : L2Cache PORTS CACHE_SIZE) : L2Cache PORTS CACHE_SIZE :=
  { self with
    tags := fun _ => 0
    entries := fun _ => 0
    occupied := fun _ => false
    nextReplacement := 0
    l3Addr := 0
    l3ReadEnable := false
    out := fun _ => 0
    valid := fun _ => false }

def missing (self : L2Cache PORTS CACHE_SIZE) (i : L2In PORTS) (p : Fin PORTS) : Bool :=
  i.readEnable p && self.misses (i.addr p)

def respond (self : L2Cache PORTS CACHE_SIZE) (i : L2In PORTS) : L2Cache PORTS CACHE_SIZE :=
  { self with
    valid := fun p => i.readEnable p && !self.misses (i.addr p)
    out := fun p =>
      if i.readEnable p then
        lastAssigned (fun e => if self.lookup (i.addr p) e then some (self.entries e) else none)
          (self.out p)
      else self.out p
    -- Static priority arbitration, last assigned gets resolved first
    l3Addr := lastAssigned (fun p => if self.missing i p then some (i.addr p) else none) self.l3Addr
    l3ReadEnable := lastAssigned (fun p => if self.missing i p then some true else none)
      self.l3ReadEnable }

/-- Resolve a cache-miss. The assignments override those of the response; an index past
the last entry writes nothing. -/
def fill (self responded : L2Cache PORTS CACHE_SIZE) (i : L2In PORTS) : L2Cache PORTS CACHE_SIZE :=
  let write {α : Type} (old : Fin CACHE_SIZE → α) (v : α) : Fin CACHE_SIZE → α :=
    fun e => if e.val = self.nextReplacement.toNat then v else old e
  { responded with
    tags := write self.tags self.l3Addr
    entries := write self.entries i.l3Out
    occupied := write self.occupied true
    nextReplacement :=
      if self.nextReplacement.toNat = CACHE_SIZE - 1 then 0 else self.nextReplacement + 1
    l3ReadEnable := false }

def risingClkEdge (i : L2In PORTS) (self : L2Cache PORTS CACHE_SIZE) : L2Cache PORTS CACHE_SIZE :=
  if i.rst then self.reset
  else if i.l3Valid && self.l3ReadEnable then self.fill (self.respond i) i
  else self.respond i

end L2Cache

/-- An L3 in its three phases; the address is the one it took with the query. -/
inductive L3Cache where
  | idle
  | pending (addr : BlockPos)
  | answering (addr : BlockPos)
deriving DecidableEq, Repr

namespace L3Cache

def valid : L3Cache → Bool
  | answering _ => true
  | _ => false

def out (content : BlockPos → BlockType) : L3Cache → BlockType
  | answering addr => content addr
  | _ => 0

def risingClkEdge (respond readEnable : Bool) (addr : BlockPos) : L3Cache → L3Cache
  | idle => if readEnable then (if respond then answering addr else pending addr) else idle
  | pending taken => if respond then answering taken else pending taken
  | answering _ => idle

end L3Cache

structure Memory (PORTS CACHE_SIZE : Nat) where
  l2 : L2Cache PORTS CACHE_SIZE
  l3 : L3Cache

structure MemoryIn (PORTS : Nat) where
  addr : Fin PORTS → BlockPos
  readEnable : Fin PORTS → Bool
  respond : Bool

namespace Memory
variable {PORTS CACHE_SIZE : Nat}

def l2In (content : BlockPos → BlockType) (i : MemoryIn PORTS) (self : Memory PORTS CACHE_SIZE) :
    L2In PORTS :=
  ⟨false, i.addr, i.readEnable, self.l3.out content, self.l3.valid⟩

def tick (content : BlockPos → BlockType) (i : MemoryIn PORTS) (self : Memory PORTS CACHE_SIZE) :
    Memory PORTS CACHE_SIZE where
  l2 := self.l2.risingClkEdge (self.l2In content i)
  l3 := self.l3.risingClkEdge i.respond self.l2.l3ReadEnable self.l2.l3Addr

end Memory
end FpgaCraft.Hardware
