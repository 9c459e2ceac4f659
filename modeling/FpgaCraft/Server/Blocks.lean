import Mathlib.Data.List.Perm.Basic
import FpgaCraft.Library.Runs
import FpgaCraft.Server.Snapshot

/-! The three numberings of blocks that the plugin meets: the kinds of `libcraft`
(`blocks/src/block.rs`), the vanilla ids of their states (`blocks/src/registry.rs`,
`feather/blocks/src/lib.rs`) and the blocks of the chunk (`plugin/src/block.rs`). -/
namespace FpgaCraft.Server
open Library

/-- A kind of block, named by its position in the enumeration, which is its `id`. -/
structure BlockKind where
  number : Fin 763
deriving DecidableEq

namespace BlockKind

@[match_pattern] def air : BlockKind := ⟨0⟩
@[match_pattern] def stone : BlockKind := ⟨1⟩
@[match_pattern] def grassBlock : BlockKind := ⟨8⟩
@[match_pattern] def dirt : BlockKind := ⟨9⟩
@[match_pattern] def cobblestone : BlockKind := ⟨12⟩
@[match_pattern] def oakPlanks : BlockKind := ⟨13⟩
@[match_pattern] def sprucePlanks : BlockKind := ⟨14⟩
@[match_pattern] def birchPlanks : BlockKind := ⟨15⟩
@[match_pattern] def water : BlockKind := ⟨26⟩
@[match_pattern] def sand : BlockKind := ⟨28⟩
@[match_pattern] def gravel : BlockKind := ⟨30⟩
@[match_pattern] def oakLog : BlockKind := ⟨35⟩
@[match_pattern] def spruceLog : BlockKind := ⟨36⟩
@[match_pattern] def birchLog : BlockKind := ⟨37⟩
@[match_pattern] def oakLeaves : BlockKind := ⟨59⟩
@[match_pattern] def spruceLeaves : BlockKind := ⟨60⟩
@[match_pattern] def birchLeaves : BlockKind := ⟨61⟩
@[match_pattern] def glass : BlockKind := ⟨67⟩
@[match_pattern] def noteBlock : BlockKind := ⟨74⟩

def fromId (id : BitVec 32) : Option BlockKind :=
  if h : id.toNat < 763 then some ⟨⟨id.toNat, h⟩⟩ else none

end BlockKind

def Block.ofKind : BlockKind → Block
  | .air => .air
  | .stone => .stone
  | .grassBlock => .grass
  | .dirt => .dirt
  | .cobblestone => .cobblestone
  | .oakPlanks => .oakPlanks
  | .sprucePlanks => .sprucePlanks
  | .birchPlanks => .birchPlanks
  | .water => .water
  | .sand => .sand
  | .gravel => .gravel
  | .oakLog => .oakLog
  | .spruceLog => .spruceLog
  | .birchLog => .birchLog
  | .oakLeaves => .oakLeaves
  | .spruceLeaves => .spruceLeaves
  | .birchLeaves => .birchLeaves
  | .glass => .glass
  | _ => .air

/-- How many states each kind has. The ids of the states of a kind follow on those of the
kind before it. -/
def stateCounts : List Nat := [
  1, 1, 1, 1, 1, 1, 1, 1, 2, 1, 1, 2, 1, 1, 1, 1, 1, 1, 1, 2, 2, 2, 2, 2, 2, 1, 16, 16, 1, 1, 1,
  1, 1, 1, 1, 3, 3, 3, 3, 3, 3, 3, 3, 3, 3, 3, 3, 3, 3, 3, 3, 3, 3, 3, 3, 3, 3, 3, 3, 14, 14, 14,
  14, 14, 14, 1, 1, 1, 1, 1, 12, 1, 1, 1, 800, 16, 16, 16, 16, 16, 16, 16, 16, 16, 16, 16, 16, 16,
  16, 16, 16, 12, 12, 12, 1, 1, 1, 1, 1, 2, 12, 24, 1, 1, 1, 1, 1, 1, 1, 1, 1, 1, 1, 1, 1, 1, 1,
  1, 12, 1, 1, 1, 1, 1, 1, 1, 1, 1, 1, 1, 1, 1, 1, 1, 1, 1, 1, 2, 1, 1, 1, 1, 4, 512, 1, 1, 80,
  24, 1296, 1, 1, 1, 8, 8, 8, 32, 32, 32, 32, 32, 32, 64, 8, 10, 80, 8, 8, 8, 8, 8, 8, 24, 2, 64,
  2, 2, 2, 2, 2, 2, 2, 2, 8, 24, 8, 1, 1, 16, 1, 16, 2, 32, 1, 1, 1, 1, 3, 3, 1, 4, 1, 2, 4, 4, 7,
  64, 1, 1, 1, 1, 1, 1, 1, 1, 1, 1, 1, 1, 1, 1, 1, 1, 64, 64, 64, 64, 64, 64, 1, 1, 1, 1, 1, 1, 1,
  1, 1, 1, 64, 64, 64, 32, 6, 32, 1, 4, 4, 8, 8, 32, 32, 80, 80, 2, 1, 1, 32, 80, 4, 1, 8, 4, 1,
  8, 1, 1, 2, 12, 80, 1, 8, 16, 128, 1, 80, 80, 80, 12, 1, 324, 324, 1, 1, 1, 1, 1, 1, 1, 1, 1, 1,
  1, 1, 1, 1, 1, 1, 1, 1, 1, 1, 1, 1, 1, 1, 1, 8, 8, 24, 24, 24, 24, 24, 24, 16, 4, 16, 4, 16, 4,
  16, 4, 16, 4, 16, 4, 4, 4, 4, 24, 16, 16, 16, 32, 1, 1, 10, 1, 1, 3, 80, 12, 12, 1, 1, 1, 1, 1,
  1, 1, 1, 1, 1, 1, 1, 1, 1, 1, 1, 32, 32, 32, 32, 32, 32, 32, 32, 32, 32, 32, 32, 32, 32, 32, 32,
  80, 80, 1, 1, 64, 1, 1, 1, 80, 80, 80, 6, 6, 6, 1, 3, 1, 1, 1, 1, 1, 1, 1, 1, 1, 1, 1, 1, 1, 1,
  1, 1, 1, 1, 1, 2, 2, 2, 2, 2, 2, 16, 16, 16, 16, 16, 16, 16, 16, 16, 16, 16, 16, 16, 16, 16, 16,
  4, 4, 4, 4, 4, 4, 4, 4, 4, 4, 4, 4, 4, 4, 4, 4, 1, 1, 1, 80, 6, 6, 6, 6, 6, 6, 6, 6, 6, 6, 6, 6,
  6, 6, 6, 6, 6, 6, 6, 1, 1, 1, 1, 32, 32, 32, 32, 32, 32, 32, 32, 32, 32, 64, 64, 64, 64, 64, 6,
  64, 6, 1, 3, 80, 1, 4, 1, 1, 12, 12, 4, 1, 1, 1, 3, 1, 12, 6, 6, 6, 6, 6, 6, 6, 6, 6, 6, 6, 6,
  6, 6, 6, 6, 6, 4, 4, 4, 4, 4, 4, 4, 4, 4, 4, 4, 4, 4, 4, 4, 4, 1, 1, 1, 1, 1, 1, 1, 1, 1, 1, 1,
  1, 1, 1, 1, 1, 1, 1, 1, 1, 1, 1, 1, 1, 1, 1, 1, 1, 1, 1, 1, 1, 26, 1, 1, 12, 1, 1, 1, 1, 1, 1,
  1, 1, 1, 1, 2, 2, 2, 2, 2, 2, 2, 2, 2, 2, 2, 2, 2, 2, 2, 2, 2, 2, 2, 2, 8, 8, 8, 8, 8, 8, 8, 8,
  8, 8, 8, 1, 2, 1, 12, 1, 1, 1, 2, 80, 80, 80, 80, 80, 80, 80, 80, 80, 80, 80, 80, 80, 80, 6, 6,
  6, 6, 6, 6, 6, 6, 6, 6, 6, 6, 6, 324, 324, 324, 324, 324, 324, 324, 324, 324, 324, 324, 324, 32,
  4, 12, 8, 8, 1, 1, 12, 16, 1, 4, 32, 4, 4, 32, 32, 4, 3, 3, 3, 3, 1, 1, 1, 1, 1, 3, 3, 3, 3, 1,
  1, 1, 26, 1, 26, 1, 1, 1, 1, 6, 6, 2, 2, 32, 32, 64, 64, 32, 32, 80, 80, 24, 24, 64, 64, 32, 32,
  8, 8, 4, 12, 9, 16, 24, 24, 1, 1, 1, 1, 1, 5, 1, 1, 1, 1, 1, 1, 80, 324, 6, 1, 1, 1, 1, 6, 80,
  324, 1, 80, 6, 2, 24, 324, 1, 1, 1
]

theorem length_stateCounts : stateCounts.length = 763 := by decide +kernel

theorem sum_stateCounts : stateCounts.sum = 17112 := by decide +kernel

structure BlockState where
  id : BitVec 16
  valid : id.toNat < 17112
deriving DecidableEq

namespace BlockState

def fromId (id : BitVec 16) : Option BlockState :=
  if h : id.toNat < 17112 then some ⟨id, h⟩ else none

def kind (state : BlockState) : BlockKind where
  number := ⟨runIndex stateCounts state.id.toNat, by
    rw [← length_stateCounts]
    exact runIndex_lt (by rw [sum_stateCounts]; exact state.valid)⟩

end BlockState

/-- The table of `vanilla_ids.dat`: for each kind its vanilla ids, in the order in which the
server numbers its states. -/
structure VanillaIdTable where
  row : BlockKind → List (BitVec 16)
  states : ∀ kind, ((row kind).map BitVec.toNat).Perm
    (List.range' (runStart stateCounts kind.number) (stateCounts.getD kind.number 0))

structure BlockId where
  kind : BlockKind
  state : Nat
deriving DecidableEq

/-- Returns the vanilla state id for this block; an index outside the table panics. -/
def BlockId.vanillaId (table : VanillaIdTable) (block : BlockId) : Option (BitVec 16) :=
  (table.row block.kind)[block.state]?

end FpgaCraft.Server
