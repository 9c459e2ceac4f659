import FpgaCraft.Server.PackedArray
import FpgaCraft.Server.VanillaIds

/-! The heightmaps of a chunk (`feather/base/src/chunk/heightmap.rs`). A panic is `none`. -/
namespace FpgaCraft.Server
open Library

/-- Whether a block is considered solid during a heightmap computation. -/
abbrev HeightmapFunction : Type := BlockId → Bool

/-- The properties of kinds that the heightmaps use, with what they are for the kinds of air. -/
structure BlockTraits where
  solid : BlockKind → Bool
  transparent : BlockKind → Bool
  fluid : BlockKind → Bool
  leaves : BlockKind → Bool
  air : ∀ block : BlockId, block.isAir = true →
    solid block.kind = false ∧ transparent block.kind = true ∧ fluid block.kind = false

namespace BlockTraits
variable (traits : BlockTraits)

def lightBlocking : HeightmapFunction := fun block => !traits.transparent block.kind
def motionBlocking : HeightmapFunction := fun block => traits.solid block.kind || traits.fluid block.kind
def motionBlockingNoLeaves : HeightmapFunction :=
  fun block => traits.motionBlocking block && !traits.leaves block.kind
def oceanFloor : HeightmapFunction := fun block => traits.solid block.kind
def worldSurface : HeightmapFunction := fun block => !block.isAir

def solidGround : BlockTraits where
  solid kind := !BlockId.isAir ⟨kind, 0⟩
  transparent kind := BlockId.isAir ⟨kind, 0⟩
  fluid _ := false
  leaves _ := false
  air block h := by
    have same : BlockId.isAir ⟨block.kind, 0⟩ = true := h
    simp [same]

end BlockTraits

structure Heightmap where
  heights : PackedArray

namespace Heightmap

def new : Heightmap := ⟨.new 256 9 (by decide)⟩

def index (x z : Nat) : Nat := z <<< 4 ||| x

def setHeight (self : Heightmap) (x z height : Nat) : Option Heightmap :=
  (self.heights.set (index x z) (BitVec.ofNat 64 height)).map Heightmap.mk

def height (self : Heightmap) (x z : Nat) : Option Nat :=
  (self.heights.get (index x z)).map BitVec.toNat

/-- The loops over `(0..y).rev()`: the first solid block below `y`. -/
def highest (isSolid : HeightmapFunction) (getBlock : Nat → Option BlockId) : Nat → Option (Option Nat)
  | 0 => some none
  | i + 1 => (getBlock i).bind fun block =>
    if isSolid block then some (some i) else highest isSolid getBlock i

/-- The first half of `update`: this was the old highest block. -/
def dropTop (isSolid : HeightmapFunction) (self : Heightmap) (x y z : Nat) (oldBlock : BlockId)
    (getBlock : Nat → Nat → Nat → Option BlockId) : Option Heightmap :=
  if isSolid oldBlock && self.height x z == some y then
    (highest isSolid (fun i => getBlock x i z) y).bind fun
      | some i => self.setHeight x z (i + 1)
      | none => some self
  else some self

def raiseTop (isSolid : HeightmapFunction) (self : Heightmap) (x y z : Nat) (newBlock : BlockId) :
    Option Heightmap :=
  if isSolid newBlock then
    (self.height x z).bind fun height => if height < y then self.setHeight x z y else some self
  else some self

def update (isSolid : HeightmapFunction) (self : Heightmap) (x y z : Nat) (oldBlock newBlock : BlockId)
    (getBlock : Nat → Nat → Nat → Option BlockId) : Option Heightmap :=
  (self.dropTop isSolid x y z oldBlock getBlock).bind fun self => self.raiseTop isSolid x y z newBlock

def recalculateColumn (isSolid : HeightmapFunction) (getBlock : Nat → Nat → Nat → Option BlockId)
    (self : Heightmap) (column : Nat × Nat) : Option Heightmap :=
  (highest isSolid (fun y => getBlock column.1 y column.2) CHUNK_HEIGHT).bind fun
    | some y => self.setHeight column.1 column.2 (y + 1)
    | none => some self

def columns : List (Nat × Nat) := (List.range 16).flatMap fun x => (List.range 16).map (x, ·)

def recalculate (isSolid : HeightmapFunction) (self : Heightmap)
    (getBlock : Nat → Nat → Nat → Option BlockId) : Option Heightmap :=
  columns.foldlM (recalculateColumn isSolid getBlock) self

/-! ### Heights as a map -/

structure Valid (map : Heightmap) : Prop where
  length : map.heights.length = 256
  width : map.heights.bitsPerValue = 9

theorem valid_new : Valid new := ⟨rfl, rfl⟩

theorem index_eq {x : Nat} (hx : x < 16) (z : Nat) : index x z = z * 16 + x := by
  have join : z <<< 4 + x = z <<< 4 ||| x := Nat.shiftLeft_add_eq_or_of_lt hx z
  rw [index, ← join, Nat.shiftLeft_eq]

variable {map : Heightmap} {x y z : Nat}

theorem Valid.height (valid : Valid map) (hx : x < 16) (hz : z < 16) :
    ∃ h, map.height x z = some h := by
  have bound : z * 16 + x < map.heights.iter.length := by
    rw [PackedArray.length_iter, valid.length]
    omega
  rw [Heightmap.height, index_eq hx, map.heights.get_eq, List.getElem?_eq_getElem bound]
  exact ⟨_, rfl⟩

theorem Valid.setHeight (valid : Valid map) (hx : x < 16) (hz : z < 16) {h : Nat} (hh : h < 512) :
    ∃ map', map.setHeight x z h = some map' ∧ Valid map' ∧
      ∀ x' z', x' < 16 → z' < 16 →
        map'.height x' z' = if x' = x ∧ z' = z then some h else map.height x' z' := by
  have toNat : (BitVec.ofNat 64 h).toNat = h := by
    rw [BitVec.toNat_ofNat]
    omega
  have bound : index x z < map.heights.length := by
    rw [index_eq hx, valid.length]
    omega
  have fits : (BitVec.ofNat 64 h).toNat < 2 ^ map.heights.bitsPerValue := by
    rw [toNat, valid.width]
    exact hh
  obtain ⟨heights, hset, hview⟩ := PackedArray.exists_set bound fits
  have hlength : heights.length = 256 := by
    rw [PackedArray.length_of_view hview, List.length_set, PackedArray.length_iter, valid.length]
  refine ⟨⟨heights⟩, by rw [Heightmap.setHeight, hset, Option.map_some],
    ⟨hlength, (congrArg PackedArray.Row.width hview).trans valid.width⟩, ?_⟩
  intro x' z' hx' hz'
  have iter : heights.iter = _ := congrArg PackedArray.Row.values hview
  have same : index x z = index x' z' ↔ x' = x ∧ z' = z := by
    rw [index_eq hx, index_eq hx']
    omega
  simp only [Heightmap.height, PackedArray.get_eq, iter, List.getElem?_set, same,
    PackedArray.length_iter, bound, if_true]
  split
  · rw [Option.map_some, toNat]
  · rfl

theorem highest_eq (isSolid : HeightmapFunction) {getBlock : Nat → Option BlockId} {n : Nat}
    {column : Nat → BlockId} (total : ∀ i < n, getBlock i = some (column i)) :
    ∃ r, highest isSolid getBlock n = some r ∧
      (∀ j, r = some j → j < n ∧ isSolid (column j) = true) ∧
      ∀ i < n, isSolid (column i) = true → ∃ j, r = some j ∧ i ≤ j := by
  induction n with
  | zero => exact ⟨none, rfl, by simp, by simp⟩
  | succ n ih =>
    simp only [highest, total n (Nat.lt_succ_self n), Option.bind_some]
    by_cases solid : isSolid (column n) = true
    · refine ⟨some n, by rw [if_pos solid], ?_, ?_⟩
      · rintro j ⟨⟩
        exact ⟨Nat.lt_succ_self n, solid⟩
      · intro i hi _
        exact ⟨n, rfl, by omega⟩
    · obtain ⟨r, hr, found, least⟩ := ih fun i hi => total i (by omega)
      refine ⟨r, by rw [if_neg solid, hr], ?_, ?_⟩
      · intro j hj
        exact ⟨(found j hj).1.trans (Nat.lt_succ_self n), (found j hj).2⟩
      · intro i hi hsolid
        rcases Nat.lt_succ_iff_lt_or_eq.mp hi with below | rfl
        · exact least i below hsolid
        · exact absurd hsolid solid

def CoversColumn (map : Heightmap) (isSolid : HeightmapFunction)
    (cells : Nat → Nat → Nat → BlockId) (limit x z : Nat) : Prop :=
  ∀ y h, y < limit → isSolid (cells x y z) = true → map.height x z = some h → y ≤ h

def Covers (map : Heightmap) (isSolid : HeightmapFunction) (cells : Nat → Nat → Nat → BlockId)
    (limit : Nat) : Prop :=
  ∀ x z, x < 16 → z < 16 → CoversColumn map isSolid cells limit x z

section Update
variable {isSolid : HeightmapFunction} {cells cells' : Nat → Nat → Nat → BlockId} {limit : Nat}
  {oldBlock newBlock : BlockId} {getBlock : Nat → Nat → Nat → Option BlockId}

theorem covers_new (h : ∀ x y z, isSolid (cells x y z) = false) : Covers new isSolid cells limit := by
  intro x z _ _ y _ _ hsolid
  simp [h x y z] at hsolid

theorem Valid.dropTop (valid : Valid map) (oldBlock : BlockId) (hx : x < 16) (hz : z < 16) (hy : y < 512)
    (covers : Covers map isSolid cells limit) (total : ∀ i < y, getBlock x i z = some (cells' x i z))
    (frame : ∀ x' y' z', x' < 16 → z' < 16 → y' < limit → (x', y', z') ≠ (x, y, z) →
      isSolid (cells' x' y' z') = true → isSolid (cells x' y' z') = true) :
    ∃ map', map.dropTop isSolid x y z oldBlock getBlock = some map' ∧ Valid map' ∧
      ∀ x' y' z' h, x' < 16 → z' < 16 → y' < limit → (x', y', z') ≠ (x, y, z) →
        isSolid (cells' x' y' z') = true → map'.height x' z' = some h → y' ≤ h := by
  have kept (x' y' z' h : Nat) (hx' : x' < 16) (hz' : z' < 16) (hy' : y' < limit)
      (hne : (x', y', z') ≠ (x, y, z)) (hsolid : isSolid (cells' x' y' z') = true)
      (hh : map.height x' z' = some h) : y' ≤ h :=
    covers x' z' hx' hz' y' h hy' (frame x' y' z' hx' hz' hy' hne hsolid) hh
  unfold Heightmap.dropTop
  split
  · rename_i top
    simp only [Bool.and_eq_true, beq_iff_eq] at top
    obtain ⟨r, hr, found, least⟩ := highest_eq isSolid total
    rw [hr]
    cases r with
    | none => exact ⟨map, rfl, valid, kept⟩
    | some j =>
      have low : j + 1 < 512 := by
        have := (found j rfl).1
        omega
      obtain ⟨map', hset, valid', heights⟩ := valid.setHeight hx hz low
      refine ⟨map', hset, valid', ?_⟩
      intro x' y' z' h hx' hz' hy' hne hsolid hh
      rw [heights x' z' hx' hz'] at hh
      split at hh
      · rename_i column
        obtain ⟨rfl, rfl⟩ := column
        obtain rfl := Option.some.inj hh
        have below : y' ≤ y := kept x' y' z' y hx' hz' hy' hne hsolid top.2
        have other : y' ≠ y := by
          rintro rfl
          exact hne rfl
        obtain ⟨j', hj', le⟩ := least y' (by omega) hsolid
        obtain rfl := Option.some.inj hj'
        omega
      · exact kept x' y' z' h hx' hz' hy' hne hsolid hh
  · exact ⟨map, rfl, valid, kept⟩

theorem Valid.update (valid : Valid map) (hx : x < 16) (hz : z < 16) (hy : y < 512)
    (covers : Covers map isSolid cells limit) (total : ∀ i < y, getBlock x i z = some (cells' x i z))
    (frame : ∀ x' y' z', x' < 16 → z' < 16 → y' < limit → (x', y', z') ≠ (x, y, z) →
      isSolid (cells' x' y' z') = true → isSolid (cells x' y' z') = true)
    (new : isSolid (cells' x y z) = true → isSolid newBlock = true) :
    ∃ map', map.update isSolid x y z oldBlock newBlock getBlock = some map' ∧ Valid map' ∧
      Covers map' isSolid cells' limit := by
  obtain ⟨dropped, hdropped, valid', kept⟩ :=
    valid.dropTop oldBlock hx hz hy covers total frame
  obtain ⟨height, hheight⟩ := valid'.height hx hz
  rw [Heightmap.update, hdropped, Option.bind_some, raiseTop, hheight]
  simp only [Option.bind_some]
  by_cases raised : isSolid newBlock = true ∧ height < y
  · obtain ⟨map', hset, valid'', heights⟩ := valid'.setHeight hx hz hy
    refine ⟨map', by rw [if_pos raised.1, if_pos raised.2, hset], valid'', ?_⟩
    intro x' z' hx' hz' y' h hy' hsolid hh
    rw [heights x' z' hx' hz'] at hh
    by_cases same : (x', y', z') = (x, y, z)
    · simp only [Prod.mk.injEq] at same
      obtain ⟨rfl, rfl, rfl⟩ := same
      rw [if_pos ⟨rfl, rfl⟩] at hh
      exact (Option.some.inj hh).le
    · split at hh
      · rename_i column
        obtain ⟨rfl, rfl⟩ := column
        have := kept x' y' z' height hx' hz' hy' same hsolid hheight
        have := Option.some.inj hh
        omega
      · exact kept x' y' z' h hx' hz' hy' same hsolid hh
  · refine ⟨dropped, ?_, valid', ?_⟩
    · split
      · rename_i solid
        rw [if_neg fun low => raised ⟨solid, low⟩]
      · rfl
    · intro x' z' hx' hz' y' h hy' hsolid hh
      by_cases same : (x', y', z') = (x, y, z)
      · simp only [Prod.mk.injEq] at same
        obtain ⟨rfl, rfl, rfl⟩ := same
        obtain rfl := Option.some.inj (hheight.symm.trans hh)
        by_contra above
        exact raised ⟨new hsolid, by omega⟩
      · exact kept x' y' z' h hx' hz' hy' same hsolid hh

variable (isSolid) in
theorem Valid.recalculateColumn (valid : Valid map) (hx : x < 16) (hz : z < 16)
    (total : ∀ y < CHUNK_HEIGHT, getBlock x y z = some (cells x y z)) :
    ∃ map', map.recalculateColumn isSolid getBlock (x, z) = some map' ∧ Valid map' ∧
      CoversColumn map' isSolid cells CHUNK_HEIGHT x z ∧
      ∀ x' z', x' < 16 → z' < 16 → (x', z') ≠ (x, z) → map'.height x' z' = map.height x' z' := by
  obtain ⟨r, hr, found, least⟩ := highest_eq isSolid total
  rw [Heightmap.recalculateColumn, hr, Option.bind_some]
  cases r with
  | none =>
    refine ⟨map, rfl, valid, ?_, fun _ _ _ _ _ => rfl⟩
    intro y h hy hsolid _
    obtain ⟨j, hj, -⟩ := least y hy hsolid
    cases hj
  | some j =>
    have low : j + 1 < 512 := by
      have := (found j rfl).1
      simp only [CHUNK_HEIGHT] at this
      omega
    obtain ⟨map', hset, valid', heights⟩ := valid.setHeight hx hz low
    refine ⟨map', hset, valid', ?_, ?_⟩
    · intro y h hy hsolid hh
      rw [heights x z hx hz, if_pos ⟨rfl, rfl⟩] at hh
      obtain ⟨j', hj', le⟩ := least y hy hsolid
      have := Option.some.inj hj'
      have := Option.some.inj hh
      omega
    · intro x' z' hx' hz' hne
      rw [heights x' z' hx' hz', if_neg]
      simpa using hne

variable (isSolid) in
theorem recalculated (total : ∀ x z, x < 16 → z < 16 → ∀ y < CHUNK_HEIGHT,
    getBlock x y z = some (cells x y z)) (todo done : List (Nat × Nat))
    (inside : ∀ c ∈ todo, c.1 < 16 ∧ c.2 < 16) (valid : Valid map)
    (covers : ∀ x z, x < 16 → z < 16 → (x, z) ∈ done → CoversColumn map isSolid cells CHUNK_HEIGHT x z) :
    ∃ map', todo.foldlM (Heightmap.recalculateColumn isSolid getBlock) map = some map' ∧ Valid map' ∧
      ∀ x z, x < 16 → z < 16 → (x, z) ∈ todo ++ done →
        CoversColumn map' isSolid cells CHUNK_HEIGHT x z := by
  induction todo generalizing map done with
  | nil => exact ⟨map, rfl, valid, covers⟩
  | cons c todo ih =>
    obtain ⟨hx, hz⟩ := inside c List.mem_cons_self
    obtain ⟨map', hcolumn, valid', covered, frame⟩ :=
      valid.recalculateColumn isSolid hx hz (total c.1 c.2 hx hz)
    have covers' (x z : Nat) (hx : x < 16) (hz : z < 16) (hmem : (x, z) ∈ c :: done) :
        CoversColumn map' isSolid cells CHUNK_HEIGHT x z := by
      by_cases same : (x, z) = c
      · rw [← same] at covered
        exact covered
      · intro y h hy hsolid hh
        rw [frame x z hx hz same] at hh
        exact covers x z hx hz ((List.mem_cons.mp hmem).resolve_left same) y h hy hsolid hh
    obtain ⟨last, hrest, hvalid, hcovers⟩ :=
      ih (c :: done) (fun c' hc' => inside c' (List.mem_cons_of_mem c hc')) valid' covers'
    refine ⟨last, ?_, hvalid, ?_⟩
    · rw [List.foldlM_cons, hcolumn]
      exact hrest
    · intro x z hx hz hmem
      apply hcovers x z hx hz
      simp only [List.cons_append, List.mem_cons, List.mem_append] at hmem ⊢
      tauto

theorem mem_columns (hx : x < 16) (hz : z < 16) : (x, z) ∈ columns := by
  simp [columns, hx, hz]

theorem Valid.recalculate (valid : Valid map) (total : ∀ x z, x < 16 → z < 16 →
    ∀ y < CHUNK_HEIGHT, getBlock x y z = some (cells x y z)) :
    ∃ map', map.recalculate isSolid getBlock = some map' ∧ Valid map' ∧
      Covers map' isSolid cells CHUNK_HEIGHT := by
  have inside (c : Nat × Nat) (hc : c ∈ columns) : c.1 < 16 ∧ c.2 < 16 := by
    obtain ⟨x, hx, hmem⟩ := List.mem_flatMap.mp hc
    obtain ⟨z, hz, rfl⟩ := List.mem_map.mp hmem
    exact ⟨List.mem_range.mp hx, List.mem_range.mp hz⟩
  obtain ⟨map', hloop, valid', covers⟩ := recalculated isSolid total columns [] inside valid (by simp)
  refine ⟨map', hloop, valid', ?_⟩
  intro x z hx hz
  exact covers x z hx hz (by rw [List.append_nil]; exact mem_columns hx hz)

end Update
end Heightmap
structure HeightmapStore where
  motionBlocking : Heightmap
  motionBlockingNoLeaves : Heightmap
  lightBlocking : Heightmap
  oceanFloor : Heightmap
  worldSurface : Heightmap

namespace HeightmapStore

def new : HeightmapStore := ⟨.new, .new, .new, .new, .new⟩

variable (traits : BlockTraits)

def forEach (self : HeightmapStore) (operation : HeightmapFunction → Heightmap → Option Heightmap) :
    Option HeightmapStore := do
  let motionBlocking ← operation traits.motionBlocking self.motionBlocking
  let motionBlockingNoLeaves ← operation traits.motionBlockingNoLeaves self.motionBlockingNoLeaves
  let lightBlocking ← operation traits.lightBlocking self.lightBlocking
  let oceanFloor ← operation traits.oceanFloor self.oceanFloor
  let worldSurface ← operation BlockTraits.worldSurface self.worldSurface
  pure ⟨motionBlocking, motionBlockingNoLeaves, lightBlocking, oceanFloor, worldSurface⟩

def update (self : HeightmapStore) (x y z : Nat) (oldBlock newBlock : BlockId)
    (getBlock : Nat → Nat → Nat → Option BlockId) : Option HeightmapStore :=
  self.forEach traits fun isSolid map => map.update isSolid x y z oldBlock newBlock getBlock

def recalculate (self : HeightmapStore) (getBlock : Nat → Nat → Nat → Option BlockId) :
    Option HeightmapStore :=
  self.forEach traits fun isSolid map => map.recalculate isSolid getBlock

def maps (self : HeightmapStore) : List (HeightmapFunction × Heightmap) :=
  [(traits.motionBlocking, self.motionBlocking),
    (traits.motionBlockingNoLeaves, self.motionBlockingNoLeaves),
    (traits.lightBlocking, self.lightBlocking), (traits.oceanFloor, self.oceanFloor),
    (BlockTraits.worldSurface, self.worldSurface)]

variable {traits}

theorem isSolid_air (self : HeightmapStore) {p : HeightmapFunction × Heightmap}
    (h : p ∈ self.maps traits) {block : BlockId} (hair : block.isAir = true) : p.1 block = false := by
  obtain ⟨solid, transparent, fluid⟩ := traits.air block hair
  simp only [maps, List.mem_cons, List.not_mem_nil, or_false] at h
  rcases h with rfl | rfl | rfl | rfl | rfl
  all_goals simp [BlockTraits.motionBlocking, BlockTraits.motionBlockingNoLeaves,
    BlockTraits.lightBlocking, BlockTraits.oceanFloor, BlockTraits.worldSurface, *]

theorem exists_forEach {self : HeightmapStore} {operation : HeightmapFunction → Heightmap → Option Heightmap}
    {P Q : HeightmapFunction → Heightmap → Prop} (hP : ∀ p ∈ self.maps traits, P p.1 p.2)
    (step : ∀ isSolid map, P isSolid map → ∃ map', operation isSolid map = some map' ∧ Q isSolid map') :
    ∃ store', self.forEach traits operation = some store' ∧ ∀ p ∈ store'.maps traits, Q p.1 p.2 := by
  simp only [maps, List.forall_mem_cons, List.not_mem_nil, false_implies, implies_true, and_true] at hP
  obtain ⟨h₁, h₂, h₃, h₄, h₅⟩ := hP
  obtain ⟨m₁, e₁, q₁⟩ := step _ _ h₁
  obtain ⟨m₂, e₂, q₂⟩ := step _ _ h₂
  obtain ⟨m₃, e₃, q₃⟩ := step _ _ h₃
  obtain ⟨m₄, e₄, q₄⟩ := step _ _ h₄
  obtain ⟨m₅, e₅, q₅⟩ := step _ _ h₅
  refine ⟨⟨m₁, m₂, m₃, m₄, m₅⟩, by simp [forEach, e₁, e₂, e₃, e₄, e₅], ?_⟩
  simp [maps, q₁, q₂, q₃, q₄, q₅]

end HeightmapStore
end FpgaCraft.Server
