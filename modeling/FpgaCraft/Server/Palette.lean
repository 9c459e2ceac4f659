import FpgaCraft.Library.Machine
import FpgaCraft.Server.VanillaIds

/-! The palette of a chunk section (`feather/base/src/chunk/palette.rs`). An index out of bounds
is `none`. -/
namespace FpgaCraft.Server
open Library

/-- The distinct blocks of a section. The indices freed last are reused first. -/
@[ext] structure Palette where
  blocks : List BlockId
  freeIndices : List Nat
deriving DecidableEq

namespace Palette

def new : Palette := ⟨[.air], []⟩

/-- Gets the block at index `i`, or air if the palette does not contain `i`. -/
def get (self : Palette) (index : Nat) : BlockId := self.blocks[index]?.getD .air

def len (self : Palette) : Nat := self.blocks.length

def indexOf (self : Palette) (block : BlockId) : Option Nat := self.blocks.idxOf? block

def insert (self : Palette) (block : BlockId) : Option (Palette × Nat) :=
  match self.freeIndices with
  | i :: freeIndices =>
    if i < self.blocks.length then some (⟨self.blocks.set i block, freeIndices⟩, i) else none
  | [] => some (⟨self.blocks ++ [block], []⟩, self.blocks.length)

/-- Gets the index of `block`, which is inserted if it does not exist. -/
def indexOrInsert (self : Palette) (block : BlockId) : Option (Palette × Nat) :=
  match self.indexOf block with
  | some i => some (self, i)
  | none => self.insert block

def remove (self : Palette) (block : BlockId) : Palette :=
  match self.indexOf block with
  | some index => ⟨self.blocks.set index .air, index :: self.freeIndices⟩
  | none => self

def clear (self : Palette) : Palette := ⟨[.air], self.freeIndices⟩

theorem indexOf_eq_some_iff {self : Palette} {block : BlockId} {i : Nat} :
    self.indexOf block = some i ↔
      self.blocks[i]? = some block ∧ ∀ j < i, self.blocks[j]? ≠ some block := by
  simp only [indexOf, List.idxOf?, List.findIdx?_eq_some_iff_getElem, beq_iff_eq]
  constructor
  · rintro ⟨h, heq, first⟩
    refine ⟨List.getElem?_eq_some_iff.mpr ⟨h, heq⟩, ?_⟩
    intro j hj hsome
    exact first j hj (List.getElem?_eq_some_iff.mp hsome).2
  · rintro ⟨hsome, first⟩
    obtain ⟨h, heq⟩ := List.getElem?_eq_some_iff.mp hsome
    refine ⟨h, heq, ?_⟩
    intro j hj heq
    exact first j hj (List.getElem?_eq_some_iff.mpr ⟨_, heq⟩)

theorem indexOf_eq_none_iff {self : Palette} {block : BlockId} :
    self.indexOf block = none ↔ ∀ i : Nat, self.blocks[i]? ≠ some block := by
  rw [indexOf, List.idxOf?_eq_none_iff, List.mem_iff_getElem?, not_exists]

theorem get_of_getElem? {self : Palette} {block : BlockId} {i : Nat}
    (h : self.blocks[i]? = some block) : self.get i = block := by
  rw [get, h, Option.getD_some]

/-- Entry 0 is air, the other air entries are free, and no block has two entries. -/
structure Sound (palette : Palette) : Prop where
  first : palette.blocks[0]? = some .air
  gaps : ∀ i : Nat, i ≠ 0 → (palette.blocks[i]? = some .air ↔ i ∈ palette.freeIndices)
  free : ∀ i ∈ palette.freeIndices, i ≠ 0
  nodup : palette.freeIndices.Nodup
  distinct : ∀ (i j : Nat) (block : BlockId), palette.blocks[i]? = some block → palette.blocks[j]? = some block →
    block ≠ .air → i = j

theorem sound_new : Sound new := by
  constructor
  · rfl
  · intro i hi
    simp [new, hi]
  · simp [new]
  · simp [new]
  · intro i j block hi hj _
    simp only [new, List.getElem?_singleton] at hi hj
    grind

variable {palette : Palette} {block : BlockId}

theorem Sound.nodup_blocks (sound : Sound palette) (full : palette.freeIndices = []) :
    palette.blocks.Nodup := by
  apply List.nodup_iff_getElem?_ne_getElem?.mpr
  intro i j hij hj same
  obtain ⟨block, hblock⟩ : ∃ block, palette.blocks[j]? = some block := ⟨_, List.getElem?_eq_getElem hj⟩
  by_cases air : block = .air
  · have gap := (sound.gaps j (by omega)).mp (air ▸ hblock)
    simp [full] at gap
  · exact hij.ne (sound.distinct i j block (same.trans hblock) hblock air)

theorem Sound.indexOf_iff (sound : Sound palette) (hair : block ≠ .air) {i : Nat} :
    palette.indexOf block = some i ↔ palette.blocks[i]? = some block := by
  rw [indexOf_eq_some_iff, and_iff_left_iff_imp]
  intro hi j hj hsome
  exact hj.ne (sound.distinct j i block hsome hi hair)

theorem Sound.indexOf_air (sound : Sound palette) : palette.indexOf .air = some 0 :=
  indexOf_eq_some_iff.mpr ⟨sound.first, by simp⟩

structure Inserted (palette palette' : Palette) (block : BlockId) (i : Nat) : Prop where
  sound : Sound palette'
  entry : palette'.blocks[i]? = some block
  kept : ∀ (j : Nat) (other : BlockId), palette.blocks[j]? = some other → other ≠ .air → palette'.blocks[j]? = some other

theorem Sound.insert (sound : Sound palette) (fresh : palette.indexOf block = none) :
    ∃ palette' i, palette.insert block = some (palette', i) ∧ Inserted palette palette' block i := by
  rw [indexOf_eq_none_iff] at fresh
  have hair : block ≠ .air := by
    rintro rfl
    exact fresh 0 sound.first
  have first := sound.first
  have gaps := sound.gaps
  unfold Palette.insert
  cases hfree : palette.freeIndices with
  | nil =>
    refine ⟨_, _, rfl, ⟨?_, ?_, ?_, ?_, ?_⟩, ?_, ?_⟩
    all_goals simp only [hfree, List.not_mem_nil, iff_false] at *
    · grind
    · grind
    · simp
    · simp
    · intro i j other hi hj hother
      have := sound.distinct i j other
      have := fresh i
      have := fresh j
      grind
    · simp
    · grind
  | cons i rest =>
    have hi : palette.blocks[i]? = some .air :=
      (gaps i (sound.free i (by simp [hfree]))).mpr (by simp [hfree])
    have bound := (List.getElem?_eq_some_iff.mp hi).1
    have positive := sound.free i (by simp [hfree])
    have nodup := sound.nodup
    have free := sound.free
    simp only [if_pos bound]
    refine ⟨_, _, rfl, ⟨?_, ?_, ?_, ?_, ?_⟩, ?_, ?_⟩
    all_goals simp only [hfree, List.nodup_cons, List.mem_cons] at *
    · grind
    · grind
    · grind
    · exact nodup.2
    · intro j k other hj hk hother
      have := sound.distinct j k other
      have := fresh j
      have := fresh k
      grind
    · grind
    · grind

theorem Sound.indexOrInsert (sound : Sound palette) (block : BlockId) :
    ∃ palette' i, palette.indexOrInsert block = some (palette', i) ∧
      Inserted palette palette' block i := by
  unfold Palette.indexOrInsert
  cases hindex : palette.indexOf block with
  | none => exact sound.insert hindex
  | some i =>
    refine ⟨palette, i, rfl, sound, (indexOf_eq_some_iff.mp hindex).1, ?_⟩
    intro j other hj _
    exact hj

theorem Sound.remove (sound : Sound palette) (hair : block ≠ .air) : Sound (palette.remove block) := by
  unfold Palette.remove
  cases hindex : palette.indexOf block with
  | none => exact sound
  | some index =>
    have first := sound.first
    have gaps := sound.gaps
    have free := sound.free
    have nodup := sound.nodup
    have entry := (sound.indexOf_iff hair).mp hindex
    refine ⟨?_, ?_, ?_, ?_, ?_⟩
    · grind
    · grind
    · grind
    · rw [List.nodup_cons]
      grind
    · intro i j other hi hj hother
      have := sound.distinct i j other
      grind

theorem Sound.indexOf_remove (sound : Sound palette) (hair : block ≠ .air) {other : BlockId} {i : Nat}
    (hi : palette.indexOf other = some i) (hother : other ≠ block) :
    (palette.remove block).indexOf other = some i := by
  have sound' := sound.remove hair
  by_cases air : other = .air
  · subst air
    rw [sound.indexOf_air] at hi
    rw [sound'.indexOf_air, hi]
  · rw [sound.indexOf_iff air] at hi
    rw [sound'.indexOf_iff air]
    unfold Palette.remove
    cases hindex : palette.indexOf block with
    | none => exact hi
    | some index =>
      have entry := (sound.indexOf_iff hair).mp hindex
      grind

theorem Inserted.indexOf {palette' : Palette} {i : Nat} (inserted : Inserted palette palette' block i)
    (sound : Sound palette) {other : BlockId} {j : Nat} (hj : palette.indexOf other = some j) :
    palette'.indexOf other = some j := by
  by_cases air : other = .air
  · subst air
    rw [sound.indexOf_air] at hj
    rw [inserted.sound.indexOf_air, hj]
  · rw [sound.indexOf_iff air] at hj
    rw [inserted.sound.indexOf_iff air]
    exact inserted.kept j other hj air

inductive Call where
  | indexOrInsert (block : BlockId)
  | remove (block : BlockId)
  | clear
deriving DecidableEq

def Call.isRemove : Call → Bool
  | .remove _ => true
  | _ => false

def Call.Drops : Call → BlockId → Prop
  | .indexOrInsert _, _ => False
  | .remove block, other => other = block
  | .clear, other => other ≠ .air

def call : Call → Palette → Option Palette
  | .indexOrInsert block, palette => (palette.indexOrInsert block).map Prod.fst
  | .remove block, palette => some (palette.remove block)
  | .clear, palette => some palette.clear

/-- Where an index is free, the palette may not be cleared: the index outlives its entry. -/
theorem insert_clear (sound : Sound palette) (freed : palette.freeIndices ≠ []) (hair : block ≠ .air) :
    palette.clear.indexOrInsert block = none := by
  have fresh : palette.clear.indexOf block = none := by
    rw [indexOf_eq_none_iff]
    intro i
    simp [clear, List.getElem?_singleton, hair.symm]
  unfold Palette.indexOrInsert Palette.insert
  rw [fresh]
  cases hfree : palette.freeIndices with
  | nil => exact absurd hfree freed
  | cons i rest =>
    have positive := sound.free i (by simp [hfree])
    simp only [clear, hfree, List.length_singleton]
    exact if_neg (by omega)

theorem clear_of_unfreed (unfreed : palette.freeIndices = []) : palette.clear = new := by
  rw [clear, unfreed, new]

theorem freeIndices_insert {palette' : Palette} {i : Nat} (unfreed : palette.freeIndices = [])
    (h : palette.indexOrInsert block = some (palette', i)) : palette'.freeIndices = [] := by
  unfold Palette.indexOrInsert Palette.insert at h
  cases hindex : palette.indexOf block with
  | some j =>
    rw [hindex] at h
    cases h
    exact unfreed
  | none =>
    rw [hindex, unfreed] at h
    cases h
    rfl

theorem Sound.call (sound : Sound palette) {c : Call} (hc : c ≠ .remove .air)
    (unfreed : c = .clear → palette.freeIndices = []) :
    ∃ palette', Palette.call c palette = some palette' ∧ Sound palette' ∧
      (c.isRemove = false → palette.freeIndices = [] → palette'.freeIndices = []) ∧
      ∀ block i, palette.indexOf block = some i → ¬c.Drops block → palette'.indexOf block = some i := by
  cases c with
  | indexOrInsert block =>
    obtain ⟨palette', i, h, inserted⟩ := sound.indexOrInsert block
    refine ⟨palette', by rw [Palette.call, h]; rfl, inserted.sound, ?_, ?_⟩
    · intro _ unfreed
      exact freeIndices_insert unfreed h
    · intro other j hj _
      exact inserted.indexOf sound hj
  | remove block =>
    have hair : block ≠ .air := by simpa using hc
    refine ⟨palette.remove block, rfl, sound.remove hair, ?_, ?_⟩
    · intro kept
      cases kept
    · intro other j hj hother
      exact sound.indexOf_remove hair hj hother
  | clear =>
    refine ⟨palette.clear, rfl, ?_, fun _ => id, ?_⟩
    · rw [clear_of_unfreed (unfreed rfl)]
      exact sound_new
    · intro block i hi kept
      obtain rfl : block = .air := not_not.mp kept
      rw [sound.indexOf_air] at hi
      rw [clear_of_unfreed (unfreed rfl), sound_new.indexOf_air, hi]

def ClearsFirst (calls : List Call) : Prop :=
  calls.Pairwise fun earlier later => later = .clear → earlier.isRemove = false

instance (calls : List Call) : Decidable (ClearsFirst calls) :=
  inferInstanceAs (Decidable (List.Pairwise _ _))

theorem exists_run {calls : List Call} (hcalls : .remove .air ∉ calls) (order : ClearsFirst calls)
    (sound : Sound palette) (unfreed : .clear ∈ calls → palette.freeIndices = []) :
    ∃ palette', run Palette.call calls palette = some palette' ∧ Sound palette' := by
  induction calls generalizing palette with
  | nil => exact ⟨palette, rfl, sound⟩
  | cons c calls ih =>
    rw [List.mem_cons, not_or] at hcalls
    obtain ⟨later, order⟩ := List.pairwise_cons.mp order
    obtain ⟨palette', hcall, sound', kept, -⟩ := sound.call (Ne.symm hcalls.1) fun same =>
      unfreed (same ▸ List.mem_cons_self)
    obtain ⟨last, hrun, hlast⟩ := ih hcalls.2 order sound' fun hclear =>
      kept (later .clear hclear rfl) (unfreed (List.mem_cons_of_mem _ hclear))
    exact ⟨last, (run_cons_eq_some _).mpr ⟨palette', hcall, hrun⟩, hlast⟩

/-- A palette from which air is never removed, and which is cleared before anything is removed,
numbers its blocks: no call panics, an index reads as its block, a block has one index, and keeps it
until the block itself is taken out. A palette with a free index is of no use once it is cleared:
every block that is inserted then panics. -/
theorem palette_numbers_blocks (calls : List Call) (hcalls : .remove .air ∉ calls)
    (order : ClearsFirst calls) :
    ∃ palette, run call calls new = some palette ∧ palette.get 0 = .air ∧
      (∀ block i, palette.indexOf block = some i → palette.get i = block) ∧
      (∀ i, palette.get i ≠ .air → palette.indexOf (palette.get i) = some i) ∧
      (∀ block, ∃ palette' i, palette.indexOrInsert block = some (palette', i) ∧
        palette'.get i = block) ∧
      (∀ c, c ≠ .remove .air → (c = .clear → palette.freeIndices = []) →
        ∃ palette', call c palette = some palette' ∧ ∀ block i, palette.indexOf block = some i →
          ¬c.Drops block → palette'.indexOf block = some i) ∧
      (palette.freeIndices ≠ [] → ∀ block, block ≠ .air → palette.clear.indexOrInsert block = none) := by
  obtain ⟨palette, hrun, sound⟩ := exists_run hcalls order sound_new fun _ => rfl
  refine ⟨palette, hrun, get_of_getElem? sound.first, ?_, ?_, ?_, ?_, ?_⟩
  · intro block i h
    exact get_of_getElem? (indexOf_eq_some_iff.mp h).1
  · intro i h
    rw [sound.indexOf_iff h]
    unfold get at h ⊢
    cases hi : palette.blocks[i]? with
    | none => simp [hi] at h
    | some block => rfl
  · intro block
    obtain ⟨palette', i, h, inserted⟩ := sound.indexOrInsert block
    exact ⟨palette', i, h, get_of_getElem? inserted.entry⟩
  · intro c hc unfreed
    obtain ⟨palette', hcall, -, -, kept⟩ := sound.call hc unfreed
    exact ⟨palette', hcall, kept⟩
  · intro freed block hair
    exact insert_clear sound freed hair

/-- Stone is removed and dirt takes its index, unless the palette is cleared in between. -/
theorem palette_numbers_blocks_dirt :
    ∃ palette, run call [.clear, .indexOrInsert ⟨.stone, 0⟩, .remove ⟨.stone, 0⟩] new = some palette ∧
      (∃ palette', call (.indexOrInsert ⟨.dirt, 0⟩) palette = some palette') ∧
      palette.clear.indexOrInsert ⟨.dirt, 0⟩ = none := by
  obtain ⟨palette, hrun, -, -, -, -, next, lost⟩ := palette_numbers_blocks
    [.clear, .indexOrInsert ⟨.stone, 0⟩, .remove ⟨.stone, 0⟩] (by decide) (by decide)
  have final : run call [.clear, .indexOrInsert ⟨.stone, 0⟩, .remove ⟨.stone, 0⟩] new =
      some ⟨[.air, .air], [1]⟩ := by decide
  have freed : palette.freeIndices ≠ [] := by
    rw [final] at hrun
    cases hrun
    exact List.cons_ne_nil _ _
  obtain ⟨palette', hcall, -⟩ := next (.indexOrInsert ⟨.dirt, 0⟩) (by decide)
    fun same => by cases same
  exact ⟨palette, hrun, ⟨palette', hcall⟩, lost freed _ (by decide)⟩

end Palette
end FpgaCraft.Server
