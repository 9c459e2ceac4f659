import FpgaCraft.Server.RegionFile

/-! The parts of a region file: what the allocator gives away, and the header as it is written
and read back. -/
namespace FpgaCraft.Server
open Library

/-! ### Sectors -/

namespace SectorAllocator
variable {self self' : SectorAllocator} {block : SectorBlock}

theorem mem_sectors {i : Nat} : i ∈ block.sectors ↔ block.offset ≤ i ∧ i < block.offset + block.count := by
  rw [SectorBlock.sectors, List.mem_range'_1]

/-- The sectors of the new block were free, or are behind all others, and no block before it is. -/
structure Allocated (minSize : Nat) (before : SectorAllocator) (block : SectorBlock)
    (after : SectorAllocator) : Prop where
  count : block.count = minSize
  fresh : ∀ i ∈ block.sectors, before.usedSectors[i]? ≠ some true
  used : ∀ i, after.usedSectors[i]? = if i ∈ block.sectors then some true else before.usedSectors[i]?
  length : after.usedSectors.length = max before.usedSectors.length (block.offset + minSize)
  inside : block.offset ≤ before.usedSectors.length
  first : ∀ start, start < block.offset → ¬FreeAt before.usedSectors start minSize

theorem exists_allocate {minSize : Nat} (positive : 0 < minSize)
    (first : self.usedSectors[0]? = some true) :
    ∃ block self', self.allocate minSize = some (block, self') ∧ Allocated minSize self block self' := by
  rw [allocate]
  cases hsearch : search minSize self.usedSectors 0 0 0 with
  | some found =>
    obtain ⟨offset, count⟩ := found
    obtain ⟨rfl, free, -⟩ := search_sound (fun i => by rw [Nat.zero_add]) first
      (counted_zero self.usedSectors 0) positive hsearch
    have inside := free.inside positive
    have bounded (i : Nat) (hi : i ∈ List.range' offset count) : i < self.usedSectors.length := by
      rw [List.mem_range'_1] at hi
      omega
    obtain ⟨used, hmark, length, cell⟩ := @exists_mark true _ _ bounded
    refine ⟨⟨offset, count⟩, ⟨used⟩, by simp only [hmark, Option.map_some], rfl, fun i hi => ?_, cell, ?_, ?_,
      fun start before => ?_⟩
    · rw [mem_sectors] at hi
      rw [free i hi.1 hi.2]
      exact nofun
    · rw [length]
      exact (Nat.max_eq_left inside).symm
    · exact (Nat.le_add_right offset count).trans inside
    · apply not_freeAt_of_search first positive start
      intro found hfound
      obtain rfl := Option.some.inj (hsearch.symm.trans hfound)
      exact before
  | none =>
    refine ⟨_, _, rfl, rfl, fun i hi => ?_, fun i => ?_, ?_, le_rfl, fun start _ => ?_⟩
    · rw [mem_sectors] at hi
      rw [List.getElem?_eq_none hi.1]
      exact nofun
    · simp only [mem_sectors, List.getElem?_append, List.getElem?_replicate]
      by_cases before : i < self.usedSectors.length
      · rw [if_pos before, if_neg (by omega)]
      · rw [if_neg before, List.getElem?_eq_none (by omega)]
        congr 1
        rw [eq_iff_iff]
        omega
    · rw [List.length_append, List.length_replicate, Nat.max_eq_right (Nat.le_add_right _ _)]
    · apply not_freeAt_of_search first positive start
      intro found hfound
      cases hsearch.symm.trans hfound

theorem exists_free (inside : block.offset + block.count ≤ self.usedSectors.length) :
    ∃ self', self.free block = some self' ∧
      self'.usedSectors.length = self.usedSectors.length ∧
      ∀ i, self'.usedSectors[i]? = if i ∈ block.sectors then some false else self.usedSectors[i]? := by
  have bounded (i : Nat) (hi : i ∈ block.sectors) : i < self.usedSectors.length := by
    rw [mem_sectors] at hi
    omega
  obtain ⟨used, hmark, length, cell⟩ := @exists_mark false _ _ bounded
  exact ⟨⟨used⟩, by rw [free, hmark, Option.map_some], length, cell⟩

theorem marked_iff {cells : List Nat} {n i : Nat} :
    (if i ∈ cells then some true else (List.replicate n false)[i]?) = some true ↔ i ∈ cells := by
  split
  · rename_i hi
    simp only [hi]
  · rename_i hi
    simp [hi, List.getElem?_replicate]

theorem exists_new {header : RegionHeader} {fileSize : Nat} (room : 2 ≤ fileSize)
    (inside : ∀ slot, (header.locations slot).existsInFile = true →
      (header.locations slot).offset + (header.locations slot).count ≤ fileSize) :
    ∃ allocator, new header fileSize = some allocator ∧ allocator.usedSectors.length = fileSize ∧
      ∀ i, allocator.usedSectors[i]? = some true ↔ i < 2 ∨
        ∃ slot, (header.locations slot).existsInFile = true ∧ i ∈ (header.locations slot).sectors := by
  have member (i : Nat) :
      i ∈ ((List.ofFn header.locations).filter SectorBlock.existsInFile).flatMap SectorBlock.sectors ++
        [0, 1] ↔ i < 2 ∨
          ∃ slot, (header.locations slot).existsInFile = true ∧ i ∈ (header.locations slot).sectors := by
    simp only [List.mem_append, List.mem_flatMap, List.mem_filter, List.mem_ofFn, List.mem_cons,
      List.not_mem_nil, or_false]
    constructor
    · rintro (⟨block, ⟨⟨slot, rfl⟩, present⟩, hi⟩ | hi)
      · exact .inr ⟨slot, present, hi⟩
      · left
        omega
    · rintro (hi | ⟨slot, present, hi⟩)
      · right
        omega
      · exact .inl ⟨_, ⟨⟨slot, rfl⟩, present⟩, hi⟩
  have bounded (i : Nat) (hi : i ∈ ((List.ofFn header.locations).filter
      SectorBlock.existsInFile).flatMap SectorBlock.sectors ++ [0, 1]) :
      i < (List.replicate fileSize false).length := by
    rw [List.length_replicate]
    rcases (member i).mp hi with hi | ⟨slot, present, hi⟩
    · omega
    · rw [mem_sectors] at hi
      have := inside slot present
      omega
  obtain ⟨used, hmark, length, cell⟩ := @exists_mark true _ _ bounded
  refine ⟨⟨used⟩, by rw [new, hmark, Option.map_some], by rw [length, List.length_replicate], fun i => ?_⟩
  rw [cell, ← member i]
  exact marked_iff

end SectorAllocator

/-! ### Words -/

theorem foldl_writeU32 (words : List (BitVec 32)) (word : BitVec 32) (file : File (BitVec 8)) :
    (word :: words).foldl writeU32 file =
      file.writeAll 0 ((word :: words).flatMap fun word => bigEndian 4 word.toNat) := by
  have rest := File.foldl_writeAll (0 : BitVec 8) (words.map fun word => bigEndian 4 word.toNat)
    (bigEndian 4 word.toNat) file
  rw [List.foldl_map] at rest
  exact rest

theorem length_flatMap_bigEndian (words : List (BitVec 32)) :
    (words.flatMap fun word => bigEndian 4 word.toNat).length = 4 * words.length := by
  induction words with
  | nil => rfl
  | cons word words ih =>
    rw [List.flatMap_cons, List.length_append, ih, length_bigEndian, List.length_cons]
    omega

theorem readU32_of_slice {content : List (BitVec 8)} {offset : Nat} {value : BitVec 32}
    (bytes : File.slice content offset 4 = bigEndian 4 value.toNat) :
    readU32 ⟨content, offset⟩ = some (value, ⟨content, offset + 4⟩) := by
  have inside : 4 ≤ content.length - offset := by
    have length := congrArg List.length bytes
    rw [length_bigEndian, File.slice, List.length_take, List.length_drop] at length
    omega
  rw [readU32, File.readExact_eq inside, Option.map_some, bytes]
  dsimp only
  rw [ofBigEndian_of_lt value.isLt, BitVec.ofNat_toNat, BitVec.setWidth_eq]

theorem readWords_of_slice {content : List (BitVec 8)} {offset : Nat} {words : List (BitVec 32)}
    (bytes : File.slice content offset (4 * words.length) =
      words.flatMap fun word => bigEndian 4 word.toNat) :
    readWords words.length ⟨content, offset⟩ = some words := by
  induction words generalizing offset with
  | nil => rfl
  | cons word words ih =>
    have first : File.slice content offset 4 = bigEndian 4 word.toNat := by
      have part := @File.slice_start _ content offset (4 * (word :: words).length) 4
        (by rw [List.length_cons]; omega)
      rw [← part, bytes, List.flatMap_cons, File.slice_append_left (by rw [length_bigEndian]),
        File.slice_length (length_bigEndian 4 _).symm]
    have rest : File.slice content (offset + 4) (4 * words.length) =
        words.flatMap fun word => bigEndian 4 word.toNat := by
      have part := @File.slice_slice _ content offset (4 * (word :: words).length) 4 (4 * words.length)
        (by rw [List.length_cons]; omega)
      rw [← part, bytes, List.flatMap_cons, File.slice_append_right (length_bigEndian 4 _).symm,
        File.slice_length (length_flatMap_bigEndian words).symm]
    rw [List.length_cons, readWords, readU32_of_slice first, Option.bind_some]
    dsimp only
    rw [ih rest, Option.map_some]

def SectorBlock.Fits (self : SectorBlock) : Prop := self.offset < 2 ^ 24 ∧ self.count < 2 ^ 8

theorem SectorBlock.ofWord_word {block : SectorBlock} (fits : block.Fits) : ofWord block.word = block := by
  obtain ⟨offset, count⟩ := block
  obtain ⟨small, few⟩ := fits
  dsimp only at small few
  have mask (x : BitVec 32) : (x &&& 0b11111111).toNat = x.toNat % 2 ^ 8 := by
    rw [BitVec.toNat_and, ← Nat.and_two_pow_sub_one_eq_mod]
    rfl
  have sum : (SectorBlock.word ⟨offset, count⟩).toNat = offset * 2 ^ 8 + count := by
    rw [SectorBlock.word, BitVec.toNat_or, mask, BitVec.toNat_shiftLeft, BitVec.toNat_ofNat,
      BitVec.toNat_ofNat]
    dsimp only
    rw [Nat.mod_eq_of_lt (show offset < 2 ^ 32 by omega), Nat.mod_eq_of_lt (show count < 2 ^ 32 by omega),
      Nat.mod_eq_of_lt few, Nat.shiftLeft_eq, Nat.mod_eq_of_lt (by omega), ← Nat.shiftLeft_eq,
      ← Nat.shiftLeft_add_eq_or_of_lt few]
  rw [ofWord]
  congr 1
  · rw [BitVec.toNat_ushiftRight, sum, Nat.shiftRight_eq_div_pow]
    omega
  · rw [mask, sum]
    omega

/-! ### The header on disk -/

namespace RegionHeader
variable (self : RegionHeader)

def bytes : List (BitVec 8) := self.words.flatMap fun word => bigEndian 4 word.toNat

theorem length_words : self.words.length = 2048 := by
  rw [words, List.length_append, List.length_ofFn, List.length_ofFn]
  rfl

@[simp] theorem length_bytes : self.bytes.length = 8192 := by
  rw [bytes, length_flatMap_bigEndian, length_words]

theorem writeTo_eq (file : File (BitVec 8)) : self.writeTo file = file.writeAll 0 self.bytes := by
  have length := self.length_words
  rw [writeTo, bytes]
  cases hwords : self.words with
  | nil =>
    rw [hwords] at length
    cases length
  | cons word words => exact foldl_writeU32 words word file

/-- A header that was written is the one read, where all blocks fit into their words. -/
theorem readHeader_eq {content : List (BitVec 8)} (written : File.slice content 0 8192 = self.bytes)
    (fits : ∀ slot, (self.locations slot).Fits) : readHeader ⟨content, 0⟩ = .ok self := by
  have long : ¬content.length < 8192 := by
    have length := congrArg List.length written
    rw [length_bytes, File.slice, List.length_take, List.length_drop] at length
    omega
  have words : readWords (REGION_SIZE * REGION_SIZE + REGION_SIZE * REGION_SIZE) ⟨content, 0⟩ =
      some self.words := by
    have read := @readWords_of_slice content 0 self.words
    rw [self.length_words] at read
    exact read written
  have locations : (fun i : Fin (REGION_SIZE * REGION_SIZE) =>
      SectorBlock.ofWord (self.words.getD i.val 0)) = self.locations := by
    funext i
    have inside : i.val < (List.ofFn fun i => (self.locations i).word).length := by
      rw [List.length_ofFn]
      exact i.isLt
    rw [RegionHeader.words, List.getD_eq_getElem?_getD, List.getElem?_append_left inside,
      List.getElem?_ofFn, dif_pos i.isLt]
    exact SectorBlock.ofWord_word (fits i)
  have timestamps : (fun i : Fin (REGION_SIZE * REGION_SIZE) =>
      self.words.getD (REGION_SIZE * REGION_SIZE + i.val) 0) = self.timestamps := by
    funext i
    have length : (List.ofFn fun i => (self.locations i).word).length = REGION_SIZE * REGION_SIZE :=
      List.length_ofFn
    have behind : (List.ofFn fun i => (self.locations i).word).length ≤ REGION_SIZE * REGION_SIZE + i.val := by
      rw [length]
      exact Nat.le_add_right _ _
    rw [RegionHeader.words, List.getD_eq_getElem?_getD, List.getElem?_append_right behind, length,
      Nat.add_sub_cancel_left, List.getElem?_ofFn, dif_pos i.isLt, Option.getD_some]
  rw [readHeader, if_neg long, words]
  dsimp only
  rw [locations, timestamps]

end RegionHeader
end FpgaCraft.Server
