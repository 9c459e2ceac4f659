import Mathlib.Data.List.Induction

/-! Files as bytes with a cursor: writes at an offset of the caller's, which leave the cursor,
and reads and writes at the cursor, which move it past the bytes. -/
namespace FpgaCraft.Library
variable {β : Type*}

structure File (β : Type*) where
  content : List β
  cursor : Nat

namespace File

def create : File β := ⟨[], 0⟩

def overwrite (fill : β) (content : List β) (offset : Nat) (buf : List β) : List β :=
  content.take offset ++ List.replicate (offset - content.length) fill ++ buf ++
    content.drop (offset + buf.length)

def writeAllAt (fill : β) (buf : List β) (offset : Nat) (self : File β) : File β :=
  { self with content := overwrite fill self.content offset buf }

def writeAll (fill : β) (buf : List β) (self : File β) : File β where
  content := overwrite fill self.content self.cursor buf
  cursor := self.cursor + buf.length

def seek (offset : Nat) (self : File β) : File β := { self with cursor := offset }

def slice (content : List β) (offset n : Nat) : List β := (content.drop offset).take n

/-- `read_exact`, which fails at the end of the file. -/
def readExact (n : Nat) (self : File β) : Option (List β × File β) :=
  if n ≤ self.content.length - self.cursor then
    some (slice self.content self.cursor n, { self with cursor := self.cursor + n })
  else none

variable (fill : β)

theorem overwrite_start {content buf : List β} (covers : content.length ≤ buf.length) :
    overwrite fill content 0 buf = buf := by
  simp [overwrite, covers]

theorem overwrite_end (content buf : List β) :
    overwrite fill content content.length buf = content ++ buf := by
  simp [overwrite]

@[simp] theorem length_overwrite (content : List β) (offset : Nat) (buf : List β) :
    (overwrite fill content offset buf).length = max content.length (offset + buf.length) := by
  simp only [overwrite, List.length_append, List.length_take, List.length_replicate, List.length_drop]
  omega

theorem getElem?_overwrite (content : List β) (offset : Nat) (buf : List β) (i : Nat) :
    (overwrite fill content offset buf)[i]? =
      if i < offset then (if i < content.length then content[i]? else some fill)
      else if i < offset + buf.length then buf[i - offset]?
      else content[i]? := by
  have start : (content.take offset ++ List.replicate (offset - content.length) fill).length = offset := by
    rw [List.length_append, List.length_take, List.length_replicate]
    omega
  rw [overwrite, List.append_assoc, List.getElem?_append, start]
  split
  · rename_i before
    rw [List.getElem?_append, List.length_take]
    by_cases inside : i < content.length
    · rw [if_pos (by omega), List.getElem?_take_of_lt before, if_pos inside]
    · rw [if_neg (by omega), List.getElem?_replicate, if_pos (by omega), if_neg inside]
  · rw [List.getElem?_append]
    split
    · rw [if_pos (by omega)]
    · rw [if_neg (by omega), List.getElem?_drop]
      congr 1
      omega

theorem writeAll_writeAll (buf buf' : List β) (self : File β) :
    (self.writeAll fill buf).writeAll fill buf' = self.writeAll fill (buf ++ buf') := by
  have content : overwrite fill (overwrite fill self.content self.cursor buf) (self.cursor + buf.length)
      buf' = overwrite fill self.content self.cursor (buf ++ buf') := by
    apply List.ext_getElem?
    intro i
    simp only [getElem?_overwrite, length_overwrite, List.length_append, List.getElem?_append,
      ← Nat.add_assoc]
    by_cases before : i < self.cursor
    · simp only [before, if_true, show i < self.cursor + buf.length by omega,
        show i < max self.content.length (self.cursor + buf.length) by omega]
    · by_cases first : i < self.cursor + buf.length
      · simp only [before, first, if_true, if_false, show i - self.cursor < buf.length by omega,
          show i < max self.content.length (self.cursor + buf.length) by omega,
          show i < self.cursor + buf.length + buf'.length by omega]
      · simp only [before, first, if_false, show ¬i - self.cursor < buf.length by omega, Nat.sub_sub]
  rw [writeAll, writeAll, writeAll, content, List.length_append, Nat.add_assoc]

theorem foldl_writeAll (bufs : List (List β)) (buf : List β) (self : File β) :
    bufs.foldl (fun f b => f.writeAll fill b) (self.writeAll fill buf) =
      self.writeAll fill (buf ++ bufs.flatten) := by
  induction bufs generalizing buf with
  | nil => rw [List.foldl_nil, List.flatten_nil, List.append_nil]
  | cons b bufs ih =>
    rw [List.foldl_cons, writeAll_writeAll, ih, List.flatten_cons, List.append_assoc]

theorem foldl_writeByte (bytes buf : List β) (self : File β) :
    bytes.foldl (fun f b => f.writeAll fill [b]) (self.writeAll fill buf) =
      self.writeAll fill (buf ++ bytes) := by
  have rest := foldl_writeAll fill (bytes.map fun b => [b]) buf self
  rw [List.foldl_map] at rest
  rw [rest, ← List.flatMap_def, List.flatMap_singleton']

section Slices
variable {content buf : List β} {offset offset' n : Nat}

theorem getElem?_slice (i : Nat) :
    (slice content offset n)[i]? = if i < n then content[offset + i]? else none := by
  rw [slice, List.getElem?_take, List.getElem?_drop]

theorem slice_slice {start m : Nat} (inside : start + m ≤ n) :
    slice (slice content offset n) start m = slice content (offset + start) m := by
  apply List.ext_getElem?
  intro i
  simp only [getElem?_slice]
  split
  · rw [if_pos (by omega), Nat.add_assoc]
  · rfl

theorem slice_start {m : Nat} (inside : m ≤ n) :
    slice (slice content offset n) 0 m = slice content offset m := by
  rw [slice_slice (by omega), Nat.add_zero]

theorem slice_overwrite : slice (overwrite fill content offset buf) offset buf.length = buf := by
  apply List.ext_getElem?
  intro i
  rw [getElem?_slice]
  split
  · rw [getElem?_overwrite, if_neg (by omega), if_pos (by omega), Nat.add_sub_cancel_left]
  · exact (List.getElem?_eq_none (by omega)).symm

theorem slice_overwrite_part {start m : Nat} (inside : start + m ≤ buf.length) :
    slice (overwrite fill content offset buf) (offset + start) m = slice buf start m := by
  rw [← slice_slice inside, slice_overwrite]

theorem slice_overwrite_of_disjoint
    (apart : offset' + n ≤ offset ∧ offset' + n ≤ content.length ∨ offset + buf.length ≤ offset') :
    slice (overwrite fill content offset buf) offset' n = slice content offset' n := by
  apply List.ext_getElem?
  intro i
  rw [getElem?_slice, getElem?_slice, getElem?_overwrite]
  split
  · rcases apart with ⟨before, inside⟩ | behind
    · rw [if_pos (by omega), if_pos (by omega)]
    · rw [if_neg (by omega), if_neg (by omega)]
  · rfl

theorem slice_append_left {left right : List β} (inside : n ≤ left.length) :
    slice (left ++ right) 0 n = slice left 0 n := by
  rw [slice, slice, List.drop_zero, List.drop_zero, List.take_append_of_le_length inside]

theorem slice_append_right {left right : List β} {start : Nat} (length : start = left.length) :
    slice (left ++ right) start n = slice right 0 n := by
  rw [slice, slice, length, List.drop_left, List.drop_zero]

theorem slice_length {bytes : List β} (length : n = bytes.length) : slice bytes 0 n = bytes := by
  rw [slice, List.drop_zero, length, List.take_length]

theorem readExact_eq (inside : n ≤ content.length - offset) :
    (⟨content, offset⟩ : File β).readExact n =
      some (slice content offset n, ⟨content, offset + n⟩) := if_pos inside

end Slices

theorem content_writeAllAt {size : Nat} (bufs : List (List β))
    (sized : ∀ buf ∈ bufs, buf.length = size) (last : List β) (hlast : last.length = size) :
    ((bufs ++ [last]).foldl (fun f buf => f.writeAllAt fill buf 0) create).content = last := by
  have covered : ∀ bufs : List (List β), (∀ buf ∈ bufs, buf.length = size) →
      (bufs.foldl (fun f buf => f.writeAllAt fill buf 0) create).content.length ≤ size := by
    intro bufs
    induction bufs using List.reverseRecOn with
    | nil =>
      intro _
      exact Nat.zero_le size
    | append_singleton bufs buf ih =>
      intro sized
      have before := ih fun b hb => sized b (List.mem_append_left _ hb)
      have length := sized buf (List.mem_append_right _ (List.mem_singleton_self buf))
      rw [List.foldl_append, List.foldl_cons, List.foldl_nil, writeAllAt,
        overwrite_start fill (length.symm ▸ before)]
      exact Nat.le_of_eq length
  rw [List.foldl_append, List.foldl_cons, List.foldl_nil, writeAllAt,
    overwrite_start fill (hlast.symm ▸ covered bufs sized)]

theorem length_flatten_of_sized {size : Nat} {bufs : List (List β)}
    (sized : ∀ buf ∈ bufs, buf.length = size) : bufs.flatten.length = bufs.length * size := by
  induction bufs with
  | nil => exact (Nat.zero_mul size).symm
  | cons buf bufs ih =>
    rw [List.flatten_cons, List.length_append, sized buf List.mem_cons_self,
      ih fun b hb => sized b (List.mem_cons_of_mem _ hb), List.length_cons, Nat.add_one_mul,
      Nat.add_comm]

theorem writeAll_foldl (bufs : List (List β)) :
    bufs.foldl (fun f buf => f.writeAll fill buf) create =
      (⟨bufs.flatten, bufs.flatten.length⟩ : File β) := by
  induction bufs using List.reverseRecOn with
  | nil => rfl
  | append_singleton bufs buf ih =>
    rw [List.foldl_append, List.foldl_cons, List.foldl_nil, ih, writeAll, overwrite_end,
      List.flatten_append, List.flatten_singleton, List.length_append]

end File
end FpgaCraft.Library
