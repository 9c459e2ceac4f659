import FpgaCraft.Hardware.L3

/-! ## The L3 cache as a memory

A write puts its address on port B at once and its data one edge later, while port B stores
on every edge. So the word of a write is stored unless another write follows at once. -/
namespace FpgaCraft.Hardware.L3
open Library

/-! ### Addresses -/

def Cell.ofAddress (a : BitVec 18) : Cell :=
  ⟨a.extractLsb' 12 6, a.extractLsb' 6 6, a.extractLsb' 0 6⟩

theorem Cell.toNat_address (c : Cell) :
    c.address.toNat = c.x.toNat * 4096 + c.y.toNat * 64 + c.z.toNat := by
  have hx := c.x.isLt
  have hy := c.y.isLt
  have hz := c.z.isLt
  simp only [address, WIDTH, HEIGHT, BitVec.toNat_add, BitVec.toNat_mul, BitVec.toNat_setWidth,
    BitVec.toNat_ofNat]
  omega

@[simp] theorem Cell.ofAddress_address (c : Cell) : ofAddress c.address = c := by
  have hx := c.x.isLt
  have hy := c.y.isLt
  have hz := c.z.isLt
  ext1 <;> apply BitVec.eq_of_toNat_eq <;>
    simp only [ofAddress, BitVec.extractLsb'_toNat, toNat_address, Nat.shiftRight_eq_div_pow] <;> omega

@[simp] theorem Cell.address_ofAddress (a : BitVec 18) : (ofAddress a).address = a := by
  have ha := a.isLt
  apply BitVec.eq_of_toNat_eq
  simp only [toNat_address, ofAddress, BitVec.extractLsb'_toNat, Nat.shiftRight_eq_div_pow]
  omega

theorem Cell.address_eq_iff {c : Cell} {a : BitVec 18} : c.address = a ↔ c = ofAddress a :=
  ⟨fun h => h ▸ (ofAddress_address c).symm, fun h => h ▸ address_ofAddress a⟩

@[simp] theorem ref_eq (pointer coord : BitVec 6) : ref pointer coord 64 = pointer + coord := by
  unfold ref
  exact if_neg (Nat.not_le.mpr (pointer + coord).isLt)

/-! ### The write port -/

namespace Cache

def portB (s : Cache) : PostedWrite Cell BlockType :=
  ⟨fun c => s.ram.bram c.address, .ofAddress s.addrb, s.dinb⟩

def written (i : CacheIn) (s : Cache) : Option (Cell × BlockType) :=
  if i.writeEnable then some (s.writeCell i, i.uartDataIn.setWidth 5) else none

theorem portB_edge (s : Cache) (rst : Bool) (i : CacheIn) :
    (s.risingClkEdge rst i).portB =
      s.portB.edge (if i.writeEnable && !i.readEnable then some (s.writeCell i) else none)
        (if !rst && i.writeEnable then some (i.uartDataIn.setWidth 5) else none) := by
  have stored (a : BitVec 18) (d : BlockType) :
      (fun c : Cell => Function.update s.ram.bram a d c.address) =
        Function.update (fun c : Cell => s.ram.bram c.address) (.ofAddress a) d := by
    funext c
    simp only [Function.update_apply, Cell.address_eq_iff]
  cases rst <;> cases hw : i.writeEnable <;> cases hr : i.readEnable <;>
    simp [risingClkEdge, convert, portB, PostedWrite.edge, DualPortRam.risingClkEdge, hw, hr, stored]

theorem portB_edge_idle (s : Cache) {i : CacheIn} (h : i.writeEnable = false) :
    (s.risingClkEdge false i).portB = s.portB.edge none none := by
  rw [portB_edge, h]
  rfl

/-- The write of an edge reaches the memory: no word is on its way that it would drive out,
and the port is addressed. -/
def Lands (s : Cache) (i : CacheIn) : Prop :=
  i.writeEnable = true → s.addrb = (s.writeCell i).address ∨
    if i.readEnable then
      s.dinb = i.uartDataIn.setWidth 5 ∧ s.ram.bram (s.writeCell i).address = i.uartDataIn.setWidth 5
    else s.ram.bram s.addrb = s.dinb

theorem settled_edge_iff (s : Cache) (i : CacheIn) :
    (s.risingClkEdge false i).portB.settled =
        (match s.written i with
        | some (c, d) => Function.update s.portB.settled c d
        | none => s.portB.settled) ↔ s.Lands i := by
  rw [portB_edge]
  unfold written Lands
  cases hw : i.writeEnable with
  | false =>
    simp only [Bool.false_and, Bool.and_false, Bool.false_eq_true, if_false, false_imp_iff, iff_true]
    exact PostedWrite.settled_edge_idle _
  | true =>
    have here : s.portB.address = s.writeCell i ↔ s.addrb = (s.writeCell i).address := by
      rw [eq_comm, @eq_comm _ s.addrb, Cell.address_eq_iff]
      rfl
    simp only [Bool.true_and, Bool.not_false, if_true, true_imp_iff]
    cases hr : i.readEnable with
    | false =>
      simp only [Bool.not_false, if_true, Bool.false_eq_true, if_false]
      rw [PostedWrite.settled_edge_write_iff, here]
      simp only [portB, Cell.address_ofAddress]
    | true =>
      simp only [Bool.not_true, Bool.false_eq_true, if_false, if_true]
      rw [PostedWrite.settled_edge_data_iff, here]
      by_cases same : s.addrb = (s.writeCell i).address
      · exact iff_of_true (.inl same) (.inl same)
      · have other : s.portB.settled (s.writeCell i) = s.ram.bram (s.writeCell i).address :=
          Function.update_of_ne (fun h => same (here.mp h.symm)) _ _
        rw [other]
        rfl

end Cache

/-! ### Reads -/

/-- A read of `(x, y, z)` that leaves the window where it is. -/
structure CacheIn.Reads (x y z : BitVec 6) (i : CacheIn) : Prop where
  noWrite : i.writeEnable = false
  read : i.readEnable = true
  x : i.xread = x
  y : i.yread = y
  z : i.zread = z
  still : (i.validIn && i.controlTrigger) = true → i.controlInput ∉ [1, 2, 4, 8]

def CacheIn.readAt (x y z : BitVec 6) : CacheIn :=
  ⟨x, y, z, 0, 0, 0, 0, 0, false, false, false, true⟩

theorem CacheIn.reads_readAt (x y z : BitVec 6) : (readAt x y z).Reads x y z :=
  ⟨rfl, rfl, rfl, rfl, rfl, fun h => Bool.noConfusion h⟩

/-- Edges until a read shows what was written before it: one for the data register of the
write port, two for the RAM and one for `block_data_out`. -/
def latency : Nat := 4

namespace Cache

theorem move_of_still {s : Cache} {i : CacheIn} {x y z : BitVec 6} (h : i.Reads x y z) :
    s.move i = (s.xpointer, s.zpointer) := by
  unfold move
  split
  · rename_i moves
    have still := h.still moves
    simp only [List.mem_cons, List.not_mem_nil, or_false, not_or] at still
    split
    · exact absurd ‹_› still.1
    · exact absurd ‹_› still.2.1
    · exact absurd ‹_› still.2.2.1
    · exact absurd ‹_› still.2.2.2
    · rfl
  · rfl

theorem risingClkEdge_of_reads {s : Cache} {i : CacheIn} {x y z : BitVec 6} (h : i.Reads x y z) :
    s.risingClkEdge false i = { s with
      addra := (s.cell x y z).address
      ram := s.ram.risingClkEdge (s.cell x y z).address false s.addrb s.dinb
      blockDataOut := s.ram.doutaReg } := by
  have latched : s.convert i = { s with addra := (s.cell x y z).address } := by
    simp only [convert, h.noWrite, h.read, Bool.false_and, Bool.false_eq_true, if_false, Bool.not_false,
      Bool.true_and, if_true, readCell, h.x, h.y, h.z]
  unfold risingClkEdge
  simp only [latched, move_of_still h, h.noWrite, h.read, Bool.false_eq_true, if_false, if_true]

structure Holding (s : Cache) (c : Cell) (k : Nat) (t : Cache) : Prop where
  xpointer : t.xpointer = s.xpointer
  zpointer : t.zpointer = s.zpointer
  settled : t.portB.settled = s.portB.settled
  memory : 1 ≤ k → t.portB.memory c = s.portB.settled c
  ramDataA : 2 ≤ k → t.ram.ramDataA = s.portB.settled c
  doutaReg : 3 ≤ k → t.ram.doutaReg = s.portB.settled c
  blockDataOut : 4 ≤ k → t.blockDataOut = s.portB.settled c

theorem Holding.edge {s t : Cache} {x y z : BitVec 6} {k : Nat} {i : CacheIn}
    (h : Holding s (s.cell x y z) k t) (reads : i.Reads x y z) :
    Holding s (s.cell x y z) (k + 1) (t.risingClkEdge false i) := by
  obtain ⟨xpointer, zpointer, settled, memory, ramDataA, doutaReg, -⟩ := h
  have port := portB_edge_idle t reads.noWrite
  have same : t.cell x y z = s.cell x y z := by
    unfold cell
    rw [xpointer, zpointer]
  rw [risingClkEdge_of_reads reads, same] at port ⊢
  refine ⟨xpointer, zpointer, ?_, fun _ => ?_, fun hk => memory (by omega), fun hk => ramDataA (by omega),
    fun hk => doutaReg (by omega)⟩
  · rw [port, PostedWrite.settled_edge_idle, settled]
  · rw [port, PostedWrite.memory_edge_idle, settled]

theorem holding (s : Cache) {x y z : BitVec 6} {hold : Nat → CacheIn} {m : Nat}
    (reads : ∀ k < m, (hold k).Reads x y z) :
    Holding s (s.cell x y z) m (trace (risingClkEdge false) hold s m) := by
  induction m with
  | zero =>
    exact ⟨rfl, rfl, rfl, fun h => absurd h (by decide), fun h => absurd h (by decide),
      fun h => absurd h (by decide), fun h => absurd h (by decide)⟩
  | succ m ih =>
    exact (ih fun k hk => reads k (Nat.lt_succ_of_lt hk)).edge (reads m (Nat.lt_succ_self m))

def Shows (s : Cache) (content : Cell → BlockType) : Prop :=
  ∀ x y z hold m, latency ≤ m → (∀ k < m, (hold k).Reads x y z) →
    (trace (risingClkEdge false) hold s m).blockDataOut = content (s.cell x y z)

theorem shows_iff {s : Cache} {content : Cell → BlockType} :
    s.Shows content ↔ s.portB.settled = content := by
  constructor
  · intro shows
    funext c
    have reads := CacheIn.reads_readAt (c.x - s.xpointer) c.y (c.z - s.zpointer)
    have hcell : s.cell (c.x - s.xpointer) c.y (c.z - s.zpointer) = c := by
      ext1
      · change ref s.xpointer (c.x - s.xpointer) 64 = c.x
        rw [ref_eq, BitVec.add_comm, BitVec.sub_add_cancel]
      · rfl
      · change ref s.zpointer (c.z - s.zpointer) 64 = c.z
        rw [ref_eq, BitVec.add_comm, BitVec.sub_add_cancel]
    have shown := shows _ _ _ (fun _ => .readAt _ _ _) latency (Nat.le_refl _) fun _ _ => reads
    have held := (holding s (m := latency) fun _ _ => reads).blockDataOut (Nat.le_refl _)
    rw [hcell] at shown held
    exact held.symm.trans shown
  · rintro rfl x y z hold m long reads
    exact (holding s reads).blockDataOut long

/-! ### Runs -/

def presented (input : Nat → CacheIn) (start : Cache) (n : Nat) (c : Cell) : BlockType :=
  (lastWritten (events (risingClkEdge false) written input start n) c).getD 0

theorem presented_succ (input : Nat → CacheIn) (start : Cache) (n : Nat) :
    presented input start (n + 1) =
      match (trace (risingClkEdge false) input start n).written (input n) with
      | some (c, d) => Function.update (presented input start n) c d
      | none => presented input start n := by
  funext c
  unfold presented
  rw [events_succ]
  cases hw : (trace (risingClkEdge false) input start n).written (input n) with
  | none => rw [Option.toList_none, List.append_nil]
  | some w =>
    obtain ⟨a, d⟩ := w
    dsimp only
    rw [Option.toList_some, lastWritten_concat, Function.update_apply]
    by_cases same : a = c
    · rw [if_pos same, if_pos same.symm, Option.getD_some]
    · rw [if_neg same, if_neg (Ne.symm same)]

def afterReset (inputs : Nat → CacheIn) (k : Nat) : Cache :=
  trace (risingClkEdge true) inputs powerUp (k + 1)

/-- Nothing is stored and nothing is on its way to the memory. -/
structure Blank (s : Cache) : Prop where
  bram : s.ram.bram = fun _ => 0
  dinb : s.dinb = 0

theorem Blank.reset {s : Cache} (h : s.Blank) (i : CacheIn) : (s.risingClkEdge true i).Blank := by
  have hconvert : (s.convert i).ram = s.ram ∧ (s.convert i).dinb = s.dinb := by
    unfold convert
    split_ifs <;> exact ⟨rfl, rfl⟩
  refine ⟨?_, hconvert.2.trans h.dinb⟩
  change Function.update (s.convert i).ram.bram _ (s.convert i).dinb = _
  rw [hconvert.1, hconvert.2, h.bram, h.dinb]
  exact Function.update_eq_self _ _

theorem afterReset_blank (inputs : Nat → CacheIn) (k : Nat) : (afterReset inputs k).Blank := by
  have h (n : Nat) : (trace (risingClkEdge true) inputs powerUp n).Blank := by
    induction n with
    | zero => exact ⟨rfl, rfl⟩
    | succ n ih => exact ih.reset (inputs n)
  exact h (k + 1)

theorem Blank.settled {s : Cache} (h : s.Blank) : s.portB.settled = fun _ => 0 := by
  unfold PostedWrite.settled portB
  rw [h.bram, h.dinb]
  exact Function.update_eq_self _ _

theorem validOut_eq_false {s : Cache} (h : s.validOut = false) (input : Nat → CacheIn) (n : Nat) :
    (trace (risingClkEdge false) input s n).validOut = false := by
  have keep (s : Cache) (i : CacheIn) : (s.risingClkEdge false i).validOut = s.validOut := by
    change (s.convert i).validOut = s.validOut
    unfold convert
    split_ifs <;> rfl
  induction n with
  | zero => exact h
  | succ n ih => rw [trace_succ, keep, ih]

theorem shows_presented_iff (inputs : Nat → CacheIn) (k : Nat) (input : Nat → CacheIn) :
    (∀ n, (trace (risingClkEdge false) input (afterReset inputs k) n).Shows
        (presented input (afterReset inputs k) n)) ↔
      ∀ n, (trace (risingClkEdge false) input (afterReset inputs k) n).Lands (input n) := by
  simp only [shows_iff]
  constructor
  · intro right n
    rw [← settled_edge_iff, right n, ← presented_succ]
    exact right (n + 1)
  · intro lands n
    induction n with
    | zero => exact (afterReset_blank inputs k).settled
    | succ n ih =>
      have step := (settled_edge_iff _ _).mpr (lands n)
      rw [ih, ← presented_succ] at step
      exact step

theorem lands_of_spaced (inputs : Nat → CacheIn) (k : Nat) (input : Nat → CacheIn)
    (exclusive : ∀ n, (input n).writeEnable = true → (input n).readEnable = false)
    (spaced : ∀ n, (input n).writeEnable = true → (input (n + 1)).writeEnable = false) (n : Nat) :
    (trace (risingClkEdge false) input (afterReset inputs k) n).Lands (input n) := by
  intro write
  refine .inr ?_
  rw [exclusive n write, if_neg Bool.false_ne_true]
  cases n with
  | zero =>
    have blank := afterReset_blank inputs k
    change (afterReset inputs k).ram.bram _ = (afterReset inputs k).dinb
    rw [blank.bram, blank.dinb]
  | succ n =>
    have idle : (input n).writeEnable = false := by
      by_contra busy
      rw [spaced n (by simpa using busy)] at write
      cases write
    have stored := PostedWrite.stored_edge_idle
      (trace (risingClkEdge false) input (afterReset inputs k) n).portB
    rw [← portB_edge_idle _ idle] at stored
    simpa only [trace_succ, portB, Cell.address_ofAddress] using stored

theorem shows_of_spaced (inputs : Nat → CacheIn) (k : Nat) (input : Nat → CacheIn)
    (exclusive : ∀ n, (input n).writeEnable = true → (input n).readEnable = false)
    (spaced : ∀ n, (input n).writeEnable = true → (input (n + 1)).writeEnable = false) (n : Nat) :
    (trace (risingClkEdge false) input (afterReset inputs k) n).Shows
      (presented input (afterReset inputs k) n) :=
  (shows_presented_iff inputs k input).mpr (lands_of_spaced inputs k input exclusive spaced) n

/-- A read that was held long enough is answered: valid, with the content for its cell. -/
def Answers (s : Cache) (content : Cell → BlockType) : Prop :=
  ∀ x y z hold m, latency ≤ m → (∀ k < m, (hold k).Reads x y z) →
    (trace (risingClkEdge false) hold s m).validOut = true ∧
      (trace (risingClkEdge false) hold s m).blockDataOut = content (s.cell x y z)

end Cache

/-- From any reset on and whatever the inputs are: no read is ever answered; apart from
`valid_out` the cache is a memory exactly if every write lands. -/
theorem l3_memory_iff (inputs : Nat → CacheIn) (k : Nat) (input : Nat → CacheIn) :
    (∀ n, ¬(trace (Cache.risingClkEdge false) input (Cache.afterReset inputs k) n).Answers
        (Cache.presented input (Cache.afterReset inputs k) n)) ∧
      ((∀ n, (trace (Cache.risingClkEdge false) input (Cache.afterReset inputs k) n).Shows
          (Cache.presented input (Cache.afterReset inputs k) n)) ↔
        ∀ n, (trace (Cache.risingClkEdge false) input (Cache.afterReset inputs k) n).Lands
          (input n)) := by
  refine ⟨fun n answers => ?_, Cache.shows_presented_iff inputs k input⟩
  obtain ⟨valid, -⟩ := answers 0 0 0 (fun _ => CacheIn.readAt 0 0 0) latency (Nat.le_refl _)
    fun _ _ => CacheIn.reads_readAt 0 0 0
  have low := Cache.validOut_eq_false (s := Cache.afterReset inputs k) rfl input n
  rw [Cache.validOut_eq_false low] at valid
  cases valid

/-- One write per cycle, as the test of the cache does: 1 to the first cell and 2 to the next
one. -/
def burst : Nat → CacheIn
  | 0 => ⟨0, 0, 0, 0, 0, 0, 1, 0, false, true, true, false⟩
  | 1 => ⟨0, 0, 0, 1, 0, 0, 2, 0, false, true, true, false⟩
  | _ => .readAt 0 0 0

/-- The first cell of a burst reads as 0, and no read is answered. -/
theorem burst_shifted :
    let start := Cache.afterReset (fun _ => .readAt 0 0 0) 0
    let written := trace (Cache.risingClkEdge false) burst start 2
    let read := trace (Cache.risingClkEdge false) (fun _ => .readAt 0 0 0) written latency
    Cache.presented burst start 2 (written.cell 0 0 0) = 1 ∧
      read.blockDataOut = 0 ∧ read.validOut = false ∧
        ¬written.Answers (Cache.presented burst start 2) := by
  intro start written read
  have value : read.blockDataOut = 0 ∧ read.validOut = false := by decide +kernel
  refine ⟨by decide +kernel, value.1, value.2, fun answers => ?_⟩
  obtain ⟨valid, -⟩ := answers 0 0 0 (fun _ => .readAt 0 0 0) latency (Nat.le_refl _)
    fun _ _ => CacheIn.reads_readAt 0 0 0
  rw [value.2] at valid
  cases valid

end FpgaCraft.Hardware.L3
