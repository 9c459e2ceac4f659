import FpgaCraft.Hardware.L2

/-! ## Coherence of the hardware L2

L2 tags the answer of L3 with the current `l3_addr`, while L3 answers the address it took
with the query. The arbitration assigns `l3_addr` in every cycle, so the two agree as long
as no port with another address wins it while a query is outstanding. -/
namespace FpgaCraft.Hardware
open Library

variable {PORTS CACHE_SIZE : Nat} {content : BlockPos → BlockType}

namespace L2Cache

def Wins (self : L2Cache PORTS CACHE_SIZE) (i : L2In PORTS) (p : Fin PORTS) : Prop :=
  self.missing i p = true ∧ ∀ q, p < q → self.missing i q = false

/-- The winner of the arbitration does not move `l3_addr` under an outstanding query. -/
def Undisturbed (self : L2Cache PORTS CACHE_SIZE) (i : L2In PORTS) : Prop :=
  self.l3ReadEnable = true → i.l3Valid = false → ∀ p, self.Wins i p → i.addr p = self.l3Addr

instance (self : L2Cache PORTS CACHE_SIZE) (i : L2In PORTS) (p : Fin PORTS) :
    Decidable (self.Wins i p) := by unfold Wins; infer_instance

instance (self : L2Cache PORTS CACHE_SIZE) (i : L2In PORTS) : Decidable (self.Undisturbed i) := by
  unfold Undisturbed; infer_instance

def Coherent (content : BlockPos → BlockType) (self : L2Cache PORTS CACHE_SIZE) : Prop :=
  ∀ e, self.occupied e = true → self.entries e = content (self.tags e)

theorem respond_l3Addr (self : L2Cache PORTS CACHE_SIZE) (i : L2In PORTS) :
    (self.respond i).l3Addr = self.l3Addr ∨
      ∃ p, self.Wins i p ∧ (self.respond i).l3Addr = i.addr p := by
  rcases lastAssigned_cases (fun p => if self.missing i p then some (i.addr p) else none)
    self.l3Addr with ⟨heq, -⟩ | ⟨p, hp, hlast⟩
  · exact .inl heq
  · refine .inr ⟨p, ⟨?_, fun q hq => ?_⟩, ?_⟩
    · by_contra hmiss
      simp [hmiss] at hp
    · simpa using hlast q hq
    · by_cases hmiss : self.missing i p = true
      · exact (Option.some.inj ((if_pos hmiss).symm.trans hp)).symm
      · simp [hmiss] at hp

theorem respond_l3ReadEnable {self : L2Cache PORTS CACHE_SIZE} (i : L2In PORTS)
    (h : self.l3ReadEnable = true) : (self.respond i).l3ReadEnable = true := by
  rcases lastAssigned_cases (fun p => if self.missing i p then some true else none)
    self.l3ReadEnable with ⟨heq, -⟩ | ⟨p, hp, -⟩
  · exact heq.trans h
  · by_cases hmiss : self.missing i p = true
    · exact (Option.some.inj ((if_pos hmiss).symm.trans hp)).symm
    · simp [hmiss] at hp

theorem risingClkEdge_ports (self : L2Cache PORTS CACHE_SIZE) {i : L2In PORTS} (h : i.rst = false) :
    (self.risingClkEdge i).valid = (self.respond i).valid ∧
      (self.risingClkEdge i).out = (self.respond i).out := by
  unfold risingClkEdge
  rw [if_neg (Bool.eq_false_iff.mp h)]
  split <;> exact ⟨rfl, rfl⟩

theorem respond_out {self : L2Cache PORTS CACHE_SIZE} {i : L2In PORTS} {p : Fin PORTS}
    (h : (self.respond i).valid p = true) :
    ∃ e, self.occupied e = true ∧ self.tags e = i.addr p ∧ (self.respond i).out p = self.entries e := by
  obtain ⟨hread, hhit⟩ := Bool.and_eq_true_iff.mp h
  have hout : (self.respond i).out p = lastAssigned
      (fun e => if self.lookup (i.addr p) e then some (self.entries e) else none) (self.out p) :=
    if_pos hread
  rw [hout]
  rcases lastAssigned_cases (fun e => if self.lookup (i.addr p) e then some (self.entries e) else none)
    (self.out p) with ⟨-, hnone⟩ | ⟨e, he, -⟩
  · simp only [misses, Bool.not_not, List.any_eq_true] at hhit
    obtain ⟨e, -, he⟩ := hhit
    simpa [he] using hnone e
  · by_cases hlookup : self.lookup (i.addr p) e = true
    · obtain ⟨hoccupied, htag⟩ := Bool.and_eq_true_iff.mp hlookup
      exact ⟨e, hoccupied, of_decide_eq_true htag,
        (Option.some.inj ((if_pos hlookup).symm.trans he)).symm⟩
    · simp [hlookup] at he

theorem Undisturbed.respond_l3Addr {self : L2Cache PORTS CACHE_SIZE} {i : L2In PORTS}
    (h : self.Undisturbed i) (hread : self.l3ReadEnable = true) (hvalid : i.l3Valid = false) :
    (self.respond i).l3Addr = self.l3Addr := by
  rcases self.respond_l3Addr i with heq | ⟨p, hwins, heq⟩
  · exact heq
  · exact heq.trans (h hread hvalid p hwins)

theorem Coherent.respond {self : L2Cache PORTS CACHE_SIZE} (h : self.Coherent content)
    (i : L2In PORTS) : (self.respond i).Coherent content := h

theorem Coherent.fill {self : L2Cache PORTS CACHE_SIZE} (h : self.Coherent content) {i : L2In PORTS}
    (hout : i.l3Out = content self.l3Addr) : (self.fill (self.respond i) i).Coherent content := by
  intro e
  by_cases he : e.val = self.nextReplacement.toNat
  · simp only [L2Cache.fill, he, if_true]
    exact fun _ => hout
  · simp only [L2Cache.fill, he, if_false]
    exact h e

end L2Cache

def L3Cache.Serves (addr : BlockPos) (readEnable : Bool) : L3Cache → Prop
  | idle => True
  | pending taken => taken = addr ∧ readEnable = true
  | answering taken => taken = addr ∧ readEnable = true

theorem L3Cache.Serves.risingClkEdge {l3 : L3Cache} {addr addr' : BlockPos}
    {respond readEnable readEnable' : Bool} (h : l3.Serves addr readEnable)
    (kept : readEnable = true → addr' = addr ∧ readEnable' = true) :
    (l3.risingClkEdge respond readEnable addr).Serves addr' readEnable' := by
  cases l3 with
  | idle =>
    cases readEnable with
    | false => trivial
    | true =>
      obtain ⟨rfl, rfl⟩ := kept rfl
      cases respond <;> exact ⟨rfl, rfl⟩
  | pending taken =>
    obtain ⟨rfl, rfl⟩ := h
    obtain ⟨rfl, rfl⟩ := kept rfl
    cases respond <;> exact ⟨rfl, rfl⟩
  | answering taken => trivial

namespace Memory

structure Sound (content : BlockPos → BlockType) (m : Memory PORTS CACHE_SIZE) : Prop where
  coherent : m.l2.Coherent content
  serves : m.l3.Serves m.l2.l3Addr m.l2.l3ReadEnable

def start (cache : L2Cache PORTS CACHE_SIZE) : Memory PORTS CACHE_SIZE := ⟨cache.reset, .idle⟩

theorem sound_start (cache : L2Cache PORTS CACHE_SIZE) : (start cache).Sound content :=
  ⟨fun _ h => (Bool.false_ne_true h).elim, trivial⟩

theorem Sound.tick {m : Memory PORTS CACHE_SIZE} (h : m.Sound content) {i : MemoryIn PORTS}
    (undisturbed : m.l2.Undisturbed (m.l2In content i)) : (m.tick content i).Sound content := by
  cases hvalid : m.l3.valid with
  | false =>
    have hedge : (m.tick content i).l2 = m.l2.respond (m.l2In content i) := by
      simp [Memory.tick, L2Cache.risingClkEdge, l2In, hvalid]
    refine ⟨hedge ▸ h.coherent.respond _, h.serves.risingClkEdge fun hread => ?_⟩
    rw [hedge]
    exact ⟨undisturbed.respond_l3Addr hread hvalid, L2Cache.respond_l3ReadEnable _ hread⟩
  | true =>
    obtain ⟨l2, l3⟩ := m
    cases l3 with
    | answering taken =>
      obtain ⟨htaken, hread⟩ : taken = l2.l3Addr ∧ l2.l3ReadEnable = true := h.serves
      have hedge : (Memory.tick content i ⟨l2, .answering taken⟩).l2 =
          l2.fill (l2.respond (l2In content i ⟨l2, .answering taken⟩))
            (l2In content i ⟨l2, .answering taken⟩) := by
        simp [Memory.tick, L2Cache.risingClkEdge, l2In, L3Cache.valid, hread]
      exact ⟨hedge ▸ h.coherent.fill (congrArg content htaken), trivial⟩
    | _ => cases hvalid

/-- A port that becomes valid at an edge shows the content of the address it presented. -/
theorem Sound.out {m : Memory PORTS CACHE_SIZE} (h : m.Sound content) {i : MemoryIn PORTS}
    {p : Fin PORTS} (hvalid : (m.tick content i).l2.valid p = true) :
    (m.tick content i).l2.out p = content (i.addr p) := by
  obtain ⟨hvalids, houts⟩ := m.l2.risingClkEdge_ports (i := m.l2In content i) rfl
  obtain ⟨e, hoccupied, htag, hout⟩ := L2Cache.respond_out (hvalids ▸ hvalid)
  have hentry := h.coherent e hoccupied
  rw [htag] at hentry
  exact (congrFun houts p).trans (hout.trans hentry)

/-- A port that requests holds its address and `read_enable` until it is valid. -/
def Held (content : BlockPos → BlockType) (inputs : Nat → MemoryIn PORTS)
    (m : Memory PORTS CACHE_SIZE) : Prop :=
  ∀ k p, (inputs k).readEnable p = true →
    (trace (tick content) inputs m (k + 1)).l2.valid p = false →
      (inputs (k + 1)).readEnable p = true ∧ (inputs (k + 1)).addr p = (inputs k).addr p

end Memory

/-- As long as no port moves `l3_addr` under an outstanding query, every occupied entry
holds the content of its tag, and a port that is valid shows the content of the address
it presented. -/
theorem l2_coherent_of_undisturbed (content : BlockPos → BlockType)
    (cache : L2Cache PORTS CACHE_SIZE) (inputs : Nat → MemoryIn PORTS) (n : Nat)
    (undisturbed : ∀ k < n, (trace (Memory.tick content) inputs (Memory.start cache) k).l2.Undisturbed
      ((trace (Memory.tick content) inputs (Memory.start cache) k).l2In content (inputs k))) :
    (trace (Memory.tick content) inputs (Memory.start cache) n).l2.Coherent content ∧
      ∀ k < n, ∀ p, (trace (Memory.tick content) inputs (Memory.start cache) (k + 1)).l2.valid p = true →
        (trace (Memory.tick content) inputs (Memory.start cache) (k + 1)).l2.out p =
          content ((inputs k).addr p) := by
  have sound : ∀ m ≤ n, (trace (Memory.tick content) inputs (Memory.start cache) m).Sound content :=
    fun m hm => @trace_preserves _ _ _ (Memory.Sound content)
      (fun m i => m.l2.Undisturbed (m.l2In content i)) (fun _ _ ok h => h.tick ok) inputs _
      (Memory.sound_start cache) m fun k hk => undisturbed k (Nat.lt_of_lt_of_le hk hm)
  exact ⟨(sound n le_rfl).coherent, fun k hk p hp => (sound k hk.le).out hp⟩

theorem l2_coherent_of_undisturbed_shared :
    let content : BlockPos → BlockType := fun addr => addr.x.setWidth 5
    let cache : L2Cache 2 2 := ⟨fun _ => 0, fun _ => false, 0, false, fun _ => 0, fun _ => 0, fun _ => false, 0⟩
    let inputs : Nat → MemoryIn 2 := fun k => ⟨fun _ => ⟨3, 4, 5⟩, fun _ => true, decide (k = 2)⟩
    let run := trace (Memory.tick content) inputs (Memory.start cache)
    (run 5).l2.valid 1 = true ∧ (run 5).l2.Coherent content ∧
      ∀ k < 5, ∀ p, (run (k + 1)).l2.valid p = true → (run (k + 1)).l2.out p = content ((inputs k).addr p) := by
  intro content cache inputs run
  exact ⟨by decide, l2_coherent_of_undisturbed content cache inputs 5 (by decide)⟩

/-- Port 1 begins to miss while the query of port 0 is pending: the answer is tagged with
the address of port 1, which then reads the content of the address of port 0. -/
theorem l2_incoherent_of_moved_query :
    let content : BlockPos → BlockType := fun addr => addr.x.setWidth 5
    let cache : L2Cache 2 2 := ⟨fun _ => 0, fun _ => false, 0, false, fun _ => 0, fun _ => 0, fun _ => false, 0⟩
    let inputs : Nat → MemoryIn 2 := fun k =>
      ⟨fun p => if p = 0 then ⟨3, 4, 5⟩ else ⟨6, 7, 8⟩, fun p => decide (p = 0 ∨ 2 ≤ k), decide (k = 2)⟩
    let run := trace (Memory.tick content) inputs (Memory.start cache)
    Memory.Held content inputs (Memory.start cache) ∧
      ¬(run 4).l2.Coherent content ∧
      (run 5).l2.valid 1 = true ∧ (run 5).l2.out 1 ≠ content ((inputs 4).addr 1) := by
  intro content cache inputs run
  refine ⟨fun k p hread _ => ⟨?_, rfl⟩, fun h => absurd (h 0 (by decide)) (by decide), by decide,
    by decide⟩
  exact decide_eq_true ((of_decide_eq_true hread).imp_right Nat.le_succ_of_le)

end FpgaCraft.Hardware
