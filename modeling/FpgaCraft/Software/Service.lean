import FpgaCraft.Library.RoundRobin
import FpgaCraft.Software.Coherence

/-! ## The ports of L2 are served together

With an entry for every port, a miss is never paid for with an address that is still held:
every tick fills one of them, and the entries filled last are replaced last. -/
namespace FpgaCraft.Software
open Library

variable {P S : Nat} {ram : MockCache} {profile : Profile}

namespace Memory

/-- What an edge without a reset does to the entries, the ports and the query. -/
structure Edge [NeZero S] (m m' : Memory P S) : Prop where
  addrIn : m'.l2.addrIn = m.l2.addrIn
  readEnableIn : m'.l2.readEnableIn = m.l2.readEnableIn
  kept : m.l3.validOut = false → m'.l2.entries = m.l2.entries
  filled : m.l3.validOut = true →
    m'.l2.entries = Function.update m.l2.entries m.l2.nextReplacement
      (some ⟨m.l3.addrIn, m.l3.voxelOut⟩) ∧
    m'.l2.nextReplacement = Fin.ofNat S (m.l2.nextReplacement.val + 1)
  hit : ∀ p, m'.l2.validOut p = true ↔
    m'.l2.readEnableIn p = true ∧ ¬Lines.Absent (m'.l2.addrIn p) m'.l2.entries
  query : m'.l3.validOut = true → ∃ p, m'.l2.readEnableIn p = true ∧ m'.l3.addrIn = m'.l2.addrIn p
  quiet : m'.l3.validOut = false → ∀ p, m'.l2.readEnableIn p = true → m'.l2.validOut p = true

theorem asked_of_risingClkEdge [NeZero S] {m m' : Memory P S}
    (h : m.risingClkEdge ram profile false = some m') :
    (m'.l2.missing = none ∧ m'.l3.validOut = false) ∨
      ∃ p, m'.l2.missing = some p ∧ m'.l3.validOut = true ∧ m'.l3.addrIn = m'.l2.addrIn p := by
  obtain ⟨⟨l2, l3⟩, hl2, hrest⟩ := Option.bind_eq_some_iff.mp h
  obtain ⟨l3', hl3, heq⟩ := Option.bind_eq_some_iff.mp hrest
  obtain rfl := Option.some.inj heq
  obtain ⟨filled, -, hpair⟩ := Option.bind_eq_some_iff.mp hl2
  obtain ⟨rfl, rfl⟩ := Prod.mk.inj (Option.some.inj hpair)
  unfold L3Cache.risingClkEdge L2Cache.arbitrate at hl3
  rw [if_neg Bool.false_ne_true] at hl3
  cases hmissing : filled.respond.missing with
  | none =>
    rw [hmissing] at hl3
    obtain rfl := Option.some.inj hl3
    exact .inl ⟨rfl, rfl⟩
  | some p =>
    rw [hmissing] at hl3
    obtain ⟨voxel, -, heq⟩ := Option.bind_eq_some_iff.mp hl3
    obtain rfl := Option.some.inj heq
    exact .inr ⟨p, rfl, rfl, rfl⟩

theorem edge_of_risingClkEdge [NeZero S] {m m' : Memory P S}
    (h : m.risingClkEdge ram profile false = some m') : m.Edge m' := by
  have query : m'.l3.validOut = true → ∃ p, m'.l2.readEnableIn p = true ∧
      m'.l3.addrIn = m'.l2.addrIn p := by
    intro flight
    rcases asked_of_risingClkEdge h with ⟨-, quiet⟩ | ⟨p, hmissing, -, haddr⟩
    · rw [quiet] at flight
      cases flight
    · have reads := List.find?_some hmissing
      exact ⟨p, (Bool.and_eq_true_iff.mp reads).1, haddr⟩
  have quiet : m'.l3.validOut = false → ∀ p, m'.l2.readEnableIn p = true →
      m'.l2.validOut p = true := by
    intro hvalid p hread
    rcases asked_of_risingClkEdge h with ⟨hmissing, -⟩ | ⟨q, -, flight, -⟩
    · have := List.find?_eq_none.mp hmissing p (List.mem_finRange p)
      simpa [hread] using this
    · rw [flight] at hvalid
      cases hvalid
  obtain ⟨⟨l2, l3⟩, hl2, hrest⟩ := Option.bind_eq_some_iff.mp h
  obtain ⟨l3', hl3, heq⟩ := Option.bind_eq_some_iff.mp hrest
  obtain rfl := Option.some.inj heq
  obtain ⟨filled, hfill, hpair⟩ := Option.bind_eq_some_iff.mp hl2
  obtain ⟨rfl, rfl⟩ := Prod.mk.inj (Option.some.inj hpair)
  have hit (p : Fin P) : filled.respond.validOut p = true ↔
      filled.readEnableIn p = true ∧ ¬Lines.Absent (filled.addrIn p) filled.entries := by
    rw [filled.respond_validOut p, ← Lines.lookup_eq_none_iff, Option.isSome_iff_ne_none]
  unfold L2Cache.fill at hfill
  split at hfill
  · rename_i flight
    split at hfill
    · cases hfill
    · obtain rfl := Option.some.inj hfill
      exact ⟨rfl, rfl, fun hnot => absurd flight (Bool.not_eq_true _ ▸ hnot), fun _ => ⟨rfl, rfl⟩, hit,
        query, quiet⟩
  · rename_i flight
    obtain rfl := Option.some.inj hfill
    exact ⟨rfl, rfl, fun _ => rfl, fun hyes => absurd hyes flight, hit, query, quiet⟩

theorem exists_risingClkEdge [NeZero S] {m : Memory P S} (valid : m.Valid ram profile)
    (inRange : ∀ p, m.l2.readEnableIn p = true → (ram.block profile (m.l2.addrIn p)).isSome = true) :
    ∃ m', m.risingClkEdge ram profile false = some m' := by
  obtain ⟨filled, hfill, haddr, hread, -⟩ := L2Cache.fill_spec valid
  have hl3 : ∃ l3, (filled.respond.arbitrate m.l3).risingClkEdge ram profile false = some l3 := by
    unfold L3Cache.risingClkEdge L2Cache.arbitrate
    rw [if_neg Bool.false_ne_true]
    cases hmissing : filled.respond.missing with
    | none => exact ⟨_, rfl⟩
    | some p =>
      have reads := List.find?_some hmissing
      have hp : filled.readEnableIn p = true := (Bool.and_eq_true_iff.mp reads).1
      rw [hread] at hp
      obtain ⟨voxel, hvoxel⟩ := Option.isSome_iff_exists.mp (inRange p hp)
      rw [← haddr] at hvoxel
      exact ⟨_, Option.bind_eq_some_iff.mpr ⟨voxel, hvoxel, rfl⟩⟩
  obtain ⟨l3, hl3⟩ := hl3
  refine ⟨⟨filled.respond, l3⟩, Option.bind_eq_some_iff.mpr ⟨(filled.respond, _), ?_,
    Option.bind_eq_some_iff.mpr ⟨l3, hl3, rfl⟩⟩⟩
  simp [L2Cache.risingClkEdge, hfill]

end Memory

def MemoryIn.wanted (i : MemoryIn P) : Finset Vec3i :=
  (Finset.univ.filter fun p => i.readEnableIn p = true).image i.addrIn

theorem MemoryIn.card_wanted (i : MemoryIn P) : i.wanted.card ≤ P :=
  calc i.wanted.card ≤ (Finset.univ.filter fun p => i.readEnableIn p = true).card :=
        Finset.card_image_le
    _ ≤ (Finset.univ : Finset (Fin P)).card := Finset.card_filter_le _ _
    _ = P := Finset.card_fin P

theorem MemoryIn.mem_wanted {i : MemoryIn P} {p : Fin P} (h : i.readEnableIn p = true) :
    i.addrIn p ∈ i.wanted :=
  Finset.mem_image_of_mem _ (Finset.mem_filter.mpr ⟨Finset.mem_univ p, h⟩)

namespace Memory
variable {m m' : Memory P S} {i : MemoryIn P} {k : Nat}

/-- Every port that reads has its answer, and nothing is asked of L3. -/
structure Served (ram : MockCache) (profile : Profile) (i : MemoryIn P) (m : Memory P S) : Prop where
  valid : m.Valid ram profile
  quiet : m.l3.validOut = false
  hit : ∀ p, i.readEnableIn p = true → m.l2.validOut p = true
  present : ∀ p, i.readEnableIn p = true → ¬Lines.Absent (i.addrIn p) m.l2.entries

/-- The last `k` entries were filled for the ports, and another one is about to be. -/
structure Fetching (ram : MockCache) (profile : Profile) (i : MemoryIn P) (k : Nat)
    (m : Memory P S) : Prop where
  valid : m.Valid ram profile
  flight : m.l3.validOut = true
  wanted : m.l3.addrIn ∈ i.wanted
  recent : Lines.Recent i.wanted k m.l2.entries m.l2.nextReplacement
  few : k < i.wanted.card

/-- What holds after `n` ticks: the first may still fill what was asked for before. -/
def Serving (ram : MockCache) (profile : Profile) (i : MemoryIn P) (n : Nat) (m : Memory P S) : Prop :=
  (n = 0 ∧ m.Valid ram profile) ∨ m.Served ram profile i ∨
    ∃ k, n = k + 1 ∧ m.Fetching ram profile i k

theorem Serving.valid {n : Nat} (h : m.Serving ram profile i n) : m.Valid ram profile := by
  rcases h with ⟨-, valid⟩ | served | ⟨k, -, fetching⟩
  · exact valid
  · exact served.valid
  · exact fetching.valid

theorem Serving.served {n : Nat} (h : m.Serving ram profile i n) (late : P + 1 ≤ n) :
    m.Served ram profile i := by
  rcases h with ⟨rfl, -⟩ | served | ⟨k, rfl, fetching⟩
  · omega
  · exact served
  · have := fetching.few
    have := i.card_wanted
    omega

variable [NeZero S]

theorem Edge.outcome (edge : (m.drive i).Edge m') (valid : m'.Valid ram profile) (hk : k ≤ S)
    (recent : Lines.Recent i.wanted k m'.l2.entries m'.l2.nextReplacement) :
    m'.Served ram profile i ∨ m'.Fetching ram profile i k := by
  have haddr : m'.l2.addrIn = i.addrIn := edge.addrIn
  have hread : m'.l2.readEnableIn = i.readEnableIn := edge.readEnableIn
  cases flight : m'.l3.validOut with
  | false =>
    have hit := edge.quiet flight
    rw [hread] at hit
    refine .inl ⟨valid, flight, hit, fun p hp => ?_⟩
    have := ((edge.hit p).mp (hit p hp)).2
    rwa [haddr] at this
  | true =>
    obtain ⟨p, hp, hquery⟩ := edge.query flight
    rw [hread] at hp
    have wanted : m'.l3.addrIn ∈ i.wanted := by
      rw [hquery, haddr]
      exact MemoryIn.mem_wanted hp
    exact .inr ⟨valid, flight, wanted, recent,
      recent.lt_card hk valid.distinct wanted (valid.fresh flight)⟩

theorem Served.tick (h : m.Served ram profile i) (hreset : i.reset = false)
    (hstep : m.tick ram profile i = some m') : m'.Served ram profile i := by
  have valid := h.valid.tick hstep
  rw [Memory.tick, hreset] at hstep
  have edge := edge_of_risingClkEdge hstep
  have hentries : m'.l2.entries = m.l2.entries := edge.kept h.quiet
  have haddr : m'.l2.addrIn = i.addrIn := edge.addrIn
  have hread : m'.l2.readEnableIn = i.readEnableIn := edge.readEnableIn
  have present (p : Fin P) (hp : i.readEnableIn p = true) :
      ¬Lines.Absent (i.addrIn p) m'.l2.entries := by
    rw [hentries]
    exact h.present p hp
  have hit (p : Fin P) (hp : i.readEnableIn p = true) : m'.l2.validOut p = true := by
    rw [edge.hit p, hread, haddr]
    exact ⟨hp, present p hp⟩
  refine ⟨valid, ?_, hit, present⟩
  -- a query would be for an address that is held
  by_contra flight
  rw [Bool.not_eq_false] at flight
  obtain ⟨p, hp, hquery⟩ := edge.query flight
  rw [hread] at hp
  rw [haddr] at hquery
  exact present p hp (hquery ▸ valid.fresh flight)

theorem Fetching.tick (h : m.Fetching ram profile i k) (fits : P ≤ S) (hreset : i.reset = false)
    (hstep : m.tick ram profile i = some m') :
    m'.Served ram profile i ∨ m'.Fetching ram profile i (k + 1) := by
  have valid := h.valid.tick hstep
  rw [Memory.tick, hreset] at hstep
  have edge := edge_of_risingClkEdge hstep
  obtain ⟨hentries, hnext⟩ := edge.filled h.flight
  have bound := i.card_wanted
  have few := h.few
  refine edge.outcome valid (by omega) ?_
  rw [hentries, hnext]
  exact h.recent.replace h.wanted _

theorem Serving.tick {n : Nat} (h : m.Serving ram profile i n) (fits : P ≤ S)
    (hreset : i.reset = false) (hstep : m.tick ram profile i = some m') :
    m'.Serving ram profile i (n + 1) := by
  rcases h with ⟨rfl, valid⟩ | served | ⟨k, rfl, fetching⟩
  · have valid' := valid.tick hstep
    rw [Memory.tick, hreset] at hstep
    rcases (edge_of_risingClkEdge hstep).outcome valid' (Nat.zero_le S) Lines.recent_zero with
      served | fetching
    · exact .inr (.inl served)
    · exact .inr (.inr ⟨0, rfl, fetching⟩)
  · exact .inr (.inl (served.tick hreset hstep))
  · rcases fetching.tick fits hreset hstep with served | fetching'
    · exact .inr (.inl served)
    · exact .inr (.inr ⟨k + 1, rfl, fetching'⟩)

end Memory

/-- From every reachable memory, ports that hold what they ask for are all answered after
`P + 1` ticks and from then on; the ticks return as long as the addresses do not overflow. -/
theorem l2_serves_all_ports [NeZero S] (fits : P ≤ S) (ram : MockCache) (profile : Profile)
    (history : List (MemoryIn P)) (m : Memory P S)
    (hrun : run (Memory.tick ram profile) history Memory.init = some m) (i : MemoryIn P)
    (hreset : i.reset = false) (n : Nat) (late : P + 1 ≤ n) :
    (∀ m', orbit (Memory.tick ram profile i) m n = some m' →
        ∀ p, i.readEnableIn p = true → m'.l2.validOut p = true) ∧
      ((∀ p, i.readEnableIn p = true → (ram.block profile (i.addrIn p)).isSome = true) →
        ∃ m', orbit (Memory.tick ram profile i) m n = some m') := by
  have valid := Memory.valid_run hrun
  have serving {k : Nat} {m' : Memory P S} (h : orbit (Memory.tick ram profile i) m k = some m') :
      m'.Serving ram profile i k :=
    orbit_preserves (fun _ _ _ serving hstep => Memory.Serving.tick serving fits hreset hstep)
      (.inl ⟨rfl, valid⟩) h
  refine ⟨fun m' h => ((serving h).served late).hit, fun inRange => ?_⟩
  clear late
  induction n with
  | zero => exact ⟨m, rfl⟩
  | succ n ih =>
    obtain ⟨mid, hmid⟩ := ih
    obtain ⟨m', hm'⟩ := Memory.exists_risingClkEdge ((serving hmid).valid.drive i) inRange
    rw [← hreset] at hm'
    exact ⟨m', (orbit_succ_eq_some _ _).mpr ⟨mid, hmid, hm'⟩⟩

/-- Two ports and two entries, one of which is about to be filled for neither of them. -/
theorem l2_serves_all_ports_stone :
    let ram : MockCache := ⟨fun _ => .stone⟩
    let at' (x : Int) (h : -2 ^ 15 ≤ x ∧ x < 2 ^ 15) : Vec3i := ⟨⟨x, h.1, h.2⟩, 0, 0⟩
    let before : MemoryIn 2 := ⟨false, fun _ => at' 7 (by decide), fun _ => true⟩
    let i : MemoryIn 2 := ⟨false, ![at' 1 (by decide), at' 2 (by decide)], fun _ => true⟩
    ∃ m m' : Memory 2 2, run (Memory.tick ram .debug) [before] Memory.init = some m ∧
      orbit (Memory.tick ram .debug i) m 3 = some m' ∧ ∀ p, m'.l2.validOut p = true := by
  intro ram at' before i
  have h : (run (Memory.tick ram .debug) [before] (Memory.init : Memory 2 2)).isSome := by
    decide +kernel
  obtain ⟨m, hm⟩ := Option.isSome_iff_exists.mp h
  obtain ⟨served, returns⟩ := l2_serves_all_ports (Nat.le_refl 2) ram .debug _ m hm i rfl 3
    (Nat.le_refl 3)
  obtain ⟨m', hm'⟩ := returns (by decide +kernel)
  exact ⟨m, m', hm, hm', fun p => served m' hm' p rfl⟩

end FpgaCraft.Software
