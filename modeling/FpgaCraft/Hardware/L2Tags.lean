import FpgaCraft.Hardware.L2
import FpgaCraft.Library.Lines
import FpgaCraft.Library.Scan

/-! ## The tags of the hardware L2

Whatever L3 answers and when: it is taken only while a query is out, for an address that no
entry carries, and taking it ends the query. -/
namespace FpgaCraft.Hardware
open Library

variable {PORTS CACHE_SIZE : Nat}

namespace L2Cache
variable {self : L2Cache PORTS CACHE_SIZE} {i : L2In PORTS}

def lines (self : L2Cache PORTS CACHE_SIZE) : Lines BlockPos BlockType CACHE_SIZE :=
  fun e => if self.occupied e then some ⟨self.tags e, self.entries e⟩ else none

theorem lines_eq_some {e : Fin CACHE_SIZE} {line : Line BlockPos BlockType} :
    self.lines e = some line ↔
      self.occupied e = true ∧ line = ⟨self.tags e, self.entries e⟩ := by
  unfold lines
  split
  · rename_i h
    rw [Option.some.injEq]
    exact ⟨fun heq => ⟨h, heq.symm⟩, fun heq => heq.2.symm⟩
  · rename_i h
    exact ⟨fun heq => (Option.some_ne_none _ heq.symm).elim, fun heq => (h heq.1).elim⟩

structure Unique (cache : L2Cache PORTS CACHE_SIZE) : Prop where
  distinct : Lines.Distinct cache.lines
  inRange : cache.nextReplacement.toNat < CACHE_SIZE
  fresh : cache.l3ReadEnable = true → Lines.Absent cache.l3Addr cache.lines

theorem unique_reset (positive : 0 < CACHE_SIZE) : self.reset.Unique := by
  refine ⟨Lines.distinct_empty, ?_, fun h => absurd h Bool.false_ne_true⟩
  simpa [reset] using positive

theorem absent_of_missing {p : Fin PORTS} (h : self.missing i p = true) :
    Lines.Absent (i.addr p) self.lines := by
  intro e line hline htag
  obtain ⟨hoccupied, rfl⟩ := lines_eq_some.mp hline
  have hmiss := (Bool.and_eq_true_iff.mp h).2
  simp only [misses, Bool.not_eq_true', List.any_eq_false] at hmiss
  apply hmiss e (List.mem_finRange e)
  unfold lookup
  rw [hoccupied, Bool.true_and]
  exact decide_eq_true htag

theorem respond_query (self : L2Cache PORTS CACHE_SIZE) (i : L2In PORTS) :
    ((self.respond i).l3Addr = self.l3Addr ∧ (self.respond i).l3ReadEnable = self.l3ReadEnable) ∨
      ∃ p, self.missing i p = true ∧ (self.respond i).l3Addr = i.addr p := by
  rcases lastAssigned_cases (fun p => if self.missing i p then some (i.addr p) else none)
    self.l3Addr with ⟨haddr, hnone⟩ | ⟨p, hp, -⟩
  · refine .inl ⟨haddr, ?_⟩
    rcases lastAssigned_cases (fun p => if self.missing i p then some true else none)
      self.l3ReadEnable with ⟨hread, -⟩ | ⟨p, hp, -⟩
    · exact hread
    · have := hnone p
      split at hp
      · rename_i hmiss
        rw [if_pos hmiss] at this
        cases this
      · cases hp
  · refine .inr ⟨p, ?_⟩
    split at hp
    · rename_i hmiss
      exact ⟨hmiss, (Option.some.inj hp).symm⟩
    · cases hp

theorem Unique.respond (h : self.Unique) (i : L2In PORTS) : (self.respond i).Unique := by
  refine ⟨h.distinct, h.inRange, fun hread => ?_⟩
  change Lines.Absent _ self.lines
  rcases self.respond_query i with ⟨haddr, hkept⟩ | ⟨p, hmiss, haddr⟩
  · rw [haddr]
    exact h.fresh (hkept ▸ hread)
  · rw [haddr]
    exact absent_of_missing hmiss

theorem lines_fill (responded : L2Cache PORTS CACHE_SIZE)
    (inRange : self.nextReplacement.toNat < CACHE_SIZE) :
    (self.fill responded i).lines =
      Function.update self.lines ⟨self.nextReplacement.toNat, inRange⟩
        (some ⟨self.l3Addr, i.l3Out⟩) := by
  funext e
  by_cases he : e = ⟨self.nextReplacement.toNat, inRange⟩
  · subst he
    rw [Function.update_self]
    simp only [lines, fill, if_true]
  · have hval : e.val ≠ self.nextReplacement.toNat := fun heq => he (Fin.ext heq)
    rw [Function.update_of_ne he]
    simp only [lines, fill, if_neg hval]

theorem Unique.fill (h : self.Unique) (hread : self.l3ReadEnable = true) (i : L2In PORTS) :
    (self.fill (self.respond i) i).Unique := by
  refine ⟨?_, ?_, fun hlow => absurd hlow Bool.false_ne_true⟩
  · rw [lines_fill (self.respond i) h.inRange]
    exact h.distinct.replace _ (h.fresh hread)
  · have inRange := h.inRange
    have fits : CACHE_SIZE ≤ 2 ^ Nat.clog 2 CACHE_SIZE := Nat.le_pow_clog Nat.one_lt_two _
    simp only [L2Cache.fill]
    split
    · simpa using Nat.zero_lt_of_lt inRange
    · rw [counter_succ CACHE_SIZE fits (by omega)]
      omega

theorem Unique.risingClkEdge (h : self.Unique) (i : L2In PORTS) : (self.risingClkEdge i).Unique := by
  unfold L2Cache.risingClkEdge
  split
  · exact unique_reset (Nat.zero_lt_of_lt h.inRange)
  · split
    · rename_i htaken
      exact h.fill (Bool.and_eq_true_iff.mp htaken).2 i
    · exact h.respond i

end L2Cache

/-- In every cycle after a reset, for every sequence of inputs: no tag is carried twice, the
next replacement is an entry, and no tag is asked for. -/
theorem l2_tags_unique (size : 2 ≤ CACHE_SIZE) (cache : L2Cache PORTS CACHE_SIZE)
    (inputs : Nat → L2In PORTS) (n : Nat) :
    let s := trace L2Cache.risingClkEdge inputs cache.reset n
    (∀ e e', s.occupied e = true → s.occupied e' = true → s.tags e = s.tags e' → e = e') ∧
      s.nextReplacement.toNat < CACHE_SIZE ∧
      (s.l3ReadEnable = true → ∀ e, s.occupied e = true → s.tags e ≠ s.l3Addr) := by
  intro s
  have unique : s.Unique := by
    apply @trace_preserves _ _ _ L2Cache.Unique (fun _ _ => True)
    · exact fun i s _ h => h.risingClkEdge i
    · exact L2Cache.unique_reset (by omega)
    · exact fun _ _ => trivial
  refine ⟨fun e e' he he' htag => ?_, unique.inRange, fun hread e he => ?_⟩
  · exact unique.distinct e e' _ _ (L2Cache.lines_eq_some.mpr ⟨he, rfl⟩)
      (L2Cache.lines_eq_some.mpr ⟨he', rfl⟩) htag
  · exact unique.fresh hread e _ (L2Cache.lines_eq_some.mpr ⟨he, rfl⟩)

theorem l2_tags_unique_shared :
    let cache : L2Cache 2 3 := ⟨fun _ => 0, fun _ => false, 0, false, fun _ => 0, fun _ => 0, fun _ => false, 0⟩
    let inputs : Nat → L2In 2 := fun _ => ⟨false, fun _ => ⟨3, 4, 5⟩, fun _ => true, 1, true⟩
    let s := trace L2Cache.risingClkEdge inputs cache.reset 4
    (∀ e e', s.occupied e = true → s.occupied e' = true → s.tags e = s.tags e' → e = e') ∧
      s.nextReplacement.toNat < 3 ∧
      (s.l3ReadEnable = true → ∀ e, s.occupied e = true → s.tags e ≠ s.l3Addr) := by
  intro cache inputs s
  exact l2_tags_unique (by decide) cache inputs 4

end FpgaCraft.Hardware
