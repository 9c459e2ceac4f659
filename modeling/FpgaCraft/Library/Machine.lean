import Mathlib.Logic.Function.Iterate

/-! Synchronous machines: a step per clock edge, driven by a sequence of inputs. A
step may panic, which ends a run; a machine that cannot panic has a trace. -/
namespace FpgaCraft.Library

section Panicking
variable {σ ι : Type*} (step : ι → σ → Option σ)

def run : List ι → σ → Option σ
  | [], s => some s
  | i :: is, s => (step i s).bind (run is)

@[simp] theorem run_nil (s : σ) : run step [] s = some s := rfl

theorem run_cons_eq_some {i : ι} {is : List ι} {s s' : σ} :
    run step (i :: is) s = some s' ↔ ∃ m, step i s = some m ∧ run step is m = some s' := by
  simp [run, Option.bind_eq_some_iff]

theorem run_append (is js : List ι) (s : σ) :
    run step (is ++ js) s = (run step is s).bind (run step js) := by
  induction is generalizing s with
  | nil => rfl
  | cons i is ih =>
    simp only [List.cons_append, run, Option.bind_assoc]
    congr 1
    funext m
    exact ih m

theorem run_concat_eq_some {is : List ι} {i : ι} {s s' : σ} :
    run step (is ++ [i]) s = some s' ↔ ∃ m, run step is s = some m ∧ step i m = some s' := by
  simp [run_append, Option.bind_eq_some_iff, run_cons_eq_some]

variable {step}

theorem run_preserves {Inv : σ → Prop} {ok : ι → Prop}
    (preserved : ∀ i s s', ok i → Inv s → step i s = some s' → Inv s')
    {is : List ι} {s s' : σ} (accepted : ∀ i ∈ is, ok i) (initial : Inv s)
    (h : run step is s = some s') : Inv s' := by
  induction is generalizing s with
  | nil => exact Option.some.inj h ▸ initial
  | cons i is ih =>
    obtain ⟨m, hm, hrest⟩ := (run_cons_eq_some step).mp h
    exact ih (fun j hj => accepted j (List.mem_cons_of_mem i hj))
      (preserved i s m (accepted i List.mem_cons_self) initial hm) hrest

theorem exists_run {Inv : σ → Prop} {ok : ι → Prop}
    (next : ∀ i s, ok i → Inv s → ∃ s', step i s = some s' ∧ Inv s')
    {is : List ι} {s : σ} (accepted : ∀ i ∈ is, ok i) (initial : Inv s) :
    ∃ s', run step is s = some s' ∧ Inv s' := by
  induction is generalizing s with
  | nil => exact ⟨s, rfl, initial⟩
  | cons i is ih =>
    obtain ⟨m, hm, hinv⟩ := next i s (accepted i List.mem_cons_self) initial
    obtain ⟨s', hrun, h⟩ := ih (fun j hj => accepted j (List.mem_cons_of_mem i hj)) hinv
    exact ⟨s', (run_cons_eq_some step).mpr ⟨m, hm, hrun⟩, h⟩

theorem run_map {τ : Type*} {view : σ → τ} {step' : ι → τ → Option τ}
    (commutes : ∀ i s, (step i s).map view = step' i (view s)) (is : List ι) (s : σ) :
    (run step is s).map view = run step' is (view s) := by
  induction is generalizing s with
  | nil => rfl
  | cons i is ih =>
    rw [run, run, ← commutes, Option.map_bind, Option.bind_map]
    congr 1
    funext m
    exact ih m

theorem bind_pair_eq_some {α β γ : Type*} {o : Option (α × β)} {f : α → β → γ} {c : γ} :
    (o.bind fun p => some (f p.1 p.2)) = some c ↔ ∃ a b, o = some (a, b) ∧ c = f a b := by
  rw [Option.bind_eq_some_iff, Prod.exists]
  simp only [Option.some.injEq, eq_comm]

theorem run_observed {τ : Type*} {observe : ι → σ × τ → Option (σ × τ)}
    (h : ∀ i s t s', step i s = some s' → ∃ t', observe i (s, t) = some (s', t'))
    {is : List ι} {s s' : σ} (hrun : run step is s = some s') (t : τ) :
    ∃ t', run observe is (s, t) = some (s', t') := by
  induction is generalizing s t with
  | nil => exact ⟨t, by rw [Option.some.inj hrun, run_nil]⟩
  | cons i is ih =>
    obtain ⟨m, hm, hrest⟩ := (run_cons_eq_some step).mp hrun
    obtain ⟨t₁, ht₁⟩ := h i s t m hm
    obtain ⟨t', ht'⟩ := ih hrest t₁
    exact ⟨t', (run_cons_eq_some observe).mpr ⟨(m, t₁), ht₁, ht'⟩⟩

end Panicking

section Loop
variable {σ : Type*} (guard : σ → Bool) (step : σ → Option σ)

/-- A `while` loop of at most `fuel` rounds; a loop that needs more has no result. -/
def loop : Nat → σ → Option σ
  | 0, s => if guard s then none else some s
  | fuel + 1, s => if guard s then (step s).bind (loop fuel) else some s

variable {guard step}

theorem loop_exit {fuel : Nat} {s s' : σ} (h : loop guard step fuel s = some s') :
    guard s' = false := by
  induction fuel generalizing s with
  | zero =>
    simp only [loop, Option.ite_none_left_eq_some, Bool.not_eq_true, Option.some.injEq] at h
    exact h.2 ▸ h.1
  | succ fuel ih =>
    rw [loop] at h
    split at h
    · obtain ⟨m, -, hrest⟩ := Option.bind_eq_some_iff.mp h
      exact ih hrest
    · rename_i hguard
      exact Option.some.inj h ▸ Bool.eq_false_iff.mpr hguard

theorem loop_preserves {Inv : σ → Prop}
    (preserved : ∀ s s', guard s = true → Inv s → step s = some s' → Inv s')
    {fuel : Nat} {s s' : σ} (initial : Inv s) (h : loop guard step fuel s = some s') : Inv s' := by
  induction fuel generalizing s with
  | zero =>
    simp only [loop, Option.ite_none_left_eq_some, Option.some.injEq] at h
    exact h.2 ▸ initial
  | succ fuel ih =>
    rw [loop] at h
    split at h
    · rename_i hguard
      obtain ⟨m, hm, hrest⟩ := Option.bind_eq_some_iff.mp h
      exact ih (preserved s m hguard initial hm) hrest
    · exact Option.some.inj h ▸ initial

end Loop

section Orbit
variable {σ : Type*} (next : σ → Option σ) (s : σ)

def orbit : Nat → Option σ
  | 0 => some s
  | n + 1 => (orbit n).bind next

theorem orbit_succ_eq_some {n : Nat} {s' : σ} :
    orbit next s (n + 1) = some s' ↔ ∃ m, orbit next s n = some m ∧ next m = some s' := by
  simp [orbit, Option.bind_eq_some_iff]

variable {next s}

theorem orbit_preserves {Inv : Nat → σ → Prop}
    (preserved : ∀ n m m', Inv n m → next m = some m' → Inv (n + 1) m') (initial : Inv 0 s)
    {n : Nat} {s' : σ} (h : orbit next s n = some s') : Inv n s' := by
  induction n generalizing s' with
  | zero => exact Option.some.inj h ▸ initial
  | succ n ih =>
    obtain ⟨m, hm, hnext⟩ := (orbit_succ_eq_some next s).mp h
    exact preserved n m s' (ih hm) hnext

theorem orbit_add (next : σ → Option σ) (s : σ) (n k : Nat) :
    orbit next s (n + k) = (orbit next s n).bind fun m => orbit next m k := by
  induction k with
  | zero => simp [orbit]
  | succ k ih =>
    rw [← Nat.add_assoc, orbit, ih, Option.bind_assoc]
    rfl

theorem orbit_succ (next : σ → Option σ) (s : σ) (n : Nat) :
    orbit next s (n + 1) = (next s).bind fun m => orbit next m n := by
  rw [Nat.add_comm, orbit_add]
  rfl

theorem orbit_eq_run {ι : Type*} (step : ι → σ → Option σ) (i : ι) (s : σ) (n : Nat) :
    orbit (step i) s n = run step (List.replicate n i) s := by
  induction n with
  | zero => rfl
  | succ n ih =>
    rw [List.replicate_succ', run_append, orbit, ih]
    congr 1
    funext m
    cases h : step i m <;> simp [run, h]

theorem loop_terminates {guard : σ → Bool} {step : σ → Option σ} {Inv : σ → Prop} {rank : σ → Nat}
    (progress : ∀ s s', Inv s → guard s = true → step s = some s' → Inv s' ∧ rank s' < rank s)
    {fuel : Nat} {s : σ} (initial : Inv s) (enough : rank s ≤ fuel) :
    (∃ s', loop guard step fuel s = some s') ∨
      ∃ n m, n ≤ fuel ∧ orbit step s n = some m ∧ Inv m ∧ step m = none := by
  induction fuel generalizing s with
  | zero =>
    cases hguard : guard s with
    | false => exact .inl ⟨s, by simp [loop, hguard]⟩
    | true =>
      cases hstep : step s with
      | none => exact .inr ⟨0, s, Nat.le_refl 0, rfl, initial, hstep⟩
      | some s' =>
        have := (progress s s' initial hguard hstep).2
        omega
  | succ fuel ih =>
    cases hguard : guard s with
    | false => exact .inl ⟨s, by simp [loop, hguard]⟩
    | true =>
      cases hstep : step s with
      | none => exact .inr ⟨0, s, Nat.zero_le _, rfl, initial, hstep⟩
      | some s' =>
        obtain ⟨inv, lower⟩ := progress s s' initial hguard hstep
        rcases ih inv (by omega) with ⟨t, ht⟩ | ⟨n, m, hn, horbit, hm⟩
        · exact .inl ⟨t, by simp [loop, hguard, hstep, ht]⟩
        · exact .inr ⟨n + 1, m, by omega, by rw [orbit_succ, hstep, Option.bind_some, horbit], hm⟩

theorem loop_orbit {guard : σ → Bool} {step : σ → Option σ} {fuel : Nat} {s s' : σ}
    (h : loop guard step fuel s = some s') : ∃ n, n ≤ fuel ∧ orbit step s n = some s' := by
  induction fuel generalizing s with
  | zero =>
    simp only [loop, Option.ite_none_left_eq_some, Option.some.injEq] at h
    exact ⟨0, Nat.le_refl 0, congrArg some h.2⟩
  | succ fuel ih =>
    rw [loop] at h
    split at h
    · obtain ⟨m, hm, hrest⟩ := Option.bind_eq_some_iff.mp h
      obtain ⟨n, hn, horbit⟩ := ih hrest
      exact ⟨n + 1, by omega, by rw [orbit_succ, hm, Option.bind_some, horbit]⟩
    · exact ⟨0, Nat.zero_le _, h⟩

end Orbit

section Total
variable {σ ι : Type*} (step : ι → σ → σ)

def trace (input : Nat → ι) (s : σ) : Nat → σ
  | 0 => s
  | n + 1 => step (input n) (trace input s n)

theorem trace_succ (input : Nat → ι) (s : σ) (n : Nat) :
    trace step input s (n + 1) = step (input n) (trace step input s n) := rfl

variable {step}

theorem trace_preserves {Inv : σ → Prop} {ok : σ → ι → Prop}
    (preserved : ∀ i s, ok s i → Inv s → Inv (step i s)) {input : Nat → ι} {s : σ} (initial : Inv s)
    (n : Nat) (accepted : ∀ k, k < n → ok (trace step input s k) (input k)) :
    Inv (trace step input s n) := by
  induction n with
  | zero => exact initial
  | succ n ih =>
    exact preserved _ _ (accepted n (Nat.lt_succ_self n)) (ih fun k hk => accepted k (by omega))

theorem trace_component {τ κ : Type*} {step' : κ → τ → τ} (part : σ → τ) (wire : ι → σ → κ)
    (commutes : ∀ i s, part (step i s) = step' (wire i s) (part s)) (input : Nat → ι) (s : σ)
    (n : Nat) : part (trace step input s n) =
      trace step' (fun k => wire (input k) (trace step input s k)) (part s) n := by
  induction n with
  | zero => rfl
  | succ n ih => rw [trace_succ, commutes, ih, trace_succ]

theorem trace_add (input : Nat → ι) (s : σ) (m n : Nat) :
    trace step input s (m + n) = trace step (fun k => input (m + k)) (trace step input s m) n := by
  induction n with
  | zero => rfl
  | succ n ih => rw [← Nat.add_assoc, trace_succ, trace_succ, ih]

variable {α : Type*} (event : ι → σ → Option α)

variable (step) in
def events (input : Nat → ι) (s : σ) (n : Nat) : List α :=
  (List.range n).filterMap fun k => event (input k) (trace step input s k)

theorem events_succ (input : Nat → ι) (s : σ) (n : Nat) :
    events step event input s (n + 1) =
      events step event input s n ++ (event (input n) (trace step input s n)).toList := by
  unfold events
  rw [List.range_succ, List.filterMap_append]
  cases h : event (input n) (trace step input s n) <;> simp [h]

variable {event}

theorem events_add_of_none {input : Nat → ι} {s : σ} {m n : Nat}
    (h : ∀ k, k < n → event (input (m + k)) (trace step input s (m + k)) = none) :
    events step event input s (m + n) = events step event input s m := by
  induction n with
  | zero => rfl
  | succ n ih =>
    rw [← Nat.add_assoc, events_succ, h n (Nat.lt_succ_self n), ih fun k hk => h k (by omega),
      Option.toList_none, List.append_nil]

theorem events_of_none {input : Nat → ι} {s : σ} {n : Nat}
    (h : ∀ k, k < n → event (input k) (trace step input s k) = none) :
    events step event input s n = [] := by
  have quiet := @events_add_of_none _ _ step _ event input s 0 n fun k hk => by
    rw [Nat.zero_add]
    exact h k hk
  rwa [Nat.zero_add] at quiet

theorem events_of_once {input : Nat → ι} {s : σ} {a n : Nat} {b : α} (within : a < n)
    (h : ∀ k, k < n → event (input k) (trace step input s k) = if k = a then some b else none) :
    events step event input s n = [b] := by
  have before : events step event input s a = [] :=
    events_of_none fun k hk => by rw [h k (by omega), if_neg (by omega)]
  have after : events step event input s (a + 1 + (n - (a + 1))) = events step event input s (a + 1) :=
    events_add_of_none fun k hk => by rw [h _ (by omega), if_neg (by omega)]
  rw [show n = a + 1 + (n - (a + 1)) by omega, after, events_succ, before, h a within, if_pos rfl]
  rfl

theorem events_add (input : Nat → ι) (s : σ) (m n : Nat) :
    events step event input s (m + n) = events step event input s m ++
      events step event (fun k => input (m + k)) (trace step input s m) n := by
  induction n with
  | zero => simp [events]
  | succ n ih => rw [← Nat.add_assoc, events_succ, events_succ, ih, trace_add, List.append_assoc]

theorem events_succ_edges (input : Nat → ι) (s : σ) {shown : σ → Option α} (n : Nat) :
    events step (fun _ => shown) input s (n + 1) =
      (shown s).toList ++ events step (fun i s => shown (step i s)) input s n := by
  induction n with
  | zero =>
    rw [events_succ]
    exact (List.append_nil _).symm
  | succ n ih => rw [events_succ, ih, events_succ, trace_succ, List.append_assoc]

end Total
end FpgaCraft.Library
