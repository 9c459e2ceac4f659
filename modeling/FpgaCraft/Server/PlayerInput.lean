import FpgaCraft.Library.Machine
import FpgaCraft.Server.StaleCells

/-! ## Movement bytes

A call of `player_input` (`plugin/src/lib.rs`) reads two bytes and decodes the second one; the
position that a movement leads to is printed, not stored. -/
namespace FpgaCraft.Server
open Library
variable {ε : Type*}

inductive Movement where
  | forward
  | backward
  | left
  | right
deriving DecidableEq

namespace Movement

def ofSignal (signal : BitVec 8) : Option Movement :=
  if signal = 0x01 then some forward
  else if signal = 0x02 then some backward
  else if signal = 0x03 then some left
  else if signal = 0x04 then some right
  else none

def delta : Movement → Offset
  | forward => ⟨0, 0, 1⟩
  | backward => ⟨0, 0, -1⟩
  | left => ⟨-1, 0, 0⟩
  | right => ⟨1, 0, 0⟩

def total (movements : List Movement) : Offset where
  x := (movements.map fun m => m.delta.x).sum
  y := (movements.map fun m => m.delta.y).sum
  z := (movements.map fun m => m.delta.z).sum

end Movement

/-- What the port returns to the two reads of a call, of one byte each. -/
structure Reads (ε : Type*) where
  first : Except ε (BitVec 8)
  second : Except ε (BitVec 8)

namespace Reads

def bytes (reads : Reads ε) : List (BitVec 8) :=
  reads.first.toOption.toList ++ reads.second.toOption.toList

def skipped (reads : Reads ε) : Option Movement := reads.first.toOption.bind Movement.ofSignal

def movement (reads : Reads ε) : Option Movement := reads.second.toOption.bind Movement.ofSignal

end Reads

/-- What `player_input` prints, with the movement it has executed. -/
inductive InputOutcome (ε : Type*) where
  -- "No serial port connected to receive input!"
  | noPort
  -- "Failed to receive input from FPGA: {e}"
  | failed (e : ε)
  -- "Unknown signal received from FPGA!"
  | unknownSignal
  -- "Player moved to new position: {:?}", or "Player not found."
  | updated (movement : Movement) (newPos : Option BlockPosition)

def InputOutcome.movement : InputOutcome ε → Option Movement
  | updated movement _ => some movement
  | _ => none

def updatePlayerState (profile : Software.Profile) (d : Offset) (game : Game) :
    Option (Game × Option BlockPosition) :=
  match game.firstPlayer with
  | none => some (game, none)
  | some pos => do
    let x ← addI32 profile d.x pos.x
    let y ← addI32 profile d.y pos.y
    let z ← addI32 profile d.z pos.z
    pure (game, some ⟨x, y, z⟩)

def playerInput (profile : Software.Profile) (serial : Option (Reads ε)) (game : Game) :
    Option (Game × InputOutcome ε) :=
  match serial with
  | none => some (game, .noPort)
  | some reads =>
    -- The result of the first read is printed; the second overwrites its byte.
    match reads.second with
    | .error e => some (game, .failed e)
    | .ok signal =>
      match Movement.ofSignal signal with
      | none => some (game, .unknownSignal)
      | some movement => (updatePlayerState profile movement.delta game).map fun updated =>
          (updated.1, .updated movement updated.2)

def executing (profile : Software.Profile) (serial : Option (Reads ε)) (s : Game × List Movement) :
    Option (Game × List Movement) :=
  (playerInput profile serial s.1).map fun called => (called.1, s.2 ++ called.2.movement.toList)

variable {profile : Software.Profile} {game game' : Game}

theorem game_updatePlayerState {d : Offset} {newPos : Option BlockPosition}
    (h : updatePlayerState profile d game = some (game', newPos)) : game' = game := by
  unfold updatePlayerState at h
  split at h
  · cases h
    rfl
  · simp only [Option.bind_eq_bind, Option.bind_eq_some_iff] at h
    obtain ⟨x, -, y, -, z, -, heq⟩ := h
    cases heq
    rfl

theorem playerInput_eq_some {reads : Reads ε} {outcome : InputOutcome ε}
    (h : playerInput profile (some reads) game = some (game', outcome)) :
    game' = game ∧ outcome.movement = reads.movement := by
  simp only [playerInput] at h
  cases hsecond : reads.second with
  | error e =>
    rw [hsecond] at h
    cases h
    simp [InputOutcome.movement, Reads.movement, hsecond, Except.toOption]
  | ok signal =>
    simp only [hsecond] at h
    cases hsignal : Movement.ofSignal signal with
    | none =>
      rw [hsignal] at h
      cases h
      simp [InputOutcome.movement, Reads.movement, hsecond, hsignal, Except.toOption]
    | some movement =>
      simp only [hsignal] at h
      obtain ⟨⟨game', newPos⟩, hupdate, heq⟩ := Option.map_eq_some_iff.mp h
      cases heq
      refine ⟨game_updatePlayerState hupdate, ?_⟩
      simp [InputOutcome.movement, Reads.movement, hsecond, hsignal, Except.toOption]

theorem run_executing {calls : List (Reads ε)} {log executed : List Movement}
    (hrun : run (executing profile) (calls.map some) (game, log) = some (game', executed)) :
    game' = game ∧ executed = log ++ calls.filterMap Reads.movement := by
  induction calls generalizing game log with
  | nil =>
    cases hrun
    simp
  | cons reads calls ih =>
    obtain ⟨⟨between, log'⟩, hcall, hrest⟩ := (run_cons_eq_some _).mp hrun
    obtain ⟨⟨next, outcome⟩, hinput, heq⟩ := Option.map_eq_some_iff.mp hcall
    cases heq
    obtain ⟨rfl, hmovement⟩ := playerInput_eq_some hinput
    obtain ⟨hgame, hlog⟩ := ih hrest
    refine ⟨hgame, ?_⟩
    rw [hlog, hmovement, List.filterMap_cons]
    cases reads.movement <;> simp

theorem filterMap_bytes (calls : List (Reads ε)) :
    (calls.flatMap Reads.bytes).filterMap Movement.ofSignal =
      calls.flatMap fun reads => reads.skipped.toList ++ reads.movement.toList := by
  have single (byte : Except ε (BitVec 8)) :
      byte.toOption.toList.filterMap Movement.ofSignal =
        (byte.toOption.bind Movement.ofSignal).toList := by
    cases byte with
    | error e => rfl
    | ok byte => cases h : Movement.ofSignal byte <;> simp [Except.toOption, h]
  rw [List.filterMap_flatMap]
  congr 1
  funext reads
  rw [Reads.bytes, List.filterMap_append, single, single]
  rfl

theorem filterMap_eq_flatMap_iff {α β : Type*} (f g : α → Option β) (as : List α) :
    as.filterMap g = (as.flatMap fun a => (f a).toList ++ (g a).toList) ↔ ∀ a ∈ as, f a = none := by
  have length : (as.flatMap fun a => (f a).toList ++ (g a).toList).length =
      (as.filterMap f).length + (as.filterMap g).length := by
    induction as with
    | nil => rfl
    | cons a as ih =>
      rw [List.flatMap_cons, List.length_append, ih]
      cases hf : f a <;> cases hg : g a <;> simp [hf, hg] <;> omega
  constructor
  · intro same
    rw [← same] at length
    exact List.filterMap_eq_nil_iff.mp (List.eq_nil_of_length_eq_zero (by omega))
  · intro none
    rw [List.filterMap_eq_flatMap_toList]
    refine List.flatMap_congr fun a ha => ?_
    rw [none a ha]
    rfl

def Moved (game game' : Game) (d : Offset) : Prop :=
  ∀ pos, game.firstPlayer = some pos → ∃ pos', game'.firstPlayer = some pos' ∧ pos.Displaced d pos'

theorem moved_self_iff (d : Offset) : Moved game game d ↔ game.firstPlayer = none ∨ d = ⟨0, 0, 0⟩ := by
  cases hplayer : game.firstPlayer with
  | none => simp [Moved, hplayer]
  | some pos =>
    simp only [Moved, hplayer, Option.some.injEq, forall_eq', exists_eq_left', reduceCtorEq, false_or]
    constructor
    · rintro ⟨x, y, z⟩
      obtain ⟨dx, dy, dz⟩ := d
      dsimp only at x y z
      rw [Offset.mk.injEq]
      omega
    · rintro rfl
      exact ⟨(Int.add_zero _).symm, (Int.add_zero _).symm, (Int.add_zero _).symm⟩

/-- For all calls on a port, also those that a read fails: the movements executed are those in
the bytes taken, and the player has gone by their sum, exactly if no first read of a call takes
a movement and, when there is a player, the movements cancel. -/
theorem every_movement_counts_iff (profile : Software.Profile) (calls : List (Reads ε))
    (game game' : Game) (executed : List Movement)
    (hrun : run (executing profile) (calls.map some) (game, []) = some (game', executed)) :
    (executed = (calls.flatMap Reads.bytes).filterMap Movement.ofSignal ∧
        Moved game game' (Movement.total executed)) ↔
      (∀ reads ∈ calls, reads.skipped = none) ∧
        (game.firstPlayer = none ∨
          Movement.total ((calls.flatMap Reads.bytes).filterMap Movement.ofSignal) = ⟨0, 0, 0⟩) := by
  obtain ⟨rfl, hexecuted⟩ := run_executing hrun
  have counted : executed = (calls.flatMap Reads.bytes).filterMap Movement.ofSignal ↔
      ∀ reads ∈ calls, reads.skipped = none := by
    rw [hexecuted, filterMap_bytes]
    exact filterMap_eq_flatMap_iff Reads.skipped Reads.movement calls
  rw [moved_self_iff, counted]
  refine and_congr_right fun none => ?_
  rw [counted.mpr none]

def thereAndBack : List (Reads Empty) := [⟨.ok 0, .ok 1⟩, ⟨.ok 0, .ok 2⟩]

theorem every_movement_counts_iff_thereAndBack :
    Moved unloadedWorld unloadedWorld (Movement.total [.forward, .backward]) :=
  ((every_movement_counts_iff .debug thereAndBack unloadedWorld unloadedWorld [.forward, .backward]
    rfl).mpr ⟨by decide, .inr (by decide)⟩).2

/-- A forward byte is lost to the first read, and the other one does not move the player. -/
theorem forward_lost :
    run (executing .debug) [some (⟨.ok 1, .ok 1⟩ : Reads Empty)] (unloadedWorld, []) =
        some (unloadedWorld, [.forward]) ∧
      [Movement.forward] ≠ [1, 1].filterMap Movement.ofSignal ∧
      ¬Moved unloadedWorld unloadedWorld (Movement.total [.forward]) := by
  refine ⟨rfl, by decide, fun moved => ?_⟩
  rcases (moved_self_iff _).mp moved with none | zero
  · cases none
  · cases zero

end FpgaCraft.Server
