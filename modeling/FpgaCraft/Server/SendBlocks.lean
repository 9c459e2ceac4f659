import FpgaCraft.Hardware.UartStream
import FpgaCraft.Server.ChunkFile

/-! ## Blocks on the serial line

`send_blocks` (`plugin/src/lib.rs`) puts a byte 0 before each block and a byte 1 behind it. The
line frames every one of the three, and the receiver delivers them all. -/
namespace FpgaCraft.Server
open Library
open Hardware (UartParams frameLine)
open Hardware.UartReceiver (Delivers delivers_frameLine)
variable {π ε : Type*}

/-- A port of the `serialport` crate. A write that succeeds has written its whole buffer. -/
structure SerialPort (π ε : Type*) where
  written : π → List (BitVec 8)
  writeAll : List (BitVec 8) → π → Except ε Unit × π
  written_writeAll : ∀ {buf port port'}, writeAll buf port = (.ok (), port') →
    written port' = written port ++ buf

def packet (byte : BitVec 8) : List (BitVec 8) := [0, byte, 1]

def sendBytes (serial : SerialPort π ε) : List (BitVec 8) → π → Except ε Unit × π
  | [], port => (.ok (), port)
  | byte :: data, port =>
    match serial.writeAll (packet byte) port with
    | (.ok (), port) => sendBytes serial data port
    | (.error e, port) => (.error e, port)

inductive SendError (ε : Type*) where
  -- "No serial port connected to send data!"
  | noPort
  -- "No chunk data available to send!"
  | noChunkData
  -- "Failed to send data byte to FPGA: {e}"
  | failed (e : ε)

def sendBlocks (serial : SerialPort π ε) (port : Option π) (chunkData : List Block) :
    Except (SendError ε) Unit × Option π :=
  match port with
  | none => (.error .noPort, none)
  | some port =>
    if chunkData.isEmpty then (.error .noChunkData, some port)
    else
      let sent := sendBytes serial (chunkData.map Block.byte) port
      (sent.1.mapError .failed, some sent.2)

def chunkBlocks (data : ChunkData) : List Block :=
  (List.finRange (CHUNK_SIZE * CHUNK_SIZE * CHUNK_SIZE)).map data

theorem map_byte_chunkBlocks (data : ChunkData) :
    (chunkBlocks data).map Block.byte = chunkBytes data := by
  rw [chunkBlocks, List.map_map]
  rfl

theorem chunkBlocks_ne_nil (data : ChunkData) : chunkBlocks data ≠ [] := by
  rw [ne_eq, ← List.length_eq_zero_iff, chunkBlocks, List.length_map, List.length_finRange]
  simp only [CHUNK_SIZE]
  omega

theorem length_flatMap_packet (data : List (BitVec 8)) :
    (data.flatMap packet).length = 3 * data.length := by
  induction data with
  | nil => rfl
  | cons byte data ih =>
    rw [List.flatMap_cons, List.length_append, ih, List.length_cons]
    exact Nat.add_comm 3 _

theorem eq_flatMap_packet_iff (data : List (BitVec 8)) : data = data.flatMap packet ↔ data = [] := by
  constructor
  · intro same
    have length := congrArg List.length same
    rw [length_flatMap_packet] at length
    exact List.eq_nil_of_length_eq_zero (by omega)
  · rintro rfl
    rfl

section Sent
variable {serial : SerialPort π ε} {port port' : π}

theorem written_sendBytes {data : List (BitVec 8)} (h : sendBytes serial data port = (.ok (), port')) :
    serial.written port' = serial.written port ++ data.flatMap packet := by
  induction data generalizing port with
  | nil =>
    cases h
    exact (List.append_nil _).symm
  | cons byte data ih =>
    rw [sendBytes] at h
    split at h
    · rename_i next hwrite
      rw [ih h, serial.written_writeAll hwrite, List.append_assoc, List.flatMap_cons]
    · cases h

theorem written_sendBlocks {chunkData : List Block} {result : Except (SendError ε) Unit}
    (h : sendBlocks serial (some port) chunkData = (result, some port'))
    (written : ∀ e, result ≠ .error (.failed e)) :
    serial.written port' = serial.written port ++ (chunkData.map Block.byte).flatMap packet := by
  simp only [sendBlocks] at h
  split at h
  · rename_i empty
    cases h
    rw [List.isEmpty_iff.mp empty]
    exact (List.append_nil _).symm
  · cases hsent : sendBytes serial (chunkData.map Block.byte) port with
    | mk sent next =>
      rw [hsent] at h
      cases sent with
      | ok =>
        cases h
        exact written_sendBytes hsent
      | error e =>
        cases h
        exact absurd rfl (written e)

end Sent

def SerialPort.logging : SerialPort (List (BitVec 8)) Empty where
  written := id
  writeAll buf port := (.ok (), port ++ buf)
  written_writeAll h := (congrArg Prod.snd h).symm

theorem sendBytes_logging (data port : List (BitVec 8)) :
    sendBytes .logging data port = (.ok (), port ++ data.flatMap packet) := by
  induction data generalizing port with
  | nil => simp [sendBytes]
  | cons byte data ih =>
    have rest := ih (port ++ packet byte)
    rw [List.append_assoc] at rest
    exact rest

theorem sendBlocks_logging {chunkData : List Block} (filled : chunkData ≠ []) (port : List (BitVec 8)) :
    sendBlocks .logging (some port) chunkData =
      (.ok (), some (port ++ (chunkData.map Block.byte).flatMap packet)) := by
  rw [sendBlocks, if_neg (by rwa [List.isEmpty_iff]), sendBytes_logging]
  rfl

/-- For every port and chunk, unless a write fails: with a frame on the line for each byte
written, the receiver delivers the blocks exactly if there are none. -/
theorem blocks_arrive_iff (serial : SerialPort π ε) {p : UartParams} (slow : 2 ≤ p.BIT_PERIOD)
    (chunkData : List Block) (port port' : π) (result : Except (SendError ε) Unit)
    (hsend : sendBlocks serial (some port) chunkData = (result, some port'))
    (succeeded : ∀ e, result ≠ .error (.failed e)) (frames : List (Nat × BitVec 8))
    (carried : frames.map Prod.snd = serial.written port') :
    Delivers p (frameLine p.BIT_PERIOD frames) (serial.written port ++ chunkData.map Block.byte) ↔
      chunkData = [] := by
  rw [delivers_frameLine slow, carried, written_sendBlocks hsend succeeded, List.append_right_inj,
    eq_flatMap_packet_iff, List.map_eq_nil_iff]

def SERIAL_BAUD : UartParams := ⟨100000000, 115200⟩

theorem blocks_arrive_iff_stone :
    ¬Delivers SERIAL_BAUD (frameLine SERIAL_BAUD.BIT_PERIOD [(0, 0), (5, 1), (0, 1)]) [1] :=
  (blocks_arrive_iff .logging (by decide) [.stone] [] [0, 1, 1] (.ok ()) rfl (fun _ h => nomatch h) _
    rfl).not.mpr (List.cons_ne_nil _ _)

/-- The chunk of air that the plugin starts with. -/
theorem air_chunk_tripled :
    ∃ sent : List (BitVec 8),
      sendBlocks .logging (some []) (chunkBlocks FpgaPlugin.enable.chunkData) = (.ok (), some sent) ∧
        sent.length = 786432 ∧
        Delivers SERIAL_BAUD (frameLine SERIAL_BAUD.BIT_PERIOD (sent.map (Prod.mk 0))) sent ∧
        ¬Delivers SERIAL_BAUD (frameLine SERIAL_BAUD.BIT_PERIOD (sent.map (Prod.mk 0)))
          (chunkBytes FpgaPlugin.enable.chunkData) := by
  have slow : 2 ≤ SERIAL_BAUD.BIT_PERIOD := by decide
  have bytes (sent : List (BitVec 8)) : (sent.map (Prod.mk 0)).map Prod.snd = sent := by simp
  have length : ((chunkBytes FpgaPlugin.enable.chunkData).flatMap packet).length = 786432 := by
    rw [length_flatMap_packet, length_chunkBytes]
    simp only [CHUNK_SIZE, Nat.reduceMul]
  refine ⟨(chunkBytes FpgaPlugin.enable.chunkData).flatMap packet, ?_, length, ?_, ?_⟩
  · rw [sendBlocks_logging (chunkBlocks_ne_nil _), map_byte_chunkBlocks, List.nil_append]
  · rw [delivers_frameLine slow, bytes]
  · rw [delivers_frameLine slow, bytes]
    intro same
    rw [← same, length_chunkBytes] at length
    simp only [CHUNK_SIZE] at length
    omega

end FpgaCraft.Server
