import Mathlib.Data.Nat.Log
import FpgaCraft.Library.Bits
import FpgaCraft.Library.Scan

/-! The serial link (`uart_transmitter.sv`, `uart_receiver.sv`), and the two ends joined by
one wire under one clock. -/
namespace FpgaCraft.Hardware
open Library

structure UartParams where
  INPUT_CLOCK_FREQ : Nat
  BAUD_RATE : Nat
deriving DecidableEq, Repr

/-- `BAUD_BIT_PERIOD` of the transmitter and `UART_BIT_PERIOD` of the receiver. -/
def UartParams.BIT_PERIOD (p : UartParams) : Nat := p.INPUT_CLOCK_FREQ / p.BAUD_RATE

abbrev CycleCount (p : UartParams) : Type := BitVec (Nat.clog 2 p.BIT_PERIOD + 1)

structure UartTransmit (p : UartParams) where
  busyOut : Bool
  txWireOut : Bool
  clockCycleCount : CycleCount p
  bitCount : BitVec 8
  dataInBuffer : BitVec 8
deriving DecidableEq

structure TransmitIn where
  dataByteIn : BitVec 8
  triggerIn : Bool

namespace UartTransmit
variable {p : UartParams}

def reset (p : UartParams) : UartTransmit p where
  busyOut := false
  txWireOut := true
  clockCycleCount := 0
  bitCount := 0
  dataInBuffer := 0

def nextBit (self : UartTransmit p) : UartTransmit p :=
  if self.bitCount = 9 then
    { self with
      busyOut := false
      bitCount := 0
      txWireOut := true
      dataInBuffer := 0
      clockCycleCount := 0 }
  else if self.bitCount = 8 then
    { self with txWireOut := true, bitCount := self.bitCount + 1, clockCycleCount := 0 }
  else
    { self with
      txWireOut := self.dataInBuffer.getLsbD self.bitCount.toNat
      bitCount := self.bitCount + 1
      clockCycleCount := 0 }

def risingClkEdge (rstIn : Bool) (i : TransmitIn) (self : UartTransmit p) : UartTransmit p :=
  if rstIn then reset p
  else if self.busyOut then
    if self.clockCycleCount.toNat = p.BIT_PERIOD - 1 then self.nextBit
    else { self with clockCycleCount := self.clockCycleCount + 1 }
  else if i.triggerIn then
    { self with
      busyOut := true
      txWireOut := false
      clockCycleCount := 0
      dataInBuffer := i.dataByteIn }
  else self

end UartTransmit

structure UartReceiver (p : UartParams) where
  newDataOut : Bool
  dataByteOut : BitVec 8
  busyIn : Bool
  idle : Bool
  clockCycleCount : CycleCount p
  bitIndex : BitVec 4
  checkStartBit : Bool
  dataOutBuffer : BitVec 8
deriving DecidableEq

namespace UartReceiver
variable {p : UartParams}

def reset (p : UartParams) : UartReceiver p where
  newDataOut := false
  dataByteOut := 0
  busyIn := false
  idle := true
  bitIndex := 0
  clockCycleCount := 0
  checkStartBit := false
  dataOutBuffer := 0

def checkStart (rxWireIn : Bool) (self : UartReceiver p) : UartReceiver p :=
  if !rxWireIn then { self with busyIn := true, checkStartBit := true, clockCycleCount := 0 }
  else { self with idle := true, clockCycleCount := 0 }

def stop (rxWireIn : Bool) (self : UartReceiver p) : UartReceiver p :=
  { self with
    dataByteOut := if rxWireIn then self.dataOutBuffer else self.dataByteOut
    newDataOut := if rxWireIn then true else self.newDataOut
    dataOutBuffer := 0
    bitIndex := 0
    busyIn := false
    idle := true
    checkStartBit := false
    clockCycleCount := 0 }

def data (rxWireIn : Bool) (self : UartReceiver p) : UartReceiver p :=
  { self with
    dataOutBuffer :=
      ofBits (fun i => if i = self.bitIndex.toNat then rxWireIn else self.dataOutBuffer.getLsbD i) 8
    bitIndex := self.bitIndex + 1
    clockCycleCount := 0 }

def sample (rxWireIn : Bool) (self : UartReceiver p) : UartReceiver p :=
  if self.busyIn then
    if self.bitIndex = 8 then self.stop rxWireIn else self.data rxWireIn
  else { self with clockCycleCount := 0 }

def risingClkEdge (rstIn rxWireIn : Bool) (self : UartReceiver p) : UartReceiver p :=
  if rstIn then reset p
  else if self.idle then
    { self with idle := if !rxWireIn then false else self.idle, newDataOut := false }
  else if !self.checkStartBit then
    if self.clockCycleCount.toNat = p.BIT_PERIOD / 2 - 1 then self.checkStart rxWireIn
    else { self with clockCycleCount := self.clockCycleCount + 1 }
  else if self.clockCycleCount.toNat = p.BIT_PERIOD - 1 then self.sample rxWireIn
  else { self with clockCycleCount := self.clockCycleCount + 1 }

end UartReceiver

structure UartLoop (p : UartParams) where
  transmit : UartTransmit p
  receiver : UartReceiver p

namespace UartLoop
variable {p : UartParams}

def reset (p : UartParams) : UartLoop p := ⟨.reset p, .reset p⟩

def tick (i : TransmitIn) (self : UartLoop p) : UartLoop p where
  transmit := self.transmit.risingClkEdge false i
  receiver := self.receiver.risingClkEdge false self.transmit.txWireOut

def accepted (i : TransmitIn) (self : UartLoop p) : Option (BitVec 8) :=
  if i.triggerIn && !self.transmit.busyOut then some i.dataByteIn else none

def presented (_ : TransmitIn) (self : UartLoop p) : Option (BitVec 8) :=
  if self.receiver.newDataOut then some self.receiver.dataByteOut else none

end UartLoop
end FpgaCraft.Hardware
