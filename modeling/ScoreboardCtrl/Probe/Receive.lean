import ScoreboardCtrl.Serial.Framer
import ScoreboardCtrl.Serial.HexDump
import ScoreboardCtrl.State

/-!
# The receiver of the probe

`uart_rx_task` (`examples/uart-test.rs`) gathers clock frames as the firmware does, and logs all
the rest: what it receives, in windows of 16 bytes; frames when they change; and, once it has seen
a clock frame, every byte that is in none. `rxTurn` is one turn of its `loop`. The line with the counts, once a
second, is left out.

An index out of range is a failure. `Instant`s are microseconds; a byte comes with the time it is
handled at, since the receiver may wait for `LAST_FRAME` before the next one.
-/

namespace ScoreboardCtrl.Probe

open Lib (Rust)
open Serial (Bytes)

abbrev rxLine : ℕ := 16

/-- The statics the receiver writes; the counters are `u32`. -/
structure RxStats where
  pkts : UInt32
  errs : UInt32
  stray : UInt32
  lastRxMs : UInt32
  lastFrame : Option (Vector UInt8 packetLen)
  deriving DecidableEq, Repr

structure Rx where
  line : Vector UInt8 rxLine
  lineN : ℕ
  packet : Vector UInt8 packetLen
  pktN : ℕ
  lastLogged : Vector UInt8 packetLen
  haveLogged : Bool
  lastRaw : Bytes
  lastRawN : ℕ
  lastRawAt : ℕ
  strayBuf : Vector UInt8 rxLine
  strayN : ℕ
  lastPktAt : ℕ
  stats : RxStats
  deriving DecidableEq, Repr

/-- A line of the log. -/
inductive RxLog where
  /-- `UART rx` -/
  | raw (data : Bytes)
  /-- `UART stray` -/
  | stray (data : Bytes)
  /-- `UART frame .. -> min:sec` -/
  | frame (packet : Bytes) (min sec : UInt8)
  /-- `UART nonclock` -/
  | nonclock (packet : Bytes)
  /-- `UART incomplete` -/
  | incomplete (data : Bytes)
  /-- `UART rx err` -/
  | err
  deriving DecidableEq, Repr

namespace Rx

/-- The state before the first turn, at `now`. -/
def init (now : ℕ) : Rx where
  line := .replicate _ 0
  lineN := 0
  packet := .replicate _ 0
  pktN := 0
  lastLogged := .replicate _ 0
  haveLogged := false
  lastRaw := List.replicate rxLine 0
  lastRawN := 0
  lastRawAt := 0
  strayBuf := .replicate _ 0
  strayN := 0
  lastPktAt := now
  stats := ⟨0, 0, 0, 0, none⟩

/-- `emit_rx_hex` -/
def emitRxHex (now : ℕ) (data : Bytes) (s : Rx) : Option (Rx × List RxLog) :=
  if data.length ≤ s.lastRaw.length then
    let same := decide (s.lastRawN = data.length) && s.lastRaw.take data.length == data
    if same && decide (elapsedMs s.lastRawAt now < 2000) then some (s, [])
    else
      some ({ s with
        lastRaw := Rust.splice s.lastRaw 0 data
        lastRawN := data.length
        lastRawAt := now }, [.raw data])
  else none

/-- `take_stray` -/
def takeStray (s : Rx) : Rx × List RxLog :=
  if s.strayN = 0 then (s, [])
  else
    let stats := { s.stats with stray := s.stats.stray + UInt32.ofNat s.strayN }
    ({ s with strayN := 0, stats := stats }, [.stray (s.strayBuf.toList.take s.strayN)])

/-- The window of raw bytes. -/
def pushLine (now : ℕ) (byte : UInt8) (s : Rx) : Option (Rx × List RxLog) := do
  let (s, logs) ← if s.lineN = rxLine then do
      let (s, logs) ← s.emitRxHex now s.line.toList
      some ({ s with lineN := 0 }, logs)
    else some (s, [])
  let line ← setAt s.line s.lineN byte
  some ({ s with line := line, lineN := s.lineN + 1 }, logs)

/-- A byte between frames, after a clock frame. -/
def pushStray (byte : UInt8) (s : Rx) : Option (Rx × List RxLog) := do
  let (s, logs) := if s.strayN = rxLine then s.takeStray else (s, [])
  let strayBuf ← setAt s.strayBuf s.strayN byte
  some ({ s with strayBuf := strayBuf, strayN := s.strayN + 1 }, logs)

/-- Six bytes are complete. -/
def takePacket (packet : Vector UInt8 packetLen) (s : Rx) : Rx × List RxLog :=
  match parseClockPacket packet with
  | some (min, sec) =>
    let stats := { s.stats with pkts := s.stats.pkts + 1, lastFrame := some packet }
    if !s.haveLogged || packet != s.lastLogged then
      ({ s with stats := stats, lastLogged := packet, haveLogged := true },
        [.frame packet.toList min sec])
    else ({ s with stats := stats }, [])
  | none =>
    ({ s with stats := { s.stats with stray := s.stats.stray + UInt32.ofNat packetLen } },
      [.nonclock packet.toList])

/-- The frame being gathered. -/
def pushPacket (now : ℕ) (byte : UInt8) (s : Rx) : Option (Rx × List RxLog) :=
  if s.pktN = 0 then
    if byte ≠ packetSof then
      if s.haveLogged then s.pushStray byte else some (s, [])
    else do
      let packet ← setAt s.packet 0 byte
      some ({ s with packet := packet, pktN := 1, lastPktAt := now }, [])
  else do
    let packet ← setAt s.packet s.pktN byte
    let s := { s with packet := packet, pktN := s.pktN + 1, lastPktAt := now }
    if s.pktN < packetLen then some (s, [])
    else some (takePacket packet { s with pktN := 0 })

/-- The body of `for &byte in &dma_tmp[..n]`. -/
def rxByte (now : ℕ) (byte : UInt8) (s : Rx) : Option (Rx × List RxLog) := do
  let (s, logs) ← s.pushLine now byte
  let (s, logs') ← s.pushPacket now byte
  some (s, logs ++ logs')

/-- What is left of a window. -/
def flushLine (now : ℕ) (s : Rx) : Option (Rx × List RxLog) :=
  if s.lineN > 0 then do
    let (s, logs) ← s.emitRxHex now (s.line.toList.take s.lineN)
    some ({ s with lineN := 0 }, logs)
  else some (s, [])

/-- A frame that stalls for 250 ms is dropped. -/
def dropStalled (now : ℕ) (s : Rx) : Rx × List RxLog :=
  if s.pktN > 0 ∧ elapsedMs s.lastPktAt now ≥ 250 then
    let stats := { s.stats with stray := s.stats.stray + UInt32.ofNat s.pktN }
    ({ s with stats := stats, pktN := 0 }, [.incomplete (s.packet.toList.take s.pktN)])
  else (s, [])

end Rx

/-- How `select(rx.read(&mut dma_tmp), Timer::after_millis(50))` comes back: with bytes, each with
the time it is handled at, with an error, or after 50 ms without any. -/
inductive RxTurn where
  | read (now : ℕ) (bytes : List (ℕ × UInt8))
  | err (now : ℕ)
  | timeout (now : ℕ)
  deriving DecidableEq, Repr

def rxBytes : Lib.Mealy Rx (ℕ × UInt8) RxLog := ⟨fun b => Rx.rxByte b.1 b.2⟩

/-- One turn of the `loop`. -/
def rxTurn : RxTurn → Rx → Option (Rx × List RxLog)
  | .read now bytes, s =>
    if bytes = [] then some (s, [])
    else rxBytes.run bytes { s with stats := { s.stats with lastRxMs := UInt32.ofNat (now / 1000) } }
  | .err now, s => do
    let (s, logs) ← s.flushLine now
    let stats := { s.stats with errs := s.stats.errs + 1 }
    some ({ s with stats := stats, pktN := 0 }, logs ++ [.err])
  | .timeout now, s => do
    let (s, logs) := s.dropStalled now
    let (s, logs') := s.takeStray
    let (s, logs'') ← s.flushLine now
    some (s, logs ++ logs' ++ logs'')

def rxTask : Lib.Mealy Rx RxTurn RxLog := ⟨rxTurn⟩

end ScoreboardCtrl.Probe
