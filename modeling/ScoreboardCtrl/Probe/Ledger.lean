import ScoreboardCtrl.Probe.Receive
import Mathlib.Data.List.Destutter

/-!
# Every byte the probe receives is accounted for

The bytes received are cut into segments, each frame from its start byte on (`segmentsOf`): clock frames,
frames that show no time, bytes between frames before the first clock frame (`early`) and after it
(`stray`), and frames that stall or break off at an error. `Ledger` says how they show in the
counters, in `LAST_FRAME` and in the log; `rxTask_ledger` that they do after every run.
-/

namespace ScoreboardCtrl.Probe

open Lib (Rust)
open Serial (Bytes)

/-! ### Segments -/

inductive Kind where
  | clock
  | nonclock
  | stray
  | early
  | stalled
  | broken
  deriving DecidableEq, Repr

structure Segment where
  kind : Kind
  bytes : Bytes
  deriving DecidableEq, Repr

/-- The bytes are of the kind. -/
def Segment.Ok (x : Segment) : Prop :=
  match x.kind with
  | .clock => (decodeBytes x.bytes).isSome = true
  | .nonclock => x.bytes.length = packetLen ∧ decodeBytes x.bytes = none
  | .stray | .early => ∃ b, b ≠ packetSof ∧ x.bytes = [b]
  | .stalled | .broken => x.bytes.head? = some packetSof ∧ x.bytes.length < packetLen

/-- Where a stream is cut: the bytes since the start byte of a frame, when the last of them came, and
whether a clock frame has come. -/
structure Cutter where
  held : Bytes
  lastAt : ℕ
  locked : Bool
  deriving DecidableEq, Repr

/-- A frame takes six bytes from the start byte on; any other byte is a segment of its own. -/
def cutByte (b : ℕ × UInt8) (c : Cutter) : Cutter × List Segment :=
  if c.held = [] ∧ b.2 ≠ packetSof then (c, [⟨if c.locked then .stray else .early, [b.2]⟩])
  else if c.held.length + 1 < packetLen then ({ c with held := c.held ++ [b.2], lastAt := b.1 }, [])
  else
    let isClock := (decodeBytes (c.held ++ [b.2])).isSome
    (⟨[], b.1, c.locked || isClock⟩, [⟨if isClock then .clock else .nonclock, c.held ++ [b.2]⟩])

/-- An error breaks a frame off, and so does a time-out 250 ms behind its last byte. -/
def cutTurn : RxTurn → Cutter → Cutter × List Segment
  | .read _ bytes, c => Lib.Mealy.total cutByte bytes c
  | .err _, c => ({ c with held := [] }, if c.held = [] then [] else [⟨.broken, c.held⟩])
  | .timeout now, c =>
    if c.held ≠ [] ∧ elapsedMs c.lastAt now ≥ 250 then ({ c with held := [] }, [⟨.stalled, c.held⟩])
    else (c, [])

/-- The segments of what a receiver that starts at `now` reads. -/
def segmentsOf (now : ℕ) (turns : List RxTurn) : List Segment :=
  (Lib.Mealy.total cutTurn turns ⟨[], now, false⟩).2

theorem cutByte_skip {b : ℕ × UInt8} {c : Cutter} (hheld : c.held = []) (hb : b.2 ≠ packetSof) :
    cutByte b c = (c, [⟨if c.locked then .stray else .early, [b.2]⟩]) := if_pos ⟨hheld, hb⟩

theorem cutByte_more {b : ℕ × UInt8} {c : Cutter} (h : c.held = [] → b.2 = packetSof)
    (hmore : c.held.length + 1 < packetLen) :
    cutByte b c = ({ c with held := c.held ++ [b.2], lastAt := b.1 }, []) := by
  rw [cutByte, if_neg fun hskip => hskip.2 (h hskip.1), if_pos hmore]

theorem cutByte_full {b : ℕ × UInt8} {c : Cutter} (h : c.held.length + 1 = packetLen) :
    cutByte b c = (⟨[], b.1, c.locked || (decodeBytes (c.held ++ [b.2])).isSome⟩,
      [⟨if (decodeBytes (c.held ++ [b.2])).isSome then .clock else .nonclock, c.held ++ [b.2]⟩]) := by
  have hne : c.held ≠ [] := by
    intro hnil
    rw [hnil] at h
    cases h
  rw [cutByte, if_neg fun hskip => hne hskip.1, if_neg (by omega)]

/-- The segments of a kind. -/
def ofKind (k : Kind) (xs : List Segment) : List Bytes :=
  (xs.filter fun x => x.kind == k).map Segment.bytes

@[simp] theorem ofKind_append (k : Kind) (xs ys : List Segment) :
    ofKind k (xs ++ ys) = ofKind k xs ++ ofKind k ys := by
  simp [ofKind]

@[simp] theorem ofKind_single (k k' : Kind) (bytes : Bytes) :
    ofKind k [⟨k', bytes⟩] = if k' = k then [bytes] else [] := by
  by_cases h : k' = k <;> simp [ofKind, h]

/-- The times of the clock frames. -/
def timesOf (xs : List Segment) : List (UInt8 × UInt8) := (ofKind .clock xs).filterMap decodeBytes

@[simp] theorem timesOf_append (xs ys : List Segment) :
    timesOf (xs ++ ys) = timesOf xs ++ timesOf ys := by
  simp [timesOf]

theorem timesOf_other {k : Kind} (hk : k ≠ .clock) (bytes : Bytes) : timesOf [⟨k, bytes⟩] = [] := by
  rw [timesOf, ofKind_single, if_neg hk]
  rfl

theorem timesOf_full (frame : Bytes) :
    timesOf [⟨if (decodeBytes frame).isSome then .clock else .nonclock, frame⟩] =
      (decodeBytes frame).toList := by
  cases h : decodeBytes frame with
  | none => exact timesOf_other (by decide) frame
  | some v => simp [timesOf, h]

/-- The firmware holds the same bytes, and sets its clock by the clock frames. -/
theorem heldStep_cut (b : ℕ × UInt8) (c : Cutter) :
    heldStep b.2 c.held = ((cutByte b c).1.held, timesOf (cutByte b c).2) := by
  unfold heldStep cutByte
  split
  · rename_i hskip
    cases c.locked with
    | true => exact Prod.ext hskip.1.symm (timesOf_other (by decide) _).symm
    | false => exact Prod.ext hskip.1.symm (timesOf_other (by decide) _).symm
  · split
    · rfl
    · exact Prod.ext rfl (timesOf_full _).symm

/-- How many bytes `RX_STRAY` counts. -/
def unexplained (xs : List Segment) : ℕ :=
  packetLen * (ofKind .nonclock xs).length + (ofKind .stray xs).length +
    (ofKind .stalled xs).flatten.length

/-! ### The log -/

def RxLog.segment : RxLog → Option (Kind × Bytes)
  | .frame packet _ _ => some (.clock, packet)
  | .stray data => some (.stray, data)
  | .nonclock packet => some (.nonclock, packet)
  | .incomplete data => some (.stalled, data)
  | .raw _ | .err => none

/-- What the log says of the segments of a kind. -/
def logOf (k : Kind) (logs : List RxLog) : List Bytes :=
  ((logs.filterMap RxLog.segment).filter fun x => x.1 == k).map (·.2)

@[simp] theorem logOf_append (k : Kind) (xs ys : List RxLog) :
    logOf k (xs ++ ys) = logOf k xs ++ logOf k ys := by
  simp [logOf]

theorem logOf_single (k : Kind) (l : RxLog) : logOf k [l] =
    match l.segment with
    | some x => if x.1 = k then [x.2] else []
    | none => [] := by
  unfold logOf
  cases h : l.segment with
  | none => simp [h]
  | some x => by_cases hk : x.1 = k <;> simp [h, hk]

/-! ### The ledger -/

/-- The bytes of the frame being gathered. -/
def Rx.held (s : Rx) : Bytes := s.packet.toList.take s.pktN

/-- The part of the state that decides where the stream is cut. -/
def Rx.cutter (s : Rx) : Cutter := ⟨s.held, s.lastPktAt, s.haveLogged⟩

/-- All indices are in range. -/
structure Rx.InRange (s : Rx) : Prop where
  lineN : s.lineN ≤ rxLine
  pktN : s.pktN < packetLen
  strayN : s.strayN ≤ rxLine
  lastRaw : s.lastRaw.length = rxLine

/-- How clock frames show. -/
structure Clocks (frames : List Bytes) (s : Rx) (logs : List RxLog) : Prop where
  locked : s.haveLogged = !frames.isEmpty
  lastLogged : s.haveLogged = true → frames.getLast? = some s.lastLogged.toList
  lastFrame : s.stats.lastFrame.map (·.toList) = frames.getLast?
  pkts : s.stats.pkts = UInt32.ofNat frames.length
  /-- a frame is logged when it is not the one before -/
  log : logOf .clock logs = frames.destutter (· ≠ ·)

/-- How the other bytes show, those before the first clock frame and those of frames broken off by
an error apart. -/
structure Others (xs : List Segment) (s : Rx) (logs : List RxLog) : Prop where
  count : s.stats.stray + UInt32.ofNat s.strayN = UInt32.ofNat (unexplained xs)
  stray : (logOf .stray logs).flatten ++ s.strayBuf.toList.take s.strayN = (ofKind .stray xs).flatten
  nonclock : logOf .nonclock logs = ofKind .nonclock xs
  stalled : logOf .stalled logs = ofKind .stalled xs

/-- Which bytes between frames are logged: those behind a clock frame. -/
def Sorted (xs : List Segment) : Prop :=
  ∀ before x after, xs = before ++ x :: after →
    (x.kind = .early → ofKind .clock before = []) ∧ (x.kind = .stray → ofKind .clock before ≠ [])

structure Ledger (received : Bytes) (errs : ℕ) (s : Rx) (logs : List RxLog) (xs : List Segment) :
    Prop where
  inRange : s.InRange
  bytes : xs.flatMap Segment.bytes ++ s.held = received
  ok : ∀ x ∈ xs, x.Ok
  start : s.held ≠ [] → s.held.head? = some packetSof
  sorted : Sorted xs
  errs : s.stats.errs = UInt32.ofNat errs
  clocks : Clocks (ofKind .clock xs) s logs
  others : Others xs s logs

/-! ### General facts -/

theorem destutter_concat {α : Type} [DecidableEq α] (l : List α) (b : α) :
    (l ++ [b]).destutter (· ≠ ·) =
      if l.getLast? = some b then l.destutter (· ≠ ·) else l.destutter (· ≠ ·) ++ [b] := by
  have hfrom : ∀ (l : List α) (a : α), (l ++ [b]).destutter' (· ≠ ·) a =
      if (a :: l).getLast? = some b then l.destutter' (· ≠ ·) a
      else l.destutter' (· ≠ ·) a ++ [b] := by
    intro l
    induction l with
    | nil =>
      intro a
      by_cases h : a = b <;> simp [List.destutter', h]
    | cons c l ih =>
      intro a
      by_cases h : a = c
      · subst h
        rw [List.cons_append, List.destutter'_cons_neg _ (by simp), List.destutter'_cons_neg _ (by simp),
          ih, List.getLast?_cons_cons]
      · rw [List.cons_append, List.destutter'_cons_pos _ h, List.destutter'_cons_pos _ h, ih,
          List.getLast?_cons_cons]
        split <;> rfl
  cases l with
  | nil => rfl
  | cons a l => exact hfrom l a

theorem Sorted.concat {xs : List Segment} {x : Segment} (h : Sorted xs)
    (hearly : x.kind = .early → ofKind .clock xs = [])
    (hstray : x.kind = .stray → ofKind .clock xs ≠ []) : Sorted (xs ++ [x]) := by
  intro before y after heq
  rcases List.eq_nil_or_concat after with rfl | ⟨after, z, rfl⟩
  · obtain ⟨rfl, hy⟩ := List.append_inj' heq rfl
    cases hy
    exact ⟨hearly, hstray⟩
  · have hsplit : xs ++ [x] = (before ++ y :: after) ++ [z] := by simpa using heq
    exact h before y after (List.append_inj' hsplit rfl).1

/-! ### The window of raw bytes -/

/-- Lines of the log that say nothing of a segment. -/
def Quiet (logs : List RxLog) : Prop := ∀ l ∈ logs, l.segment = none

theorem logOf_quiet {logs : List RxLog} (h : Quiet logs) (k : Kind) : logOf k logs = [] := by
  have hnil : logs.filterMap RxLog.segment = [] := List.filterMap_eq_nil_iff.2 h
  rw [logOf, hnil]
  rfl

theorem Clocks.quiet {frames : List Bytes} {s : Rx} {logs more : List RxLog}
    (h : Clocks frames s logs) (hmore : Quiet more) : Clocks frames s (logs ++ more) :=
  { h with log := by rw [logOf_append, logOf_quiet hmore, List.append_nil, h.log] }

theorem Others.quiet {xs : List Segment} {s : Rx} {logs more : List RxLog} (h : Others xs s logs)
    (hmore : Quiet more) : Others xs s (logs ++ more) where
  count := h.count
  stray := by rw [logOf_append, logOf_quiet hmore, List.append_nil, h.stray]
  nonclock := by rw [logOf_append, logOf_quiet hmore, List.append_nil, h.nonclock]
  stalled := by rw [logOf_append, logOf_quiet hmore, List.append_nil, h.stalled]

theorem Ledger.quiet {received : Bytes} {errs : ℕ} {s : Rx} {logs more : List RxLog}
    {xs : List Segment} (h : Ledger received errs s logs xs) (hmore : Quiet more) :
    Ledger received errs s (logs ++ more) xs :=
  { h with clocks := h.clocks.quiet hmore, others := h.others.quiet hmore }

/-- The two differ in the window of raw bytes only. -/
def SameButLine (s s' : Rx) : Prop :=
  s' = { s with
    line := s'.line
    lineN := s'.lineN
    lastRaw := s'.lastRaw
    lastRawN := s'.lastRawN
    lastRawAt := s'.lastRawAt }

theorem Ledger.line {received : Bytes} {errs : ℕ} {s s' : Rx} {logs : List RxLog} {xs : List Segment}
    (h : Ledger received errs s logs xs) (hsame : SameButLine s s') (hline : s'.lineN ≤ rxLine)
    (hraw : s'.lastRaw.length = rxLine) : Ledger received errs s' logs xs := by
  rw [hsame]
  exact ⟨⟨hline, h.inRange.pktN, h.inRange.strayN, hraw⟩, h.bytes, h.ok, h.start, h.sorted, h.errs,
    ⟨h.clocks.locked, h.clocks.lastLogged, h.clocks.lastFrame, h.clocks.pkts, h.clocks.log⟩,
    ⟨h.others.count, h.others.stray, h.others.nonclock, h.others.stalled⟩⟩

theorem emitRxHex_spec {s : Rx} (hraw : s.lastRaw.length = rxLine) (now : ℕ) {data : Bytes}
    (hdata : data.length ≤ rxLine) : ∃ s' logs, s.emitRxHex now data = some (s', logs) ∧
      SameButLine s s' ∧ s'.lineN = s.lineN ∧ s'.line = s.line ∧ s'.lastRaw.length = rxLine ∧
      Quiet logs := by
  unfold Rx.emitRxHex
  rw [if_pos (by omega)]
  dsimp only
  split
  · exact ⟨s, [], rfl, rfl, rfl, rfl, hraw, by simp [Quiet]⟩
  · refine ⟨_, _, rfl, rfl, rfl, rfl, ?_, by simp [Quiet, RxLog.segment]⟩
    rw [Rust.length_splice (by omega), hraw]

theorem pushLine_spec {s : Rx} (h : s.InRange) (now : ℕ) (byte : UInt8) :
    ∃ s' logs, s.pushLine now byte = some (s', logs) ∧ SameButLine s s' ∧ s'.lineN ≤ rxLine ∧
      s'.lastRaw.length = rxLine ∧ Quiet logs := by
  have hline := h.lineN
  unfold Rx.pushLine
  by_cases hfull : s.lineN = rxLine
  · obtain ⟨s₁, logs, hemit, hsame, -, -, hraw, hquiet⟩ :=
      @emitRxHex_spec s h.lastRaw now s.line.toList (by simp)
    rw [if_pos hfull, hemit]
    refine ⟨_, logs, rfl, ?_, Nat.succ_le_succ (Nat.zero_le _), hraw, hquiet⟩
    rw [SameButLine, hsame]
  · have hroom : s.lineN < rxLine := by omega
    rw [if_neg hfull]
    exact ⟨{ s with line := s.line.set s.lineN byte hroom, lineN := s.lineN + 1 }, [],
      by simp [setAt, hroom], rfl, hroom, h.lastRaw, by simp [Quiet]⟩

theorem flushLine_spec {s : Rx} (h : s.InRange) (now : ℕ) :
    ∃ s' logs, s.flushLine now = some (s', logs) ∧ SameButLine s s' ∧ s'.lineN ≤ rxLine ∧
      s'.lastRaw.length = rxLine ∧ Quiet logs := by
  unfold Rx.flushLine
  split
  · obtain ⟨s₁, logs, hemit, hsame, -, -, hraw, hquiet⟩ :=
      @emitRxHex_spec s h.lastRaw now (s.line.toList.take s.lineN)
        ((List.length_take_le _ _).trans h.lineN)
    rw [hemit]
    refine ⟨_, logs, rfl, ?_, Nat.zero_le _, hraw, hquiet⟩
    rw [SameButLine, hsame]
  · exact ⟨s, [], rfl, rfl, h.lineN, h.lastRaw, by simp [Quiet]⟩

/-! ### Bytes between frames -/

section Steps

variable {received : Bytes} {errs : ℕ} {s : Rx} {logs : List RxLog} {xs : List Segment}

theorem Ledger.takeStray (h : Ledger received errs s logs xs) :
    Ledger received errs s.takeStray.1 (logs ++ s.takeStray.2) xs ∧ s.takeStray.1.strayN = 0 := by
  unfold Rx.takeStray
  by_cases h0 : s.strayN = 0
  · rw [if_pos h0, List.append_nil]
    exact ⟨h, h0⟩
  · rw [if_neg h0]
    refine ⟨⟨⟨h.inRange.lineN, h.inRange.pktN, Nat.zero_le _, h.inRange.lastRaw⟩, h.bytes, h.ok,
      h.start, h.sorted, h.errs, ?_, ?_⟩, rfl⟩
    · refine ⟨h.clocks.locked, h.clocks.lastLogged, h.clocks.lastFrame, h.clocks.pkts, ?_⟩
      rw [logOf_append, logOf_single, h.clocks.log]
      simp [RxLog.segment]
    · have hstray := h.others.stray
      refine ⟨?_, ?_, ?_, ?_⟩
      · simpa using h.others.count
      · simpa [logOf_single, RxLog.segment] using hstray
      · simpa [logOf_single, RxLog.segment] using h.others.nonclock
      · simpa [logOf_single, RxLog.segment] using h.others.stalled

/-- A byte that starts no frame, before the first clock frame. -/
theorem Ledger.early (h : Ledger received errs s logs xs) (hidle : s.pktN = 0)
    (hlocked : s.haveLogged = false) {byte : UInt8} (hbyte : byte ≠ packetSof) :
    Ledger (received ++ [byte]) errs s logs (xs ++ [⟨.early, [byte]⟩]) := by
  have hheld : s.held = [] := by simp [Rx.held, hidle]
  have hnone : ofKind .clock xs = [] := by
    have := h.clocks.locked
    rw [hlocked] at this
    simpa using this.symm
  have hbytes := h.bytes
  rw [hheld, List.append_nil] at hbytes
  refine ⟨h.inRange, ?_, ?_, h.start, ?_, h.errs, ?_, ?_⟩
  · rw [hheld, List.flatMap_append, hbytes]
    simp
  · intro x hx
    rcases List.mem_append.1 hx with hx | hx
    · exact h.ok x hx
    · rw [List.mem_singleton.1 hx]
      exact ⟨byte, hbyte, rfl⟩
  · exact h.sorted.concat (fun _ => hnone) fun hk => by cases hk
  · simpa using h.clocks
  · refine ⟨?_, ?_, ?_, ?_⟩
    · simpa [unexplained] using h.others.count
    · simpa using h.others.stray
    · simpa using h.others.nonclock
    · simpa using h.others.stalled

theorem takeStray_cutter (s : Rx) : s.takeStray.1.cutter = s.cutter := by
  unfold Rx.takeStray
  split <;> rfl

theorem ofNat_succ (n : ℕ) : UInt32.ofNat (n + 1) = UInt32.ofNat n + 1 := UInt32.ofNat_add n 1

/-- A byte that starts no frame, behind a clock frame. -/
theorem Ledger.pushStray (h : Ledger received errs s logs xs) (hidle : s.pktN = 0)
    (hlocked : s.haveLogged = true) {byte : UInt8} (hbyte : byte ≠ packetSof) :
    ∃ s' more, s.pushStray byte = some (s', more) ∧ s'.cutter = s.cutter ∧
      Ledger (received ++ [byte]) errs s' (logs ++ more) (xs ++ [⟨.stray, [byte]⟩]) := by
  obtain ⟨s₁, more, hmake, h₁, hroom, hsame⟩ : ∃ s₁ more,
      (if s.strayN = rxLine then s.takeStray else (s, [])) = (s₁, more) ∧
        Ledger received errs s₁ (logs ++ more) xs ∧ s₁.strayN < rxLine ∧ s₁.cutter = s.cutter := by
    by_cases hfull : s.strayN = rxLine
    · obtain ⟨htake, h0⟩ := h.takeStray
      exact ⟨s.takeStray.1, s.takeStray.2, if_pos hfull, htake, by rw [h0]; decide, takeStray_cutter s⟩
    · have hle := h.inRange.strayN
      exact ⟨s, [], if_neg hfull, by rwa [List.append_nil], by omega, rfl⟩
  have hclock : ofKind .clock xs ≠ [] := by
    have hlocked₁ := h₁.clocks.locked
    rw [show s₁.haveLogged = true from (congrArg Cutter.locked hsame).trans hlocked] at hlocked₁
    simpa using hlocked₁.symm
  have hheld : s₁.held = [] := by
    rw [show s₁.held = s.held from congrArg Cutter.held hsame, Rx.held, hidle, List.take_zero]
  have hbytes := h₁.bytes
  rw [hheld, List.append_nil] at hbytes
  refine ⟨{ s₁ with strayBuf := s₁.strayBuf.set s₁.strayN byte hroom, strayN := s₁.strayN + 1 }, more,
    ?_, hsame, ⟨⟨h₁.inRange.lineN, h₁.inRange.pktN, hroom, h₁.inRange.lastRaw⟩, ?_, ?_, h₁.start, ?_,
      h₁.errs, ?_, ?_⟩⟩
  · rw [Rx.pushStray, hmake]
    simp [setAt, hroom]
  · show _ ++ s₁.held = _
    rw [hheld, List.flatMap_append, hbytes]
    simp
  · intro x hx
    rcases List.mem_append.1 hx with hx | hx
    · exact h₁.ok x hx
    · rw [List.mem_singleton.1 hx]
      exact ⟨byte, hbyte, rfl⟩
  · exact h₁.sorted.concat (fun hk => by cases hk) fun _ => hclock
  · rw [ofKind_append, ofKind_single, if_neg (by decide), List.append_nil]
    exact ⟨h₁.clocks.locked, h₁.clocks.lastLogged, h₁.clocks.lastFrame, h₁.clocks.pkts, h₁.clocks.log⟩
  · refine ⟨?_, ?_, ?_, ?_⟩
    · have hone : unexplained (xs ++ [⟨.stray, [byte]⟩]) = unexplained xs + 1 := by
        simp [unexplained]
        omega
      rw [hone, ofNat_succ, ofNat_succ, ← UInt32.add_assoc, h₁.others.count]
    · have hstray := h₁.others.stray
      show _ ++ (s₁.strayBuf.set s₁.strayN byte hroom).toList.take (s₁.strayN + 1) = _
      rw [take_set_succ, ← List.append_assoc, hstray]
      simp
    · simpa using h₁.others.nonclock
    · simpa using h₁.others.stalled

/-! ### Frames -/

/-- A clock frame is logged if it is not the one before. -/
theorem Clocks.concat {frames : List Bytes} (h : Clocks frames s logs)
    {packet : Vector UInt8 packetLen} {min sec : UInt8} (hparse : parseClockPacket packet = some (min, sec)) :
    Clocks (frames ++ [packet.toList]) (s.takePacket packet).1 (logs ++ (s.takePacket packet).2) := by
  have hlast : frames.getLast? = some packet.toList ↔ s.haveLogged = true ∧ packet = s.lastLogged := by
    constructor
    · intro heq
      have hlocked : s.haveLogged = true := by
        rw [h.locked]
        cases frames with
        | nil => cases heq
        | cons x frames => rfl
      have hlogged := (h.lastLogged hlocked).symm.trans heq
      exact ⟨hlocked, (Vector.toList_inj.1 (Option.some.inj hlogged)).symm⟩
    · rintro ⟨hlocked, rfl⟩
      exact h.lastLogged hlocked
  have hpkts : s.stats.pkts + 1 = UInt32.ofNat (frames ++ [packet.toList]).length := by
    rw [List.length_append, List.length_singleton, ofNat_succ, h.pkts]
  have hlog := h.log
  unfold Rx.takePacket
  rw [hparse]
  dsimp only
  by_cases hnew : (!s.haveLogged || packet != s.lastLogged) = true
  · have hchange : ¬ frames.getLast? = some packet.toList := by
      intro heq
      obtain ⟨hlocked, hsame⟩ := hlast.1 heq
      simp [hlocked, hsame] at hnew
    rw [if_pos hnew]
    refine ⟨by simp, fun _ => by simp, by simp, hpkts, ?_⟩
    rw [destutter_concat, if_neg hchange, logOf_append, hlog, logOf_single]
    rfl
  · have hrepeat : s.haveLogged = true ∧ packet = s.lastLogged := by
      simpa using hnew
    rw [if_neg hnew, List.append_nil]
    refine ⟨by simp [hrepeat.1], fun _ => by simp [hrepeat.2], by simp, hpkts, ?_⟩
    rw [destutter_concat, if_pos (hlast.2 hrepeat), hlog]

theorem takePacket_same (packet : Vector UInt8 packetLen) (s : Rx) :
    let s' := (s.takePacket packet).1
    s'.line = s.line ∧ s'.lineN = s.lineN ∧ s'.packet = s.packet ∧ s'.pktN = s.pktN ∧
      s'.lastRaw = s.lastRaw ∧ s'.strayBuf = s.strayBuf ∧ s'.strayN = s.strayN ∧
      s'.stats.errs = s.stats.errs := by
  unfold Rx.takePacket
  split
  · dsimp only
    split <;> exact ⟨rfl, rfl, rfl, rfl, rfl, rfl, rfl, rfl⟩
  · exact ⟨rfl, rfl, rfl, rfl, rfl, rfl, rfl, rfl⟩

theorem takePacket_cutter (packet : Vector UInt8 packetLen) {s : Rx} (hidle : s.pktN = 0) :
    (s.takePacket packet).1.cutter =
      ⟨[], s.lastPktAt, s.haveLogged || (decodeBytes packet.toList).isSome⟩ := by
  have hheld {s : Rx} (hidle : s.pktN = 0) : s.held = [] := by simp [Rx.held, hidle]
  rw [decodeBytes_toList]
  unfold Rx.takePacket
  cases parseClockPacket packet with
  | none =>
    rw [Option.isSome_none, Bool.or_false]
    exact congrArg (Cutter.mk · _ _) (hheld hidle)
  | some v =>
    rw [Option.isSome_some, Bool.or_true]
    dsimp only
    by_cases hnew : (!s.haveLogged || packet != s.lastLogged) = true
    · rw [if_pos hnew]
      exact congrArg (Cutter.mk · _ _) (hheld hidle)
    · have hlocked : s.haveLogged = true := by
        simp only [Bool.or_eq_true, not_or] at hnew
        simpa using hnew.1
      rw [if_neg hnew]
      exact congrArg₂ (Cutter.mk · _ ·) (hheld hidle) hlocked

theorem Ledger.takePacket (h : Ledger received errs s logs xs) {byte : UInt8}
    {packet : Vector UInt8 packetLen} (hpacket : packet.toList = s.held ++ [byte]) (now : ℕ) :
    let r := Rx.takePacket packet { s with packet := packet, pktN := 0, lastPktAt := now }
    Ledger (received ++ [byte]) errs r.1 (logs ++ r.2)
      (xs ++ [⟨if (decodeBytes packet.toList).isSome then .clock else .nonclock, packet.toList⟩]) := by
  intro r
  obtain ⟨-, hlineN, hpkt, hpktN, hraw, hbuf, hstrayN, herrs⟩ :=
    takePacket_same packet { s with packet := packet, pktN := 0, lastPktAt := now }
  have hheld : r.1.held = [] := by
    rw [Rx.held, hpktN]
    rfl
  have hrange : r.1.InRange :=
    { lineN := hlineN.trans_le h.inRange.lineN
      pktN := hpktN.trans_lt (Nat.zero_lt_succ 5)
      strayN := hstrayN.trans_le h.inRange.strayN
      lastRaw := (congrArg List.length hraw).trans h.inRange.lastRaw }
  have hbytes (k : Kind) :
      (xs ++ [Segment.mk k packet.toList]).flatMap Segment.bytes ++ r.1.held = received ++ [byte] := by
    rw [hheld, List.append_nil, List.flatMap_append, ← h.bytes, List.append_assoc, ← hpacket]
    simp
  have hok (k : Kind) (hk : Segment.Ok ⟨k, packet.toList⟩) :
      ∀ x ∈ xs ++ [⟨k, packet.toList⟩], x.Ok := by
    intro x hx
    rcases List.mem_append.1 hx with hx | hx
    · exact h.ok x hx
    · rw [List.mem_singleton.1 hx]
      exact hk
  cases hparse : parseClockPacket packet with
  | none =>
    have hr : r = Rx.takePacket packet _ := rfl
    rw [Rx.takePacket, hparse] at hr
    have hnone : decodeBytes packet.toList = none := by rw [decodeBytes_toList, hparse]
    rw [hnone, Option.isSome_none, if_neg Bool.false_ne_true]
    refine ⟨hrange, hbytes _, hok _ ⟨packet.length_toList, hnone⟩,
      fun hne => absurd hheld hne, h.sorted.concat (fun hk => by cases hk) (fun hk => by cases hk),
      herrs.trans h.errs, ?_, ?_⟩
    · rw [ofKind_append, ofKind_single, if_neg (by decide), List.append_nil, hr]
      refine ⟨h.clocks.locked, h.clocks.lastLogged, h.clocks.lastFrame, h.clocks.pkts, ?_⟩
      simpa [logOf_single, RxLog.segment] using h.clocks.log
    · rw [hr]
      refine ⟨?_, ?_, ?_, ?_⟩
      · have hmore : unexplained (xs ++ [⟨.nonclock, packet.toList⟩]) = unexplained xs + packetLen := by
          simp only [unexplained, ofKind_append, ofKind_single]
          simp [Nat.mul_add]
          omega
        rw [hmore, UInt32.ofNat_add, ← h.others.count]
        show s.stats.stray + _ + UInt32.ofNat s.strayN = _
        rw [UInt32.add_assoc, UInt32.add_comm (UInt32.ofNat packetLen), ← UInt32.add_assoc]
      · simpa [logOf_single, RxLog.segment] using h.others.stray
      · simpa [logOf_single, RxLog.segment] using h.others.nonclock
      · simpa [logOf_single, RxLog.segment] using h.others.stalled
  | some v =>
    -- what is counted as stray stays
    have hstats : r.1.stats.stray = s.stats.stray := by
      show (Rx.takePacket packet _).1.stats.stray = _
      rw [Rx.takePacket, hparse]
      dsimp only
      split <;> rfl
    have hothers {k : Kind} (hk : k ≠ .clock) : logOf k r.2 = [] := by
      show logOf k (Rx.takePacket packet _).2 = []
      rw [Rx.takePacket, hparse]
      dsimp only
      split
      · rw [logOf_single]
        exact if_neg fun heq => hk heq.symm
      · rfl
    have hclocks := Clocks.concat (s := { s with packet := packet, pktN := 0, lastPktAt := now })
      ⟨h.clocks.locked, h.clocks.lastLogged, h.clocks.lastFrame, h.clocks.pkts, h.clocks.log⟩ hparse
    have hsome : (decodeBytes packet.toList).isSome = true := by
      rw [decodeBytes_toList, hparse]
      rfl
    rw [hsome, if_pos rfl]
    refine ⟨hrange, hbytes _, hok _ hsome, fun hne => absurd hheld hne,
      h.sorted.concat (fun hk => by cases hk) (fun hk => by cases hk), herrs.trans h.errs, ?_, ?_⟩
    · simpa using hclocks
    · refine ⟨?_, ?_, ?_, ?_⟩
      · rw [hstats, hstrayN]
        simpa [unexplained] using h.others.count
      · rw [logOf_append, hothers (by decide), List.append_nil, hbuf, hstrayN]
        simpa using h.others.stray
      · rw [logOf_append, hothers (by decide)]
        simpa using h.others.nonclock
      · rw [logOf_append, hothers (by decide)]
        simpa using h.others.stalled

/-- A byte of the frame being gathered, that does not complete it. -/
theorem Ledger.gather (h : Ledger received errs s logs xs) {packet : Vector UInt8 packetLen} {n : ℕ}
    {byte : UInt8} (hpacket : packet.toList.take n = s.held ++ [byte]) (hn : n < packetLen)
    (hstart : s.held = [] → byte = packetSof) (now : ℕ) :
    Ledger (received ++ [byte]) errs { s with packet := packet, pktN := n, lastPktAt := now } logs
      xs := by
  refine ⟨⟨h.inRange.lineN, hn, h.inRange.strayN, h.inRange.lastRaw⟩, ?_, h.ok, ?_, h.sorted, h.errs,
    ⟨h.clocks.locked, h.clocks.lastLogged, h.clocks.lastFrame, h.clocks.pkts, h.clocks.log⟩,
    ⟨h.others.count, h.others.stray, h.others.nonclock, h.others.stalled⟩⟩
  · show _ ++ packet.toList.take n = _
    rw [hpacket, ← List.append_assoc, h.bytes]
  · intro _
    show (packet.toList.take n).head? = _
    rw [hpacket]
    cases hheld : s.held with
    | nil => rw [hstart hheld]; rfl
    | cons b held =>
      have := h.start (by rw [hheld]; simp)
      rw [hheld] at this
      exact this

theorem Ledger.length_held (h : Ledger received errs s logs xs) : s.held.length = s.pktN := by
  have hpktN := h.inRange.pktN
  rw [Rx.held, List.length_take, Vector.length_toList]
  omega

/-- **A byte**: the log and the counters account for it as it is cut. -/
theorem Ledger.rxByte (h : Ledger received errs s logs xs) (now : ℕ) (byte : UInt8) :
    ∃ s' more, s.rxByte now byte = some (s', more) ∧
      Ledger (received ++ [byte]) errs s' (logs ++ more) (xs ++ (cutByte (now, byte) s.cutter).2) ∧
      s'.cutter = (cutByte (now, byte) s.cutter).1 := by
  obtain ⟨s₁, more₁, hpush, hsame, hline, hraw, hquiet⟩ := pushLine_spec h.inRange now byte
  have h₁ := (h.line hsame hline hraw).quiet hquiet
  have hcutter : s.cutter = s₁.cutter := by rw [hsame]; rfl
  suffices hpacket : ∃ s' more, s₁.pushPacket now byte = some (s', more) ∧
      Ledger (received ++ [byte]) errs s' (logs ++ more₁ ++ more)
        (xs ++ (cutByte (now, byte) s₁.cutter).2) ∧
      s'.cutter = (cutByte (now, byte) s₁.cutter).1 by
    obtain ⟨s', more, hs', hledger, hcut⟩ := hpacket
    rw [hcutter]
    refine ⟨s', more₁ ++ more, ?_, by rwa [← List.append_assoc], hcut⟩
    rw [Rx.rxByte, hpush]
    simp [hs']
  have hpktN := h₁.inRange.pktN
  have hlen : s₁.cutter.held.length = s₁.pktN := h₁.length_held
  unfold Rx.pushPacket
  by_cases hidle : s₁.pktN = 0
  · rw [if_pos hidle]
    have hnil : s₁.cutter.held = [] := List.length_eq_zero_iff.1 (hlen.trans hidle)
    by_cases hbyte : byte = packetSof
    · -- a frame starts
      rw [if_neg (by simpa using hbyte), cutByte_more (fun _ => hbyte) (by rw [hlen, hidle]; decide)]
      have hstart : (s₁.packet.set 0 byte).toList.take 1 = s₁.held ++ [byte] := by
        rw [take_set_succ, Rx.held, hidle]
      refine ⟨{ s₁ with packet := s₁.packet.set 0 byte, pktN := 1, lastPktAt := now }, [],
        by simp [setAt], by simpa using h₁.gather hstart (by decide) (fun _ => hbyte) now, ?_⟩
      exact congrArg (Cutter.mk · _ _) hstart
    · rw [if_pos hbyte, cutByte_skip hnil hbyte]
      cases hlocked : s₁.haveLogged with
      | true =>
        obtain ⟨s', more, hs', hsame', hledger⟩ := h₁.pushStray hidle hlocked hbyte
        have hkind : s₁.cutter.locked = true := hlocked
        exact ⟨s', more, hs', by rwa [hkind], hsame'⟩
      | false =>
        have hkind : s₁.cutter.locked = false := hlocked
        exact ⟨s₁, [], rfl, by simpa [hkind] using h₁.early hidle hlocked hbyte, rfl⟩
  · have hset : (s₁.packet.set s₁.pktN byte hpktN).toList.take (s₁.pktN + 1) = s₁.held ++ [byte] :=
      take_set_succ _ _ _ _
    have hbusy : s₁.cutter.held ≠ [] := by
      intro hnil
      rw [hnil] at hlen
      exact hidle hlen.symm
    rw [if_neg hidle]
    by_cases hmore : s₁.pktN + 1 < packetLen
    · rw [cutByte_more (fun hnil => absurd hnil hbusy) (by omega)]
      refine ⟨{ s₁ with
        packet := s₁.packet.set s₁.pktN byte
        pktN := s₁.pktN + 1
        lastPktAt := now }, [], by simp [setAt, hpktN, hmore], by
          simpa using h₁.gather hset hmore (fun hnil => absurd hnil hbusy) now, ?_⟩
      exact congrArg (Cutter.mk · _ _) hset
    · have hfull : (s₁.packet.set s₁.pktN byte hpktN).toList = s₁.held ++ [byte] := by
        rw [← hset, List.take_of_length_le (by simp; omega)]
      have hledger := h₁.takePacket hfull now
      rw [cutByte_full (by omega), show s₁.cutter.held ++ [(now, byte).2] = _ from hfull.symm]
      refine ⟨_, _, by simp [setAt, hpktN, hmore], hledger, ?_⟩
      exact takePacket_cutter (s₁.packet.set s₁.pktN byte hpktN) rfl

theorem Ledger.timesOf_eq (h : Ledger received errs s logs xs) :
    (timesOf xs).map some = (ofKind .clock xs).map decodeBytes := by
  have hall : ∀ o ∈ (ofKind .clock xs).map decodeBytes, o.isSome = true := by
    intro o ho
    obtain ⟨frame, hframe, rfl⟩ := List.mem_map.1 ho
    obtain ⟨x, hx, rfl⟩ := List.mem_map.1 hframe
    obtain ⟨hx, hkind⟩ := List.mem_filter.1 hx
    have hok := h.ok x hx
    rwa [Segment.Ok, eq_of_beq hkind] at hok
  rw [timesOf, List.map_filterMap_some_eq_filter_map_isSome, List.filter_eq_self.2 hall]

theorem Ledger.giveUp (h : Ledger received errs s logs xs) (hbusy : s.pktN ≠ 0) {k : Kind}
    (hk : k = .stalled ∨ k = .broken) : Segment.Ok ⟨k, s.held⟩ ∧ Sorted (xs ++ [⟨k, s.held⟩]) ∧
      (xs ++ [Segment.mk k s.held]).flatMap Segment.bytes = received := by
  have hpktN := h.inRange.pktN
  have hlen := h.length_held
  have hne : s.held ≠ [] := fun hnil => hbusy (by rw [← hlen, hnil]; rfl)
  refine ⟨?_, h.sorted.concat (fun heq => ?_) (fun heq => ?_), ?_⟩
  · rcases hk with rfl | rfl
    · exact ⟨h.start hne, by rw [hlen]; exact hpktN⟩
    · exact ⟨h.start hne, by rw [hlen]; exact hpktN⟩
  · rcases hk with rfl | rfl <;> cases heq
  · rcases hk with rfl | rfl <;> cases heq
  · rw [List.flatMap_append, ← h.bytes]
    simp

theorem Ledger.dropStalled (h : Ledger received errs s logs xs) (now : ℕ) :
    Ledger received errs (s.dropStalled now).1 (logs ++ (s.dropStalled now).2)
        (xs ++ (cutTurn (.timeout now) s.cutter).2) ∧
      (s.dropStalled now).1.cutter = (cutTurn (.timeout now) s.cutter).1 := by
  have hlen := h.length_held
  have hbusy : s.pktN > 0 ↔ s.cutter.held ≠ [] := by
    rw [← hlen]
    exact List.length_pos_iff
  unfold Rx.dropStalled
  by_cases hdrop : s.pktN > 0 ∧ elapsedMs s.lastPktAt now ≥ 250
  · have hcut : cutTurn (.timeout now) s.cutter =
        ({ s.cutter with held := [] }, [⟨.stalled, s.held⟩]) := if_pos ⟨hbusy.1 hdrop.1, hdrop.2⟩
    obtain ⟨hok, hsorted, hbytes⟩ := h.giveUp (Nat.ne_of_gt hdrop.1) (k := .stalled) (.inl rfl)
    rw [if_pos hdrop, hcut]
    refine ⟨⟨⟨h.inRange.lineN, Nat.zero_lt_succ 5, h.inRange.strayN,
      h.inRange.lastRaw⟩, ?_, ?_, ?_, hsorted, h.errs, ?_, ?_⟩, rfl⟩
    · rw [hbytes]
      exact List.append_nil _
    · intro x hx
      rcases List.mem_append.1 hx with hx | hx
      · exact h.ok x hx
      · rw [List.mem_singleton.1 hx]
        exact hok
    · exact fun hne => absurd rfl hne
    · rw [ofKind_append, ofKind_single, if_neg (by decide), List.append_nil]
      refine ⟨h.clocks.locked, h.clocks.lastLogged, h.clocks.lastFrame, h.clocks.pkts, ?_⟩
      simpa [logOf_single, RxLog.segment] using h.clocks.log
    · refine ⟨?_, ?_, ?_, ?_⟩
      · have hmore : unexplained (xs ++ [⟨.stalled, s.held⟩]) = unexplained xs + s.pktN := by
          simp only [unexplained, ofKind_append, ofKind_single]
          simp [hlen]
          omega
        rw [hmore, UInt32.ofNat_add, ← h.others.count]
        show s.stats.stray + _ + UInt32.ofNat s.strayN = _
        rw [UInt32.add_assoc, UInt32.add_comm (UInt32.ofNat s.pktN), ← UInt32.add_assoc]
      · simpa [logOf_single, RxLog.segment] using h.others.stray
      · simpa [logOf_single, RxLog.segment] using h.others.nonclock
      · simpa [logOf_single, RxLog.segment, Rx.held] using h.others.stalled
  · have hcut : cutTurn (.timeout now) s.cutter = (s.cutter, []) :=
      if_neg fun hstall => hdrop ⟨hbusy.2 hstall.1, hstall.2⟩
    rw [if_neg hdrop, hcut]
    exact ⟨by simpa using h, rfl⟩

/-- An error breaks off the frame being gathered. -/
theorem Ledger.breakOff (h : Ledger received errs s logs xs) (now : ℕ) : Ledger received (errs + 1)
    { s with stats := { s.stats with errs := s.stats.errs + 1 }, pktN := 0 } logs
      (xs ++ (cutTurn (.err now) s.cutter).2) := by
  have herrs : s.stats.errs + 1 = UInt32.ofNat (errs + 1) := by rw [ofNat_succ, h.errs]
  have hlen := h.length_held
  by_cases hidle : s.pktN = 0
  · have hheld : s.held = [] := List.length_eq_zero_iff.1 (hlen.trans hidle)
    have hcut : (cutTurn (.err now) s.cutter).2 = [] := if_pos hheld
    rw [hcut, List.append_nil]
    refine ⟨⟨h.inRange.lineN, Nat.zero_lt_succ 5, h.inRange.strayN, h.inRange.lastRaw⟩, ?_,
      h.ok, fun hne => absurd rfl hne, h.sorted, herrs, ?_, ?_⟩
    · have hbytes := h.bytes
      rw [hheld] at hbytes
      simpa [Rx.held] using hbytes
    · exact ⟨h.clocks.locked, h.clocks.lastLogged, h.clocks.lastFrame, h.clocks.pkts, h.clocks.log⟩
    · exact ⟨h.others.count, h.others.stray, h.others.nonclock, h.others.stalled⟩
  · have hheld : s.cutter.held ≠ [] := by
      intro hnil
      rw [show s.held = [] from hnil] at hlen
      exact hidle hlen.symm
    have hcut : (cutTurn (.err now) s.cutter).2 = [⟨.broken, s.held⟩] := if_neg hheld
    obtain ⟨hok, hsorted, hbytes⟩ := h.giveUp hidle (k := .broken) (.inr rfl)
    rw [hcut]
    refine ⟨⟨h.inRange.lineN, Nat.zero_lt_succ 5, h.inRange.strayN,
      h.inRange.lastRaw⟩, ?_, ?_, fun hne => absurd rfl hne, hsorted, herrs, ?_, ?_⟩
    · rw [hbytes]
      exact List.append_nil _
    · intro x hx
      rcases List.mem_append.1 hx with hx | hx
      · exact h.ok x hx
      · rw [List.mem_singleton.1 hx]
        exact hok
    · rw [ofKind_append, ofKind_single, if_neg (by decide), List.append_nil]
      exact ⟨h.clocks.locked, h.clocks.lastLogged, h.clocks.lastFrame, h.clocks.pkts, h.clocks.log⟩
    · refine ⟨?_, ?_, ?_, ?_⟩
      · simpa [unexplained] using h.others.count
      · simpa using h.others.stray
      · simpa using h.others.nonclock
      · simpa using h.others.stalled

end Steps

/-! ### Runs -/

theorem Ledger.init (now : ℕ) : Ledger [] 0 (Rx.init now) [] [] where
  inRange := ⟨Nat.zero_le _, Nat.zero_lt_succ 5, Nat.zero_le _, by simp [Rx.init]⟩
  bytes := rfl
  ok := by simp
  start := fun h => absurd rfl h
  sorted := by
    intro before x after h
    simp at h
  errs := rfl
  clocks := ⟨rfl, fun h => (by cases h), rfl, rfl, rfl⟩
  others := ⟨rfl, rfl, rfl, rfl⟩

/-- The bytes of a turn. -/
def RxTurn.bytes : RxTurn → Bytes
  | .read _ bytes => bytes.map (·.2)
  | .err _ | .timeout _ => []

/-- The errors of a turn. -/
def RxTurn.errs : RxTurn → ℕ
  | .err _ => 1
  | .read _ _ | .timeout _ => 0

/-- The bytes of some turns, and their errors. -/
def bytesOf (turns : List RxTurn) : Bytes := turns.flatMap RxTurn.bytes

def errsOf (turns : List RxTurn) : ℕ := turns.foldl (fun n turn => n + turn.errs) 0

/-- What a turn has the firmware read. -/
def RxTurn.reads : RxTurn → List Read
  | .read _ bytes => [.ok (bytes.map (·.2))]
  | .err _ => [.err]
  | .timeout _ => []

/-- What a turn does to the held bytes of the firmware. -/
def RxTurn.hold (held : Bytes) : RxTurn → Bytes × List (UInt8 × UInt8)
  | .read _ bytes => Lib.Mealy.total heldStep (bytes.map (·.2)) held
  | .err _ => ([], [])
  | .timeout _ => (held, [])

/-- What some turns have the firmware read. -/
def readsOf (turns : List RxTurn) : List Read := turns.flatMap RxTurn.reads

theorem readLoop_turn (turn : RxTurn) {fs : Framer} (hfs : fs.InRange) : ∃ fs',
    readLoop.run turn.reads fs = some (fs', (turn.hold fs.held).2) ∧ fs'.InRange ∧
      fs'.held = (turn.hold fs.held).1 := by
  cases turn with
  | read now bytes =>
    obtain ⟨fs', hrun, hfs', hheld⟩ := framer_simulates.run (bytes.map (·.2)) hfs
    refine ⟨fs', ?_, hfs', hheld⟩
    have hturn : readLoop.step (.ok (bytes.map (·.2))) fs = framer.run (bytes.map (·.2)) fs := rfl
    rw [RxTurn.reads, Lib.Mealy.run_cons, hturn, hrun]
    simp [RxTurn.hold]
  | err now => exact ⟨{ fs with bufIdx := 0 }, rfl, ⟨Nat.zero_lt_succ 5, hfs.skipN⟩, rfl⟩
  | timeout now => exact ⟨fs, rfl, hfs, rfl⟩

theorem hold_bytes (bytes : List (ℕ × UInt8)) (c : Cutter) :
    Lib.Mealy.total heldStep (bytes.map (·.2)) c.held =
      ((Lib.Mealy.total cutByte bytes c).1.held, timesOf (Lib.Mealy.total cutByte bytes c).2) := by
  induction bytes generalizing c with
  | nil => rfl
  | cons b bytes ih =>
    rw [List.map_cons, Lib.Mealy.total_cons, Lib.Mealy.total_cons, heldStep_cut, ih, timesOf_append]

/-- A turn in which no frame stalls is cut where the firmware cuts it. -/
theorem hold_cutTurn (turn : RxTurn) {c : Cutter} (h : ofKind .stalled (cutTurn turn c).2 = []) :
    turn.hold c.held = ((cutTurn turn c).1.held, timesOf (cutTurn turn c).2) := by
  cases turn with
  | read now bytes => exact hold_bytes bytes c
  | err now =>
    have htimes : timesOf (cutTurn (.err now) c).2 = [] := by
      rw [cutTurn]
      dsimp only
      split
      · rfl
      · exact timesOf_other (by decide) _
    rw [htimes]
    rfl
  | timeout now =>
    rw [cutTurn] at h ⊢
    split
    · rename_i hdrop
      rw [if_pos hdrop] at h
      simp at h
    · rfl

/-- Turns in which no frame stalls: the firmware gathers the same frames. -/
theorem readLoop_cut (turns : List RxTurn) {fs : Framer} (hfs : fs.InRange) {c : Cutter}
    (hheld : fs.held = c.held) (h : ofKind .stalled (Lib.Mealy.total cutTurn turns c).2 = []) :
    ∃ fs', readLoop.run (readsOf turns) fs =
      some (fs', timesOf (Lib.Mealy.total cutTurn turns c).2) := by
  induction turns generalizing fs c with
  | nil => exact ⟨fs, rfl⟩
  | cons turn turns ih =>
    rw [Lib.Mealy.total_cons, ofKind_append, List.append_eq_nil_iff] at h
    obtain ⟨fs₁, hrun, hfs₁, hheld₁⟩ := readLoop_turn turn hfs
    rw [hheld, hold_cutTurn turn h.1] at hrun hheld₁
    obtain ⟨fs₂, hrest⟩ := ih hfs₁ hheld₁ h.2
    refine ⟨fs₂, ?_⟩
    rw [readsOf, List.flatMap_cons, Lib.Mealy.run_append, hrun, Option.bind_some, ← readsOf, hrest,
      Lib.Mealy.total_cons, timesOf_append]
    rfl

theorem rxBytes_ledger (bytes : List (ℕ × UInt8)) {received : Bytes} {errs : ℕ} {s : Rx}
    {logs : List RxLog} {xs : List Segment} (h : Ledger received errs s logs xs) :
    ∃ s' more, rxBytes.run bytes s = some (s', more) ∧
      Ledger (received ++ bytes.map (·.2)) errs s' (logs ++ more)
        (xs ++ (Lib.Mealy.total cutByte bytes s.cutter).2) ∧
      s'.cutter = (Lib.Mealy.total cutByte bytes s.cutter).1 := by
  induction bytes generalizing received s logs xs with
  | nil => exact ⟨s, [], rfl, by simpa using h, rfl⟩
  | cons b bytes ih =>
    obtain ⟨s₁, more₁, hb, h₁, hcut₁⟩ := h.rxByte b.1 b.2
    obtain ⟨s₂, more₂, hbytes, h₂, hcut₂⟩ := ih h₁
    rw [hcut₁] at h₂ hcut₂
    refine ⟨s₂, more₁ ++ more₂, ?_, by simpa [Lib.Mealy.total_cons] using h₂, hcut₂⟩
    have hstep : rxBytes.step b s = some (s₁, more₁) := hb
    rw [Lib.Mealy.run_cons, hstep, Option.bind_some, hbytes]
    rfl

/-- **A turn**: the log and the counters account for it as it is cut. -/
theorem rxTurn_ledger (turn : RxTurn) {received : Bytes} {errs : ℕ} {s : Rx} {logs : List RxLog}
    {xs : List Segment} (h : Ledger received errs s logs xs) : ∃ s' more,
      rxTurn turn s = some (s', more) ∧
        Ledger (received ++ turn.bytes) (errs + turn.errs) s' (logs ++ more)
          (xs ++ (cutTurn turn s.cutter).2) ∧
        s'.cutter = (cutTurn turn s.cutter).1 := by
  cases turn with
  | read now bytes =>
    by_cases hnil : bytes = []
    · subst hnil
      exact ⟨s, [], rfl, by simpa [RxTurn.bytes, RxTurn.errs, cutTurn] using h, rfl⟩
    · have hstamp : Ledger received errs
          { s with stats := { s.stats with lastRxMs := UInt32.ofNat (now / 1000) } } logs xs :=
        ⟨⟨h.inRange.lineN, h.inRange.pktN, h.inRange.strayN, h.inRange.lastRaw⟩, h.bytes, h.ok,
          h.start, h.sorted, h.errs,
          ⟨h.clocks.locked, h.clocks.lastLogged, h.clocks.lastFrame, h.clocks.pkts, h.clocks.log⟩,
          ⟨h.others.count, h.others.stray, h.others.nonclock, h.others.stalled⟩⟩
      obtain ⟨s', more, hrun, hledger, hcut⟩ := rxBytes_ledger bytes hstamp
      exact ⟨s', more, by rw [rxTurn, if_neg hnil]; exact hrun, hledger, hcut⟩
  | err now =>
    obtain ⟨s₁, more, hflush, hsame, hline, hraw, hquiet⟩ := flushLine_spec h.inRange now
    have hcutter : s.cutter = s₁.cutter := by rw [hsame]; rfl
    have hbreak := ((h.line hsame hline hraw).quiet hquiet).breakOff now
    have herr : Quiet [RxLog.err] := by simp [Quiet, RxLog.segment]
    have hlogged := hbreak.quiet herr
    refine ⟨{ s₁ with stats := { s₁.stats with errs := s₁.stats.errs + 1 }, pktN := 0 },
      more ++ [.err], ?_, ?_, ?_⟩
    · rw [rxTurn, hflush]
      rfl
    · rw [← List.append_assoc, hcutter]
      simpa [RxTurn.bytes, RxTurn.errs] using hlogged
    · rw [hcutter]
      rfl
  | timeout now =>
    obtain ⟨hdrop, hcut⟩ := h.dropStalled now
    obtain ⟨htake, -⟩ := hdrop.takeStray
    obtain ⟨s₁, more, hflush, hline, hline', hraw, hquiet⟩ := flushLine_spec htake.inRange now
    have hledger := (htake.line hline hline' hraw).quiet hquiet
    refine ⟨s₁, (s.dropStalled now).2 ++ (s.dropStalled now).1.takeStray.2 ++ more, ?_, ?_, ?_⟩
    · rw [rxTurn]
      dsimp only
      rw [hflush]
      rfl
    · simpa [RxTurn.bytes, RxTurn.errs] using hledger
    · have hflushed : s₁.cutter = (s.dropStalled now).1.takeStray.1.cutter := by
        rw [hline]
        rfl
      rw [hflushed, takeStray_cutter, hcut]

/-- **Runs**: the receiver does not fail, its ledger is kept, and it is amid the frame that the cutter is. -/
theorem rxTask_cut (now : ℕ) (turns : List RxTurn) : ∃ s logs,
    rxTask.run turns (Rx.init now) = some (s, logs) ∧
      Ledger (bytesOf turns) (errsOf turns) s logs (segmentsOf now turns) ∧
      s.cutter = (Lib.Mealy.total cutTurn turns ⟨[], now, false⟩).1 := by
  have hstep (past : List RxTurn) (s : Rx) (logs : List RxLog) (turn : RxTurn)
      (h : Ledger (bytesOf past) (errsOf past) s logs (segmentsOf now past) ∧
        s.cutter = (Lib.Mealy.total cutTurn past ⟨[], now, false⟩).1) : ∃ s' more,
      rxTask.step turn s = some (s', more) ∧
        Ledger (bytesOf (past ++ [turn])) (errsOf (past ++ [turn])) s' (logs ++ more)
          (segmentsOf now (past ++ [turn])) ∧
        s'.cutter = (Lib.Mealy.total cutTurn (past ++ [turn]) ⟨[], now, false⟩).1 := by
    obtain ⟨h, hcutter⟩ := h
    obtain ⟨s', more, hturn, hledger, hcut⟩ := rxTurn_ledger turn h
    rw [hcutter] at hledger hcut
    refine ⟨s', more, hturn, ?_, ?_⟩
    · rw [segmentsOf, Lib.Mealy.total_append, Lib.Mealy.total_cons, Lib.Mealy.total_nil, List.append_nil]
      simpa [bytesOf, errsOf, segmentsOf] using hledger
    · rw [Lib.Mealy.total_append, Lib.Mealy.total_cons, Lib.Mealy.total_nil, hcut]
  have hinit : Ledger (bytesOf []) (errsOf []) (Rx.init now) [] (segmentsOf now []) ∧
      (Rx.init now).cutter = (Lib.Mealy.total cutTurn [] ⟨[], now, false⟩).1 := ⟨Ledger.init now, rfl⟩
  exact rxTask.run_history hstep turns hinit

/-- **Every byte is accounted for.** The receiver never fails; after any turns the counters, `LAST_FRAME`
and the log are those of the segments of what it received, and of the frame it holds: it counts and keeps
the clock frames and logs each change of them, and once one has come the log holds every other byte, but
for those of a frame broken off by an error. -/
theorem rxTask_ledger (now : ℕ) (turns : List RxTurn) : ∃ s logs,
    rxTask.run turns (Rx.init now) = some (s, logs) ∧
      Ledger (bytesOf turns) (errsOf turns) s logs (segmentsOf now turns) := by
  obtain ⟨s, logs, hrun, hledger, -⟩ := rxTask_cut now turns
  exact ⟨s, logs, hrun, hledger⟩

/-- **The probe and the firmware hear the same clock.** After any turns in which no frame was given up for
a stall, the frames the receiver counted are those on which the firmware, reading the same bytes and
errors, sets its clock, and `LAST_FRAME` shows the time it set last. -/
theorem rxTask_readLoop (now : ℕ) (turns : List RxTurn) : ∃ s logs,
    rxTask.run turns (Rx.init now) = some (s, logs) ∧ (logOf .stalled logs = [] → ∃ fs out,
      readLoop.run (readsOf turns) Framer.init = some (fs, out) ∧
        s.stats.pkts = UInt32.ofNat out.length ∧
        s.stats.lastFrame.bind parseClockPacket = out.getLast?) := by
  obtain ⟨s, logs, hrun, hledger, -⟩ := rxTask_cut now turns
  refine ⟨s, logs, hrun, fun hnone => ?_⟩
  rw [hledger.others.stalled] at hnone
  obtain ⟨fs, hfs⟩ := @readLoop_cut turns Framer.init Framer.init_inRange ⟨[], now, false⟩ rfl hnone
  refine ⟨fs, timesOf (segmentsOf now turns), hfs, ?_, ?_⟩
  · rw [hledger.clocks.pkts, ← List.length_map (f := decodeBytes), ← hledger.timesOf_eq,
      List.length_map]
  · have hlast : (timesOf (segmentsOf now turns)).getLast?.map some =
        (ofKind .clock (segmentsOf now turns)).getLast?.map decodeBytes := by
      rw [← List.getLast?_map, hledger.timesOf_eq, List.getLast?_map]
    rw [← hledger.clocks.lastFrame] at hlast
    have hdecode : decodeBytes ∘ (fun packet : Vector UInt8 packetLen => packet.toList) =
        parseClockPacket := funext decodeBytes_toList
    rw [Option.map_map, hdecode] at hlast
    have hjoin (o : Option (Vector UInt8 packetLen)) :
        o.bind parseClockPacket = (o.map parseClockPacket).bind id := by
      cases o <;> rfl
    rw [hjoin, ← hlast]
    cases (timesOf (segmentsOf now turns)).getLast? <;> rfl

/-- A frame, in two reads. -/
theorem rxTask_readLoop_two : let turns := [RxTurn.timeout 50000,
      .read 90000 ([0xff, 0x60, 0xa5].map (90000, ·)),
      .read 91000 ([0x00, 0x05, 0x1e, 0x00].map (91000, ·))]
    ∃ s logs, rxTask.run turns (Rx.init 0) = some (s, logs) ∧ ∃ fs out,
      readLoop.run (readsOf turns) Framer.init = some (fs, out) ∧
        s.stats.pkts = UInt32.ofNat out.length ∧
        s.stats.lastFrame.bind parseClockPacket = out.getLast? := by
  intro turns
  obtain ⟨s, logs, hrun, h⟩ := rxTask_readLoop 0 turns
  have hlogs : ((rxTask.run turns (Rx.init 0)).map fun r => logOf .stalled r.2) = some [] := by
    decide +kernel
  rw [hrun] at hlogs
  exact ⟨s, logs, hrun, h (Option.some.inj hlogs)⟩

end ScoreboardCtrl.Probe
