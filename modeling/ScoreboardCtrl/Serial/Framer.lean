import ScoreboardCtrl.Lib.Mealy
import ScoreboardCtrl.Section

/-!
# The framing loop of `read_serial` (`src/main.rs`)

`Framer` holds the locals of `read_serial` that decide what reaches `set_clock`; `Framer.feed` is
the body of `for &byte in dma_buf.iter()`, where an index out of range is a failure, and `readLoop`
takes one read after the other. The copies kept only for the log (`last_logged`, `last_raw`) and
the hex dumps themselves are left out; `skip` stays, since writing to it could go out of range.

All the rest is proved of the *held* bytes, those of the frame being filled: `framer_simulates`
says that the loop never fails and does to the held bytes what `heldStep` does.
-/

namespace ScoreboardCtrl

/-- `a[i] = b`, which panics out of range. -/
def setAt {n : ℕ} (a : Vector UInt8 n) (i : ℕ) (b : UInt8) : Option (Vector UInt8 n) :=
  if h : i < n then some (a.set i b h) else none

abbrev skipLen : ℕ := 16

structure Framer where
  packetBuf : Vector UInt8 packetLen
  bufIdx : ℕ
  skip : Vector UInt8 skipLen
  skipN : ℕ
  deriving DecidableEq, Repr

namespace Framer

def init : Framer := ⟨.replicate _ 0, 0, .replicate _ 0, 0⟩

/-- One byte; the output is the call of `set_clock` it leads to, if any. -/
def feed (byte : UInt8) (s : Framer) : Option (Framer × List (UInt8 × UInt8)) :=
  if s.bufIdx = 0 then
    if byte ≠ packetSof then do
      let skip ← setAt s.skip s.skipN byte
      let skipN := s.skipN + 1
      let skipN := if skipN = skipLen then 0 else skipN
      some ({ s with skip := skip, skipN := skipN }, [])
    else do
      let packetBuf ← setAt s.packetBuf 0 byte
      some ({ s with packetBuf := packetBuf, bufIdx := 1 }, [])
  else do
    let packetBuf ← setAt s.packetBuf s.bufIdx byte
    let bufIdx := s.bufIdx + 1
    if bufIdx < packetLen then some ({ s with packetBuf := packetBuf, bufIdx := bufIdx }, [])
    else some ({ s with packetBuf := packetBuf, bufIdx := 0 }, (parseClockPacket packetBuf).toList)

end Framer

def framer : Lib.Mealy Framer UInt8 (UInt8 × UInt8) := ⟨Framer.feed⟩

/-- What `rx.read(&mut dma_buf).await` comes back with. -/
inductive Read where
  | ok (dmaBuf : List UInt8)
  | err
  deriving DecidableEq, Repr

/-- One turn of the `loop`. -/
def readTurn : Read → Framer → Option (Framer × List (UInt8 × UInt8))
  | .ok dmaBuf, s => framer.run dmaBuf s
  | .err, s => some ({ s with bufIdx := 0 }, [])

def readLoop : Lib.Mealy Framer Read (UInt8 × UInt8) := ⟨readTurn⟩

theorem readLoop_ok (reads : List (List UInt8)) (s : Framer) :
    readLoop.run (reads.map .ok) s = framer.run reads.flatten s := by
  rw [← Lib.Mealy.chunked_run]
  induction reads generalizing s with
  | nil => rfl
  | cons bytes reads ih =>
    simp only [List.map_cons, Lib.Mealy.run_cons, ih]
    rfl

/-! ### The held bytes -/

/-- Both indices are in range. -/
structure Framer.InRange (s : Framer) : Prop where
  bufIdx : s.bufIdx < packetLen
  skipN : s.skipN < skipLen

/-- The bytes of the frame being filled. -/
def Framer.held (s : Framer) : List UInt8 := s.packetBuf.toList.take s.bufIdx

theorem Framer.init_inRange : Framer.init.InRange := ⟨by decide, by decide⟩

theorem Framer.held_length {s : Framer} (hs : s.InRange) : s.held.length = s.bufIdx := by
  have := hs.bufIdx
  simp only [held, List.length_take, Vector.length_toList]
  omega

theorem Framer.held_eq_nil {s : Framer} (hs : s.InRange) : s.held = [] ↔ s.bufIdx = 0 := by
  rw [← List.length_eq_zero_iff, held_length hs]

/-- `parse_clock_packet` on a list of bytes; only six of them can be a frame. -/
def decodeBytes (bytes : List UInt8) : Option (UInt8 × UInt8) :=
  if h : bytes.length = packetLen then parseClockPacket ⟨bytes.toArray, by simpa using h⟩ else none

theorem decodeBytes_toList (pkt : Vector UInt8 packetLen) :
    decodeBytes pkt.toList = parseClockPacket pkt := by
  rw [decodeBytes, dif_pos pkt.length_toList]
  rfl

/-- What one byte does to the held bytes. -/
def heldStep (byte : UInt8) (held : List UInt8) : List UInt8 × List (UInt8 × UInt8) :=
  if held = [] ∧ byte ≠ packetSof then ([], [])
  else if held.length + 1 < packetLen then (held ++ [byte], [])
  else ([], (decodeBytes (held ++ [byte])).toList)

theorem heldStep_skip {byte : UInt8} (h : byte ≠ packetSof) : heldStep byte [] = ([], []) :=
  if_pos ⟨rfl, h⟩

theorem heldStep_start : heldStep packetSof [] = ([packetSof], []) := by decide

theorem heldStep_more {byte : UInt8} {held : List UInt8} (hne : held ≠ [])
    (h : held.length + 1 < packetLen) : heldStep byte held = (held ++ [byte], []) := by
  rw [heldStep, if_neg fun hc => hne hc.1, if_pos h]

theorem heldStep_full {byte : UInt8} {held : List UInt8} (h : held.length + 1 = packetLen) :
    heldStep byte held = ([], (decodeBytes (held ++ [byte])).toList) := by
  have hne : held ≠ [] := by rintro rfl; cases h
  rw [heldStep, if_neg fun hc => hne hc.1, if_neg (by omega)]

theorem take_set_succ {n : ℕ} (a : Vector UInt8 n) (i : ℕ) (b : UInt8) (h : i < n) :
    (a.set i b h).toList.take (i + 1) = a.toList.take i ++ [b] := by
  have hlen : i < a.toList.length := by simpa using h
  rw [Vector.toList_set, List.take_add_one, List.take_set_of_le (Nat.le_refl i),
    List.getElem?_set_self hlen]
  rfl

/-- **The framing loop does not fail, and works on the held bytes as `heldStep` does.** -/
theorem framer_simulates : framer.Simulates Framer.InRange Framer.held heldStep := by
  intro byte s hs
  have hbuf := hs.bufIdx
  have hskip := hs.skipN
  have hlen : s.held.length = s.bufIdx := Framer.held_length hs
  by_cases h0 : s.bufIdx = 0
  · rw [(Framer.held_eq_nil hs).2 h0]
    by_cases hsof : byte = packetSof
    · -- the frame starts
      subst hsof
      rw [heldStep_start]
      refine ⟨{ s with packetBuf := s.packetBuf.set 0 packetSof, bufIdx := 1 }, ?_,
        ⟨by simp only; decide, hskip⟩, take_set_succ _ 0 _ (by decide)⟩
      simp [framer, Framer.feed, h0, setAt]
    · -- a byte skipped between frames
      rw [heldStep_skip hsof]
      refine ⟨{ s with
        skip := s.skip.set s.skipN byte
        skipN := if s.skipN + 1 = skipLen then 0 else s.skipN + 1 }, ?_, ⟨hbuf, ?_⟩, ?_⟩
      · simp [framer, Framer.feed, h0, hsof, setAt, hskip]
      · simp only
        split <;> omega
      · simp [Framer.held, h0]
  · have hne : s.held ≠ [] := fun h => h0 ((Framer.held_eq_nil hs).1 h)
    by_cases hfull : s.bufIdx + 1 < packetLen
    · rw [heldStep_more hne (by omega)]
      refine ⟨{ s with packetBuf := s.packetBuf.set s.bufIdx byte, bufIdx := s.bufIdx + 1 }, ?_,
        ⟨hfull, hskip⟩, take_set_succ _ _ _ hbuf⟩
      simp [framer, Framer.feed, h0, hfull, setAt, hbuf]
    · -- the frame is complete
      have hlast : s.bufIdx + 1 = packetLen := by omega
      have hpkt : s.held ++ [byte] = (s.packetBuf.set s.bufIdx byte).toList := by
        rw [Framer.held, ← take_set_succ _ _ _ hbuf, hlast, List.take_of_length_le (by simp)]
      rw [heldStep_full (by omega), hpkt, decodeBytes_toList]
      refine ⟨{ s with packetBuf := s.packetBuf.set s.bufIdx byte, bufIdx := 0 }, ?_,
        ⟨by simp only; decide, hskip⟩, by simp [Framer.held]⟩
      simp [framer, Framer.feed, h0, setAt, hbuf, hfull]

/-! ### What reaches `set_clock` -/

/-- A time the board can show. -/
def Showable (v : UInt8 × UInt8) : Prop := v.1 ≤ maxMinutes ∧ v.2 ≤ maxSeconds

theorem decodeBytes_showable {bytes : List UInt8} {v : UInt8 × UInt8}
    (h : decodeBytes bytes = some v) : Showable v := by
  unfold decodeBytes at h
  split at h
  · exact parseClockPacket_le h
  · cases h

theorem heldStep_showable {byte : UInt8} {held : List UInt8} :
    ∀ v ∈ (heldStep byte held).2, Showable v := by
  intro v hv
  unfold heldStep at hv
  split at hv
  · cases hv
  · split at hv
    · cases hv
    · exact decodeBytes_showable (Option.mem_toList.1 hv)

/-- The indices are in range, and the times handed out can be shown. -/
def Framer.Sound (s : Framer) (out : List (UInt8 × UInt8)) : Prop :=
  s.InRange ∧ ∀ v ∈ out, Showable v

theorem framer_sound (bytes : List UInt8) {s : Framer} {out : List (UInt8 × UInt8)}
    (h : s.Sound out) : ∃ s' out', framer.run bytes s = some (s', out') ∧ s'.Sound (out ++ out') := by
  have hstep : ∀ (past : List UInt8) s out byte, s.Sound out →
      ∃ s' o, framer.step byte s = some (s', o) ∧ s'.Sound (out ++ o) := by
    intro _ s out byte hs
    obtain ⟨s', hfeed, hs', -⟩ := framer_simulates byte s hs.1
    exact ⟨s', _, hfeed, hs', List.forall_mem_append.2 ⟨hs.2, heldStep_showable⟩⟩
  exact @Lib.Mealy.run_history _ _ _ framer (fun _ => Framer.Sound) hstep bytes [] s out h

/-- **No index goes out of range** in any sequence of reads and errors, and every call of `set_clock`
shows a time the board can show. -/
theorem readLoop_sound (reads : List Read) {s : Framer} (hs : s.InRange) :
    ∃ s' out, readLoop.run reads s = some (s', out) ∧ s'.Sound out := by
  have hstart : s.Sound [] := ⟨hs, fun v hv => by cases hv⟩
  have hstep : ∀ (past : List Read) s out read, s.Sound out →
      ∃ s' o, readLoop.step read s = some (s', o) ∧ s'.Sound (out ++ o) := by
    intro _ s out read h
    cases read with
    | ok bytes => exact framer_sound bytes h
    | err =>
      refine ⟨_, [], rfl, ⟨Nat.zero_lt_succ 5, h.1.skipN⟩, ?_⟩
      rw [List.append_nil]
      exact h.2
  exact @Lib.Mealy.run_history _ _ _ readLoop (fun _ => Framer.Sound) hstep reads [] s [] hstart

end ScoreboardCtrl
