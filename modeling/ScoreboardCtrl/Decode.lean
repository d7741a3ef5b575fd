import Mathlib.Data.Nat.Notation

/-!
# SK2229R clock frames and the run flag (`src/decode.rs`)

The pure helpers of the firmware: the parser of one 6-byte frame
`60 | chk | unk0 | minutes | seconds | unk1`, and the three functions that decide from the
displayed time, its age and the last request whether the clock runs and whether GP1 must be pulsed.

Bytes are `UInt8`. Minutes, seconds and milliseconds are naturals: the source's `u16` total of two
`u8` values does not overflow.
-/

namespace ScoreboardCtrl

/-! ### Frames -/

abbrev packetLen : ℕ := 6
abbrev packetSof : UInt8 := 0x60
abbrev packetMinIndex : ℕ := 3
abbrev packetSecIndex : ℕ := 4

abbrev maxMinutes : UInt8 := 99
abbrev maxSeconds : UInt8 := 59

/-- Parse a 6-byte frame into `(minutes, seconds)`. -/
def parseClockPacket (pkt : Vector UInt8 packetLen) : Option (UInt8 × UInt8) :=
  if pkt[0] ≠ packetSof then none
  else
    let minutes := pkt[packetMinIndex]
    let seconds := pkt[packetSecIndex]
    if minutes > maxMinutes ∨ seconds > maxSeconds then none else some (minutes, seconds)

theorem parseClockPacket_le {pkt : Vector UInt8 packetLen} {m s : UInt8}
    (h : parseClockPacket pkt = some (m, s)) : m ≤ maxMinutes ∧ s ≤ maxSeconds := by
  simp only [parseClockPacket] at h
  split at h
  · cases h
  · split at h
    · cases h
    · rename_i hle
      cases h
      simpa [not_or, UInt8.not_lt] using hle

/-! ### The run flag -/

/-- Milliseconds the displayed time may sit unchanged before the clock counts as stopped. -/
abbrev stoppedAfterMs : ℕ := 2000

def totalSeconds (min sec : ℕ) : ℕ := min * 60 + sec

/-- Stopped if MM:SS is `00:00` or unchanged for 2 s; otherwise running. -/
def clockIsRunning (min sec unchangedMs : ℕ) : Bool :=
  totalSeconds min sec != 0 && decide (unchangedMs < stoppedAfterMs)

/-- GP1 is a toggle: pulse when the effective run state disagrees with the request; the raw toggle
(`none`) always pulses. -/
def startStopPulseNeeded (effectiveRunning : Bool) : Option Bool → Bool
  | some want => want != effectiveRunning
  | none => true

/-- Drop a pending run state once the UART agrees, or once the freeze window has elapsed. -/
def resolvePendingRunning (pending : Option Bool) (uartRunning : Bool) (pendingAgeMs : ℕ) :
    Option Bool :=
  match pending with
  | some want => if want != uartRunning && decide (pendingAgeMs < stoppedAfterMs) then some want else none
  | none => none

theorem clockIsRunning_iff {min sec ms : ℕ} :
    clockIsRunning min sec ms = true ↔ (min, sec) ≠ (0, 0) ∧ ms < stoppedAfterMs := by
  simp only [clockIsRunning, totalSeconds, Bool.and_eq_true, bne_iff_ne, decide_eq_true_eq, ne_eq,
    Prod.mk.injEq]
  omega

/-- Ageing only stops a clock. -/
theorem clockIsRunning_mono {min sec a b : ℕ} (hab : a ≤ b) (h : clockIsRunning min sec b = true) :
    clockIsRunning min sec a = true := by
  rw [clockIsRunning_iff] at h ⊢
  exact ⟨h.1, by omega⟩

@[simp] theorem resolvePendingRunning_none (r : Bool) (ms : ℕ) :
    resolvePendingRunning none r ms = none := rfl

theorem resolvePendingRunning_some {w r : Bool} {ms : ℕ} :
    resolvePendingRunning (some w) r ms = if w ≠ r ∧ ms < stoppedAfterMs then some w else none := by
  simp [resolvePendingRunning]

/-- A run state stays pending exactly while the UART disagrees inside the window. -/
theorem resolvePendingRunning_eq_some {p : Option Bool} {r w : Bool} {ms : ℕ} :
    resolvePendingRunning p r ms = some w ↔ p = some w ∧ w ≠ r ∧ ms < stoppedAfterMs := by
  cases p with
  | none => simp
  | some v =>
    rw [resolvePendingRunning_some]
    by_cases h : v ≠ r ∧ ms < stoppedAfterMs
    · rw [if_pos h]
      constructor
      · intro hv; cases hv; exact ⟨rfl, h⟩
      · exact fun hv => hv.1
    · rw [if_neg h]
      constructor
      · intro hc; cases hc
      · rintro ⟨hv, hw⟩
        cases hv
        exact absurd hw h

end ScoreboardCtrl
