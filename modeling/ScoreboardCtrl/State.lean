import ScoreboardCtrl.Decode
import Mathlib.Tactic.Common

/-!
# The scoreboard state (`ScoreboardState` in `src/main.rs`)

`Shared` is what a critical section reaches: the `ScoreboardState` behind the mutex and the number
of messages the static watch `EVENTS` has been sent. Every method that reads `Instant::now()` takes
the time as an argument: microseconds since boot (the 1 MHz tick of the RP2040 time driver), so
that ages are truncated to milliseconds as `as_millis` does.

The methods are stated as the source has them; below each stand the equations that later proofs
use instead of the body. `publish` only moves `announced`, and `refreshRunning` only moves
`running`, the pending pair and `announced`.
-/

namespace ScoreboardCtrl

/-- `Duration::as_millis` of the time from the instant `t` to `now`. -/
def elapsedMs (t now : ℕ) : ℕ := (now - t) / 1000

def u32Max : ℕ := 4294967295

abbrev scoreMax : ℕ := 99
abbrev periodMin : ℕ := 7
abbrev periodSec : ℕ := 30
abbrev pulseMs : ℕ := 50

/-- Fields the phone renders. -/
structure Visible where
  minutes : ℕ
  seconds : ℕ
  running : Bool
  home : ℕ
  away : ℕ
  led : Bool
  deriving DecidableEq, Repr

structure ScoreboardState where
  minutes : ℕ
  seconds : ℕ
  running : Bool
  home : ℕ
  away : ℕ
  led : Bool
  lastChange : Option ℕ
  pendingRunning : Option Bool
  pendingAt : Option ℕ
  announced : Visible
  deriving DecidableEq, Repr

namespace ScoreboardState

/-- `impl Default`. -/
def default : ScoreboardState where
  minutes := periodMin
  seconds := periodSec
  running := false
  home := 0
  away := 0
  led := false
  lastChange := none
  pendingRunning := none
  pendingAt := none
  announced := ⟨periodMin, periodSec, false, 0, 0, false⟩

def ageMs (s : ScoreboardState) (now : ℕ) : ℕ :=
  match s.lastChange with
  | some t => min (elapsedMs t now) u32Max
  | none => u32Max

def pendingAgeMs (s : ScoreboardState) (now : ℕ) : ℕ :=
  match s.pendingAt with
  | some t => elapsedMs t now
  | none => 0

def visible (s : ScoreboardState) : Visible :=
  ⟨s.minutes, s.seconds, s.running, s.home, s.away, s.led⟩

/-- What a refresh at `now` would make of `running`. -/
def uartRunning (s : ScoreboardState) (now : ℕ) : Bool :=
  clockIsRunning s.minutes s.seconds (s.ageMs now)

/-- What a refresh at `now` would make of `pending_running`. -/
def stillPending (s : ScoreboardState) (now : ℕ) : Option Bool :=
  resolvePendingRunning s.pendingRunning (s.uartRunning now) (s.pendingAgeMs now)

/-- The run state a request made at `now` is compared with. -/
def effective (s : ScoreboardState) (now : ℕ) : Bool :=
  (s.stillPending now).getD (s.uartRunning now)

end ScoreboardState

/-- The mutex's state and the message count of `EVENTS`. -/
structure Shared where
  board : ScoreboardState
  sent : ℕ
  deriving DecidableEq, Repr

namespace Shared

/-- The statics at power-on. -/
def boot : Shared := ⟨ScoreboardState.default, 0⟩

/-! ### `publish` -/

/-- Wake event streams when time, running, scores, or the LED changed. -/
def publish (g : Shared) : Shared :=
  let view := g.board.visible
  if view ≠ g.board.announced then
    { board := { g.board with announced := view }, sent := g.sent + 1 }
  else g

theorem publish_board (g : Shared) :
    g.publish.board = { g.board with announced := g.board.visible } := by
  by_cases h : g.board.visible = g.board.announced
  · simp only [publish, ne_eq, h, not_true_eq_false, if_false]
  · simp only [publish, ne_eq, h, not_false_eq_true, if_true]

theorem publish_sent (g : Shared) :
    g.publish.sent = if g.board.visible ≠ g.board.announced then g.sent + 1 else g.sent := by
  by_cases h : g.board.visible = g.board.announced
  · simp only [publish, ne_eq, h, not_true_eq_false, if_false]
  · simp only [publish, ne_eq, h, not_false_eq_true, if_true]

/-! ### `refresh_running` -/

def refreshRunning (now : ℕ) (g : Shared) : Shared :=
  let s := g.board
  let running := clockIsRunning s.minutes s.seconds (s.ageMs now)
  let pending := resolvePendingRunning s.pendingRunning running (s.pendingAgeMs now)
  let pendingAt := if pending.isNone then none else s.pendingAt
  publish { g with board :=
    { s with running := running, pendingRunning := pending, pendingAt := pendingAt } }

theorem refreshRunning_board (now : ℕ) (g : Shared) :
    (g.refreshRunning now).board =
      { g.board with
        running := g.board.uartRunning now
        pendingRunning := g.board.stillPending now
        pendingAt := if (g.board.stillPending now).isNone then none else g.board.pendingAt
        announced := { g.board.visible with running := g.board.uartRunning now } } := by
  simp only [refreshRunning, publish_board]
  rfl

/-! ### `set_clock` -/

def setClock (minutes seconds : ℕ) (now : ℕ) (g : Shared) : Shared :=
  let s := g.board
  let lastChange := if s.minutes ≠ minutes ∨ s.seconds ≠ seconds then some now else s.lastChange
  refreshRunning now { g with board :=
    { s with lastChange := lastChange, minutes := minutes, seconds := seconds } }

/-! ### `start_stop_pulse_for` -/

/-- Pulse GP1 if the effective run state disagrees with `want` (`none` = toggle). Does not write
the UART's `running`. -/
def startStopPulseFor (want : Option Bool) (now : ℕ) (g : Shared) : Bool × Shared :=
  let g := g.refreshRunning now
  let effective := g.board.pendingRunning.getD g.board.running
  let pulseNeeded := startStopPulseNeeded effective want
  if pulseNeeded then
    (true, { g with board :=
      { g.board with pendingRunning := some (want.getD (!effective)), pendingAt := some now } })
  else (false, g)

/-- The pulse is decided by the effective run state before the call. -/
theorem startStopPulseFor_fst (want : Option Bool) (now : ℕ) (g : Shared) :
    (g.startStopPulseFor want now).1 = startStopPulseNeeded (g.board.effective now) want := by
  simp only [startStopPulseFor, refreshRunning_board]
  by_cases h : startStopPulseNeeded (g.board.effective now) want = true
  · simp only [ScoreboardState.effective] at h ⊢
    simp only [h, if_true]
  · simp only [ScoreboardState.effective] at h ⊢
    simp only [h, if_false, Bool.false_eq_true]

/-- What a request leaves behind: a refresh, and after a pulse the state it asked for, pending
since now. -/
theorem startStopPulseFor_snd (want : Option Bool) (now : ℕ) (g : Shared) :
    (g.startStopPulseFor want now).2 =
      if startStopPulseNeeded (g.board.effective now) want then
        { g.refreshRunning now with board := { (g.refreshRunning now).board with
            pendingRunning := some (want.getD (!g.board.effective now)), pendingAt := some now } }
      else g.refreshRunning now := by
  have heff : (g.refreshRunning now).board.pendingRunning.getD (g.refreshRunning now).board.running =
      g.board.effective now := by
    rw [refreshRunning_board]
    rfl
  simp only [startStopPulseFor, heff]
  split <;> rfl

end Shared

end ScoreboardCtrl
