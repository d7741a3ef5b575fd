import ScoreboardCtrl.Section
import Mathlib.Order.MinMax

/-!
# The clock that the UART delivers

`Uart` is the part of `ScoreboardState` that only `read_serial` writes in the hardware build: MM:SS
and the time of its last change. `run_uart` says so for every critical section, and
`refreshes_running` that a section ending in a refresh leaves `running` equal to `Uart.running`.

With the pending pair (`run_pending`) this is all that the run-state logic depends on.
-/

namespace ScoreboardCtrl

/-- MM:SS as last reported, and when it last changed. -/
structure Uart where
  minutes : ℕ
  seconds : ℕ
  lastChange : Option ℕ
  deriving DecidableEq, Repr

namespace Uart

/-- The power-on value. -/
def boot : Uart := ⟨periodMin, periodSec, none⟩

/-- A frame showing `m:s` arrives. -/
def accept (m s : ℕ) (now : ℕ) (u : Uart) : Uart :=
  ⟨m, s, if u.minutes ≠ m ∨ u.seconds ≠ s then some now else u.lastChange⟩

def ageMs (u : Uart) (now : ℕ) : ℕ :=
  match u.lastChange with
  | some t => min (elapsedMs t now) u32Max
  | none => u32Max

def running (u : Uart) (now : ℕ) : Bool :=
  clockIsRunning u.minutes u.seconds (u.ageMs now)

theorem ageMs_mono (u : Uart) {t t' : ℕ} (h : t ≤ t') : u.ageMs t ≤ u.ageMs t' := by
  unfold ageMs elapsedMs
  cases u.lastChange with
  | none => exact Nat.le_refl _
  | some c =>
    have hdiv : (t - c) / 1000 ≤ (t' - c) / 1000 :=
      Nat.div_le_div_right (Nat.sub_le_sub_right h c)
    exact inf_le_inf_right _ hdiv

/-- Without a new frame the clock can only stop. -/
theorem running_anti {u : Uart} {t t' : ℕ} (h : t ≤ t') (hr : u.running t' = true) :
    u.running t = true := clockIsRunning_mono (u.ageMs_mono h) hr

theorem running_iff {u : Uart} {t : ℕ} : u.running t = true ↔
    (u.minutes, u.seconds) ≠ (0, 0) ∧ ∃ c, u.lastChange = some c ∧ t < c + 2000 * 1000 := by
  rw [running, clockIsRunning_iff]
  refine and_congr_right ?_
  intro _
  unfold ageMs elapsedMs
  cases u.lastChange with
  | none => simp [stoppedAfterMs, u32Max]
  | some c =>
    have hsat : ¬ u32Max < stoppedAfterMs := by decide
    rw [min_lt_iff, Nat.div_lt_iff_lt_mul (by decide)]
    simp only [Option.some.injEq, exists_eq_left', stoppedAfterMs] at hsat ⊢
    omega

end Uart

namespace ScoreboardState

def uart (s : ScoreboardState) : Uart := ⟨s.minutes, s.seconds, s.lastChange⟩

theorem uartRunning_eq (s : ScoreboardState) (now : ℕ) :
    s.uartRunning now = s.uart.running now := rfl

end ScoreboardState

/-! ### What a section does to the clock -/

theorem Shared.refreshRunning_uart (now : ℕ) (g : Shared) :
    (g.refreshRunning now).board.uart = g.board.uart := by rw [refreshRunning_board]; rfl

theorem Shared.setClock_uart (m s : ℕ) (now : ℕ) (g : Shared) :
    (g.setClock m s now).board.uart = g.board.uart.accept m s now := by
  rw [setClock, refreshRunning_uart]
  rfl

theorem Shared.startStopPulseFor_uart (want : Option Bool) (now : ℕ) (g : Shared) :
    (g.startStopPulseFor want now).2.board.uart = g.board.uart := by
  rw [startStopPulseFor_snd]
  split
  · exact refreshRunning_uart now g
  · exact refreshRunning_uart now g

theorem Shared.publish_uart (g : Shared) : g.publish.board.uart = g.board.uart := by
  rw [publish_board]; rfl

namespace Section

/-- What a section of the hardware build does to the clock. -/
def onUart (now : ℕ) : Section → Uart → Uart
  | .setClock m s, u => u.accept m s now
  | _, u => u

theorem score_uart {may : ScoreboardState → Bool} {move : ScoreboardState → ScoreboardState}
    (hmove : ∀ s, (move s).uart = s.uart) (g : Shared) :
    (score may move g).2.board.uart = g.board.uart := by
  unfold score
  cases may g.board with
  | false => rfl
  | true =>
    simp only [if_true]
    rw [Shared.publish_uart]
    exact hmove _

/-- **Only `set_clock` moves the clock of the hardware build.** -/
theorem run_uart {sec : Section} (h : sec.hardware = true) (now : ℕ) (g : Shared) :
    (sec.run now g).2.board.uart = sec.onUart now g.board.uart := by
  cases sec with
  | setLed on => exact Shared.publish_uart _
  | startStop want => exact Shared.startStopPulseFor_uart want now g
  | homeInc => exact score_uart (by intro s; rfl) g
  | homeDec => exact score_uart (by intro s; rfl) g
  | awayInc => exact score_uart (by intro s; rfl) g
  | awayDec => exact score_uart (by intro s; rfl) g
  | scoresZero => exact Shared.publish_uart _
  | setClock m s => exact Shared.setClock_uart m s now g
  | heartbeat => exact Shared.refreshRunning_uart now g
  | status => exact Shared.refreshRunning_uart now g
  | refresh => exact Shared.refreshRunning_uart now g
  | readLed => rfl
  | reset => rfl
  | snapshot => rfl
  | stopWait => rfl
  | simStartStop want => cases h
  | simReset => cases h
  | simSetTimer min sec => cases h
  | timerTick => cases h

theorem refreshRunning_running (now : ℕ) (g : Shared) :
    (g.refreshRunning now).board.running = g.board.uart.running now := by
  rw [Shared.refreshRunning_board]; rfl

theorem refreshRunning_current (now : ℕ) (g : Shared) :
    (g.refreshRunning now).board.running = (g.refreshRunning now).board.uart.running now := by
  rw [refreshRunning_running, Shared.refreshRunning_uart]

theorem refreshes_running {sec : Section} (h : sec.refreshes = true) (now : ℕ) (g : Shared) :
    (sec.run now g).2.board.running = (sec.run now g).2.board.uart.running now := by
  cases sec with
  | startStop want =>
    have hr : (g.startStopPulseFor want now).2.board.running = g.board.uart.running now := by
      rw [Shared.startStopPulseFor_snd]
      split
      · exact refreshRunning_running now g
      · exact refreshRunning_running now g
    exact hr.trans (congrArg (Uart.running · now) (Shared.startStopPulseFor_uart want now g)).symm
  | setClock m s => exact refreshRunning_current now _
  | heartbeat => exact refreshRunning_current now g
  | status => exact refreshRunning_current now g
  | refresh => exact refreshRunning_current now g
  | _ => cases h

theorem score_running {may : ScoreboardState → Bool} {move : ScoreboardState → ScoreboardState}
    (hmove : ∀ s, (move s).running = s.running) (g : Shared) :
    (score may move g).2.board.running = g.board.running := by
  unfold score
  cases may g.board with
  | false => rfl
  | true =>
    simp only [if_true, Shared.publish_board]
    exact hmove _

/-- **Only a refresh moves `running`**, in the hardware build. -/
theorem run_running {sec : Section} (h : sec.hardware = true) (now : ℕ) (g : Shared) :
    (sec.run now g).2.board.running =
      if sec.refreshes then (sec.onUart now g.board.uart).running now else g.board.running := by
  by_cases hr : sec.refreshes = true
  · rw [if_pos hr, refreshes_running hr, run_uart h]
  rw [if_neg hr]
  cases sec with
  | setLed on => simp only [run, Shared.publish_board]
  | scoresZero => simp only [run, Shared.publish_board]
  | homeInc => exact score_running (by intro s; rfl) g
  | homeDec => exact score_running (by intro s; rfl) g
  | awayInc => exact score_running (by intro s; rfl) g
  | awayDec => exact score_running (by intro s; rfl) g
  | readLed | reset | snapshot | stopWait => rfl
  | startStop want => exact absurd rfl hr
  | setClock m s => exact absurd rfl hr
  | heartbeat | status | refresh => exact absurd rfl hr
  | simStartStop want => cases h
  | simReset | timerTick => cases h
  | simSetTimer m s => cases h

/-- In either build a section leaves `running`, or sets it to what the clock says. -/
theorem running_cases (sec : Section) (now : ℕ) (g : Shared) :
    (sec.run now g).2.board.running = g.board.running ∨
      (sec.run now g).2.board.running = (sec.run now g).2.board.uart.running now := by
  cases hsec : sec.hardware with
  | true =>
    have hrun := run_running hsec now g
    by_cases href : sec.refreshes = true
    · exact .inr (refreshes_running href now g)
    · exact .inl (hrun.trans (if_neg href))
  | false =>
    cases sec with
    | simStartStop want => exact .inr (refreshRunning_current now _)
    | simReset => exact .inr (refreshRunning_current now _)
    | simSetTimer m s => exact .inr (refreshRunning_current now _)
    | timerTick =>
      show (runTimerTick now g).board.running = _ ∨
        (runTimerTick now g).board.running = (runTimerTick now g).board.uart.running now
      unfold runTimerTick
      split
      · simp only
        split
        · exact .inr (refreshRunning_current now _)
        · split
          · exact .inr (refreshRunning_current now _)
          · exact .inr (refreshRunning_current now _)
      · exact .inl rfl
    | _ => cases hsec

/-! ### What a section does to the pending pair -/

/-- The sections that neither make a run request, clear one, nor show a time other than `m:s`. -/
def undisturbing (m s : ℕ) : Section → Bool
  | .startStop _ | .reset => false
  | .setClock m' s' => decide (m' = m ∧ s' = s)
  | sec => sec.hardware

end Section

/-- `pending_running` and `pending_at`. -/
def ScoreboardState.pendingPair (s : ScoreboardState) : Option Bool × Option ℕ :=
  (s.pendingRunning, s.pendingAt)

/-- The pair a refresh leaves behind. -/
def ScoreboardState.refreshedPair (s : ScoreboardState) (now : ℕ) :
    Option Bool × Option ℕ :=
  (s.stillPending now, if (s.stillPending now).isNone then none else s.pendingAt)

theorem Shared.refreshRunning_pendingPair (now : ℕ) (g : Shared) :
    (g.refreshRunning now).board.pendingPair = g.board.refreshedPair now := by
  rw [refreshRunning_board]; rfl

/-- A frame that shows the time already shown is a refresh. -/
theorem Shared.setClock_same (now : ℕ) (g : Shared) :
    g.setClock g.board.minutes g.board.seconds now = g.refreshRunning now := by
  simp only [setClock, ne_eq, not_true_eq_false, or_self, if_false]

theorem Section.score_pendingPair {may : ScoreboardState → Bool}
    {move : ScoreboardState → ScoreboardState} (hmove : ∀ s, (move s).pendingPair = s.pendingPair)
    (g : Shared) : (score may move g).2.board.pendingPair = g.board.pendingPair := by
  unfold score
  cases may g.board with
  | false => rfl
  | true =>
    simp only [if_true, Shared.publish_board]
    exact hmove _

/-- A section that disturbs nothing either refreshes the pending pair or leaves it alone. -/
theorem Section.run_pending {sec : Section} {g : Shared}
    (h : sec.undisturbing g.board.minutes g.board.seconds = true) (now : ℕ) :
    (sec.run now g).2.board.pendingPair =
      if sec.refreshes then g.board.refreshedPair now else g.board.pendingPair := by
  cases sec with
  | setClock m s =>
    obtain ⟨rfl, rfl⟩ : m = g.board.minutes ∧ s = g.board.seconds := by
      simpa [undisturbing] using h
    simp only [run, Shared.setClock_same]
    exact Shared.refreshRunning_pendingPair now g
  | heartbeat => exact Shared.refreshRunning_pendingPair now g
  | status => exact Shared.refreshRunning_pendingPair now g
  | refresh => exact Shared.refreshRunning_pendingPair now g
  | setLed on => simp only [run, Shared.publish_board]; rfl
  | scoresZero => simp only [run, Shared.publish_board]; rfl
  | homeInc => exact score_pendingPair (by intro s; rfl) g
  | homeDec => exact score_pendingPair (by intro s; rfl) g
  | awayInc => exact score_pendingPair (by intro s; rfl) g
  | awayDec => exact score_pendingPair (by intro s; rfl) g
  | readLed => rfl
  | snapshot => rfl
  | stopWait => rfl
  | _ => cases h

theorem Section.run_uart_undisturbing {sec : Section} {g : Shared}
    (h : sec.undisturbing g.board.minutes g.board.seconds = true) (now : ℕ) :
    (sec.run now g).2.board.uart = g.board.uart := by
  cases sec with
  | setClock m s =>
    obtain ⟨rfl, rfl⟩ : m = g.board.minutes ∧ s = g.board.seconds := by
      simpa [undisturbing] using h
    simp only [run, Shared.setClock_same]
    exact Shared.refreshRunning_uart now g
  | startStop want => cases h
  | reset => cases h
  | _ => exact run_uart (by simpa [undisturbing] using h) now g

end ScoreboardCtrl
