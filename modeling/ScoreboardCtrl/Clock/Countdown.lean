import ScoreboardCtrl.Board.World
import ScoreboardCtrl.Clock.Uart

/-!
# The countdown of the simulate build

`timer_task` counts MM:SS down where `running` is up, and `running` is up because MM:SS changed less than
two seconds ago: the countdown keeps itself alive. `Counting` is what holds while `n` seconds are left
after a tick at `last`; a refresh in time leaves it (`Counting.visit`), a tick counts one second
(`Counting.tick`), and at `00:00` nothing more happens.
-/

namespace ScoreboardCtrl

/-- MM:SS of `n` seconds. -/
def minSec (n : ℕ) : ℕ × ℕ := (n / 60, n % 60)

/-- `n` seconds are left, and the last one was counted at `last`. -/
structure Counting (n last : ℕ) (g : Shared) : Prop where
  time : (g.board.minutes, g.board.seconds) = minSec n
  running : g.board.running = true ↔ 0 < n
  change : 0 < n → g.board.lastChange = some last

theorem minSec_zero_iff {n : ℕ} : minSec n = (0, 0) ↔ n = 0 := by
  simp only [minSec, Prod.mk.injEq]
  omega

theorem minSec_inj {n n' : ℕ} (h : minSec n = minSec n') : n = n' := by
  obtain ⟨hm, hs⟩ := Prod.mk.inj h
  omega

variable {n last t : ℕ} {g : Shared}

/-- The clock runs as long as seconds are left and the last tick is less than 2 s ago. -/
theorem running_of_time (htime : (g.board.minutes, g.board.seconds) = minSec n)
    (hchange : 0 < n → g.board.lastChange = some last) (ht : t < last + 2000 * 1000) :
    g.board.uart.running t = true ↔ 0 < n := by
  constructor
  · intro hrun
    obtain ⟨hzero, -⟩ := Uart.running_iff.1 hrun
    have hne : minSec n ≠ (0, 0) := htime ▸ hzero
    exact Nat.pos_of_ne_zero fun h => hne (minSec_zero_iff.2 h)
  · intro hn
    refine Uart.running_iff.2 ⟨?_, last, hchange hn, ht⟩
    show (g.board.minutes, g.board.seconds) ≠ (0, 0)
    rw [htime]
    exact fun h => Nat.ne_of_gt hn (minSec_zero_iff.1 h)

theorem counting_refresh (htime : (g.board.minutes, g.board.seconds) = minSec n)
    (hchange : 0 < n → g.board.lastChange = some last) (ht : t < last + 2000 * 1000) :
    Counting n last (g.refreshRunning t) := by
  have huart := Shared.refreshRunning_uart t g
  refine ⟨?_, ?_, fun hn => ?_⟩
  · exact (congrArg (fun u : Uart => (u.minutes, u.seconds)) huart).trans htime
  · rw [Section.refreshRunning_running]
    exact running_of_time htime hchange ht
  · exact (congrArg Uart.lastChange huart).trans (hchange hn)

/-! ### Ticks and visits -/

theorem Counting.visit (h : Counting n last g) {sec : Section} (hsec : sec.visitor true = true)
    (htick : sec ≠ .timerTick) (ht : t < last + 2000 * 1000) :
    Counting n last (sec.run t g).2 := by
  cases sec with
  | heartbeat | status | refresh => exact counting_refresh h.time h.change ht
  | readLed | stopWait => exact h
  | timerTick => exact absurd rfl htick
  | _ => cases hsec

/-- The tick counts down with a borrow. -/
theorem runTimerTick_eq (h : Counting (n + 1) last g) (now : ℕ) :
    Section.runTimerTick now g = g.setClock (minSec n).1 (minSec n).2 now := by
  obtain ⟨hm, hs⟩ := Prod.mk.inj h.time
  have hrun : g.board.running = true := h.running.2 (Nat.succ_pos n)
  simp only [Section.runTimerTick, hrun, if_true, hm, hs, minSec]
  by_cases hsec : (n + 1) % 60 > 0
  · rw [if_pos hsec]
    congr 1
    · omega
    · omega
  · rw [if_neg hsec, if_pos (by omega)]
    congr 1
    · omega
    · omega

/-- **A tick counts one second.** -/
theorem Counting.tick (h : Counting (n + 1) last g) (now : ℕ) :
    Counting n now (Section.timerTick.run now g).2 := by
  show Counting n now (Section.runTimerTick now g)
  rw [runTimerTick_eq h now]
  refine counting_refresh rfl (fun _ => ?_) (Nat.lt_add_of_pos_right (by decide))
  -- MM:SS is another one than before
  refine if_pos ?_
  by_contra hsame
  obtain ⟨hmin, hsec⟩ := not_or.1 hsame
  have heq : minSec (n + 1) = minSec n :=
    h.time.symm.trans (Prod.ext (not_not.1 hmin) (not_not.1 hsec))
  exact absurd (minSec_inj heq) (Nat.succ_ne_self n)

/-- At `00:00` a tick changes nothing. -/
theorem Counting.done (h : Counting 0 last g) (now : ℕ) : (Section.timerTick.run now g).2 = g := by
  have hrun : g.board.running = false := by
    by_contra hne
    exact absurd (h.running.1 (by simpa using hne)) (Nat.lt_irrefl 0)
  show Section.runTimerTick now g = g
  simp only [Section.runTimerTick, hrun, Bool.false_eq_true, if_false]

/-! ### Runs -/

/-- The ticks and the sections of the other tasks after a start or a tick at `last`, with less than 2 s from
one tick to the next. -/
def Ticking : ℕ → List (ℕ × Section) → Prop
  | _, [] => True
  | last, e :: run =>
    e.2.visitor true = true ∧ last ≤ e.1 ∧ e.1 < last + 2000 * 1000 ∧
      Ticking (if e.2 = .timerTick then e.1 else last) run

instance decidableTicking : (last : ℕ) → (run : List (ℕ × Section)) → Decidable (Ticking last run)
  | _, [] => .isTrue trivial
  | last, e :: run =>
    have := decidableTicking (if e.2 = .timerTick then e.1 else last) run
    inferInstanceAs (Decidable (_ ∧ last ≤ e.1 ∧ e.1 < last + 2000 * 1000 ∧ _))

/-- The number of ticks. -/
def ticks (run : List (ℕ × Section)) : ℕ := run.countP fun e => decide (e.2 = .timerTick)

theorem counting_run {run : List (ℕ × Section)} (hrun : Ticking last run) (h : Counting n last g) :
    ∃ last', Counting (n - ticks run) last' (runSections run g) := by
  induction run generalizing n last g with
  | nil => exact ⟨last, h⟩
  | cons e run ih =>
    obtain ⟨hvisit, -, hlt, hrest⟩ := hrun
    by_cases htick : e.2 = .timerTick
    · rw [if_pos htick] at hrest
      have hcount : ticks (e :: run) = ticks run + 1 :=
        List.countP_cons_of_pos (decide_eq_true htick)
      have hnext : Counting (n - 1) e.1 (e.2.run e.1 g).2 := by
        rw [htick]
        cases n with
        | succ n => exact h.tick e.1
        | zero =>
          rw [h.done e.1]
          exact ⟨h.time, h.running, fun hn => absurd hn (Nat.lt_irrefl 0)⟩
      obtain ⟨last', hlast⟩ := ih hrest hnext
      refine ⟨last', ?_⟩
      rw [hcount, Nat.add_comm, ← Nat.sub_sub]
      exact hlast
    · rw [if_neg htick] at hrest
      have hcount : ticks (e :: run) = ticks run :=
        List.countP_cons_of_neg (by simpa using htick)
      rw [hcount]
      exact ih hrest (h.visit hvisit htick hlt)

/-- A start leaves the clock running with the seconds it shows. -/
theorem counting_start (hs : g.board.seconds ≤ 59) (t : ℕ) :
    Counting (totalSeconds g.board.minutes g.board.seconds) t
      ((Section.simStartStop (some true)).run t g).2 := by
  refine counting_refresh ?_ (fun _ => rfl) (Nat.lt_add_of_pos_right (by decide))
  show (g.board.minutes, g.board.seconds) = _
  simp only [minSec, totalSeconds, Prod.mk.injEq]
  omega

/-- **The simulated countdown is exact.** After a start at `t`, and ticks and refreshes with less than 2 s
from tick to tick, the clock shows the seconds that are left, runs as long as there are any, and further
ticks change nothing once there are none. -/
theorem simulated_countdown (hs : g.board.seconds ≤ 59) {run : List (ℕ × Section)}
    (hrun : Ticking t run) :
    let total := totalSeconds g.board.minutes g.board.seconds
    let g' := runSections run ((Section.simStartStop (some true)).run t g).2
    (g'.board.minutes, g'.board.seconds) = minSec (total - ticks run) ∧
      (g'.board.running = true ↔ ticks run < total) ∧
      (total ≤ ticks run → ∀ now, (Section.timerTick.run now g').2 = g') := by
  intro total g'
  obtain ⟨last', h⟩ := counting_run hrun (counting_start hs t)
  refine ⟨h.time, h.running.trans Nat.sub_pos_iff_lt, ?_⟩
  intro hdone now
  rw [Nat.sub_eq_zero_of_le hdone] at h
  exact h.done now

/-- `01:01`, started at 5 s: a tick every second and a half, with polls in between. -/
def overTheMinute : List (ℕ × Section) :=
  [(5700000, .status), (6500000, .timerTick), (6600000, .heartbeat), (8000000, .timerTick),
    (9900000, .refresh)]

theorem simulated_countdown_over_the_minute :
    let g := Shared.boot.setClock 1 1 0
    let g' := runSections overTheMinute ((Section.simStartStop (some true)).run 5000000 g).2
    (g'.board.minutes, g'.board.seconds) = minSec (61 - ticks overTheMinute) ∧
      (g'.board.running = true ↔ ticks overTheMinute < 61) ∧
      (61 ≤ ticks overTheMinute → ∀ now, (Section.timerTick.run now g').2 = g') :=
  simulated_countdown (by decide) (by decide)

end ScoreboardCtrl
