import ScoreboardCtrl.Board.History

/-!
# Time and `running` follow the UART only

Two runs of the hardware build on the same reports, with any commands, polls, heartbeats and event
streams interleaved in any way: after a refresh both show the same time and the same `running`,
and both are a function of the reports (`time_and_running_follow_uart`).
-/

namespace ScoreboardCtrl

/-- MM:SS of the newest report; `07:30` before the first. -/
def latest : List Report → ℕ × ℕ
  | [] => (periodMin, periodSec)
  | r :: _ => (r.minutes, r.seconds)

/-- When the newest report arrived that showed another MM:SS than the one before it. -/
def lastMove : List Report → Option ℕ
  | [] => none
  | r :: rs => if (r.minutes, r.seconds) ≠ latest rs then some r.time else lastMove rs

theorem uartAfter_boot (rs : List Report) :
    uartAfter Uart.boot rs = ⟨(latest rs).1, (latest rs).2, lastMove rs⟩ := by
  induction rs with
  | nil => rfl
  | cons r rs ih =>
    have hmove : ((latest rs).1 ≠ r.minutes ∨ (latest rs).2 ≠ r.seconds) ↔
        (r.minutes, r.seconds) ≠ latest rs := by
      rw [ne_comm (a := (r.minutes, r.seconds)), ne_eq (latest rs), Prod.ext_iff, not_and_or]
    rw [uartAfter, ih]
    simp only [Uart.accept, hmove]
    rfl

/-- The shared state of a run of the hardware build, right after a refresh at `t`. -/
theorem after_refresh {g₀ : Shared} {w : World} {t : ℕ} {sec : Section} {past : List Entry}
    (hw : Recorded g₀ w) (hnew : w.hist = ⟨t, .lock sec⟩ :: past) (hsec : sec.refreshes = true) :
    w.shared.board.uart = uartAfter g₀.board.uart (reports w.hist) ∧
      w.shared.board.running = w.shared.board.uart.running t := by
  have hshared : w.shared = replay g₀ w.hist := hw.replayed
  have hlast : replay g₀ w.hist = (sec.run t (replay g₀ past)).2 := by
    rw [hnew]
    rfl
  refine ⟨by rw [hshared, replay_uart hw.hardware], ?_⟩
  rw [hshared, hlast]
  exact Section.refreshes_running hsec t _

/-- **Time and `running` follow the UART only.** Right after a refresh at `t`, two runs of the
hardware build on the same reports agree on the time and on `running`, whatever else happened in
them; and the clock runs iff the latest MM:SS is not `00:00` and the last report that moved it
arrived less than 2000 ms before `t`. -/
theorem time_and_running_follow_uart {allow allow' : Command → Prop} {w w' : World}
    {k k' : BoardProg Pending} {t : ℕ} {sec sec' : Section} {past past' : List Entry}
    (hrun : (boardSystem false allow).Reach ⟨World.boot, .ret .zero⟩ ⟨w, k⟩)
    (hrun' : (boardSystem false allow').Reach ⟨World.boot, .ret .zero⟩ ⟨w', k'⟩)
    (hnew : w.hist = ⟨t, .lock sec⟩ :: past) (hsec : sec.refreshes = true)
    (hnew' : w'.hist = ⟨t, .lock sec'⟩ :: past') (hsec' : sec'.refreshes = true)
    (hreports : reports w.hist = reports w'.hist) :
    (w.shared.board.minutes, w.shared.board.seconds, w.shared.board.running) =
        (w'.shared.board.minutes, w'.shared.board.seconds, w'.shared.board.running) ∧
      (w.shared.board.running = true ↔
        latest (reports w.hist) ≠ (0, 0) ∧
          ∃ u, lastMove (reports w.hist) = some u ∧ t < u + 2000 * 1000) := by
  obtain ⟨huart, hrunning⟩ := after_refresh (recorded_reach hrun World.boot_recorded) hnew hsec
  obtain ⟨huart', hrunning'⟩ :=
    after_refresh (recorded_reach hrun' World.boot_recorded) hnew' hsec'
  have hsame : w.shared.board.uart = w'.shared.board.uart := by
    rw [huart, huart', hreports]
  have hminutes : w.shared.board.minutes = w'.shared.board.minutes := congrArg Uart.minutes hsame
  have hseconds : w.shared.board.seconds = w'.shared.board.seconds := congrArg Uart.seconds hsame
  refine ⟨by rw [hminutes, hseconds, hrunning, hrunning', hsame], ?_⟩
  have hboot : w.shared.board.uart = ⟨(latest (reports w.hist)).1, (latest (reports w.hist)).2,
      lastMove (reports w.hist)⟩ := by
    rw [huart]
    exact uartAfter_boot _
  rw [hrunning, hboot, Uart.running_iff]

/-! ### Two runs on one report -/

/-- A report of `07:29` at 1 s, a status poll at 2 s. -/
def polledRun : List (Option Action) :=
  [some (.elapse 1000000), some (.visit (.setClock 7 29)), some (.elapse 1000000),
    some (.visit .status)]

/-- The same report, then a start request, a tap on the home score and a heartbeat. -/
def commandedRun : List (Option Action) :=
  [some (.elapse 1000000), some (.visit (.setClock 7 29)), some (.send .start), none, none, none,
    none, some (.send .homeInc), some (.elapse 1000000), some (.visit .heartbeat)]

def polledConf : BoardConf := (play false polledRun ⟨World.boot, .ret .zero⟩).get rfl

def commandedConf : BoardConf := (play false commandedRun ⟨World.boot, .ret .zero⟩).get rfl

theorem time_and_running_polled_commanded :
    (polledConf.state.shared.board.minutes, polledConf.state.shared.board.seconds,
          polledConf.state.shared.board.running) =
        (commandedConf.state.shared.board.minutes, commandedConf.state.shared.board.seconds,
          commandedConf.state.shared.board.running) ∧
      (polledConf.state.shared.board.running = true ↔
        latest (reports polledConf.state.hist) ≠ (0, 0) ∧
          ∃ u, lastMove (reports polledConf.state.hist) = some u ∧ 2000000 < u + 2000 * 1000) := by
  have hrun : (boardSystem false fun _ => True).Reach ⟨World.boot, .ret .zero⟩ polledConf :=
    play_reach (by decide) (Option.some_get _).symm
  have hrun' : (boardSystem false fun _ => True).Reach ⟨World.boot, .ret .zero⟩ commandedConf :=
    play_reach (by decide) (Option.some_get _).symm
  exact time_and_running_follow_uart hrun hrun' rfl rfl rfl
    rfl (by decide)

end ScoreboardCtrl
