import ScoreboardCtrl.Board.History
import ScoreboardCtrl.Board.Scores
import ScoreboardCtrl.Events.Publish
import ScoreboardCtrl.Events.Status
import ScoreboardCtrl.Serial.Framer

/-!
# What holds of the scoreboard state whenever its mutex is free

`WellFormed` collects the ranges of time and scores, what ties `running` to the time, the two
halves of the pending pair to each other, and `announced` to what is visible. Every critical
section keeps it (`Section.run_wellFormed`), so it holds in every state of every run of either
build (`well_formed_reach`). The times that runs let the UART report are those `read_serial` can pass
on (`readLoop_visits`).
-/

namespace ScoreboardCtrl

/-! ### The run flag and the pending pair -/

/-- A running clock does not show `00:00`, and a pending request has a time. -/
structure Consistent (s : ScoreboardState) : Prop where
  running : s.running = true → (s.minutes, s.seconds) ≠ (0, 0)
  pending : s.pendingRunning.isSome = s.pendingAt.isSome

theorem Shared.publish_consistent {g : Shared} (h : Consistent g.board) :
    Consistent g.publish.board := by
  rw [publish_board]
  exact ⟨h.running, h.pending⟩

/-- A refresh settles `running` by the time, and clears both halves of the pair or none. -/
theorem Shared.refreshRunning_consistent {g : Shared} (now : ℕ)
    (h : g.board.pendingRunning.isSome = g.board.pendingAt.isSome) :
    Consistent (g.refreshRunning now).board := by
  rw [refreshRunning_board]
  refine ⟨fun hrun => (clockIsRunning_iff.1 hrun).1, ?_⟩
  show (g.board.stillPending now).isSome =
    (if (g.board.stillPending now).isNone then none else g.board.pendingAt).isSome
  cases hp : g.board.stillPending now with
  | none => rfl
  | some w =>
    obtain ⟨hpend, -⟩ := resolvePendingRunning_eq_some.1 hp
    rw [hpend] at h
    exact h

theorem Shared.setClock_consistent {g : Shared} (h : Consistent g.board) (m s now : ℕ) :
    Consistent (g.setClock m s now).board := refreshRunning_consistent now h.pending

theorem Shared.startStopPulseFor_consistent {g : Shared} (h : Consistent g.board)
    (want : Option Bool) (now : ℕ) : Consistent (g.startStopPulseFor want now).2.board := by
  have hrefresh := refreshRunning_consistent now h.pending
  rw [startStopPulseFor_snd]
  split
  · exact ⟨hrefresh.running, rfl⟩
  · exact hrefresh

theorem Section.score_consistent {may : ScoreboardState → Bool}
    {move : ScoreboardState → ScoreboardState} {g : Shared}
    (hmove : Consistent g.board → Consistent (move g.board)) (h : Consistent g.board) :
    Consistent (score may move g).2.board := by
  unfold score
  cases may g.board with
  | false => exact h
  | true => exact Shared.publish_consistent (hmove h)

theorem Section.run_consistent (sec : Section) (now : ℕ) {g : Shared} (h : Consistent g.board) :
    Consistent (sec.run now g).2.board := by
  cases sec with
  | setLed on => exact Shared.publish_consistent ⟨h.running, h.pending⟩
  | startStop want => exact Shared.startStopPulseFor_consistent h want now
  | homeInc => exact score_consistent (fun h => ⟨h.running, h.pending⟩) h
  | homeDec => exact score_consistent (fun h => ⟨h.running, h.pending⟩) h
  | awayInc => exact score_consistent (fun h => ⟨h.running, h.pending⟩) h
  | awayDec => exact score_consistent (fun h => ⟨h.running, h.pending⟩) h
  | scoresZero => exact Shared.publish_consistent ⟨h.running, h.pending⟩
  | reset => exact ⟨h.running, rfl⟩
  | setClock m s => exact Shared.setClock_consistent h m s now
  | simStartStop want => exact Shared.refreshRunning_consistent now h.pending
  | simReset => exact Shared.refreshRunning_consistent now h.pending
  | simSetTimer m s =>
    exact Shared.refreshRunning_consistent now (Shared.setClock_consistent h m s now).pending
  | timerTick =>
    show Consistent (runTimerTick now g).board
    unfold runTimerTick
    split
    · simp only
      split
      · exact Shared.setClock_consistent h _ _ now
      · split
        · exact Shared.setClock_consistent h _ _ now
        · exact Shared.refreshRunning_consistent now h.pending
    · exact h
  | heartbeat => exact Shared.refreshRunning_consistent now h.pending
  | status => exact Shared.refreshRunning_consistent now h.pending
  | refresh => exact Shared.refreshRunning_consistent now h.pending
  | readLed | snapshot | stopWait => exact h

/-! ### Sections -/

/-- **The invariant of the scoreboard state.** -/
structure WellFormed (g : Shared) : Prop extends Announced g, Consistent g.board where
  home : g.board.home ≤ scoreMax
  away : g.board.away ≤ scoreMax

theorem Section.run_wellFormed {sec : Section} (hsec : sec.inRange) (now : ℕ) {g : Shared}
    (h : WellFormed g) : WellFormed (sec.run now g).2 := by
  have hscores := sec.run_scores_le now ⟨h.home, h.away⟩
  exact ⟨(run_announces hsec h.toAnnounced now).1, sec.run_consistent now h.toConsistent,
    hscores.1, hscores.2⟩

theorem Shared.boot_wellFormed : WellFormed Shared.boot :=
  ⟨boot_announced, ⟨by rintro ⟨⟩, rfl⟩, by decide, by decide⟩

/-- What the other tasks may do stays in range: `parse_clock_packet` rejects the rest. -/
theorem Section.visitor_inRange {sim : Bool} {sec : Section} (h : sec.visitor sim = true) :
    sec.inRange := by
  cases sec with
  | setClock m s =>
    simp only [visitor, Bool.and_eq_true, decide_eq_true_eq] at h
    exact ⟨h.1.2, h.2⟩
  | simSetTimer m s => cases h
  | _ => trivial

theorem Showable.visitor {v : UInt8 × UInt8} (h : Showable v) :
    (Section.setClock v.1.toNat v.2.toNat).visitor false = true := by
  have hminutes : v.1.toNat ≤ 99 := UInt8.le_iff_toNat_le.1 h.1
  have hseconds : v.2.toNat ≤ 59 := UInt8.le_iff_toNat_le.1 h.2
  simp [Section.visitor, hminutes, hseconds]

/-- **Whatever the UART brings, `read_serial` passes on what the environment may report.** -/
theorem readLoop_visits (reads : List Read) :
    ∃ s out, readLoop.run reads Framer.init = some (s, out) ∧
      ∀ v ∈ out, (Section.setClock v.1.toNat v.2.toNat).visitor false = true := by
  obtain ⟨s, out, hrun, hs⟩ := readLoop_sound reads Framer.init_inRange
  exact ⟨s, out, hrun, fun v hv => (hs.2 v hv).visitor⟩

/-- `board_task` clamps what it sets. -/
theorem boardTask_inRange (sim : Bool) (p : Pending) :
    (boardTask sim p).All (BoardOp.Enters Section.inRange) := by
  refine boardTask_enters p (fun _ => trivial) ?_
  intro cmd
  cases cmd with
  | setTimer m s => cases sim <;> simp [Command.sections, Section.inRange]
  | _ => cases sim <;> simp [Command.sections, Section.inRange]

/-! ### Runs -/

theorem WellFormed.exec {o : BoardOp} (ho : o.Enters Section.inRange) {w w' : World} {r : o.Ret}
    (h : WellFormed w.shared) (he : o.exec w = some (r, w')) : WellFormed w'.shared := by
  cases o with
  | lock sec =>
    cases he
    exact sec.run_wellFormed ho w.now h
  | setPin pin high => cases he; exact h
  | gpioSet on => cases he; exact h
  | afterMillis ms =>
    simp only [BoardOp.exec] at he
    split at he
    · cases he; exact h
    · cases he
  | receive =>
    simp only [BoardOp.exec] at he
    split at he
    · cases he
    · cases he; exact h
  | tryReceive =>
    simp only [BoardOp.exec] at he
    split at he
    · cases he; exact h
    · cases he; exact h

theorem WellFormed.env {sim : Bool} {a : Action} {w w' : World} (h : WellFormed w.shared)
    (ha : a.apply sim w = some w') : WellFormed w'.shared := by
  rcases Action.apply_cases ha with
    ⟨-, hs, -⟩ | ⟨sec, hsec, -, hs, -⟩ | ⟨cmd, -, -, hs, -⟩ | ⟨-, hs, -⟩
  · exact hs ▸ h
  · exact hs ▸ sec.run_wellFormed (Section.visitor_inRange hsec) w.now h
  · exact hs ▸ h
  · exact hs ▸ h

/-- **The scoreboard state is well formed in every state of every run**, of both builds and with
any commands, and the JSON snapshot shows the stored time. -/
theorem well_formed_reach {sim : Bool} {allow : Command → Prop} {w : World} {k : BoardProg Pending}
    (h : (boardSystem sim allow).Reach ⟨World.boot, .ret .zero⟩ ⟨w, k⟩) :
    WellFormed w.shared ∧ ∀ rel now, (statusOf rel w.shared.board now).time.parts =
      (w.shared.board.minutes, w.shared.board.seconds) := by
  have hexec : ∀ o s r s', BoardOp.Enters Section.inRange o →
      (boardSystem sim allow).exec o s r s' → WellFormed s.shared → WellFormed s'.shared :=
    fun _ _ _ _ ho he hI => hI.exec ho he
  have henv : ∀ s s', (boardSystem sim allow).env s s' → WellFormed s.shared →
      WellFormed s'.shared := by
    rintro s s' ⟨a, -, ha⟩ hI
    exact hI.env ha
  have hw : WellFormed w.shared := (Lib.Solo.inv_reach (boardTask_inRange sim) hexec henv h trivial
    Shared.boot_wellFormed).1
  refine ⟨hw, fun rel now => ?_⟩
  show (TimeStr.fromParts _ _).parts = _
  rw [TimeStr.parts_fromParts, Nat.min_eq_left hw.minutes, Nat.min_eq_left hw.seconds]

/-- A start of the simulate build, and its first tick. -/
def simulatedTick : List (Option Action) :=
  [some (.send .start), none, none, none, none, some (.elapse 50000), none, none, none,
    some (.elapse 50000), none, none, none, some (.elapse 900000), some (.visit .timerTick)]

def simulatedConf : BoardConf := (play true simulatedTick ⟨World.boot, .ret .zero⟩).get rfl

theorem well_formed_reach_tick :
    WellFormed simulatedConf.state.shared ∧
      ∀ rel now, (statusOf rel simulatedConf.state.shared.board now).time.parts =
        (simulatedConf.state.shared.board.minutes, simulatedConf.state.shared.board.seconds) := by
  have hrun : (boardSystem true fun _ => True).Reach ⟨World.boot, .ret .zero⟩ simulatedConf :=
    play_reach (by decide) (Option.some_get _).symm
  exact well_formed_reach hrun

end ScoreboardCtrl
