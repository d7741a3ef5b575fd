import ScoreboardCtrl.Board.Sections

/-!
# Scores and the commands that move them

`ScoreboardState.scores`, `Command.applyScores` — the scores and what a command does to them, which
`Section.run_scores` and `Section.run_other` tie to the critical sections.
-/

namespace ScoreboardCtrl

def ScoreboardState.scores (s : ScoreboardState) : ℕ × ℕ := (s.home, s.away)

/-- What a command does to the scores. -/
def Command.applyScores : Command → ℕ × ℕ → ℕ × ℕ
  | .homeInc, s => (if s.1 < scoreMax then s.1 + 1 else s.1, s.2)
  | .homeDec, s => (s.1 - 1, s.2)
  | .awayInc, s => (s.1, if s.2 < scoreMax then s.2 + 1 else s.2)
  | .awayDec, s => (s.1, s.2 - 1)
  | .scoresZero, _ => (0, 0)
  | _, s => s

/-- The sections of the score commands. -/
def Section.ofScores : Section → Bool
  | .homeInc | .homeDec | .awayInc | .awayDec | .scoresZero => true
  | _ => false

theorem Shared.publish_scores (g : Shared) : g.publish.board.scores = g.board.scores := by
  rw [publish_board]
  rfl

theorem Shared.refreshRunning_scores (g : Shared) (now : ℕ) :
    (g.refreshRunning now).board.scores = g.board.scores := by
  rw [refreshRunning_board]
  rfl

theorem Shared.setClock_scores (g : Shared) (m s now : ℕ) :
    (g.setClock m s now).board.scores = g.board.scores := refreshRunning_scores ..

theorem Section.score_scores (may : ScoreboardState → Bool)
    (move : ScoreboardState → ScoreboardState) (g : Shared) :
    (score may move g).2.board.scores = if may g.board then (move g.board).scores else g.board.scores := by
  unfold score
  cases may g.board with
  | true => exact Shared.publish_scores _
  | false => rfl

/-- **A score command's section does to the scores what the command says.** -/
theorem Section.run_scores {c : Command} {sec : Section} (h : c.scoreSection = some sec)
    (now : ℕ) (g : Shared) :
    (sec.run now g).2.board.scores = c.applyScores g.board.scores := by
  cases c with
  | homeInc =>
    cases h
    refine (score_scores _ _ g).trans ?_
    by_cases hlt : g.board.home < scoreMax <;> simp [Command.applyScores, ScoreboardState.scores, hlt]
  | homeDec =>
    cases h
    refine (score_scores _ _ g).trans ?_
    by_cases hlt : g.board.home > 0
    · simp [Command.applyScores, ScoreboardState.scores, hlt]
    · simp [Command.applyScores, ScoreboardState.scores, hlt]
      omega
  | awayInc =>
    cases h
    refine (score_scores _ _ g).trans ?_
    by_cases hlt : g.board.away < scoreMax <;> simp [Command.applyScores, ScoreboardState.scores, hlt]
  | awayDec =>
    cases h
    refine (score_scores _ _ g).trans ?_
    by_cases hlt : g.board.away > 0
    · simp [Command.applyScores, ScoreboardState.scores, hlt]
    · simp [Command.applyScores, ScoreboardState.scores, hlt]
      omega
  | scoresZero =>
    cases h
    exact Shared.publish_scores _
  | startStop | start | stop | reset | ledOn | ledOff | setTimer _ _ | aux => cases h

theorem Command.sections_other (sim : Bool) {c : Command} (h : c.scoreSection = none) :
    ∀ sec ∈ c.sections sim, sec.ofScores = false := by
  cases c with
  | homeInc | homeDec | awayInc | awayDec | scoresZero => cases h
  | startStop | start | stop | reset | ledOn | ledOff | setTimer _ _ | aux =>
    cases sim <;> simp [Command.sections, Section.ofScores]

/-- The handler of any other command enters no section of a score command. -/
theorem handle_visits (sim : Bool) (p : Pending) {c : Command} (h : c.scoreSection = none) :
    (handle sim p c).All (BoardOp.Enters fun sec => sec.ofScores = false) :=
  handle_enters p (Command.sections_other sim h)

/-- **No other section touches the scores.** -/
theorem Section.run_other {sec : Section} (h : sec.ofScores = false) (now : ℕ) (g : Shared) :
    (sec.run now g).2.board.scores = g.board.scores := by
  cases sec with
  | homeInc | homeDec | awayInc | awayDec | scoresZero => cases h
  | setLed on => exact Shared.publish_scores _
  | startStop want =>
    show (g.startStopPulseFor want now).2.board.scores = _
    rw [Shared.startStopPulseFor_snd]
    split <;> exact Shared.refreshRunning_scores g now
  | setClock m s => exact Shared.setClock_scores g m s now
  | simStartStop want => exact Shared.refreshRunning_scores ..
  | simReset => exact Shared.refreshRunning_scores ..
  | simSetTimer m s =>
    exact (Shared.refreshRunning_scores ..).trans (Shared.setClock_scores g m s now)
  | timerTick =>
    show (runTimerTick now g).board.scores = _
    unfold runTimerTick
    split
    · simp only
      split
      · exact Shared.setClock_scores ..
      · split
        · exact Shared.setClock_scores ..
        · exact Shared.refreshRunning_scores ..
    · rfl
  | heartbeat => exact Shared.refreshRunning_scores ..
  | status => exact Shared.refreshRunning_scores ..
  | refresh => exact Shared.refreshRunning_scores ..
  | readLed | reset | snapshot | stopWait => rfl

theorem Command.applyScores_le (c : Command) {s : ℕ × ℕ} (h : s.1 ≤ scoreMax ∧ s.2 ≤ scoreMax) :
    (c.applyScores s).1 ≤ scoreMax ∧ (c.applyScores s).2 ≤ scoreMax := by
  obtain ⟨hhome, haway⟩ := h
  cases c with
  | homeInc =>
    refine ⟨?_, haway⟩
    simp only [applyScores]
    split <;> omega
  | homeDec => exact ⟨Nat.le_trans (Nat.sub_le _ _) hhome, haway⟩
  | awayInc =>
    refine ⟨hhome, ?_⟩
    simp only [applyScores]
    split <;> omega
  | awayDec => exact ⟨hhome, Nat.le_trans (Nat.sub_le _ _) haway⟩
  | scoresZero => exact ⟨Nat.zero_le _, Nat.zero_le _⟩
  | _ => exact ⟨hhome, haway⟩

theorem Section.run_scores_le (sec : Section) (now : ℕ) {g : Shared}
    (h : g.board.home ≤ scoreMax ∧ g.board.away ≤ scoreMax) :
    (sec.run now g).2.board.home ≤ scoreMax ∧ (sec.run now g).2.board.away ≤ scoreMax := by
  have hscore : ∀ c : Command, c.scoreSection = some sec →
      (sec.run now g).2.board.home ≤ scoreMax ∧ (sec.run now g).2.board.away ≤ scoreMax := by
    intro c hc
    have hle := c.applyScores_le (s := g.board.scores) h
    rw [← Section.run_scores hc now g] at hle
    exact hle
  have hother : sec.ofScores = false →
      (sec.run now g).2.board.home ≤ scoreMax ∧ (sec.run now g).2.board.away ≤ scoreMax := by
    intro hsec
    obtain ⟨hhome, haway⟩ := Prod.mk.inj (Section.run_other hsec now g)
    rw [hhome, haway]
    exact h
  cases sec with
  | homeInc => exact hscore .homeInc rfl
  | homeDec => exact hscore .homeDec rfl
  | awayInc => exact hscore .awayInc rfl
  | awayDec => exact hscore .awayDec rfl
  | scoresZero => exact hscore .scoresZero rfl
  | _ => exact hother rfl

end ScoreboardCtrl
