import ScoreboardCtrl.Section

/-!
# Every visible change is announced

`publish` sends to `EVENTS` when the visible tuple differs from the one it last announced. Every
critical section that changes something visible ends in it, so between two sections the announced
tuple is the visible one (`Announced`), and a section that sends nothing changed nothing visible
(`Section.run_announces`). A section that forgot its `publish` would break the first.
-/

namespace ScoreboardCtrl

/-- The streams were told of what is visible, and MM:SS is one the board can show. -/
structure Announced (g : Shared) : Prop where
  announced : g.board.announced = g.board.visible
  minutes : g.board.minutes ≤ 99
  seconds : g.board.seconds ≤ 59

/-- `g'` comes after `g`: without a new message, nothing visible is new. -/
structure Follows (g g' : Shared) : Prop where
  sent : g.sent ≤ g'.sent
  visible : g'.sent = g.sent → g'.board.visible = g.board.visible

theorem Follows.refl (g : Shared) : Follows g g := ⟨Nat.le_refl _, fun _ => rfl⟩

theorem Follows.trans {g₁ g₂ g₃ : Shared} (h₁ : Follows g₁ g₂) (h₂ : Follows g₂ g₃) :
    Follows g₁ g₃ := by
  have hsent₁ := h₁.sent
  have hsent₂ := h₂.sent
  refine ⟨by omega, fun h => ?_⟩
  rw [h₂.visible (by omega), h₁.visible (by omega)]

theorem Shared.boot_announced : Announced Shared.boot := ⟨rfl, by decide, by decide⟩

/-- The sections with the values their callers pass: MM:SS as parsed or clamped. -/
def Section.inRange : Section → Prop
  | .setClock m s | .simSetTimer m s => m ≤ 99 ∧ s ≤ 59
  | _ => True

/-- What a section may do: announce what it changed. -/
def Announces (g g' : Shared) : Prop := Announced g' ∧ Follows g g'

theorem Announces.trans {g₁ g₂ g₃ : Shared} (h₁ : Announces g₁ g₂) (h₂ : Announces g₂ g₃) :
    Announces g₁ g₃ := ⟨h₂.1, h₁.2.trans h₂.2⟩

theorem Shared.publish_announces {g g₁ : Shared} (h : Announced g)
    (hann : g₁.board.announced = g.board.announced) (hsent : g₁.sent = g.sent)
    (hmin : g₁.board.minutes ≤ 99) (hsec : g₁.board.seconds ≤ 59) :
    Announces g g₁.publish := by
  have hboard := publish_board g₁
  have hvis : g₁.publish.board.visible = g₁.board.visible := by
    rw [hboard]
    rfl
  refine ⟨⟨?_, ?_, ?_⟩, ?_, fun hsame => ?_⟩
  · rw [hvis, hboard]
  · rw [hboard]
    exact hmin
  · rw [hboard]
    exact hsec
  · rw [publish_sent]
    split <;> omega
  · rw [hvis]
    by_contra hne
    rw [publish_sent, if_pos, hsent] at hsame
    · omega
    · rw [hann, h.announced]
      exact hne

theorem Shared.refreshRunning_announces {g : Shared} (h : Announced g) (now : ℕ) :
    Announces g (g.refreshRunning now) :=
  publish_announces h rfl rfl h.minutes h.seconds

theorem Shared.setClock_announces {g : Shared} (h : Announced g) {m s : ℕ} (hm : m ≤ 99)
    (hs : s ≤ 59) (now : ℕ) : Announces g (g.setClock m s now) :=
  publish_announces h rfl rfl hm hs

/-- Changes to what no stream shows need no message. -/
theorem announces_of_hidden {g g' : Shared} (h : Announced g) (hvis : g'.board.visible = g.board.visible)
    (hann : g'.board.announced = g.board.announced) (hsent : g'.sent = g.sent) :
    Announces g g' := by
  have hmin : g'.board.minutes = g.board.minutes := congrArg Visible.minutes hvis
  have hsec : g'.board.seconds = g.board.seconds := congrArg Visible.seconds hvis
  refine ⟨⟨by rw [hann, h.announced, hvis], ?_, ?_⟩, by omega, fun _ => hvis⟩
  · rw [hmin]
    exact h.minutes
  · rw [hsec]
    exact h.seconds

theorem Shared.startStopPulseFor_announces {g : Shared} (h : Announced g) (want : Option Bool)
    (now : ℕ) : Announces g (g.startStopPulseFor want now).2 := by
  have hrefresh := refreshRunning_announces h now
  rw [startStopPulseFor_snd]
  split
  · exact hrefresh.trans (announces_of_hidden hrefresh.1 rfl rfl rfl)
  · exact hrefresh

theorem Section.score_announces {may : ScoreboardState → Bool}
    {move : ScoreboardState → ScoreboardState} {g : Shared} (h : Announced g)
    (hann : ∀ s, (move s).announced = s.announced) (hmin : ∀ s, (move s).minutes = s.minutes)
    (hsec : ∀ s, (move s).seconds = s.seconds) : Announces g (score may move g).2 := by
  unfold score
  cases may g.board with
  | false => exact ⟨h, .refl g⟩
  | true =>
    refine Shared.publish_announces h (hann _) rfl ?_ ?_
    · exact (hmin _).symm ▸ h.minutes
    · exact (hsec _).symm ▸ h.seconds

theorem Section.runTimerTick_announces {g : Shared} (h : Announced g) (now : ℕ) :
    Announces g (runTimerTick now g) := by
  have hmin := h.minutes
  have hsec := h.seconds
  unfold runTimerTick
  split
  · simp only
    split
    · exact Shared.setClock_announces h hmin (by omega) now
    · split
      · exact Shared.setClock_announces h (by omega) (by omega) now
      · exact Shared.publish_announces h rfl rfl hmin hsec
  · exact ⟨h, .refl g⟩

/-- **Every critical section announces what it changed.** -/
theorem Section.run_announces {sec : Section} (hsec : sec.inRange) {g : Shared} (h : Announced g)
    (now : ℕ) : Announces g (sec.run now g).2 := by
  have hscore : ∀ {may move}, (∀ s : ScoreboardState, (move s).announced = s.announced) →
      (∀ s, (move s).minutes = s.minutes) → (∀ s, (move s).seconds = s.seconds) →
      Announces g (score may move g).2 := score_announces h
  cases sec with
  | setLed on => exact Shared.publish_announces h rfl rfl h.minutes h.seconds
  | startStop want => exact Shared.startStopPulseFor_announces h want now
  | homeInc => exact hscore (fun _ => rfl) (fun _ => rfl) (fun _ => rfl)
  | homeDec => exact hscore (fun _ => rfl) (fun _ => rfl) (fun _ => rfl)
  | awayInc => exact hscore (fun _ => rfl) (fun _ => rfl) (fun _ => rfl)
  | awayDec => exact hscore (fun _ => rfl) (fun _ => rfl) (fun _ => rfl)
  | scoresZero => exact Shared.publish_announces h rfl rfl h.minutes h.seconds
  | setClock m s => exact Shared.setClock_announces h hsec.1 hsec.2 now
  | simStartStop want => exact Shared.publish_announces h rfl rfl h.minutes h.seconds
  | simReset => exact Shared.publish_announces h rfl rfl h.minutes h.seconds
  | simSetTimer m s =>
    have hset := Shared.setClock_announces h hsec.1 hsec.2 now
    exact hset.trans (Shared.publish_announces hset.1 rfl rfl hset.1.minutes hset.1.seconds)
  | timerTick => exact runTimerTick_announces h now
  | heartbeat => exact Shared.refreshRunning_announces h now
  | status => exact Shared.refreshRunning_announces h now
  | refresh => exact Shared.refreshRunning_announces h now
  | reset => exact announces_of_hidden h rfl rfl rfl
  | readLed => exact ⟨h, .refl g⟩
  | snapshot => exact ⟨h, .refl g⟩
  | stopWait => exact ⟨h, .refl g⟩

end ScoreboardCtrl
