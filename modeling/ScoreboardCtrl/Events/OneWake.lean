import ScoreboardCtrl.Board.History

/-!
# One wake for each visible change

`publish` compares with the tuple it last announced, not with the one before the section. In the hardware
build no section calls it twice, and between two sections the announced tuple is the visible one; so a
section sends one message if something visible is new after it, and none else (`Section.run_wakes`).

* `sent_eq_changes` — the messages of a run are its visible changes;
* `idle_run` — frames that repeat the time shown, status polls and rejected score commands send nothing
  while the run flag is up to date, and inside the window of two seconds it is (`FlagSettled`).
-/

namespace ScoreboardCtrl

/-! ### One section -/

/-- `g'` comes after `g` with one message if something visible is new, and with none else. -/
structure Wakes (g g' : Shared) : Prop where
  announced : g'.board.announced = g'.board.visible
  sent : g'.sent = g.sent + if g'.board.visible ≠ g.board.visible then 1 else 0

variable {g g₁ g₂ : Shared}

/-- What no stream shows wakes none. -/
theorem Wakes.hidden (h : Wakes g g₁) (hvis : g₂.board.visible = g₁.board.visible)
    (hann : g₂.board.announced = g₁.board.announced) (hsent : g₂.sent = g₁.sent) : Wakes g g₂ := by
  refine ⟨?_, ?_⟩
  · rw [hann, hvis]
    exact h.announced
  · rw [hsent, hvis]
    exact h.sent

theorem Wakes.refl (h : g.board.announced = g.board.visible) : Wakes g g := ⟨h, by simp⟩

/-- **One `publish`**, whatever was changed before it. -/
theorem Shared.publish_wakes (h : g.board.announced = g.board.visible)
    (hann : g₁.board.announced = g.board.announced) (hsent : g₁.sent = g.sent) :
    Wakes g g₁.publish := by
  have hvis : g₁.publish.board.visible = g₁.board.visible := by
    rw [publish_board]
    rfl
  refine ⟨?_, ?_⟩
  · rw [hvis, publish_board]
  · rw [publish_sent, hvis, hann, h, hsent]
    split <;> rfl

theorem Shared.refreshRunning_wakes (h : g.board.announced = g.board.visible) (now : ℕ) :
    Wakes g (g.refreshRunning now) := publish_wakes h rfl rfl

theorem Section.score_wakes {may : ScoreboardState → Bool} {move : ScoreboardState → ScoreboardState}
    (h : g.board.announced = g.board.visible) (hann : ∀ s, (move s).announced = s.announced) :
    Wakes g (score may move g).2 := by
  unfold score
  cases may g.board with
  | false => exact .refl h
  | true => exact Shared.publish_wakes h (hann _) rfl

/-- **A section of the hardware build wakes the streams once, if something visible is new.** -/
theorem Section.run_wakes {sec : Section} (hsec : sec.hardware = true)
    (h : g.board.announced = g.board.visible) (now : ℕ) : Wakes g (sec.run now g).2 := by
  cases sec with
  | setLed on => exact Shared.publish_wakes h rfl rfl
  | startStop want =>
    have hrefresh := Shared.refreshRunning_wakes h now
    show Wakes g (g.startStopPulseFor want now).2
    rw [Shared.startStopPulseFor_snd]
    split
    · exact hrefresh.hidden rfl rfl rfl
    · exact hrefresh
  | homeInc | homeDec | awayInc | awayDec =>
    refine score_wakes h ?_
    intro s
    rfl
  | scoresZero => exact Shared.publish_wakes h rfl rfl
  | setClock m s => exact Shared.publish_wakes h rfl rfl
  | heartbeat | status | refresh => exact Shared.refreshRunning_wakes h now
  | reset => exact (Wakes.refl h).hidden rfl rfl rfl
  | readLed | snapshot | stopWait => exact .refl h
  | simStartStop want => cases hsec
  | simReset | timerTick => cases hsec
  | simSetTimer m s => cases hsec

/-! ### Runs -/

/-- How many of the sections leave something visible that was not there before. -/
def visibleChanges : List (ℕ × Section) → Shared → ℕ
  | [], _ => 0
  | e :: mid, g =>
    (if (e.2.run e.1 g).2.board.visible ≠ g.board.visible then 1 else 0) +
      visibleChanges mid (e.2.run e.1 g).2

/-- The sections are those of the hardware build. -/
def Hardware (mid : List (ℕ × Section)) : Prop := ∀ e ∈ mid, e.2.hardware = true

instance (mid : List (ℕ × Section)) : Decidable (Hardware mid) :=
  inferInstanceAs (Decidable (∀ e ∈ mid, e.2.hardware = true))

variable {mid : List (ℕ × Section)}

theorem announced_run (hmid : Hardware mid) (h : g.board.announced = g.board.visible) :
    (runSections mid g).board.announced = (runSections mid g).board.visible := by
  induction mid generalizing g with
  | nil => exact h
  | cons e mid ih =>
    obtain ⟨he, hmid⟩ := List.forall_mem_cons.1 hmid
    exact ih hmid (e.2.run_wakes he h e.1).announced

/-- **The messages of a run are its visible changes.** -/
theorem sent_eq_changes (hmid : Hardware mid) (h : g.board.announced = g.board.visible) :
    (runSections mid g).sent = g.sent + visibleChanges mid g := by
  induction mid generalizing g with
  | nil => rfl
  | cons e mid ih =>
    obtain ⟨he, hmid⟩ := List.forall_mem_cons.1 hmid
    have hwakes := e.2.run_wakes he h e.1
    rw [runSections, ih hmid hwakes.announced, hwakes.sent, visibleChanges, Nat.add_assoc]

/-! ### The run flag between refreshes -/

/-- By `t` the run flag is that of a refresh at which MM:SS was the one shown now. -/
def FlagSettled (t : ℕ) (g : Shared) : Prop :=
  ∃ r ≤ t, (∀ c, g.board.lastChange = some c → c ≤ r) ∧ g.board.running = g.board.uart.running r

theorem Shared.boot_flagSettled : FlagSettled 0 Shared.boot := ⟨0, Nat.le_refl 0, by rintro c ⟨⟩, rfl⟩

theorem FlagSettled.mono {t t' : ℕ} (h : FlagSettled t g) (hle : t ≤ t') : FlagSettled t' g := by
  obtain ⟨r, hr, hchange, hrun⟩ := h
  exact ⟨r, Nat.le_trans hr hle, hchange, hrun⟩

theorem FlagSettled.run {t now : ℕ} (h : FlagSettled t g) (hle : t ≤ now) {sec : Section}
    (hsec : sec.hardware = true) : FlagSettled now (sec.run now g).2 := by
  obtain ⟨r, hr, hchange, hrun⟩ := h
  have huart := Section.run_uart hsec now g
  have hlast : ∀ c, (sec.run now g).2.board.lastChange = some c →
      (sec.onUart now g.board.uart).lastChange = some c := by
    intro c hc
    rw [← huart]
    exact hc
  have hrunning := Section.run_running hsec now g
  by_cases href : sec.refreshes = true
  · rw [if_pos href] at hrunning
    refine ⟨now, Nat.le_refl now, fun c hc => ?_, by rw [hrunning, huart]⟩
    have hc := hlast c hc
    cases sec with
    | setClock m s =>
      simp only [Section.onUart, Uart.accept] at hc
      split at hc
      · exact Nat.le_of_eq (Option.some.inj hc).symm
      · exact Nat.le_trans (hchange c hc) (Nat.le_trans hr hle)
    | _ => exact Nat.le_trans (hchange c hc) (Nat.le_trans hr hle)
  · rw [if_neg href] at hrunning
    have hkeep : sec.onUart now g.board.uart = g.board.uart := by
      cases sec with
      | setClock m s => exact absurd rfl href
      | _ => rfl
    rw [hkeep] at huart hlast
    exact ⟨r, Nat.le_trans hr hle, fun c hc => hchange c (hlast c hc), by rw [hrunning, huart, hrun]⟩

/-- The sections stand in the order of their times. -/
def Timed (mid : List (ℕ × Section)) : Prop := mid.Pairwise fun e e' => e.1 ≤ e'.1

instance (mid : List (ℕ × Section)) : Decidable (Timed mid) :=
  inferInstanceAs (Decidable (mid.Pairwise fun e e' => e.1 ≤ e'.1))

theorem settled_run {t t' : ℕ} (hmid : Hardware mid) (htimed : Timed mid)
    (hfrom : ∀ e ∈ mid, t ≤ e.1) (hto : ∀ e ∈ mid, e.1 ≤ t') (hle : t ≤ t') (h : FlagSettled t g) :
    FlagSettled t' (runSections mid g) := by
  induction mid generalizing g t with
  | nil => exact h.mono hle
  | cons e mid ih =>
    obtain ⟨he, hmid⟩ := List.forall_mem_cons.1 hmid
    obtain ⟨hhead, htimed⟩ := List.pairwise_cons.1 htimed
    obtain ⟨hnow, hto⟩ := List.forall_mem_cons.1 hto
    exact ih hmid htimed hhead hto hnow (h.run (hfrom e List.mem_cons_self) he)

/-- The refresh is made while a running clock is inside its window of two seconds. -/
def InWindow (s : ScoreboardState) (t : ℕ) : Prop :=
  s.running = true → ∀ c ∈ s.lastChange, t < c + 2000 * 1000

instance (s : ScoreboardState) (t : ℕ) : Decidable (InWindow s t) :=
  inferInstanceAs (Decidable (s.running = true → ∀ c ∈ s.lastChange, t < c + 2000 * 1000))

/-- Inside the window a refresh finds the run flag as it is. -/
theorem FlagSettled.running {t : ℕ} (h : FlagSettled t g) (hwindow : InWindow g.board t) :
    g.board.uart.running t = g.board.running := by
  obtain ⟨r, hr, -, hrun⟩ := h
  cases hflag : g.board.running with
  | false =>
    -- a stopped clock stays stopped
    by_contra hne
    have := Uart.running_anti hr (by simpa using hne)
    rw [← hrun, hflag] at this
    cases this
  | true =>
    obtain ⟨hzero, c, hc, -⟩ := Uart.running_iff.1 (hrun.symm.trans hflag)
    exact Uart.running_iff.2 ⟨hzero, c, hc, hwindow hflag c hc⟩

/-! ### Sections that ask for nothing new -/

/-- A frame that shows the time shown, a status poll, a score command that is rejected. -/
def Section.idleOn (v : Visible) : Section → Bool
  | .setClock m s => decide (m = v.minutes ∧ s = v.seconds)
  | .status => true
  | .homeInc => !decide (v.home < scoreMax)
  | .homeDec => !decide (v.home > 0)
  | .awayInc => !decide (v.away < scoreMax)
  | .awayDec => !decide (v.away > 0)
  | _ => false

theorem Section.idleOn_hardware {v : Visible} {sec : Section} (h : sec.idleOn v = true) :
    sec.hardware = true := by
  cases sec with
  | setClock m s => rfl
  | status | homeInc | homeDec | awayInc | awayDec => rfl
  | _ => cases h

theorem Shared.refreshRunning_visible (now : ℕ) (g : Shared) :
    (g.refreshRunning now).board.visible =
      { g.board.visible with running := g.board.uart.running now } := by
  rw [refreshRunning_board]
  rfl

theorem Shared.refreshRunning_idle {now : ℕ} (h : g.board.uart.running now = g.board.running) :
    (g.refreshRunning now).board.visible = g.board.visible := by
  rw [refreshRunning_visible, h]
  rfl

theorem Section.score_rejected {may : ScoreboardState → Bool}
    {move : ScoreboardState → ScoreboardState} (h : (!may g.board) = true) :
    (score may move g).2.board.visible = g.board.visible ∧
      (score may move g).2.board.uart = g.board.uart := by
  have hmay : may g.board = false := by simpa using h
  simp only [score, hmay, Bool.false_eq_true, if_false, and_self]

theorem Section.run_idle {sec : Section} (h : sec.idleOn g.board.visible = true) {now : ℕ}
    (hrun : sec.refreshes = true → g.board.uart.running now = g.board.running) :
    (sec.run now g).2.board.visible = g.board.visible ∧
      (sec.run now g).2.board.uart = g.board.uart := by
  cases sec with
  | setClock m s =>
    obtain ⟨rfl, rfl⟩ : m = g.board.minutes ∧ s = g.board.seconds := of_decide_eq_true h
    simp only [run, Shared.setClock_same]
    exact ⟨Shared.refreshRunning_idle (hrun rfl), Shared.refreshRunning_uart now g⟩
  | status => exact ⟨Shared.refreshRunning_idle (hrun rfl), Shared.refreshRunning_uart now g⟩
  | homeInc | homeDec | awayInc | awayDec => exact score_rejected h
  | _ => cases h

theorem idle_run (h : g.board.announced = g.board.visible)
    (hmid : ∀ e ∈ mid, e.2.idleOn g.board.visible = true ∧
      (e.2.refreshes = true → g.board.uart.running e.1 = g.board.running)) :
    (runSections mid g).sent = g.sent := by
  induction mid generalizing g with
  | nil => rfl
  | cons e mid ih =>
    obtain ⟨⟨hidle, hrun⟩, hmid⟩ := List.forall_mem_cons.1 hmid
    obtain ⟨hvis, huart⟩ := Section.run_idle hidle hrun
    have hflag : (e.2.run e.1 g).2.board.running = g.board.running := congrArg Visible.running hvis
    have hwakes := e.2.run_wakes (Section.idleOn_hardware hidle) h e.1
    have hsent : (e.2.run e.1 g).2.sent = g.sent := by
      rw [hwakes.sent, if_neg (not_not.2 hvis), Nat.add_zero]
    rw [runSections, ih hwakes.announced (by rw [hvis, huart, hflag]; exact hmid), hsent]

/-- **One wake for each visible change.** In every run of sections of the hardware build from power-on,
as many messages are sent to `EVENTS` as there are sections after which something visible is different.
Then any number of frames that repeat the time shown, status polls and rejected score commands send
nothing, as long as those that refresh a running clock come inside its window. -/
theorem one_wake_per_change {past : List (ℕ × Section)} (hpast : Hardware past) :
    (runSections past Shared.boot).sent = visibleChanges past Shared.boot ∧
      ∀ mid, Timed (past ++ mid) →
        (∀ e ∈ mid, e.2.idleOn (runSections past Shared.boot).board.visible = true ∧
          (e.2.refreshes = true → InWindow (runSections past Shared.boot).board e.1)) →
        (runSections (past ++ mid) Shared.boot).sent = (runSections past Shared.boot).sent := by
  refine ⟨(sent_eq_changes hpast rfl).trans (Nat.zero_add _), ?_⟩
  intro mid htimed hmid
  obtain ⟨hpastTimed, -, hbefore⟩ := List.pairwise_append.1 htimed
  rw [runSections_append]
  refine idle_run (announced_run hpast rfl) ?_
  intro e he
  have hsettled : FlagSettled e.1 (runSections past Shared.boot) :=
    settled_run hpast hpastTimed (fun _ _ => Nat.zero_le _) (fun e' he' => hbefore e' he' e he)
      (Nat.zero_le _) Shared.boot_flagSettled
  exact ⟨(hmid e he).1, fun href => hsettled.running ((hmid e he).2 href)⟩

/-- A tick; then the same frame again, a poll, and a score taken back at 0. -/
theorem one_wake_per_change_tick :
    (runSections [(1000000, .setClock 7 29)] Shared.boot).sent =
        visibleChanges [(1000000, .setClock 7 29)] Shared.boot ∧
      (runSections ([(1000000, .setClock 7 29)] ++
          [(1100000, .setClock 7 29), (1500000, .status), (2000000, .homeDec)]) Shared.boot).sent =
        (runSections [(1000000, .setClock 7 29)] Shared.boot).sent := by
  have h := one_wake_per_change (show Hardware [(1000000, .setClock 7 29)] by decide)
  exact ⟨h.1, h.2 _ (by decide) (by decide)⟩

/-! ### The board system -/

/-- The critical section of an entry. -/
def Entry.section (e : Entry) : Option (ℕ × Section) :=
  match e.event with
  | .lock sec => some (e.time, sec)
  | _ => none

/-- The sections of a history, in order. -/
def sectionsOf (hist : List Entry) : List (ℕ × Section) := hist.reverse.filterMap Entry.section

theorem replay_sections (g₀ : Shared) (hist : List Entry) :
    replay g₀ hist = runSections (sectionsOf hist) g₀ := by
  induction hist with
  | nil => rfl
  | cons e past ih =>
    obtain ⟨t, event⟩ := e
    have hnew : sectionsOf (⟨t, event⟩ :: past) =
        sectionsOf past ++ (Entry.section ⟨t, event⟩).toList := by
      unfold sectionsOf
      rw [List.reverse_cons, List.filterMap_append]
      cases event <;> rfl
    rw [replay, ih, hnew, runSections_append]
    cases event <;> rfl

/-- In every run of the hardware build the messages are the visible changes. -/
theorem wakes_reach {allow : Command → Prop} {w : World} {k : BoardProg Pending}
    (h : (boardSystem false allow).Reach ⟨World.boot, .ret .zero⟩ ⟨w, k⟩) :
    w.shared.sent = visibleChanges (sectionsOf w.hist) Shared.boot := by
  obtain ⟨hreplayed, hhw⟩ := recorded_reach h World.boot_recorded
  have hsections : Hardware (sectionsOf w.hist) := by
    intro e he
    obtain ⟨e', he', hsome⟩ := List.mem_filterMap.1 he
    obtain ⟨t, event⟩ := e'
    cases event with
    | lock sec =>
      cases hsome
      exact hhw _ (List.mem_reverse.1 he') sec rfl
    | _ => cases hsome
  have hshared : w.shared = runSections (sectionsOf w.hist) Shared.boot := by
    rw [← replay_sections]
    exact hreplayed
  rw [hshared, sent_eq_changes hsections rfl]
  exact Nat.zero_add _

end ScoreboardCtrl
