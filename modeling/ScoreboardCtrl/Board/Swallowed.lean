import ScoreboardCtrl.Board.RunControl
import ScoreboardCtrl.Clock.Requests

/-!
# Why a start/stop request is not pulsed

A request for a run state is answered without a pulse where the clock already reads so, or where an
earlier pulse is still expected to bring it about. `PairStep` says what a critical section does to
the pending pair; so the pair is that of a request in the history which no refresh has seen
confirmed (`replay_pair`), and `swallowed_for_cause` follows.
-/

namespace ScoreboardCtrl

/-! ### Sections and the pending pair -/

/-- What a section that takes `g` to `g'` at `now` may do to the pending pair. -/
inductive PairStep (sec : Section) (now : ℕ) (g g' : Shared) : Prop
  | dropped : g'.board.pendingPair = (none, none) → PairStep sec now g g'
  | untouched : sec.refreshes = false → g'.board.pendingPair = g.board.pendingPair →
      PairStep sec now g g'
  /-- a refresh, and the clock does not read as asked -/
  | kept {v : Bool} : g.board.pendingRunning = some v → g'.board.pendingPair = g.board.pendingPair →
      g'.board.running ≠ v → PairStep sec now g g'
  /-- a request that pulses -/
  | asked {want : Option Bool} : sec = .startStop want →
      (g.startStopPulseFor want now).1 = true →
      g'.board.pendingPair = (some (want.getD (!g.board.effective now)), some now) →
      PairStep sec now g g'

/-- A refresh drops the pair, or keeps it where the clock does not read as asked. -/
theorem PairStep.refresh (sec : Section) (now : ℕ) {g g₁ : Shared}
    (hpair : g₁.board.pendingPair = g.board.pendingPair) :
    PairStep sec now g (g₁.refreshRunning now) := by
  have hafter := Shared.refreshRunning_pendingPair now g₁
  cases hstill : g₁.board.stillPending now with
  | none =>
    refine .dropped ?_
    rw [hafter, ScoreboardState.refreshedPair, hstill]
    rfl
  | some v =>
    obtain ⟨hr, hat⟩ := Prod.mk.inj hpair
    obtain ⟨hpending, hne, -⟩ := resolvePendingRunning_eq_some.1 hstill
    refine .kept (v := v) (hr ▸ hpending) ?_ ?_
    · rw [hafter, ScoreboardState.refreshedPair, hstill, ← hpair, ScoreboardState.pendingPair,
        hpending]
      rfl
    · rw [Section.refreshRunning_running]
      exact Ne.symm hne

theorem PairStep.quiet {sec : Section} {g : Shared}
    (h : sec.undisturbing g.board.minutes g.board.seconds = true) (hquiet : sec.refreshes = false)
    (now : ℕ) : PairStep sec now g (sec.run now g).2 := by
  refine .untouched hquiet ?_
  rw [Section.run_pending h, if_neg (by simp [hquiet])]

/-- **Sections of the hardware build.** -/
theorem Section.run_pairStep {sec : Section} (h : sec.hardware = true) (now : ℕ) (g : Shared) :
    PairStep sec now g (sec.run now g).2 := by
  cases sec with
  | startStop want =>
    have hsnd := Shared.startStopPulseFor_snd want now g
    have hfst := Shared.startStopPulseFor_fst want now g
    by_cases hneed : startStopPulseNeeded (g.board.effective now) want = true
    · refine .asked rfl (hfst.trans hneed) ?_
      show (g.startStopPulseFor want now).2.board.pendingPair = _
      rw [hsnd, if_pos hneed]
      rfl
    · show PairStep _ now g (g.startStopPulseFor want now).2
      rw [hsnd, if_neg hneed]
      exact .refresh _ now rfl
  | setClock m s => exact .refresh _ now rfl
  | heartbeat => exact .refresh _ now rfl
  | status => exact .refresh _ now rfl
  | refresh => exact .refresh _ now rfl
  | reset => exact .dropped rfl
  | readLed | snapshot | stopWait => exact .quiet rfl rfl now
  | setLed on => exact .quiet rfl rfl now
  | homeInc | homeDec | awayInc | awayDec | scoresZero => exact .quiet rfl rfl now
  | simStartStop want => cases h
  | simReset => cases h
  | simSetTimer min sec => cases h
  | timerTick => cases h

/-! ### The request in the history -/

/-- The entry, after `past`, is a request that pulses GP1 to bring about `v`. -/
def Entry.AsksFor (g₀ : Shared) (v : Bool) (e : Entry) (past : List Entry) : Prop :=
  ∃ want, e.event = .lock (.startStop want) ∧ answer g₀ past e.time want = true ∧
    want.getD (!(replay g₀ past).board.effective e.time) = v

/-- The entry is a section that refreshes. -/
def Entry.refreshes (e : Entry) : Bool :=
  match e.event with
  | .lock sec => sec.refreshes
  | _ => false

/-- No refresh among `later`, after `past`, read the clock as `v`. -/
def Unseen (g₀ : Shared) (v : Bool) (past : List Entry) : List Entry → Prop
  | [] => True
  | e :: later =>
    (e.refreshes = true → (replay g₀ (e :: (later ++ past))).board.running ≠ v) ∧
      Unseen g₀ v past later

/-- At `τ` a pulse was requested to bring about `v`, and no refresh since then has read the clock
as `v`. -/
def AskedAt (g₀ : Shared) (v : Bool) (τ : ℕ) (hist : List Entry) : Prop :=
  ∃ later e past, hist = later ++ e :: past ∧ e.time = τ ∧ e.AsksFor g₀ v past ∧
    Unseen g₀ v (e :: past) later

variable {g₀ : Shared}

theorem AskedAt.cons {v : Bool} {τ : ℕ} {hist : List Entry} (h : AskedAt g₀ v τ hist) {e : Entry}
    (he : e.refreshes = true → (replay g₀ (e :: hist)).board.running ≠ v) :
    AskedAt g₀ v τ (e :: hist) := by
  obtain ⟨later, e', past, rfl, hτ, hasks, hunseen⟩ := h
  exact ⟨e :: later, e', past, rfl, hτ, hasks, he, hunseen⟩

/-- **The pending pair is that of a request in the history.** -/
theorem replay_pair {hist : List Entry} (hhist : ∀ e ∈ hist, e.Hardware)
    (h₀ : g₀.board.pendingPair = (none, none)) :
    (replay g₀ hist).board.pendingPair = (none, none) ∨
      ∃ v τ, (replay g₀ hist).board.pendingPair = (some v, some τ) ∧ AskedAt g₀ v τ hist := by
  induction hist with
  | nil => exact .inl h₀
  | cons e past ih =>
    obtain ⟨he, hpast⟩ := List.forall_mem_cons.1 hhist
    have ih := ih hpast
    obtain ⟨time, event⟩ := e
    cases event with
    | lock sec =>
      have hstep : PairStep sec time (replay g₀ past) (replay g₀ (⟨time, .lock sec⟩ :: past)) :=
        Section.run_pairStep (he sec rfl) time (replay g₀ past)
      cases hstep with
      | dropped hnone => exact .inl hnone
      | untouched hquiet hpair =>
        rcases ih with hnone | ⟨v, τ, hsome, hasked⟩
        · exact .inl (hpair.trans hnone)
        · refine .inr ⟨v, τ, hpair.trans hsome, hasked.cons fun hrefresh => ?_⟩
          exact absurd (hquiet.symm.trans hrefresh) Bool.false_ne_true
      | @kept v hpending hpair hrunning =>
        rcases ih with hnone | ⟨v', τ, hsome, hasked⟩
        · obtain ⟨hr, -⟩ := Prod.mk.inj hnone
          rw [hpending] at hr
          cases hr
        · obtain ⟨hr, -⟩ := Prod.mk.inj hsome
          obtain rfl : v = v' := Option.some.inj (hpending.symm.trans hr)
          exact .inr ⟨v, τ, hpair.trans hsome, hasked.cons fun _ => hrunning⟩
      | @asked want hsec hanswer hpair =>
        subst hsec
        exact .inr ⟨_, time, hpair, [], _, past, rfl, rfl, ⟨want, rfl, hanswer, rfl⟩, trivial⟩
    | _ =>
      rcases ih with hnone | ⟨v, τ, hsome, hasked⟩
      · exact .inl hnone
      · exact .inr ⟨v, τ, hsome, hasked.cons (by rintro ⟨⟩)⟩

/-! ### Runs -/

/-- A request that is not pulsed finds the clock as asked, or the same request pending for less than
two seconds. -/
theorem Shared.startStopPulseFor_silent {g : Shared} {v : Bool} {t : ℕ}
    (h : (g.startStopPulseFor (some v) t).1 = false) :
    g.board.uartRunning t = v ∨
      g.board.pendingRunning = some v ∧ ∀ τ, g.board.pendingAt = some τ → t < τ + 2000 * 1000 := by
  have heff : g.board.effective t = v := by
    by_contra hne
    have hpulse := startStopPulseFor_some.2 hne
    rw [h] at hpulse
    cases hpulse
  unfold ScoreboardState.effective at heff
  cases hstill : g.board.stillPending t with
  | none =>
    rw [hstill] at heff
    exact .inl heff
  | some v' =>
    rw [hstill] at heff
    obtain rfl : v' = v := heff
    obtain ⟨hpending, -, hage⟩ := resolvePendingRunning_eq_some.1 hstill
    refine .inr ⟨hpending, fun τ hτ => ?_⟩
    simp only [ScoreboardState.pendingAgeMs, hτ, elapsedMs, stoppedAfterMs] at hage
    omega

/-- **No request is swallowed without cause.** In every run of the hardware build, at any time: a
request for `v` goes without a pulse only if the clock, refreshed then, reads as `v`, or if a pulse to
bring about `v` was requested less than two seconds before and no refresh since has read the clock
as `v`. A toggle always has its pulse. -/
theorem swallowed_for_cause {allow : Command → Prop} {w : World} {k : BoardProg Pending}
    (h : (boardSystem false allow).Reach ⟨World.boot, .ret .zero⟩ ⟨w, k⟩) (t : ℕ) :
    (∀ v, (w.shared.startStopPulseFor (some v) t).1 = false →
      w.shared.board.uartRunning t = v ∨
        ∃ τ, τ ≤ w.now ∧ t < τ + 2000 * 1000 ∧ AskedAt Shared.boot v τ w.hist) ∧
      (w.shared.startStopPulseFor none t).1 = true := by
  have hrec := recorded_reach h World.boot_recorded
  have horder : Ordered 0 w.now w.hist := ordered_reach h (Nat.le_refl 0)
  constructor
  · intro v hsilent
    rcases Shared.startStopPulseFor_silent hsilent with hruns | ⟨hpending, hage⟩
    · exact .inl hruns
    have hnothing : Shared.boot.board.pendingPair = (none, none) := rfl
    have hpair := replay_pair hrec.hardware hnothing
    rw [← hrec.replayed] at hpair
    rcases hpair with hnone | ⟨v', τ, hsome, hasked⟩
    · obtain ⟨hr, -⟩ := Prod.mk.inj hnone
      rw [hpending] at hr
      cases hr
    · obtain ⟨hr, hat⟩ := Prod.mk.inj hsome
      obtain rfl : v = v' := Option.some.inj (hpending.symm.trans hr)
      refine .inr ⟨τ, ?_, hage τ hat, hasked⟩
      obtain ⟨later, e, past, hhist, rfl, -⟩ := hasked
      exact horder.mem_le (hhist ▸ by simp)
  · rw [Shared.startStopPulseFor_fst]
    rfl

/-- A start, up to its request. -/
def startTap : List (Option Action) := [some (.send .start), none, none, none, none]

def startTapConf : BoardConf := (play false startTap ⟨World.boot, .ret .zero⟩).get rfl

/-- One second later a second start is not pulsed. -/
theorem swallowed_for_cause_startTap :
    (startTapConf.state.shared.startStopPulseFor (some true) 1000000).1 = false ∧
      (startTapConf.state.shared.board.uartRunning 1000000 = true ∨
        ∃ τ, τ ≤ startTapConf.state.now ∧ 1000000 < τ + 2000 * 1000 ∧
          AskedAt Shared.boot true τ startTapConf.state.hist) := by
  have hrun : (boardSystem false fun _ => True).Reach ⟨World.boot, .ret .zero⟩ startTapConf :=
    play_reach (by decide) (Option.some_get _).symm
  have hsilent : (startTapConf.state.shared.startStopPulseFor (some true) 1000000).1 = false := rfl
  exact ⟨hsilent, (swallowed_for_cause hrun 1000000).1 true hsilent⟩

end ScoreboardCtrl
