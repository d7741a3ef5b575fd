import ScoreboardCtrl.Clock.Uart
import ScoreboardCtrl.Events.Streams

/-!
# The deadline at which a stream finds the clock stopped

`stop_wait` reads the age of MM:SS in milliseconds and waits for the rest of the two seconds; the refresh
of the third arm reads the age again. Both ages are truncated, the second one of a longer time: when the
wait is over, it is at least two seconds (`age_after_wait`).

`stop_deadline` says so of a state that any sections may have refreshed in between, as long as they leave
MM:SS alone, and that the flag stays down and the next wait is the idle one.
-/

namespace ScoreboardCtrl

/-! ### The wait -/

/-- The milliseconds that `stop_wait` makes of the run flag and the age it read. -/
def stopIn (r : Bool × ℕ) : ℕ :=
  if !r.1 then 30000 else if r.2 ≥ stoppedAfterMs then 1 else stoppedAfterMs - r.2

theorem stopWait_eq : stopWait = (do return stopIn (← StreamProg.lockStopWait)) := by
  refine congrArg (Bind.bind StreamProg.lockStopWait) (funext fun r => ?_)
  unfold stopIn
  split
  · rfl
  · split <;> rfl

/-- The wait that `stop_wait` computes at `now`. -/
def Shared.stopIn (now : ℕ) (g : Shared) : ℕ := ScoreboardCtrl.stopIn (Section.stopWait.run now g).1

theorem Shared.stopIn_idle {g : Shared} (h : g.board.running = false) (now : ℕ) :
    g.stopIn now = 30000 := by
  show ScoreboardCtrl.stopIn (g.board.running, _) = _
  rw [ScoreboardCtrl.stopIn, h]
  rfl

theorem ScoreboardState.ageMs_some {s : ScoreboardState} {t₀ : ℕ} (h : s.lastChange = some t₀)
    (now : ℕ) : s.ageMs now = min ((now - t₀) / 1000) u32Max := by
  simp only [ageMs, h, elapsedMs]

/-- **When the wait is over, the two seconds are.** -/
theorem age_after_wait {g : Shared} {t₀ t₁ t₂ : ℕ} (hchange : g.board.lastChange = some t₀)
    (hle : t₀ ≤ t₁) (hrun : g.board.running = true) (hwait : t₁ + g.stopIn t₁ * 1000 ≤ t₂) :
    t₀ + 2000 * 1000 ≤ t₂ := by
  have hread : (Section.stopWait.run t₁ g).1 = (true, min ((t₁ - t₀) / 1000) u32Max) := by
    show (g.board.running, g.board.ageMs t₁) = _
    rw [hrun, ScoreboardState.ageMs_some hchange]
  generalize hage : min ((t₁ - t₀) / 1000) u32Max = age at hread
  have hcap : age ≤ (t₁ - t₀) / 1000 := hage ▸ Nat.min_le_left _ _
  rw [Shared.stopIn, hread] at hwait
  by_cases hold : 2000 ≤ age
  · omega
  · have hrest : stopIn (true, age) = 2000 - age := if_neg hold
    rw [hrest] at hwait
    omega

/-! ### The refresh -/

/-- From `g` to `g'` MM:SS stays. In the simulate build the time of its last change stays too: there a
start, a stop and a reset move that time alone. -/
structure KeepsTime (sec : Section) (g g' : Shared) : Prop where
  minutes : g'.board.minutes = g.board.minutes
  seconds : g'.board.seconds = g.board.seconds
  simulate : sec.hardware = false → g'.board.lastChange = g.board.lastChange

instance (sec : Section) (g g' : Shared) : Decidable (KeepsTime sec g g') :=
  decidable_of_iff (g'.board.minutes = g.board.minutes ∧ g'.board.seconds = g.board.seconds ∧
      (sec.hardware = false → g'.board.lastChange = g.board.lastChange))
    ⟨fun h => ⟨h.1, h.2.1, h.2.2⟩, fun h => ⟨h.minutes, h.seconds, h.simulate⟩⟩

/-- None of the sections changes MM:SS. -/
def HoldsTime : List (ℕ × Section) → Shared → Prop
  | [], _ => True
  | e :: mid, g => KeepsTime e.2 g (e.2.run e.1 g).2 ∧ HoldsTime mid (e.2.run e.1 g).2

instance decidableHoldsTime : (mid : List (ℕ × Section)) → (g : Shared) → Decidable (HoldsTime mid g)
  | [], _ => .isTrue trivial
  | e :: mid, g =>
    have := decidableHoldsTime mid (e.2.run e.1 g).2
    inferInstanceAs (Decidable (KeepsTime e.2 g (e.2.run e.1 g).2 ∧ _))

variable {g : Shared} {mid : List (ℕ × Section)}

/-- In the hardware build the time of the last change stays where MM:SS does. -/
theorem KeepsTime.uart {sec : Section} {now : ℕ} (h : KeepsTime sec g (sec.run now g).2) :
    (sec.run now g).2.board.uart = g.board.uart := by
  obtain ⟨hmin, hs, hsim⟩ := h
  cases hsec : sec.hardware with
  | false => simp only [ScoreboardState.uart, hmin, hs, hsim hsec]
  | true =>
    have huart := Section.run_uart hsec now g
    cases sec with
    | setClock m s =>
      have hm : m = g.board.minutes := (congrArg Uart.minutes huart).symm.trans hmin
      have hs : s = g.board.seconds := (congrArg Uart.seconds huart).symm.trans hs
      rw [huart, hm, hs]
      simp [Section.onUart, Uart.accept, ScoreboardState.uart]
    | _ => exact huart

theorem HoldsTime.uart (h : HoldsTime mid g) : (runSections mid g).board.uart = g.board.uart := by
  induction mid generalizing g with
  | nil => rfl
  | cons e mid ih => exact (ih h.2).trans h.1.uart

theorem stopped_run {t : ℕ} (h : HoldsTime mid g) (htimes : ∀ e ∈ mid, t ≤ e.1)
    (hrun : g.board.running = false) (huart : g.board.uart.running t = false) :
    (runSections mid g).board.running = false := by
  induction mid generalizing g with
  | nil => exact hrun
  | cons e mid ih =>
    obtain ⟨hhead, hrest⟩ := h
    obtain ⟨hle, htimes⟩ := List.forall_mem_cons.1 htimes
    have hstill : g.board.uart.running e.1 = false := by
      by_contra hne
      have := Uart.running_anti hle (by simpa using hne)
      rw [huart] at this
      cases this
    refine ih hrest htimes ?_ (by rw [hhead.uart]; exact huart)
    rcases e.2.running_cases e.1 g with hsame | hnew
    · rw [hsame]
      exact hrun
    · rw [hnew, hhead.uart]
      exact hstill

/-- **The stop deadline.** Let MM:SS have changed last at `t₀`. If `stop_wait` reads the run flag up at
`t₁` and its wait is over at `t₂`, with MM:SS unchanged, the refresh at `t₂` takes the flag down, and
as long as MM:SS stays the next wait is the idle one. Before the two seconds are over a refresh leaves
the flag up, unless the clock shows `00:00`. -/
theorem stop_deadline {t₀ : ℕ} (hchange : g.board.lastChange = some t₀) :
    (∀ t₁ t₂ mid, t₀ ≤ t₁ → g.board.running = true → HoldsTime mid g →
      t₁ + g.stopIn t₁ * 1000 ≤ t₂ →
        ((runSections mid g).refreshRunning t₂).board.running = false ∧
          ∀ later t₃, HoldsTime later ((runSections mid g).refreshRunning t₂) →
            (∀ e ∈ later, t₂ ≤ e.1) →
              (runSections later ((runSections mid g).refreshRunning t₂)).stopIn t₃ = 30000) ∧
      ∀ t < t₀ + 2000 * 1000, (g.board.minutes, g.board.seconds) ≠ (0, 0) →
        (g.refreshRunning t).board.running = true := by
  constructor
  · intro t₁ t₂ mid hle hrun hmid hwait
    have hage := age_after_wait hchange hle hrun hwait
    have hstopped : g.board.uart.running t₂ = false := by
      by_contra hne
      obtain ⟨-, c, hc, hlt⟩ := Uart.running_iff.1 (by simpa using hne)
      obtain rfl := Option.some.inj (hc.symm.trans hchange)
      omega
    have hflag : ((runSections mid g).refreshRunning t₂).board.running = false := by
      rw [Section.refreshRunning_running, hmid.uart]
      exact hstopped
    refine ⟨hflag, fun later t₃ hlater htimes => Shared.stopIn_idle ?_ t₃⟩
    refine stopped_run hlater htimes hflag ?_
    rw [Shared.refreshRunning_uart, hmid.uart]
    exact hstopped
  · intro t ht hzero
    rw [Section.refreshRunning_running]
    exact Uart.running_iff.2 ⟨hzero, t₀, hchange, ht⟩

/-- `07:29` since 1 s; the wait read at 1.5 s is over at 3 s. -/
def quietSince : Shared := (Section.setClock 7 29).run 1000000 Shared.boot |>.2

theorem stop_deadline_quiet :
    ((runSections [(1800000, .setClock 7 29), (2000000, .homeInc)] quietSince).refreshRunning
        3000000).board.running = false ∧
      (runSections [(3000100, .status)] ((runSections [(1800000, .setClock 7 29), (2000000, .homeInc)]
        quietSince).refreshRunning 3000000)).stopIn 3000200 = 30000 ∧
      (quietSince.refreshRunning 2999999).board.running = true := by
  have h := stop_deadline (show quietSince.board.lastChange = some 1000000 by decide)
  have hfires := h.1 1500000 3000000 [(1800000, .setClock 7 29), (2000000, .homeInc)] (by decide)
    (by decide) (by decide) (by decide)
  exact ⟨hfires.1, hfires.2 _ _ (by decide) (by decide), h.2 _ (by decide) (by decide)⟩

end ScoreboardCtrl
