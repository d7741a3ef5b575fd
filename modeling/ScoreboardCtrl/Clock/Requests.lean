import ScoreboardCtrl.Clock.Uart

/-!
# Two equal start/stop requests within two seconds

A request that pulses GP1 leaves its run state pending, and a second equal request is to find it
there. In between, status polls, heartbeats, event streams and frames that repeat the shown time
may refresh the state at any moment (`undisturbing` sections).

* `run_pair` — what they do to the pending pair: the first refresh at which the clock already reads
  as asked drops it, for good;
* `duplicate_request_iff` — the second request is silent unless a start was confirmed by a reading
  that has aged out by the time of the second request.
-/

namespace ScoreboardCtrl

/-! ### The pending pair of one request -/

theorem ScoreboardState.refreshedPair_none {s : ScoreboardState} (h : s.pendingPair = (none, none))
    (now : ℕ) : s.refreshedPair now = (none, none) := by
  obtain ⟨hr, -⟩ := Prod.mk.inj h
  simp [refreshedPair, stillPending, hr]

/-- Inside the window only a clock that reads as asked ends a request. -/
theorem ScoreboardState.stillPending_some {s : ScoreboardState} {w : Bool} {t₀ now : ℕ}
    (h : s.pendingPair = (some w, some t₀)) (hnow : now < t₀ + 2000 * 1000) :
    s.stillPending now = if s.uart.running now = w then none else some w := by
  obtain ⟨hr, hat⟩ := Prod.mk.inj h
  have hage : s.pendingAgeMs now < stoppedAfterMs := by
    simp only [pendingAgeMs, hat, elapsedMs, stoppedAfterMs]
    omega
  rw [stillPending, hr, resolvePendingRunning_some, uartRunning_eq]
  simp only [hage, and_true, ne_eq, ite_not, eq_comm]

theorem ScoreboardState.refreshedPair_some {s : ScoreboardState} {w : Bool} {t₀ now : ℕ}
    (h : s.pendingPair = (some w, some t₀)) (hnow : now < t₀ + 2000 * 1000) :
    s.refreshedPair now = if s.uart.running now = w then (none, none) else (some w, some t₀) := by
  obtain ⟨-, hat⟩ := Prod.mk.inj h
  rw [refreshedPair, stillPending_some h hnow, hat]
  split <;> rfl

theorem Shared.startStopPulseFor_pending {w : Bool} {now : ℕ} {g : Shared}
    (h : (g.startStopPulseFor (some w) now).1 = true) :
    (g.startStopPulseFor (some w) now).2.board.pendingPair = (some w, some now) := by
  rw [startStopPulseFor_fst] at h
  rw [startStopPulseFor_snd, if_pos h]
  rfl

theorem Shared.startStopPulseFor_some {w : Bool} {now : ℕ} {g : Shared} :
    (g.startStopPulseFor (some w) now).1 = true ↔ g.board.effective now ≠ w := by
  rw [startStopPulseFor_fst]
  show (w != g.board.effective now) = true ↔ _
  rw [bne_iff_ne, ne_comm]

theorem ScoreboardState.effective_none {s : ScoreboardState} (h : s.pendingPair = (none, none))
    (now : ℕ) : s.effective now = s.uart.running now := by
  obtain ⟨hr, -⟩ := Prod.mk.inj h
  simp [effective, stillPending, hr, uartRunning_eq]

theorem ScoreboardState.effective_some {s : ScoreboardState} {w : Bool} {t₀ now : ℕ}
    (h : s.pendingPair = (some w, some t₀)) (hnow : now < t₀ + 2000 * 1000) :
    s.effective now = w := by
  rw [effective, stillPending_some h hnow, uartRunning_eq]
  split
  · assumption
  · rfl

/-! ### Sections between the two requests -/

/-- Some refresh among `mid` found the clock `u` as asked. -/
def confirmedBy (u : Uart) (w : Bool) (mid : List (ℕ × Section)) : Prop :=
  ∃ e ∈ mid, e.2.refreshes = true ∧ u.running e.1 = w

theorem confirmedBy_cons {u : Uart} {w : Bool} {e : ℕ × Section} {mid : List (ℕ × Section)} :
    confirmedBy u w (e :: mid) ↔
      (e.2.refreshes = true ∧ u.running e.1 = w) ∨ confirmedBy u w mid := by
  simp [confirmedBy]

/-- The sections disturb no request on the clock `u`. -/
def Undisturbing (u : Uart) (mid : List (ℕ × Section)) : Prop :=
  ∀ e ∈ mid, e.2.undisturbing u.minutes u.seconds = true

instance (u : Uart) (mid : List (ℕ × Section)) : Decidable (Undisturbing u mid) :=
  inferInstanceAs (Decidable (∀ e ∈ mid, e.2.undisturbing u.minutes u.seconds = true))

theorem run_dropped {mid : List (ℕ × Section)} {g : Shared}
    (h : Undisturbing g.board.uart mid) (hpair : g.board.pendingPair = (none, none)) :
    (runSections mid g).board.uart = g.board.uart ∧
      (runSections mid g).board.pendingPair = (none, none) := by
  induction mid generalizing g with
  | nil => exact ⟨rfl, hpair⟩
  | cons e mid ih =>
    have he : e.2.undisturbing g.board.minutes g.board.seconds = true := h e (by simp)
    have huart := Section.run_uart_undisturbing he e.1
    have hnone : (e.2.run e.1 g).2.board.pendingPair = (none, none) := by
      rw [Section.run_pending he, ScoreboardState.refreshedPair_none hpair, hpair, ite_self]
    rw [← huart]
    exact ih (huart ▸ fun e' he' => h e' (by simp [he'])) hnone

/-- **What happens to a pending request.** -/
theorem run_pair {mid : List (ℕ × Section)} {g : Shared} {w : Bool} {t₀ : ℕ}
    (h : Undisturbing g.board.uart mid) (hlt : ∀ e ∈ mid, e.1 < t₀ + 2000 * 1000)
    (hpair : g.board.pendingPair = (some w, some t₀)) :
    (runSections mid g).board.uart = g.board.uart ∧
      (confirmedBy g.board.uart w mid →
        (runSections mid g).board.pendingPair = (none, none)) ∧
      (¬ confirmedBy g.board.uart w mid →
        (runSections mid g).board.pendingPair = (some w, some t₀)) := by
  induction mid generalizing g with
  | nil =>
    refine ⟨rfl, ?_, fun _ => hpair⟩
    rintro ⟨e, he, -⟩
    cases he
  | cons e mid ih =>
    have he : e.2.undisturbing g.board.minutes g.board.seconds = true := h e (by simp)
    have huart := Section.run_uart_undisturbing he e.1
    have hrest : Undisturbing (e.2.run e.1 g).2.board.uart mid :=
      huart ▸ fun e' he' => h e' (by simp [he'])
    have hnext := Section.run_pending he e.1
    rw [ScoreboardState.refreshedPair_some hpair (hlt e (by simp)), hpair] at hnext
    by_cases hc : e.2.refreshes = true ∧ g.board.uart.running e.1 = w
    · -- confirmed here: the request is dropped
      rw [if_pos hc.1, if_pos hc.2] at hnext
      obtain ⟨hu, hp⟩ := run_dropped hrest hnext
      exact ⟨hu.trans huart, fun _ => hp, fun hn => (hn (confirmedBy_cons.2 (.inl hc))).elim⟩
    · have hkeep : (e.2.run e.1 g).2.board.pendingPair = (some w, some t₀) := by
        rw [hnext]
        by_cases hr : e.2.refreshes = true
        · rw [if_pos hr, if_neg fun hw => hc ⟨hr, hw⟩]
        · rw [if_neg hr]
      obtain ⟨hu, hyes, hno⟩ := ih hrest (fun e' he' => hlt e' (by simp [he'])) hkeep
      rw [huart] at hu hyes hno
      refine ⟨hu, fun hconf => hyes ?_, fun hconf => hno fun hin => hconf ?_⟩
      · exact (confirmedBy_cons.1 hconf).resolve_left hc
      · exact confirmedBy_cons.2 (.inr hin)

/-! ### The second request -/

/-- The answers to `startStopPulseFor (some w)` at `t₀` and again at `t₁`, with `mid` in between. -/
def twoRequests (w : Bool) (t₀ : ℕ) (mid : List (ℕ × Section)) (t₁ : ℕ) (g : Shared) :
    Bool × Bool :=
  let r₀ := g.startStopPulseFor (some w) t₀
  (r₀.1, ((runSections mid r₀.2).startStopPulseFor (some w) t₁).1)

/-- **When a duplicate request is silent.** The second of two equal requests less than 2 s apart
pulses GP1 again exactly when it is a start, the first one pulsed, some refresh in between read the
clock as running, and it reads as stopped at the second request. -/
theorem duplicate_request_iff {w : Bool} {t₀ t₁ : ℕ} {mid : List (ℕ × Section)} {g : Shared}
    (hmid : Undisturbing g.board.uart mid) (htimes : ∀ e ∈ mid, t₀ ≤ e.1 ∧ e.1 ≤ t₁)
    (ht₁ : t₁ < t₀ + 2000 * 1000) :
    ((twoRequests w t₀ mid t₁ g).1 = true → (twoRequests w t₀ mid t₁ g).2 = false) ↔
      ¬ (w = true ∧ g.board.effective t₀ = false ∧ confirmedBy g.board.uart true mid ∧
        g.board.uart.running t₁ = false) := by
  have hfirst : (twoRequests w t₀ mid t₁ g).1 = true ↔ g.board.effective t₀ ≠ w :=
    Shared.startStopPulseFor_some
  by_cases hneed : g.board.effective t₀ = w
  · constructor
    · rintro - ⟨rfl, hf, -, -⟩
      rw [hneed] at hf
      cases hf
    · exact fun _ hf => absurd hneed (hfirst.1 hf)
  · -- the first request pulsed: follow its pending pair
    have hpulse : (g.startStopPulseFor (some w) t₀).1 = true := hfirst.2 hneed
    have huart := Shared.startStopPulseFor_uart (some w) t₀ g
    obtain ⟨hu, hyes, hno⟩ := run_pair (huart ▸ hmid)
      (fun e he => Nat.lt_of_le_of_lt (htimes e he).2 ht₁)
      (Shared.startStopPulseFor_pending hpulse)
    rw [huart] at hu hyes hno
    have hsecond : (twoRequests w t₀ mid t₁ g).2 = false ↔
        (runSections mid (g.startStopPulseFor (some w) t₀).2).board.effective t₁ = w := by
      rw [← not_iff_not, Bool.not_eq_false]
      exact Shared.startStopPulseFor_some
    rw [forall_prop_of_true (hfirst.2 hneed), hsecond]
    by_cases hconf : confirmedBy g.board.uart w mid
    · rw [ScoreboardState.effective_none (hyes hconf), hu]
      cases w with
      | true =>
        have hf : g.board.effective t₀ = false := by simpa using hneed
        simp [hf, hconf]
      | false =>
        -- a stopped clock stays stopped
        obtain ⟨e, he, -, hstop⟩ := hconf
        have : g.board.uart.running t₁ = false := by
          by_contra hr
          have := Uart.running_anti (htimes e he).2 (by simpa using hr)
          rw [hstop] at this
          cases this
        simp [this]
    · rw [ScoreboardState.effective_some (hno hconf) ht₁]
      refine iff_of_true rfl ?_
      rintro ⟨rfl, -, hc, -⟩
      exact hconf hc

/-- Two starts on the board as it powers up, with a heartbeat in between. -/
theorem duplicate_request_iff_boot :
    twoRequests true 5000000 [(5500000, .heartbeat)] 6000000 Shared.boot = (true, false) := by
  have hfirst : (twoRequests true 5000000 [(5500000, .heartbeat)] 6000000 Shared.boot).1 = true := by
    decide
  refine Prod.ext hfirst ((duplicate_request_iff (by decide) (by decide) (by decide)).2 ?_ hfirst)
  rintro ⟨-, -, ⟨e, he, -, hrun⟩, -⟩
  cases List.mem_singleton.1 he
  exact absurd hrun (by decide)

/-- A running clock ticks to `07:29` at 1 s and is asked to stop at 1.5 s. -/
def stoppedAgain : Shared :=
  runSections [(1000000, .setClock 7 29), (1500000, .startStop (some false))] Shared.boot

/-- Asked to start at 1.6 s and again at 3.05 s, before the next tick is reported, it is pulsed
twice: the heartbeat at 1.7 s took the old tick for a confirmation. -/
theorem duplicate_start_pulses_twice :
    Undisturbing stoppedAgain.board.uart [(1700000, .heartbeat)] ∧
      3050000 < 1600000 + 2000 * 1000 ∧
      twoRequests true 1600000 [(1700000, .heartbeat)] 3050000 stoppedAgain = (true, true) := by
  decide

end ScoreboardCtrl
