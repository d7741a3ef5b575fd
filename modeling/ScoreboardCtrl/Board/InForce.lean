import ScoreboardCtrl.Board.Belief

/-!
# Requests in force

A request that pulses GP1 leaves its run state pending: for 2 s it overrides what the clock says,
unless a refresh in between finds the clock to say the same. `inForce` reads that off a history, from
the times of the pulses, of the refreshes and of the reports. As long as every decision found the
physical run flag, what is pending is that flag (`Trace.pends`), so a decision made in that time finds
it too (`Trace.effective`): all others take the clock's word.
-/

namespace ScoreboardCtrl

/-- A start/stop decision of `board_task`. -/
def Event.decides : Event → Bool
  | .lock (.startStop _) => true
  | _ => false

theorem Event.decides_iff {e : Event} : e.decides = true ↔ ∃ want, e = .lock (.startStop want) := by
  unfold decides
  split
  · simp
  · simpa using ‹∀ want, _›

/-- Every start/stop decision found the physical run flag. -/
def Trusted (g₀ : Shared) (run₀ : Bool) : List Entry → Prop
  | [] => True
  | e :: past => Trusted g₀ run₀ past ∧
      (e.event.decides = true → (replay g₀ past).board.effective e.time = physRun run₀ past)

/-! ### Read off the history -/

/-- The entry is a refresh that finds the clock to read `run`. -/
def Entry.confirms (u₀ : Uart) (run : Bool) (e : Entry) (past : List Entry) : Bool :=
  match e.event with
  | .lock sec => sec.refreshes && ((uartAfter u₀ (reports (e :: past))).running e.time == run)
  | _ => false

/-- When the newest request for `run` was made, if no refresh since then confirmed it. -/
def unconfirmed (u₀ : Uart) (run : Bool) : List Entry → Option ℕ
  | [] => none
  | e :: past =>
    match e.event with
    | .lock (.startStop _) => some e.time
    | _ => if e.confirms u₀ run past then none else unconfirmed u₀ run past

/-- When the request was made that the newest pulse on GP1 answered, if no refresh since then confirmed
that the clock reads `run`. -/
def inForce (u₀ : Uart) (run : Bool) : List Entry → Option ℕ
  | [] => none
  | e :: past =>
    if e.event = .pin .start true then unconfirmed u₀ run past
    else if e.confirms u₀ run past then none
    else inForce u₀ run past

/-- At `t` a request for `run` is in force. -/
def held (u₀ : Uart) (run : Bool) (t : ℕ) (past : List Entry) : Bool :=
  (inForce u₀ run past).any fun d => decide (t < d + 2000000)

theorem held_iff {u₀ : Uart} {run : Bool} {t : ℕ} {past : List Entry} :
    held u₀ run t past = true ↔ ∃ d, inForce u₀ run past = some d ∧ t < d + 2000000 := by
  simp [held, Option.any_eq_true]

/-! ### What is pending -/

/-- What is pending at `now` in `s` is the request for `run` made at `made`; one that is 2 s old may
be gone. -/
structure Pends (s : ScoreboardState) (run : Bool) (made : Option ℕ) (now : ℕ) : Prop where
  free : made = none → s.pendingRunning = none
  asked : ∀ d, made = some d → s.pendingPair = (some run, some d) ∨
    d + 2000000 ≤ now ∧ s.pendingRunning = none

variable {s : ScoreboardState} {run : Bool} {made : Option ℕ} {now t : ℕ}

theorem Pends.of_pair {s' : ScoreboardState} (h : Pends s run made now)
    (heq : s'.pendingPair = s.pendingPair) : Pends s' run made now := by
  have hrun : s'.pendingRunning = s.pendingRunning := (Prod.mk.inj heq).1
  refine ⟨?_, ?_⟩
  · rw [hrun]
    exact h.free
  · rw [heq, hrun]
    exact h.asked

theorem Pends.mono {now' : ℕ} (h : Pends s run made now) (hle : now ≤ now') :
    Pends s run made now' :=
  ⟨h.free, fun d hd => (h.asked d hd).imp_right fun hold => ⟨Nat.le_trans hold.1 hle, hold.2⟩⟩

theorem ScoreboardState.stillPending_none (h : s.pendingRunning = none) (t : ℕ) :
    s.stillPending t = none := by
  rw [stillPending, h, resolvePendingRunning_none]

/-- A request is given up after 2 s. -/
theorem ScoreboardState.stillPending_old {d : ℕ} (h : s.pendingPair = (some run, some d))
    (hold : d + 2000000 ≤ t) : s.stillPending t = none := by
  obtain ⟨hr, hat⟩ := Prod.mk.inj h
  have hage : ¬ s.pendingAgeMs t < stoppedAfterMs := by
    simp only [pendingAgeMs, hat, elapsedMs, stoppedAfterMs]
    omega
  rw [stillPending, hr, resolvePendingRunning_some, if_neg fun hc => hage hc.2]

/-- Where nothing is pending it does not matter whether an old request was confirmed. -/
theorem Pends.over {d : ℕ} (hold : d + 2000000 ≤ now) (hgone : s.pendingRunning = none) (c : Bool) :
    Pends s run (if c then none else some d) now := by
  refine ⟨fun _ => hgone, fun d' hd' => .inr ⟨?_, hgone⟩⟩
  split at hd'
  · cases hd'
  · cases hd'
    exact hold

/-- **What a refresh leaves pending.** -/
theorem Pends.refresh {g g' : Shared} (h : Pends g.board run made t)
    (hpair : g'.board.pendingPair = g.board.refreshedPair t) :
    Pends g'.board run (if g.board.uart.running t == run then none else made) t := by
  obtain ⟨hrun, hat⟩ := Prod.mk.inj hpair
  cases made with
  | none =>
    refine ⟨fun _ => ?_, ?_⟩
    · exact hrun.trans (ScoreboardState.stillPending_none (h.free rfl) t)
    · intro d hd
      rw [ite_self] at hd
      cases hd
  | some d =>
    rcases h.asked d rfl with hkept | ⟨hold, hgone⟩
    · by_cases hold : d + 2000000 ≤ t
      · exact .over hold (hrun.trans (ScoreboardState.stillPending_old hkept hold)) _
      · have hnew : t < d + 2000 * 1000 := by omega
        rw [ScoreboardState.refreshedPair_some hkept hnew] at hpair
        by_cases hread : g.board.uart.running t = run
        · -- confirmed
          rw [if_pos hread] at hpair
          rw [if_pos (by simpa using hread)]
          refine ⟨fun _ => (Prod.mk.inj hpair).1, ?_⟩
          rintro d' ⟨⟩
        · rw [if_neg hread] at hpair
          rw [if_neg (by simpa using hread)]
          refine ⟨?_, ?_⟩
          · rintro ⟨⟩
          · rintro d' ⟨⟩
            exact .inl hpair
    · exact .over hold (hrun.trans (ScoreboardState.stillPending_none hgone t)) _

theorem Pends.visitor {sec : Section} (hsec : sec.visitor false = true) {g : Shared}
    (h : Pends g.board run made t) : Pends (sec.run t g).2.board run
      (if sec.refreshes && ((sec.run t g).2.board.uart.running t == run) then none else made) t := by
  rw [Section.run_uart (Section.visitor_hardware hsec)]
  cases sec with
  | setClock m s =>
    have hstep : Pends (g.setClock m s t).board run
        (if (g.board.uart.accept m s t).running t == run then none else made) t :=
      Pends.refresh (g := { g with board := { g.board with
        lastChange := _, minutes := m, seconds := s } }) (h.of_pair rfl)
        (Shared.refreshRunning_pendingPair t _)
    exact hstep
  | heartbeat => exact h.refresh (Shared.refreshRunning_pendingPair t g)
  | status => exact h.refresh (Shared.refreshRunning_pendingPair t g)
  | refresh => exact h.refresh (Shared.refreshRunning_pendingPair t g)
  | readLed => exact h
  | stopWait => exact h
  | _ => cases hsec

/-- For 2 s a request finds what is pending. -/
theorem Pends.effective_new (h : Pends s run made t) {d : ℕ} (hmade : made = some d)
    (hnew : t < d + 2000 * 1000) : s.effective t = run := by
  rcases h.asked d hmade with hkept | ⟨hold, -⟩
  · exact ScoreboardState.effective_some hkept hnew
  · omega

/-- Then it finds what the clock says. -/
theorem Pends.effective_old (h : Pends s run made t) (hold : ∀ d, made = some d → d + 2000000 ≤ t) :
    s.effective t = s.uart.running t := by
  have hgone : s.stillPending t = none := by
    cases made with
    | none => exact ScoreboardState.stillPending_none (h.free rfl) t
    | some d =>
      rcases h.asked d rfl with hkept | ⟨-, hgone⟩
      · exact ScoreboardState.stillPending_old hkept (hold d rfl)
      · exact ScoreboardState.stillPending_none hgone t
  rw [ScoreboardState.effective, hgone]
  exact s.uartRunning_eq t

/-! ### Along a trace -/

variable {g₀ : Shared} {run₀ : Bool} {allow : Command → Prop} {t₀ : ℕ} {hist : List Entry}

theorem Entry.confirms_lock {u₀ : Uart} {t : ℕ} {sec : Section} {past : List Entry} :
    (⟨t, .lock sec⟩ : Entry).confirms u₀ run past =
      (sec.refreshes && ((uartAfter u₀ (reports (⟨t, .lock sec⟩ :: past))).running t == run)) := rfl

theorem Entry.confirms_other {u₀ : Uart} {e : Entry} {past : List Entry}
    (he : ∀ sec, e.event ≠ .lock sec) : e.confirms u₀ run past = false := by
  unfold confirms
  split
  · exact absurd ‹_› (he _)
  · rfl

theorem unconfirmed_other {u₀ : Uart} {e : Entry} {past : List Entry}
    (he : ∀ want, e.event ≠ .lock (.startStop want)) : unconfirmed u₀ run (e :: past) =
      if e.confirms u₀ run past then none else unconfirmed u₀ run past := by
  rw [unconfirmed]
  split
  · exact absurd ‹_› (he _)
  · rfl

theorem inForce_other {u₀ : Uart} {e : Entry} {past : List Entry} (he : e.event ≠ .pin .start true) :
    inForce u₀ run (e :: past) =
      if e.confirms u₀ run past then none else inForce u₀ run past := if_neg he

/-- The request that may be pending at a point: the one whose pulse is due, or the newest one that had
its pulse. -/
def madeAt (u₀ : Uart) (run : Bool) (due : Bool) (hist : List Entry) : Option ℕ :=
  bif due then unconfirmed u₀ run hist else inForce u₀ run hist

theorem madeAt_other {u₀ : Uart} {due : Bool} {e : Entry} {past : List Entry}
    (hcheck : ∀ want, e.event ≠ .lock (.startStop want)) (hpin : e.event ≠ .pin .start true) :
    madeAt u₀ run due (e :: past) =
      if e.confirms u₀ run past then none else madeAt u₀ run due past := by
  cases due with
  | true => exact unconfirmed_other hcheck
  | false => exact inForce_other hpin

theorem Pends.quiet {e : Entry} {past : List Entry} (he : e.event.quiet = true)
    (hhard : ∀ e' ∈ e :: past, e'.Hardware) {due : Bool}
    (h : Pends (replay g₀ past).board run (madeAt g₀.board.uart run due past) e.time) :
    Pends (replay g₀ (e :: past)).board run (madeAt g₀.board.uart run due (e :: past)) e.time := by
  have huart : (replay g₀ (e :: past)).board.uart = _ := replay_uart hhard
  rw [madeAt_other (Event.quiet_ne_startStop he) (Event.quiet_ne_pin he _)]
  obtain ⟨t, event⟩ := e
  cases event with
  | lock sec =>
    rw [Entry.confirms_lock, ← huart]
    exact h.visitor he
  | _ => exact h

/-- A decision that is silent is a refresh. -/
theorem Pends.silent {t : ℕ} {want : Option Bool} {past : List Entry}
    (hhard : ∀ e ∈ past, e.Hardware) (hno : answer g₀ past t want = false)
    (h : Pends (replay g₀ past).board run (inForce g₀.board.uart run past) t) :
    Pends (replay g₀ (⟨t, .lock (.startStop want)⟩ :: past)).board run
      (inForce g₀.board.uart run (⟨t, .lock (.startStop want)⟩ :: past)) t := by
  have huart : (replay g₀ past).board.uart = _ := replay_uart hhard
  rw [answer, Shared.startStopPulseFor_fst] at hno
  have hstate : (replay g₀ (⟨t, .lock (.startStop want)⟩ :: past)) =
      (replay g₀ past).refreshRunning t := by
    show ((replay g₀ past).startStopPulseFor want t).2 = _
    rw [Shared.startStopPulseFor_snd, if_neg (by simp [hno])]
  have hreports : reports (⟨t, .lock (.startStop want)⟩ :: past) = reports past := by
    rw [reports_cons]
    rfl
  rw [hstate, inForce_other (by simp), Entry.confirms_lock, hreports, ← huart]
  exact h.refresh (Shared.refreshRunning_pendingPair t _)

/-- A decision that trusts the run flag and pulses GP1 asks for the other state. -/
theorem Pends.pulse {t : ℕ} {want : Option Bool} {past : List Entry}
    (htrust : (replay g₀ past).board.effective t = physRun run₀ past)
    (hyes : answer g₀ past t want = true) (u₀ : Uart) :
    Pends (replay g₀ (⟨t, .lock (.startStop want)⟩ :: past)).board (!physRun run₀ past)
      (unconfirmed u₀ (!physRun run₀ past) (⟨t, .lock (.startStop want)⟩ :: past)) t := by
  rw [answer, Shared.startStopPulseFor_fst] at hyes
  have hwant : want.getD (!(replay g₀ past).board.effective t) = !physRun run₀ past := by
    rw [htrust] at hyes ⊢
    cases want with
    | none => rfl
    | some w =>
      simp only [startStopPulseNeeded, bne_iff_ne] at hyes
      simpa [Bool.eq_not_iff] using hyes
  have hpair : (replay g₀ (⟨t, .lock (.startStop want)⟩ :: past)).board.pendingPair =
      (some (!physRun run₀ past), some t) := by
    show ((replay g₀ past).startStopPulseFor want t).2.board.pendingPair = _
    rw [Shared.startStopPulseFor_snd, if_pos hyes, ← hwant]
    rfl
  refine ⟨?_, ?_⟩
  · rintro ⟨⟩
  · rintro d ⟨⟩
    exact .inl hpair

/-- The state the scoreboard is in, or will be in after the pulse that is due. -/
def runAt (run₀ : Bool) (due : Bool) (hist : List Entry) : Bool :=
  bif due then !physRun run₀ hist else physRun run₀ hist

/-- **What is pending along a trace** whose decisions found the run flag. -/
theorem Trace.pends {c : Point} (h : Trace allow g₀ c hist) (hord : Ordered t₀ now hist)
    (htrust : Trusted g₀ run₀ hist) (h₀ : g₀.board.pendingRunning = none) :
    Pends (replay g₀ hist).board (runAt run₀ c.due hist)
      (madeAt g₀.board.uart (runAt run₀ c.due hist) c.due hist) now := by
  induction h generalizing now with
  | start => exact ⟨fun _ => h₀, fun d hd => by cases hd⟩
  | @quiet c e past hpast hq ih =>
    have hsame : runAt run₀ c.due (e :: past) = runAt run₀ c.due past := by
      rw [runAt, physRun_other (Event.quiet_ne_pin hq _)]
      rfl
    rw [hsame]
    exact ((ih hord.2 htrust.1).quiet hq (hpast.quiet hq).hardware).mono hord.1
  | @move c c' e past hpast hmove ih =>
    have hbefore := ih hord.2 htrust.1
    have hnow := hord.1
    have hhard := hpast.hardware
    cases hmove with
    | receive => exact hbefore.mono hnow
    | requestPulse _ hyes | freezePulse hyes | checkPulse _ hyes =>
      exact (Pends.pulse (htrust.2 rfl) hyes g₀.board.uart).mono hnow
    | requestSilent _ hno | freezeSilent hno | checkSilent _ hno =>
      exact (hbefore.silent hhard hno).mono hnow
    | toggle | freeze => exact hbefore.mono hnow
    | snapshot => exact hbefore.mono hnow
    | @step p p' pin t hnext =>
      have hpin : pin ≠ .start := Pending.next_ne_start hnext
      show Pends (replay g₀ past).board (physRun run₀ _) (inForce _ (physRun run₀ _) _) now
      rw [physRun_other (by simpa using hpin), inForce_other (by simpa using hpin),
        Entry.confirms_other (by simp)]
      exact hbefore.mono hnow

/-- **The run state a decision finds**: the flag while a request is in force, then what the clock
says. -/
theorem Trace.effective {c : Point} (h : Trace allow g₀ c hist) (hdue : c.due = false)
    (hord : Ordered t₀ now hist) (htrust : Trusted g₀ run₀ hist)
    (h₀ : g₀.board.pendingRunning = none) : (replay g₀ hist).board.effective now =
      if held g₀.board.uart (physRun run₀ hist) now hist then physRun run₀ hist
      else (uartAfter g₀.board.uart (reports hist)).running now := by
  have hpends := h.pends hord htrust h₀
  rw [hdue] at hpends
  by_cases hheld : held g₀.board.uart (physRun run₀ hist) now hist = true
  · obtain ⟨d, hd, hnew⟩ := held_iff.1 hheld
    rw [if_pos hheld]
    exact hpends.effective_new hd (by omega)
  · rw [if_neg hheld, ← replay_uart h.hardware]
    refine hpends.effective_old fun d hd => Nat.not_lt.1 fun hnew => hheld ?_
    exact held_iff.2 ⟨d, hd, hnew⟩

end ScoreboardCtrl
