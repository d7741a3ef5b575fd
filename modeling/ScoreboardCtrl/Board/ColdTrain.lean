import ScoreboardCtrl.Board.Plant
import ScoreboardCtrl.Clock.Requests

/-!
# A set-timer train on a stopped clock

The physical clock is stopped and the Pico agrees; then `SetTimer` is received. Every check of the
train compares the run state read off the UART with "stopped", and the reports of the train's own
pulses make that state read as running. `set_timer_silent_iff` says exactly when GP1 stays silent:
no check may fall within 2 s of a report that moved MM:SS.
-/

namespace ScoreboardCtrl

/-! ### Silence and cold checks -/

/-- No pulse on GP1. -/
def Silent (hist : List Entry) : Prop := ∀ e ∈ hist, e.event ≠ .pin .start true

/-- At every start/stop check of the history the clock read as stopped: MM:SS was `00:00`, or no
report had moved it for 2 s. -/
def Cold (u₀ : Uart) : List Entry → Prop
  | [] => True
  | e :: past => Cold u₀ past ∧ ∀ want, e.event = .lock (.startStop want) →
      (uartAfter u₀ (reports past)).running e.time = false

/-- No request is pending. -/
def Calm (g : Shared) : Prop := g.board.pendingPair = (none, none)

theorem silent_cons {e : Entry} {past : List Entry} :
    Silent (e :: past) ↔ e.event ≠ .pin .start true ∧ Silent past := List.forall_mem_cons

theorem cold_other {u₀ : Uart} {e : Entry} {past : List Entry}
    (h : ∀ want, e.event ≠ .lock (.startStop want)) : Cold u₀ (e :: past) ↔ Cold u₀ past :=
  and_iff_left fun want he => absurd he (h want)

theorem cold_check {u₀ : Uart} {t : ℕ} {want : Option Bool} {past : List Entry} :
    Cold u₀ (⟨t, .lock (.startStop want)⟩ :: past) ↔
      Cold u₀ past ∧ (uartAfter u₀ (reports past)).running t = false :=
  and_congr_right fun _ => ⟨fun h => h want rfl, fun h _ _ => h⟩

theorem Event.quiet_ne_startStop {e : Event} (h : e.quiet = true) (want : Option Bool) :
    e ≠ .lock (.startStop want) := by
  rintro rfl
  cases h

theorem Event.quiet_ne_pin {e : Event} (h : e.quiet = true) (pin : Pin) : e ≠ .pin pin true := by
  rintro rfl
  cases h

/-! ### Calm states stay calm -/

theorem Calm.refresh {g : Shared} (h : Calm g) (now : ℕ) : Calm (g.refreshRunning now) := by
  rw [Calm, Shared.refreshRunning_pendingPair]
  exact ScoreboardState.refreshedPair_none h now

theorem Calm.visitor {sec : Section} (hsec : sec.visitor false = true) {g : Shared} (h : Calm g)
    (now : ℕ) : Calm (sec.run now g).2 := by
  cases sec with
  | setClock m s => exact Calm.refresh (g := { g with board := { g.board with
      lastChange := _, minutes := m, seconds := s } }) h now
  | heartbeat => exact h.refresh now
  | status => exact h.refresh now
  | refresh => exact h.refresh now
  | readLed => exact h
  | stopWait => exact h
  | _ => cases hsec

theorem Calm.quiet {e : Entry} (he : e.event.quiet = true) {g : Shared} (h : Calm g) :
    Calm (e.onShared g) := by
  obtain ⟨t, event⟩ := e
  cases event with
  | lock sec => exact h.visitor he t
  | _ => exact h

theorem Calm.silent {g : Shared} {want : Option Bool} {t : ℕ} (h : Calm g)
    (hs : (g.startStopPulseFor want t).1 = false) : Calm (g.startStopPulseFor want t).2 := by
  rw [Shared.startStopPulseFor_fst] at hs
  rw [Shared.startStopPulseFor_snd, if_neg (by simp [hs])]
  exact h.refresh t

/-- In a calm state a check is answered by the clock. -/
theorem Calm.answer {g₀ : Shared} {past : List Entry} (h : Calm (replay g₀ past))
    (hhard : ∀ e ∈ past, e.Hardware) (t : ℕ) :
    answer g₀ past t (some false) = (uartAfter g₀.board.uart (reports past)).running t := by
  rw [ScoreboardCtrl.answer, Shared.startStopPulseFor_fst, ScoreboardState.effective_none h,
    replay_uart hhard]
  simp [startStopPulseNeeded]

/-! ### Along a trace -/

/-- The commands of a train. -/
def OnlySetTimer (cmd : Command) : Prop := ∃ min sec, cmd = .setTimer min sec

instance : DecidablePred OnlySetTimer
  | .setTimer min sec => .isTrue ⟨min, sec, rfl⟩
  | .startStop | .start | .stop | .homeInc | .homeDec | .awayInc | .awayDec | .scoresZero | .reset
  | .ledOn | .ledOff | .aux => .isFalse fun ⟨_, _, h⟩ => nomatch h

/-- A pulse on GP1 is due. -/
def Point.due : Point → Bool
  | .toggling _ | .freezing _ _ _ => true
  | _ => false

/-- What a trace says about GP1 at a point: silent as long as the checks were cold, and no longer
silent, or about to be so, after one that was not. -/
structure ColdAt (g₀ : Shared) (c : Point) (hist : List Entry) : Prop where
  silent : Cold g₀.board.uart hist → Silent hist ∧ Calm (replay g₀ hist)
  cold : Silent hist → c.due = false → Cold g₀.board.uart hist
  due : c.due = true → ¬ Cold g₀.board.uart hist

variable {g₀ : Shared} {allow : Command → Prop}

theorem Trace.hardware {c : Point} {hist : List Entry} (h : Trace allow g₀ c hist) :
    ∀ e ∈ hist, e.Hardware := by
  induction h with
  | start => exact fun e he => by cases he
  | @quiet c e past _ hq ih =>
    refine List.forall_mem_cons.2 ⟨fun sec hsec => ?_, ih⟩
    rw [hsec] at hq
    exact Section.visitor_hardware hq
  | move _ hmove ih =>
    refine List.forall_mem_cons.2 ⟨?_, ih⟩
    cases hmove with
    | receive => rintro sec ⟨⟩
    | toggle => rintro sec ⟨⟩
    | freeze => rintro sec ⟨⟩
    | step => rintro sec ⟨⟩
    | _ => rintro sec ⟨⟩; rfl

/-- An entry that is no check and no edge on GP1 and keeps the state calm. -/
theorem ColdAt.skip {c c' : Point} {e : Entry} {past : List Entry} (h : ColdAt g₀ c past)
    (hcheck : ∀ want, e.event ≠ .lock (.startStop want)) (hpin : e.event ≠ .pin .start true)
    (hcalm : Calm (replay g₀ past) → Calm (e.onShared (replay g₀ past)))
    (hdue : c.due = c'.due) : ColdAt g₀ c' (e :: past) where
  silent hcold := by
    obtain ⟨hsilent, hc⟩ := h.silent ((cold_other hcheck).1 hcold)
    exact ⟨silent_cons.2 ⟨hpin, hsilent⟩, hcalm hc⟩
  cold hsilent hd := (cold_other hcheck).2 (h.cold (silent_cons.1 hsilent).2 (hdue.trans hd))
  due hd hcold := h.due (hdue.trans hd) ((cold_other hcheck).1 hcold)

theorem ColdAt.checkPulse {c c' : Point} {t : ℕ} {past : List Entry} (h : ColdAt g₀ c past)
    (hhard : ∀ e ∈ past, e.Hardware) (hyes : answer g₀ past t (some false) = true)
    (hdue : c'.due = true) : ColdAt g₀ c' (⟨t, .lock (.startStop (some false))⟩ :: past) := by
  have hnot : ¬ Cold g₀.board.uart (⟨t, .lock (.startStop (some false))⟩ :: past) := by
    intro hcold
    obtain ⟨hpast, hstop⟩ := cold_check.1 hcold
    rw [(h.silent hpast).2.answer hhard, hstop] at hyes
    cases hyes
  refine ⟨fun hcold => absurd hcold hnot, fun _ hd => ?_, fun _ => hnot⟩
  rw [hdue] at hd
  cases hd

/-- A check that does not pulse was cold, if those before it were. -/
theorem ColdAt.checkSilent {c c' : Point} {t : ℕ} {past : List Entry} (h : ColdAt g₀ c past)
    (hhard : ∀ e ∈ past, e.Hardware) (hno : answer g₀ past t (some false) = false)
    (hc : c.due = false) (hdue : c'.due = false) :
    ColdAt g₀ c' (⟨t, .lock (.startStop (some false))⟩ :: past) := by
  refine ⟨fun hcold => ?_, fun hsilent _ => ?_, fun hd => ?_⟩
  · obtain ⟨hsilent, hcalm⟩ := h.silent (cold_check.1 hcold).1
    exact ⟨silent_cons.2 ⟨by simp, hsilent⟩, hcalm.silent hno⟩
  · have hpast := h.cold (silent_cons.1 hsilent).2 hc
    rw [(h.silent hpast).2.answer hhard] at hno
    exact cold_check.2 ⟨hpast, hno⟩
  · rw [hdue] at hd
    cases hd

theorem ColdAt.toggle {c c' : Point} {t : ℕ} {past : List Entry} (h : ColdAt g₀ c past)
    (hc : c.due = true) : ColdAt g₀ c' (⟨t, .pin .start true⟩ :: past) := by
  have hnot : ¬ Cold g₀.board.uart (⟨t, .pin .start true⟩ :: past) :=
    fun hcold => h.due hc ((cold_other (by simp)).1 hcold)
  exact ⟨fun hcold => absurd hcold hnot, fun hsilent => absurd rfl (silent_cons.1 hsilent).1,
    fun _ => hnot⟩

theorem Pending.next_ne_start {p p' : Pending} {pin : Pin} (h : p.next = some (pin, p')) :
    pin ≠ .start := by
  unfold next at h
  split_ifs at h <;> cases h <;> decide

/-- **The invariant of a train on a clock at rest.** -/
theorem Trace.coldAt {c : Point} {hist : List Entry} (h₀ : Calm g₀)
    (h : Trace OnlySetTimer g₀ c hist) : ColdAt g₀ c hist := by
  induction h with
  | start =>
    refine ⟨fun _ => ⟨?_, h₀⟩, fun _ _ => trivial, ?_⟩
    · rintro e ⟨⟩
    · rintro ⟨⟩
  | quiet _ hq ih =>
    exact ih.skip (Event.quiet_ne_startStop hq) (Event.quiet_ne_pin hq _) (Calm.quiet hq) rfl
  | move htrace hmove ih =>
    have hhard := htrace.hardware
    cases hmove with
    | receive => exact ih.skip (by simp) (by simp) id rfl
    | @requestPulse p cmd want t hwant =>
      obtain ⟨min, sec, rfl⟩ := htrace.allowed p cmd rfl
      cases hwant
    | @requestSilent p cmd want t hwant =>
      obtain ⟨min, sec, rfl⟩ := htrace.allowed p cmd rfl
      cases hwant
    | toggle => exact ih.toggle rfl
    | freezePulse hyes => exact ih.checkPulse hhard hyes rfl
    | freezeSilent hno => exact ih.checkSilent hhard hno rfl rfl
    | freeze => exact ih.toggle rfl
    | snapshot => exact ih.skip (by simp) (by simp) id rfl
    | checkPulse _ hyes => exact ih.checkPulse hhard hyes rfl
    | checkSilent _ hno => exact ih.checkSilent hhard hno rfl rfl
    | step hnext =>
      exact ih.skip (by simp) (by simpa using Pending.next_ne_start hnext) id rfl

/-! ### Runs -/

/-- The clock is stopped and the Pico agrees: `running` is down, nothing is pending, and no report
has moved MM:SS for 2 s. -/
structure AtRest (w : World) : Prop extends Starts OnlySetTimer w where
  stopped : w.shared.board.running = false
  calm : w.shared.board.pendingPair = (none, none)
  unmoved : w.shared.board.uart.running w.now = false

theorem onlySetTimer_runControl (cmd : Command) (h : OnlySetTimer cmd) :
    cmd.runControl = true := by
  obtain ⟨min, sec, rfl⟩ := h
  rfl

/-- **When a set-timer train leaves a stopped clock alone.** In every run of `SetTimer` on a clock
at rest GP1 is silent as long as no start/stop check falls within 2 s of a report that moved MM:SS;
and where the task is at the head of its loop, GP1 was silent only if that was so. -/
theorem set_timer_silent_iff {w₀ w : World} {k : BoardProg Pending} (h₀ : AtRest w₀)
    (h : (boardSystem false OnlySetTimer).Reach ⟨w₀, .ret .zero⟩ ⟨w, k⟩) :
    (Cold w₀.shared.board.uart w.hist → Silent w.hist) ∧
      ∀ p, k = .ret p → (Silent w.hist ↔ Cold w₀.shared.board.uart w.hist) := by
  obtain ⟨c, hc⟩ := trace_reach onlySetTimer_runControl h₀.toStarts h
  refine ⟨fun hcold => ((hc.trace.coldAt h₀.calm).silent hcold).1, ?_⟩
  rintro p rfl
  have hhead := (trace_head onlySetTimer_runControl h₀.toStarts h).trace.coldAt h₀.calm
  exact ⟨fun hsilent => hhead.cold hsilent rfl, fun hcold => (hhead.silent hcold).1⟩

theorem World.boot_starts (allow : Command → Prop) : Starts allow World.boot :=
  ⟨rfl, fun _ h => by cases h⟩

theorem World.boot_atRest : AtRest World.boot := ⟨World.boot_starts _, rfl, rfl, by decide⟩

/-! ### A train that starts the clock -/

/-- `SetTimer` to `09:30` on the board as it powers up at `07:30`; the report of the first minute
pulse comes before that pulse is over. -/
def reportedTrain : List (Option Action) :=
  [some (.send (.setTimer 9 30)), none, none, none, none] ++
    [none, none, none, none, some (.elapse 40000), some (.visit (.setClock 8 30))] ++
    [some (.elapse 10000), none, none] ++
    [none, none, none, none, some (.elapse 50000), none, none]

def reportedConf : BoardConf := (play false reportedTrain ⟨World.boot, .ret .zero⟩).get rfl

theorem reportedConf_reach :
    (boardSystem false OnlySetTimer).Reach ⟨World.boot, .ret .zero⟩ reportedConf := by
  have hplay : play false reportedTrain ⟨World.boot, .ret .zero⟩ = some reportedConf :=
    (Option.some_get _).symm
  exact play_reach (by decide) hplay

theorem reportedConf_loud : ¬ Silent reportedConf.state.hist := fun h =>
  h ⟨50000, .pin .start true⟩ (by decide +kernel) rfl

theorem set_timer_silent_iff_boot :
    ¬ Silent reportedConf.state.hist ∧
      ¬ Cold World.boot.shared.board.uart reportedConf.state.hist := by
  have hcold := (set_timer_silent_iff World.boot_atRest reportedConf_reach).1
  exact ⟨reportedConf_loud, fun h => reportedConf_loud (hcold h)⟩

/-- One `SetTimer` on a stopped clock, the reports no later than 500 ms, and the train starts it. -/
theorem set_timer_starts_clock :
    AtRest World.boot ∧
      (boardSystem false OnlySetTimer).Reach ⟨World.boot, .ret .zero⟩ reportedConf ∧
      commandsTaken reportedConf.state.hist = [(.setTimer 9 30, true)] ∧
      Plant.closedLoop Plant.boot Uart.boot reportedConf.state.hist = true ∧
      ¬ Silent reportedConf.state.hist ∧ physRun false reportedConf.state.hist = true :=
  ⟨World.boot_atRest, reportedConf_reach, by decide +kernel, by decide +kernel, reportedConf_loud,
    by decide +kernel⟩

end ScoreboardCtrl
