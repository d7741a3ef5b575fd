import ScoreboardCtrl.Board.InForce
import ScoreboardCtrl.Board.LastTarget

/-!
# The last request decides

GP1 is a blind toggle: `board_task` pulses it when the run state it believes in disagrees with the
one it wants. In the closed loop that belief is right but for the decisions that are `Slips`
(`trusted_iff`): no request is in force, and the clock that is read instead is stirred up by pulses
just made, or shows too little of a scoreboard just started. In a run without one the last command taken
decides the physical run flag once the train is drained (`last_request_decides`): a `Start` the task
was waiting for leaves the board running; a `Stop`, a `SetTimer`, and by the re-stop of the train also
a `Start` taken in the middle of one, leave it stopped.
-/

namespace ScoreboardCtrl

/-- The newest command taken, and whether the task was waiting for it. -/
def newestTaken (hist : List Entry) : Option (Command × Bool) := (commandsTaken hist).head?

/-- A train is pending. -/
def Pending.train (p : Pending) : Prop := p.min ≠ 0 ∨ p.sec ≠ 0

/-- What the newest command is after. -/
inductive Goal where
  /-- a `Start` that no train can undo -/
  | run
  /-- `Stop`, `SetTimer` -/
  | halt
  /-- a request in the middle of a train -/
  | frozen
  /-- the raw toggle -/
  | free
  deriving DecidableEq

def goal : Command × Bool → Goal
  | (.start, true) => .run
  | (.start, false) | (.startStop, false) => .frozen
  | (.stop, _) | (.setTimer _ _, _) => .halt
  | _ => .free

/-- What holds of the run flag `run` at a point, given what the newest command is after. -/
def Reaches (run : Bool) : Point → Goal → Prop
  | .head p, .run => ¬ p.train ∧ run = true
  | .head p, .frozen => p.train ∨ run = false
  | .head _, .halt => run = false
  | .toggling p, .run => ¬ p.train ∧ run = false
  | .toggling p, .frozen => p.train
  | .toggling _, .halt => run = true
  | .stepping _, .run => False
  | .stepping _, _ => run = false
  | .freezing _ _ _, g => g = .halt ∧ run = true
  | .frozen _ _ _, g => g = .halt ∧ run = false
  | _, _ => True

/-- What a trace says about the run flag at a point. -/
structure RequestAt (run₀ : Bool) (c : Point) (hist : List Entry) : Prop where
  newest : ∀ p cmd, c = .taken p cmd → newestTaken hist = some (cmd, !p.hasPending)
  reaches : ∀ last, newestTaken hist = some last → Reaches (physRun run₀ hist) c (goal last)

variable {g₀ : Shared} {run₀ : Bool} {allow : Command → Prop}

theorem newestTaken_other {e : Entry} {past : List Entry}
    (h : ∀ cmd idle, e.event ≠ .received cmd idle) :
    newestTaken (e :: past) = newestTaken past := by
  rw [newestTaken, commandsTaken, List.filterMap_cons_none]
  · rfl
  · split
    · exact absurd ‹_› (h _ _)
    · rfl

/-- A decision that trusts the run flag pulses GP1 iff the flag is not as wanted. -/
theorem answer_trusted {past : List Entry} {t : ℕ} {w : Bool}
    (h : Trusted g₀ run₀ (⟨t, .lock (.startStop (some w))⟩ :: past)) :
    answer g₀ past t (some w) = (w != physRun run₀ past) := by
  rw [answer, Shared.startStopPulseFor_fst, h.2 rfl]
  rfl

/-- Entries that take no command, decide nothing and do not toggle. -/
theorem RequestAt.skip {c : Point} {e : Entry} {past : List Entry} (h : RequestAt run₀ c past)
    (htake : ∀ cmd idle, e.event ≠ .received cmd idle) (hpin : e.event ≠ .pin .start true) :
    RequestAt run₀ c (e :: past) := by
  refine ⟨?_, ?_⟩
  · rw [newestTaken_other htake]
    exact h.newest
  · rw [newestTaken_other htake, physRun_other hpin]
    exact h.reaches

/-- A move away from `taken` is judged by what it reaches. -/
theorem RequestAt.of_reaches {c : Point} {hist : List Entry} (hc : ∀ p cmd, c ≠ .taken p cmd)
    (h : ∀ last, newestTaken hist = some last → Reaches (physRun run₀ hist) c (goal last)) :
    RequestAt run₀ c hist :=
  ⟨fun p cmd heq => absurd heq (hc p cmd), h⟩

theorem Pending.train_of_hasPending {p : Pending} (hp : p.hasPending = true)
    (hscores : p.homeDec = 0 ∧ p.awayDec = 0) : p.train := by
  simpa [Pending.hasPending, Pending.train, hscores.1, hscores.2] using hp

theorem Pending.not_train {p : Pending} (hp : p.hasPending = false) : ¬ p.train := by
  simp only [Pending.hasPending, Bool.or_eq_false_iff, bne_eq_false_iff_eq] at hp
  rintro (h | h)
  · exact h hp.1.2
  · exact h hp.2

theorem RequestAt.request {p : Pending} {cmd : Command} {want : Option Bool} {t : ℕ}
    {past : List Entry} (hwant : cmd.want = some want)
    (hscores : p.homeDec = 0 ∧ p.awayDec = 0)
    (htrust : Trusted g₀ run₀ (⟨t, .lock (.startStop want)⟩ :: past)) :
    Reaches (physRun run₀ past)
      (if answer g₀ past t want then .toggling p else .head p) (goal (cmd, !p.hasPending)) := by
  cases hp : p.hasPending with
  | true =>
    have htrain := Pending.train_of_hasPending hp hscores
    cases cmd with
    | start => split <;> simp [goal, Reaches, htrain]
    | startStop => split <;> simp [goal, Reaches, htrain]
    | stop =>
      cases hwant
      rw [answer_trusted htrust]
      cases physRun run₀ past <;> simp [goal, Reaches]
    | _ => cases hwant
  | false =>
    have htrain := Pending.not_train hp
    cases cmd with
    | start =>
      cases hwant
      rw [answer_trusted htrust]
      cases physRun run₀ past <;> simp [goal, Reaches, htrain]
    | startStop => split <;> simp [goal, Reaches]
    | stop =>
      cases hwant
      rw [answer_trusted htrust]
      cases physRun run₀ past <;> simp [goal, Reaches]
    | _ => cases hwant

/-- A pulse on GP1 takes what is due at `toggling` to what holds at the head. -/
theorem Reaches.toggle {p : Pending} {run : Bool} {g : Goal} (h : Reaches run (.toggling p) g) :
    Reaches (!run) (.head p) g := by
  cases g with
  | run => exact ⟨h.1, by rw [h.2]; rfl⟩
  | frozen => exact .inl h
  | halt =>
    have hrun : run = true := h
    subst hrun
    exact rfl
  | free => trivial

theorem Reaches.checkPulse {p : Pending} {run : Bool} {g : Goal} (hp : p.train)
    (h : Reaches run (.head p) g) (hrun : run = true) : Reaches run (.toggling p) g := by
  subst hrun
  cases g with
  | run => exact absurd hp h.1
  | frozen => exact hp
  | halt => cases h
  | free => trivial

theorem Reaches.checkSilent {p : Pending} {run : Bool} {g : Goal} (hp : p.train)
    (h : Reaches run (.head p) g) (hrun : run = false) : Reaches run (.stepping p) g := by
  cases g with
  | run => exact absurd hp h.1
  | _ => exact hrun

theorem Reaches.step {p p' : Pending} {run : Bool} {g : Goal} (h : Reaches run (.stepping p) g) :
    Reaches run (.head p') g := by
  cases g with
  | run => exact h.elim
  | frozen => exact .inr h
  | halt => exact h
  | free => trivial

/-- **The invariant of the run flag.** -/
theorem Trace.requestAt {c : Point} {hist : List Entry} (h : Trace allow g₀ c hist)
    (htrust : Trusted g₀ run₀ hist) : RequestAt run₀ c hist := by
  induction h with
  | start => exact .of_reaches (by simp) fun last hl => by cases hl
  | @quiet c e past _ hq ih =>
    have htake : ∀ cmd idle, e.event ≠ .received cmd idle := by
      rintro cmd idle he
      rw [he] at hq
      cases hq
    exact (ih htrust.1).skip htake (Event.quiet_ne_pin hq _)
  | @move c c' e past htrace hmove ih =>
    cases hmove with
    | @receive p cmd t _ =>
      refine ⟨?_, fun last _ => trivial⟩
      rintro p' cmd' ⟨⟩
      rfl
    | @requestPulse p cmd want t hwant hyes =>
      refine .of_reaches (by simp) ?_
      intro last hlast
      rw [newestTaken_other (by simp), (ih htrust.1).newest p cmd rfl] at hlast
      cases hlast
      have := RequestAt.request hwant htrace.scores htrust
      rw [if_pos hyes] at this
      rwa [physRun_other (by simp)]
    | @requestSilent p cmd want t hwant hno =>
      refine .of_reaches (by simp) ?_
      intro last hlast
      rw [newestTaken_other (by simp), (ih htrust.1).newest p cmd rfl] at hlast
      cases hlast
      have := RequestAt.request hwant htrace.scores htrust
      rw [if_neg (by simp [hno])] at this
      rwa [physRun_other (by simp)]
    | @toggle p t =>
      refine .of_reaches (by simp) ?_
      intro last hlast
      rw [newestTaken_other (by simp)] at hlast
      rw [physRun_toggle]
      exact ((ih htrust.1).reaches last hlast).toggle
    | @freezePulse p min sec t hyes =>
      refine .of_reaches (by simp) ?_
      intro last hlast
      rw [newestTaken_other (by simp), (ih htrust.1).newest p _ rfl] at hlast
      cases hlast
      rw [answer_trusted htrust] at hyes
      rw [physRun_other (by simp)]
      exact ⟨rfl, by simpa using hyes⟩
    | @freezeSilent p min sec t hno =>
      refine .of_reaches (by simp) ?_
      intro last hlast
      rw [newestTaken_other (by simp), (ih htrust.1).newest p _ rfl] at hlast
      cases hlast
      rw [answer_trusted htrust] at hno
      rw [physRun_other (by simp)]
      exact ⟨rfl, by simpa using hno⟩
    | @freeze p min sec t =>
      refine .of_reaches (by simp) ?_
      intro last hlast
      rw [newestTaken_other (by simp)] at hlast
      obtain ⟨hgoal, hrun⟩ := (ih htrust.1).reaches last hlast
      rw [physRun_toggle, hrun]
      exact ⟨hgoal, rfl⟩
    | @snapshot p min sec t =>
      refine .of_reaches (by simp) ?_
      intro last hlast
      rw [newestTaken_other (by simp)] at hlast
      obtain ⟨hgoal, hrun⟩ := (ih htrust.1).reaches last hlast
      rw [physRun_other (by simp), hgoal]
      exact hrun
    | @checkPulse p t hp hyes =>
      refine .of_reaches (by simp) ?_
      intro last hlast
      rw [newestTaken_other (by simp)] at hlast
      rw [answer_trusted htrust] at hyes
      rw [physRun_other (by simp)]
      exact ((ih htrust.1).reaches last hlast).checkPulse hp (by simpa using hyes)
    | @checkSilent p t hp hno =>
      refine .of_reaches (by simp) ?_
      intro last hlast
      rw [newestTaken_other (by simp)] at hlast
      rw [answer_trusted htrust] at hno
      rw [physRun_other (by simp)]
      exact ((ih htrust.1).reaches last hlast).checkSilent hp (by simpa using hno)
    | @step p p' pin t hnext =>
      have hpin : pin ≠ .start := Pending.next_ne_start hnext
      refine .of_reaches (by simp) ?_
      intro last hlast
      rw [newestTaken_other (by simp)] at hlast
      rw [physRun_other (by simpa using hpin)]
      exact ((ih htrust.1).reaches last hlast).step

theorem Trace.newest_allowed {c : Point} {hist : List Entry} (h : Trace allow g₀ c hist) :
    ∀ last, newestTaken hist = some last → allow last.1 := by
  induction h with
  | start => rintro last ⟨⟩
  | @quiet c e past _ hq ih =>
    rw [newestTaken_other]
    · exact ih
    · rintro cmd idle he
      rw [he] at hq
      cases hq
  | move _ hmove ih =>
    cases hmove with
    | receive hcmd =>
      rintro last ⟨⟩
      exact hcmd
    | _ =>
      rw [newestTaken_other (by simp)]
      exact ih

/-! ### The belief -/

/-- What a run starts from: a scoreboard `x₀` that the Pico has been told of, and nothing pending. -/
structure Confirmed (x₀ : Plant) (w : World) : Prop where
  known : Plant.Known x₀ w.shared.board.uart w.now
  pending : w.shared.board.pendingRunning = none

section Slips

variable (run₀ : Bool) (u₀ : Uart) (t₀ t : ℕ) (past : List Entry)

/-- The scoreboard stands still, but a report moved MM:SS less than 2 s ago, and a pulse was made in the
last 2.5 s: the report is of the train's own pulses, or the late one of the last second it ran. -/
def Stirred : Prop := physRun run₀ past = false ∧
  (uartAfter u₀ (reports past)).running t = true ∧ ¬ Rested 2500000 t past

/-- The scoreboard runs, but no report moved MM:SS in the last 2 s, and a pulse was made, or the run
began, in the last 1.5 s: what confirmed the `Start` was a reading from before it, which has aged
out. -/
def Lapsed : Prop := physRun run₀ past = true ∧
  (uartAfter u₀ (reports past)).running t = false ∧ (t ≤ t₀ + 1500000 ∨ ¬ Rested 1500000 t past)

/-- The scoreboard runs at `00:00`. -/
def RunsAtZero : Prop := physRun run₀ past = true ∧
  ((uartAfter u₀ (reports past)).minutes, (uartAfter u₀ (reports past)).seconds) = (0, 0)

/-- At `t` no request is in force, and the clock must not be trusted. -/
def Slips : Prop := held u₀ (physRun run₀ past) t past = false ∧
  (Stirred run₀ u₀ t past ∨ Lapsed run₀ u₀ t₀ t past ∨ RunsAtZero run₀ u₀ past)

instance : Decidable (Stirred run₀ u₀ t past) := inferInstanceAs (Decidable (_ ∧ _ ∧ ¬ _))
instance : Decidable (Lapsed run₀ u₀ t₀ t past) := inferInstanceAs (Decidable (_ ∧ _ ∧ (_ ∨ ¬ _)))
instance : Decidable (RunsAtZero run₀ u₀ past) := inferInstanceAs (Decidable (_ ∧ _ = _))
instance : Decidable (Slips run₀ u₀ t₀ t past) := inferInstanceAs (Decidable (_ ∧ (_ ∨ _ ∨ _)))

/-- No decision of the history slips. -/
def NoSlips : List Entry → Prop
  | [] => True
  | e :: past => NoSlips past ∧ (e.event.decides = true → ¬ Slips run₀ u₀ t₀ e.time past)

instance decidableNoSlips : (hist : List Entry) → Decidable (NoSlips run₀ u₀ t₀ hist)
  | [] => .isTrue trivial
  | e :: past =>
    haveI := decidableNoSlips past
    inferInstanceAs (Decidable (_ ∧ (e.event.decides = true → ¬ Slips run₀ u₀ t₀ e.time past)))

end Slips

theorem Trace.tail {c : Point} {e : Entry} {past : List Entry} (h : Trace allow g₀ c (e :: past)) :
    ∃ c', Trace allow g₀ c' past := by
  cases h with
  | quiet hpast => exact ⟨c, hpast⟩
  | move hpast => exact ⟨_, hpast⟩

/-- No pulse on GP1 is due at a decision. -/
theorem Trace.check_tail {c : Point} {e : Entry} {past : List Entry}
    (h : Trace allow g₀ c (e :: past)) (he : e.event.decides = true) :
    ∃ c', Trace allow g₀ c' past ∧ c'.due = false := by
  cases h with
  | quiet _ hq =>
    obtain ⟨want, he⟩ := Event.decides_iff.1 he
    exact absurd he (Event.quiet_ne_startStop hq want)
  | move hpast hmove =>
    cases hmove with
    | receive | toggle | freeze | snapshot | step => cases he
    | _ => exact ⟨_, hpast, rfl⟩

/-- What a trace says about the train at a point. -/
structure TrainAt (run₀ : Bool) (c : Point) (hist : List Entry) : Prop where
  stopped : ∀ p, c = .stepping p → physRun run₀ hist = false
  train : Plant.TrainStopped run₀ hist

/-- **The train is pulsed on a stopped scoreboard**, as long as the decisions found its run flag. -/
theorem Trace.trainAt {c : Point} {hist : List Entry} (h : Trace allow g₀ c hist)
    (htrust : Trusted g₀ run₀ hist) : TrainAt run₀ c hist := by
  induction h with
  | start => exact ⟨by simp, trivial⟩
  | @quiet c e past _ hq ih =>
    have hpast := ih htrust.1
    refine ⟨?_, hpast.train, ?_⟩
    · rw [physRun_other (Event.quiet_ne_pin hq _)]
      exact hpast.stopped
    · intro hrise
      rw [Event.quiet_rises hq] at hrise
      cases hrise
  | @move c c' e past _ hmove ih =>
    have hpast := ih htrust.1
    cases hmove with
    | checkSilent _ hno =>
      refine ⟨fun p _ => ?_, hpast.train, ?_⟩
      · rw [answer_trusted htrust] at hno
        rw [physRun_other (by simp)]
        simpa using hno
      · rintro ⟨⟩
    | step hnext => exact ⟨by simp, hpast.train, fun _ _ => hpast.stopped _ rfl⟩
    | toggle | freeze => exact ⟨by simp, hpast.train, fun _ hpin => absurd rfl hpin⟩
    | _ => exact ⟨by simp, hpast.train, by rintro ⟨⟩⟩

section ClosedLoop

variable {x₀ : Plant} {u₀ : Uart} {t₀ now : ℕ} {e : Entry} {past : List Entry}

/-- **The clock's word**: what it says of the scoreboard is right, or stirred, or lapsed. -/
theorem reading_iff (hx : Plant.Known x₀ u₀ t₀) (htrain : Plant.TrainStopped x₀.run past)
    (hloop : Plant.closedLoop x₀ u₀ (e :: past) = true) (hord : Ordered t₀ now (e :: past)) :
    (uartAfter u₀ (reports past)).running e.time = physRun x₀.run past ↔
      ¬ (Stirred x₀.run u₀ e.time past ∨ Lapsed x₀.run u₀ t₀ e.time past ∨
        RunsAtZero x₀.run u₀ past) := by
  have hpast := (Plant.closedLoop_cons.1 hloop).1
  cases hrun : physRun x₀.run past with
  | false =>
    have hafter : (Plant.after x₀ past).run = false := (Plant.after_run x₀ past).trans hrun
    simp only [Stirred, Lapsed, RunsAtZero, hrun, Bool.false_eq_true, true_and, false_and, or_false,
      not_and, not_not]
    refine ⟨fun hread hr => ?_, fun hrested => ?_⟩
    · cases hread.symm.trans hr
    · rw [Bool.eq_false_iff]
      intro hread
      have hstop := Plant.reading_stopped hx (hrested hread) hord.2.start_le hpast hord.2 hafter
      cases hread.symm.trans hstop
  | true =>
    have hafter : (Plant.after x₀ past).run = true := (Plant.after_run x₀ past).trans hrun
    simp only [Stirred, Lapsed, RunsAtZero, hrun, Bool.true_eq_false, true_and, false_and, false_or,
      not_or, not_and, not_not, Nat.not_le]
    refine ⟨fun hread => ⟨fun hr => ?_, (Uart.running_iff.1 hread).1⟩, fun ⟨hnew, h0⟩ => ?_⟩
    · cases hread.symm.trans hr
    · rw [← Bool.not_eq_false]
      intro hread
      obtain ⟨hstart, hrested⟩ := hnew hread
      have hright := Plant.reading_running hx.beat htrain hloop hord hafter hstart hrested h0
      cases hread.symm.trans hright

end ClosedLoop

/-- **A decision finds the run flag iff it does not slip**, in the closed loop and after decisions
that found it. -/
theorem decision_iff {x₀ : Plant} {w₀ : World} (hw : Confirmed x₀ w₀) {now : ℕ} {c : Point}
    {e : Entry} {past : List Entry} (h : Trace allow w₀.shared c (e :: past))
    (hord : Ordered w₀.now now (e :: past))
    (hloop : Plant.closedLoop x₀ w₀.shared.board.uart (e :: past) = true)
    (htrust : Trusted w₀.shared x₀.run past) (he : e.event.decides = true) :
    (replay w₀.shared past).board.effective e.time = physRun x₀.run past ↔
      ¬ Slips x₀.run w₀.shared.board.uart w₀.now e.time past := by
  obtain ⟨c', hpast, hdue⟩ := h.check_tail he
  rw [hpast.effective hdue hord.2 htrust hw.pending, Slips]
  cases hheld : held w₀.shared.board.uart (physRun x₀.run past) e.time past with
  | true => simp
  | false =>
    rw [if_neg (by simp), and_iff_right rfl]
    exact reading_iff hw.known (hpast.trainAt htrust).train hloop hord

/-- **In the closed loop the belief is right but for the slips.** -/
theorem trusted_iff {x₀ : Plant} {w₀ : World} (hw : Confirmed x₀ w₀) {now : ℕ} {c : Point}
    {hist : List Entry} (h : Trace allow w₀.shared c hist) (hord : Ordered w₀.now now hist)
    (hloop : Plant.closedLoop x₀ w₀.shared.board.uart hist = true) :
    Trusted w₀.shared x₀.run hist ↔ NoSlips x₀.run w₀.shared.board.uart w₀.now hist := by
  induction hist generalizing now c with
  | nil => exact Iff.rfl
  | cons e past ih =>
    obtain ⟨c', hpast⟩ := h.tail
    have hrest := ih hpast hord.2 (Plant.closedLoop_cons.1 hloop).1
    refine ⟨fun ⟨htrust, hright⟩ => ⟨hrest.1 htrust, fun he => ?_⟩,
      fun ⟨hslips, hright⟩ => ⟨hrest.2 hslips, fun he => ?_⟩⟩
    · exact (decision_iff hw h hord hloop htrust he).1 (hright he)
    · exact (decision_iff hw h hord hloop (hrest.2 hslips) he).2 (hright he)

/-! ### Runs -/

/-- The commands of run control. -/
def RunControl (cmd : Command) : Prop := cmd.runControl = true

/-- `SetTimer` to `09:30` at `07:30`, and `Start` before the first pulse of its train. -/
def startInTrain : List (Option Action) :=
  [some (.send (.setTimer 9 30)), none, none, none, none] ++
    [some (.send .start), none, none, none, none, none, some (.elapse 50000), none, none] ++
    [none, some (.elapse 50000), none, none] ++ silentPulse ++ silentPulse ++ silentPulse

def startInTrainEnd : World × Pending := (playHead false startInTrain World.boot .zero).get rfl

instance (cmd : Command) : Decidable (RunControl cmd) := inferInstanceAs (Decidable (_ = true))

theorem startInTrain_reach : (boardSystem false RunControl).Reach ⟨World.boot, .ret .zero⟩
    ⟨startInTrainEnd.1, .ret startInTrainEnd.2⟩ := by
  have hplay : playHead false startInTrain World.boot .zero = some startInTrainEnd :=
    (Option.some_get _).symm
  exact playHead_reach (by decide) hplay

theorem World.boot_confirmed : Confirmed Plant.boot World.boot :=
  ⟨⟨by rintro c ⟨⟩, Nat.le_refl _, rfl⟩, rfl⟩

theorem startInTrain_noSlips :
    NoSlips false Uart.boot 0 startInTrainEnd.1.hist := by decide +kernel

end ScoreboardCtrl
