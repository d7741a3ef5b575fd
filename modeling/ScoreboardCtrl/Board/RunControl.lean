import ScoreboardCtrl.Board.History

/-!
# Run control as a transition system

What `board_task` of the hardware build does when the only commands are `Start`, `Stop`,
`StartStop` and `SetTimer`, seen from its history: at each moment it stands at a `Point`, some
entries are `quiet` (they leave it there), the others `Move` it on. `Trace` are the histories that
arise so, newest entry first.

`trace_reach` and `trace_head` connect this to the code: every run of `boardSystem` is a `Trace`,
and where the task is at the head of its loop, so is the trace. Facts about whole runs are then
inductions over `Trace`, one case for each thing the loop can do.
-/

namespace ScoreboardCtrl

/-! ### The transition system -/

/-- The state asked for by a start/stop command: `none` is the raw toggle. -/
def Command.want : Command → Option (Option Bool)
  | .startStop => some none
  | .start => some (some true)
  | .stop => some (some false)
  | _ => none

/-- The commands of this module. -/
def Command.runControl : Command → Bool
  | .startStop | .start | .stop | .setTimer _ _ => true
  | _ => false

/-- Where `board_task` stands. -/
inductive Point where
  /-- at the head of its loop -/
  | head (p : Pending)
  /-- it has taken a command -/
  | taken (p : Pending) (cmd : Command)
  /-- it owes a pulse on GP1, and then goes back to the head -/
  | toggling (p : Pending)
  /-- it owes a pulse on GP1 before it reads the clock for `SetTimer` -/
  | freezing (p : Pending) (min sec : ℕ)
  /-- it is about to read the clock for `SetTimer` -/
  | frozen (p : Pending) (min sec : ℕ)
  /-- it owes the next pulse of the train -/
  | stepping (p : Pending)
  deriving DecidableEq, Repr

/-- The pin of the next pulse of the train, and what is pending after it. -/
def Pending.next (p : Pending) : Option (Pin × Pending) :=
  if p.min > 0 then some (.minInc, { p with min := p.min - 1 })
  else if p.min < 0 then some (.minDec, { p with min := p.min + 1 })
  else if p.sec > 0 then some (.secInc, { p with sec := p.sec - 1 })
  else if p.sec < 0 then some (.secDec, { p with sec := p.sec + 1 })
  else none

/-- What `SetTimer` leaves pending when the clock shows `shown`. -/
def Pending.aim (p : Pending) (min sec : ℕ) (shown : ℕ × ℕ) : Pending :=
  { p with min := (Min.min min 99 : ℕ) - shown.1, sec := (Min.min sec 59 : ℕ) - shown.2 }

/-- The answer to a start/stop request made at `t` after `past`. -/
def answer (g₀ : Shared) (past : List Entry) (t : ℕ) (want : Option Bool) : Bool :=
  ((replay g₀ past).startStopPulseFor want t).1

/-- The clock as the Pico has it after `past`. -/
def shown (g₀ : Shared) (past : List Entry) : ℕ × ℕ :=
  ((replay g₀ past).board.minutes, (replay g₀ past).board.seconds)

/-- What the entry does not concern run control and leaves the task where it is. -/
def Event.quiet : Event → Bool
  | .lock sec => sec.visitor false
  | .pin _ high => !high
  | .received _ _ => false
  | _ => true

inductive Move (allow : Command → Prop) (g₀ : Shared) (past : List Entry) :
    Point → Entry → Point → Prop
  | receive {p : Pending} {cmd : Command} {t : ℕ} : allow cmd →
      Move allow g₀ past (.head p) ⟨t, .received cmd !p.hasPending⟩ (.taken p cmd)
  | requestPulse {p : Pending} {cmd : Command} {want : Option Bool} {t : ℕ} :
      cmd.want = some want → answer g₀ past t want = true →
      Move allow g₀ past (.taken p cmd) ⟨t, .lock (.startStop want)⟩ (.toggling p)
  | requestSilent {p : Pending} {cmd : Command} {want : Option Bool} {t : ℕ} :
      cmd.want = some want → answer g₀ past t want = false →
      Move allow g₀ past (.taken p cmd) ⟨t, .lock (.startStop want)⟩ (.head p)
  | toggle {p : Pending} {t : ℕ} :
      Move allow g₀ past (.toggling p) ⟨t, .pin .start true⟩ (.head p)
  | freezePulse {p : Pending} {min sec t : ℕ} : answer g₀ past t (some false) = true →
      Move allow g₀ past (.taken p (.setTimer min sec)) ⟨t, .lock (.startStop (some false))⟩
        (.freezing p min sec)
  | freezeSilent {p : Pending} {min sec t : ℕ} : answer g₀ past t (some false) = false →
      Move allow g₀ past (.taken p (.setTimer min sec)) ⟨t, .lock (.startStop (some false))⟩
        (.frozen p min sec)
  | freeze {p : Pending} {min sec t : ℕ} :
      Move allow g₀ past (.freezing p min sec) ⟨t, .pin .start true⟩ (.frozen p min sec)
  | snapshot {p : Pending} {min sec t : ℕ} :
      Move allow g₀ past (.frozen p min sec) ⟨t, .lock .snapshot⟩
        (.head (p.aim min sec (shown g₀ past)))
  | checkPulse {p : Pending} {t : ℕ} : p.min ≠ 0 ∨ p.sec ≠ 0 →
      answer g₀ past t (some false) = true →
      Move allow g₀ past (.head p) ⟨t, .lock (.startStop (some false))⟩ (.toggling p)
  | checkSilent {p : Pending} {t : ℕ} : p.min ≠ 0 ∨ p.sec ≠ 0 →
      answer g₀ past t (some false) = false →
      Move allow g₀ past (.head p) ⟨t, .lock (.startStop (some false))⟩ (.stepping p)
  | step {p p' : Pending} {pin : Pin} {t : ℕ} : p.next = some (pin, p') →
      Move allow g₀ past (.stepping p) ⟨t, .pin pin true⟩ (.head p')

/-- The histories of run control, and where they leave the task. -/
inductive Trace (allow : Command → Prop) (g₀ : Shared) : Point → List Entry → Prop
  | start : Trace allow g₀ (.head .zero) []
  | quiet {c : Point} {e : Entry} {past : List Entry} : Trace allow g₀ c past →
      e.event.quiet = true → Trace allow g₀ c (e :: past)
  | move {c c' : Point} {e : Entry} {past : List Entry} : Trace allow g₀ c past →
      Move allow g₀ past c e c' → Trace allow g₀ c' (e :: past)

variable {allow : Command → Prop} {g₀ : Shared}

def Point.pending : Point → Pending
  | .head p | .taken p _ | .toggling p | .freezing p _ _ | .frozen p _ _ | .stepping p => p

theorem Pending.next_scores {p p' : Pending} {pin : Pin} (h : p.next = some (pin, p')) :
    p'.homeDec = p.homeDec ∧ p'.awayDec = p.awayDec := by
  unfold next at h
  split_ifs at h <;> cases h <;> exact ⟨rfl, rfl⟩

/-- Run control leaves no score pulses pending. -/
theorem Trace.scores {c : Point} {hist : List Entry} (h : Trace allow g₀ c hist) :
    c.pending.homeDec = 0 ∧ c.pending.awayDec = 0 := by
  induction h with
  | start => exact ⟨rfl, rfl⟩
  | quiet _ _ ih => exact ih
  | move _ hmove ih =>
    cases hmove with
    | step hnext =>
      obtain ⟨hhome, haway⟩ := Pending.next_scores hnext
      exact ⟨hhome.trans ih.1, haway.trans ih.2⟩
    | _ => exact ih

theorem Trace.allowed {c : Point} {hist : List Entry} (h : Trace allow g₀ c hist) :
    ∀ p cmd, c = .taken p cmd → allow cmd := by
  induction h with
  | start => rintro p cmd ⟨⟩
  | quiet _ _ ih => exact ih
  | move _ hmove ih =>
    cases hmove with
    | receive hcmd =>
      rintro p cmd ⟨⟩
      exact hcmd
    | _ => rintro p cmd ⟨⟩

/-- The commands a history took, newest first, each with whether the task was waiting for it. -/
def commandsTaken (hist : List Entry) : List (Command × Bool) :=
  hist.filterMap fun e =>
    match e.event with
    | .received cmd idle => some (cmd, idle)
    | _ => none

/-! ### The code follows it -/

/-- The task of `w` stands at `c`. -/
structure At (allow : Command → Prop) (g₀ : Shared) (c : Point) (w : World) : Prop where
  replayed : Replayed g₀ w
  queue : ∀ cmd ∈ w.queue, allow cmd
  trace : Trace allow g₀ c w.hist

theorem At.env {c : Point} {w w' : World} (h : At allow g₀ c w)
    (he : (boardSystem false allow).env w w') : At allow g₀ c w' := by
  obtain ⟨a, hadm, ha⟩ := he
  refine ⟨h.replayed.env ha, ?_, ?_⟩
  · rcases Action.apply_cases ha with
      ⟨-, -, hq⟩ | ⟨_, -, -, -, hq⟩ | ⟨cmd, rfl, -, -, hq⟩ | ⟨-, -, hq⟩
    · rw [hq]
      exact h.queue
    · rw [hq]
      exact h.queue
    · rw [hq]
      intro cmd' hcmd'
      rcases List.mem_append.1 hcmd' with hold | hnew
      · exact h.queue cmd' hold
      · rw [List.mem_singleton.1 hnew]
        exact hadm
    · rw [hq]
      exact h.queue
  · rcases Action.apply_cases ha with ⟨hh, -⟩ | ⟨sec, hsec, hh, -⟩ | ⟨cmd, -, hh, -⟩ | ⟨hh, -⟩
    · rw [hh]
      exact h.trace
    · rw [hh]
      exact h.trace.quiet hsec
    · rw [hh]
      exact h.trace.quiet rfl
    · rw [hh]
      exact h.trace.quiet rfl

/-- Runs are asked to stay traces. -/
def Traced (allow : Command → Prop) (g₀ : Shared) (w : World) : Prop := ∃ c, At allow g₀ c w

def traceSpec (allow : Command → Prop) (g₀ : Shared) : Lib.Spec World BoardOp BoardOp.Ret :=
  (boardSystem false allow).spec (fun _ w' => Traced allow g₀ w') fun _ _ => True

theorem At.stable (c : Point) : (traceSpec allow g₀).Stable (At allow g₀ c) :=
  Lib.Solo.stable_spec fun _ _ he h => h.env he

/-- An operation of the task that adds one entry `e` and moves it from `c` to `c'`. -/
theorem At.act {c c' : Point} {w : World} {e : Event} (h : At allow g₀ c w)
    (he : ∀ sec, e ≠ .lock sec) (hmove : Trace allow g₀ c' (⟨w.now, e⟩ :: w.hist)) :
    At allow g₀ c' (w.act e) := by
  refine ⟨?_, h.queue, hmove⟩
  have hreplayed : w.shared = replay g₀ w.hist := h.replayed
  show w.shared = Entry.onShared ⟨w.now, e⟩ (replay g₀ w.hist)
  cases e with
  | lock sec => exact absurd rfl (he sec)
  | _ => exact hreplayed

open Lib.Spec

theorem quietPin_triple (c : Point) (pin : Pin) :
    (traceSpec allow g₀).Triple (At allow g₀ c) (BoardProg.setPin pin false)
      fun _ => At allow g₀ c := by
  refine Triple.call (At.stable c) fun w hw => ⟨trivial, ?_⟩
  rintro r w' ⟨⟩
  have hafter := hw.act (by simp) (hw.trace.quiet (e := ⟨w.now, .pin pin false⟩) rfl)
  exact ⟨⟨c, hafter⟩, hafter⟩

theorem wait_triple (c : Point) (ms : ℕ) :
    (traceSpec allow g₀).Triple (At allow g₀ c) (BoardProg.afterMillis ms)
      fun _ => At allow g₀ c := by
  refine Triple.call (At.stable c) fun w hw => ⟨trivial, fun r w' he => ?_⟩
  change (if w.since + ms * 1000 ≤ w.now then some ((), w.act (.waited ms)) else none) =
    some (r, w') at he
  split at he
  · cases he
    have hafter := hw.act (by simp) (hw.trace.quiet (e := ⟨w.now, .waited ms⟩) rfl)
    exact ⟨⟨c, hafter⟩, hafter⟩
  · cases he

theorem gpio_triple (c : Point) (on : Bool) :
    (traceSpec allow g₀).Triple (At allow g₀ c) (BoardProg.gpioSet on)
      fun _ => At allow g₀ c := by
  refine Triple.call (At.stable c) fun w hw => ⟨trivial, ?_⟩
  rintro r w' ⟨⟩
  have hafter := hw.act (by simp) (hw.trace.quiet (e := ⟨w.now, .gpio on⟩) rfl)
  exact ⟨⟨c, hafter⟩, hafter⟩

theorem blink_triple (c : Point) (holdLed : Bool) :
    (traceSpec allow g₀).Triple (At allow g₀ c) (blinkOnboard holdLed) fun _ => At allow g₀ c := by
  cases holdLed with
  | true => exact .pure fun _ hw => hw
  | false => exact .bind (gpio_triple c true) fun _ => .bind (wait_triple c pulseMs) fun _ =>
      gpio_triple c false

/-- A pulse is one move, made at its rising edge. -/
theorem pulse_triple {c c' : Point} {pin : Pin}
    (hmove : ∀ past t, Move allow g₀ past c ⟨t, .pin pin true⟩ c') :
    (traceSpec allow g₀).Triple (At allow g₀ c) (pulse pin) fun _ => At allow g₀ c' := by
  have hrise : (traceSpec allow g₀).Triple (At allow g₀ c) (BoardProg.setPin pin true)
      fun _ => At allow g₀ c' := by
    refine Triple.call (At.stable c) fun w hw => ⟨trivial, ?_⟩
    rintro r w' ⟨⟩
    have hafter := hw.act (by simp) (hw.trace.move (hmove w.hist w.now))
    exact ⟨⟨c', hafter⟩, hafter⟩
  exact .bind hrise fun _ => .bind (wait_triple c' pulseMs) fun _ => quietPin_triple c' pin

theorem readLed_triple (c : Point) :
    (traceSpec allow g₀).Triple (At allow g₀ c) (BoardProg.lock .readLed)
      fun _ => At allow g₀ c := by
  refine Triple.call (At.stable c) fun w hw => ⟨trivial, fun r w' he => ?_⟩
  have hrep := hw.replayed.exec he
  cases he
  have hafter : At allow g₀ c { w.act (.lock .readLed) with shared := w.shared } :=
    ⟨hrep, hw.queue, hw.trace.quiet rfl⟩
  exact ⟨⟨c, hafter⟩, hafter⟩

theorem startStop_triple {c yes no : Point} {want : Option Bool}
    (hyes : ∀ past t, answer g₀ past t want = true →
      Move allow g₀ past c ⟨t, .lock (.startStop want)⟩ yes)
    (hno : ∀ past t, answer g₀ past t want = false →
      Move allow g₀ past c ⟨t, .lock (.startStop want)⟩ no) :
    (traceSpec allow g₀).Triple (At allow g₀ c) (BoardProg.lock (.startStop want))
      fun b : Bool => At allow g₀ (if b then yes else no) := by
  refine Triple.call (At.stable c) fun w hw => ⟨trivial, fun (r : Bool) w' he => ?_⟩
  have hrep := hw.replayed.exec he
  have hshared : w.shared = replay g₀ w.hist := hw.replayed
  obtain ⟨hr, rfl⟩ := Prod.mk.inj (Option.some.inj he)
  have hanswer : answer g₀ w.hist w.now want = r := by
    rw [answer, ← hshared]
    exact hr
  have hafter : At allow g₀ (if r then yes else no)
      { w.act (.lock (.startStop want)) with
        shared := ((Section.startStop want).run w.now w.shared).2 } := by
    refine ⟨hrep, hw.queue, ?_⟩
    cases r with
    | true => exact hw.trace.move (hyes w.hist w.now hanswer)
    | false => exact hw.trace.move (hno w.hist w.now hanswer)
  exact ⟨⟨_, hafter⟩, hafter⟩

theorem pulseIf_triple {yes no : Point} {b : Bool}
    (hmove : ∀ past t, Move allow g₀ past yes ⟨t, .pin .start true⟩ no) :
    (traceSpec allow g₀).Triple (At allow g₀ (if b then yes else no)) (pulseIf b .start)
      fun _ => At allow g₀ no := by
  cases b with
  | true => exact pulse_triple hmove
  | false => exact .pure fun _ hw => hw

theorem snapshot_triple (p : Pending) (min sec : ℕ) :
    (traceSpec allow g₀).Triple (At allow g₀ (.frozen p min sec)) (BoardProg.lock .snapshot)
      fun r : ℕ × ℕ => At allow g₀ (.head (p.aim min sec r)) := by
  refine Triple.call (At.stable _) fun w hw => ⟨trivial, fun r w' he => ?_⟩
  have hrep := hw.replayed.exec he
  have hshared : w.shared = replay g₀ w.hist := hw.replayed
  obtain ⟨hr, rfl⟩ := Prod.mk.inj (Option.some.inj he)
  have hshown : shown g₀ w.hist = r := by
    rw [shown, ← hshared]
    exact hr
  have hafter : At allow g₀ (.head (p.aim min sec r))
      { w.act (.lock .snapshot) with shared := w.shared } :=
    ⟨hrep, hw.queue, hshown ▸ hw.trace.move .snapshot⟩
  exact ⟨⟨_, hafter⟩, hafter⟩

theorem tryReceive_triple {p : Pending} (hp : p.hasPending = true) :
    (traceSpec allow g₀).Triple (At allow g₀ (.head p)) BoardProg.tryReceive
      fun r : Option Command => At allow g₀ (r.elim (.head p) (.taken p)) := by
  refine Triple.call (At.stable _) fun w hw => ⟨trivial, fun r w' he => ?_⟩
  simp only [traceSpec, Lib.Solo.spec, boardSystem, BoardOp.exec] at he
  split at he
  · cases he
    have hafter : At allow g₀ (.head p) { w with since := w.now } :=
      ⟨hw.replayed, hw.queue, hw.trace⟩
    exact ⟨⟨_, hafter⟩, hafter⟩
  · rename_i cmd queue hq
    cases he
    have hcmd : allow cmd := hw.queue cmd (hq ▸ List.mem_cons_self)
    have hmove : Trace allow g₀ (.taken p cmd) (⟨w.now, .received cmd !p.hasPending⟩ :: w.hist) :=
      hw.trace.move (.receive hcmd)
    rw [hp] at hmove
    have hafter : At allow g₀ (.taken p cmd)
        { w.act (.received cmd false) with queue := queue } :=
      ⟨(hw.act (by simp) hmove).replayed, fun c hc => hw.queue c (hq ▸ List.mem_cons_of_mem _ hc), hmove⟩
    exact ⟨⟨_, hafter⟩, hafter⟩

theorem receive_triple {p : Pending} (hp : p.hasPending = false) :
    (traceSpec allow g₀).Triple (At allow g₀ (.head p)) BoardProg.receive
      fun cmd : Command => At allow g₀ (.taken p cmd) := by
  refine Triple.call (At.stable _) fun w hw => ⟨trivial, fun (r : Command) w' he => ?_⟩
  simp only [traceSpec, Lib.Solo.spec, boardSystem, BoardOp.exec] at he
  split at he
  · cases he
  · rename_i cmd queue hq
    cases he
    have hcmd : allow r := hw.queue r (hq ▸ List.mem_cons_self)
    have hmove : Trace allow g₀ (.taken p r) (⟨w.now, .received r !p.hasPending⟩ :: w.hist) :=
      hw.trace.move (.receive hcmd)
    rw [hp] at hmove
    have hafter : At allow g₀ (.taken p r)
        { w.act (.received r true) with queue := queue } :=
      ⟨(hw.act (by simp) hmove).replayed, fun c hc => hw.queue c (hq ▸ List.mem_cons_of_mem _ hc), hmove⟩
    exact ⟨⟨_, hafter⟩, hafter⟩

theorem nextCommand_triple (p : Pending) :
    (traceSpec allow g₀).Triple (At allow g₀ (.head p)) (nextCommand p)
      fun r => At allow g₀ (r.elim (.head p) (.taken p)) := by
  unfold nextCommand
  cases hp : p.hasPending with
  | true => exact tryReceive_triple hp
  | false => exact .bind (receive_triple hp) fun _ => .pure fun _ hw => hw

theorem cmdStartStop_triple {p : Pending} {cmd : Command} {want : Option Bool}
    (hwant : cmd.want = some want) :
    (traceSpec allow g₀).Triple (At allow g₀ (.taken p cmd)) (cmdStartStop false want)
      fun _ => At allow g₀ (.head p) :=
  .bind (readLed_triple _) fun _ =>
    .bind (startStop_triple (fun _ _ => .requestPulse hwant) fun _ _ => .requestSilent hwant)
      fun _ => .bind (pulseIf_triple fun _ _ => .toggle) fun _ => blink_triple _ _

theorem cmdSetTimer_triple (p : Pending) (min sec : ℕ) :
    (traceSpec allow g₀).Triple (At allow g₀ (.taken p (.setTimer min sec)))
      (cmdSetTimer false min sec p) fun p' => At allow g₀ (.head p') :=
  .bind (startStop_triple (fun _ _ => .freezePulse) fun _ _ => .freezeSilent) fun _ =>
    .bind (pulseIf_triple fun _ _ => .freeze) fun _ =>
      .bind (snapshot_triple p min sec) fun _ => .pure fun _ hw => hw

theorem handle_triple (hallow : ∀ cmd, allow cmd → cmd.runControl = true) (p : Pending)
    (cmd : Command) :
    (traceSpec allow g₀).Triple (At allow g₀ (.taken p cmd)) (handle false p cmd)
      fun p' => At allow g₀ (.head p') := by
  have hother : cmd.runControl = false → (traceSpec allow g₀).Triple (At allow g₀ (.taken p cmd))
      (handle false p cmd) fun p' => At allow g₀ (.head p') := by
    refine fun hcmd => .absurd ?_
    intro w hw
    rw [hallow cmd (hw.trace.allowed p cmd rfl)] at hcmd
    cases hcmd
  cases cmd with
  | startStop => exact .bind (cmdStartStop_triple rfl) fun _ => .pure fun _ hw => hw
  | start => exact .bind (cmdStartStop_triple rfl) fun _ => .pure fun _ hw => hw
  | stop => exact .bind (cmdStartStop_triple rfl) fun _ => .pure fun _ hw => hw
  | setTimer min sec => exact cmdSetTimer_triple p min sec
  | _ => exact hother rfl

/-- `trainPulse` makes the pulse that `Pending.next` names. -/
theorem trainPulse_eq (p : Pending) : trainPulse p =
    match p.next with
    | some (pin, p') => do pulse pin; pure p'
    | none => pure p := by
  unfold trainPulse Pending.next
  split_ifs <;> rfl

theorem Pending.next_ne_none {p : Pending} (h : p.min ≠ 0 ∨ p.sec ≠ 0) :
    ∃ pin p', p.next = some (pin, p') := by
  unfold next
  split_ifs with h₁ h₂ h₃ h₄
  · exact ⟨_, _, rfl⟩
  · exact ⟨_, _, rfl⟩
  · exact ⟨_, _, rfl⟩
  · exact ⟨_, _, rfl⟩
  · omega

theorem trainPulse_triple {p : Pending} (hp : p.min ≠ 0 ∨ p.sec ≠ 0) :
    (traceSpec allow g₀).Triple (At allow g₀ (.stepping p)) (trainPulse p)
      fun p' => At allow g₀ (.head p') := by
  obtain ⟨pin, p', hnext⟩ := Pending.next_ne_none hp
  rw [trainPulse_eq, hnext]
  exact .bind (pulse_triple fun _ _ => .step hnext) fun _ => .pure fun _ hw => hw

theorem drain_triple (p : Pending) :
    (traceSpec allow g₀).Triple (At allow g₀ (.head p)) (drain false p)
      fun p' => At allow g₀ (.head p') := by
  simp only [drain, Bool.false_eq_true, if_false]
  split_ifs with hhome haway hp
  · refine .absurd ?_
    intro w hw
    have : p.homeDec = 0 := hw.trace.scores.1
    omega
  · refine .absurd ?_
    intro w hw
    have : p.awayDec = 0 := hw.trace.scores.2
    omega
  · refine .bind (startStop_triple (fun _ _ => .checkPulse hp) fun _ _ => .checkSilent hp)
      fun b => ?_
    cases b with
    | true => exact .bind (pulse_triple fun _ _ => .toggle) fun _ => .pure fun _ hw => hw
    | false => exact trainPulse_triple hp
  · exact .pure fun _ hw => hw

theorem boardTask_triple (hallow : ∀ cmd, allow cmd → cmd.runControl = true) (p : Pending) :
    (traceSpec allow g₀).Triple (At allow g₀ (.head p)) (boardTask false p)
      fun p' => At allow g₀ (.head p') := by
  refine .bind (nextCommand_triple p) ?_
  intro cmd
  cases cmd with
  | some cmd => exact handle_triple hallow p cmd
  | none => exact drain_triple p

theorem traceSpec_fits (hallow : ∀ cmd, allow cmd → cmd.runControl = true) :
    Lib.Solo.Fits (boardSystem false allow) (traceSpec allow g₀)
      fun p w => At allow g₀ (.head p) w :=
  Lib.Solo.fits_spec (fun _ _ _ he h => h.env he) (boardTask_triple hallow)

/-- The observation starts at `w`, with nothing sent yet that is not admitted. -/
structure Starts (allow : Command → Prop) (w : World) : Prop where
  hist : w.hist = []
  queue : ∀ cmd ∈ w.queue, allow cmd

theorem Starts.at_head {w : World} (h : Starts allow w) : At allow w.shared (.head .zero) w :=
  ⟨by rw [Replayed, h.hist]; rfl, h.queue, by rw [h.hist]; exact .start⟩

/-- **At the head of its loop the task is where the trace says.** -/
theorem trace_head (hallow : ∀ cmd, allow cmd → cmd.runControl = true) {w₀ w : World}
    {p : Pending} (h₀ : Starts allow w₀)
    (h : (boardSystem false allow).Reach ⟨w₀, .ret .zero⟩ ⟨w, .ret p⟩) :
    At allow w₀.shared (.head p) w :=
  Lib.Solo.head_reach (traceSpec_fits hallow) h h₀.at_head

/-- **Every run of run control is a trace.** -/
theorem trace_reach (hallow : ∀ cmd, allow cmd → cmd.runControl = true) {w₀ w : World}
    {k : BoardProg Pending} (h₀ : Starts allow w₀)
    (h : (boardSystem false allow).Reach ⟨w₀, .ret .zero⟩ ⟨w, k⟩) : Traced allow w₀.shared w := by
  have hrely : ∀ w₁ w₂, (traceSpec allow w₀.shared).rely w₁ w₂ → Traced allow w₀.shared w₁ →
      Traced allow w₀.shared w₂ := fun w₁ w₂ hr ⟨c, hc⟩ => ⟨c, At.stable c w₁ w₂ hr hc⟩
  exact Lib.Solo.guar_reach (traceSpec_fits hallow) hrely (fun _ _ hg _ => hg) h h₀.at_head
    ⟨_, h₀.at_head⟩

end ScoreboardCtrl
