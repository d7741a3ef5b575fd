import ScoreboardCtrl.Board.Task

/-!
# The operations of `board_task`

Which sections a command's handler enters (`Command.sections`) and which pins it pulses
(`Command.pins`), and that it does nothing else but wait and blink (`handle_all`); likewise the end of
the loop (`drain_all`). A turn of the loop enters no other sections, whatever it is asked of them
(`handle_enters`, `drain_enters`). A score command enters one, and that first (`handle_score`).
-/

namespace ScoreboardCtrl

/-- If the operation is a critical section, `P` holds of it. -/
def BoardOp.Enters (P : Section → Prop) : BoardOp → Prop
  | .lock sec => P sec
  | _ => True

/-- The sections of a command's handler. -/
def Command.sections (sim : Bool) : Command → List Section
  | .startStop => [.readLed, if sim then .simStartStop none else .startStop none]
  | .start => [.readLed, if sim then .simStartStop (some true) else .startStop (some true)]
  | .stop => [.readLed, if sim then .simStartStop (some false) else .startStop (some false)]
  | .homeInc => [.homeInc]
  | .homeDec => [.homeDec]
  | .awayInc => [.awayInc]
  | .awayDec => [.awayDec]
  | .scoresZero => [.scoresZero]
  | .reset => if sim then [.simReset, .reset] else [.reset]
  | .ledOn => [.setLed true]
  | .ledOff => [.setLed false]
  | .setTimer m s =>
    if sim then [.simSetTimer (min m 99) (min s 59)] else [.startStop (some false), .snapshot]
  | .aux => [.readLed]

/-- The pins that a command's handler pulses. -/
def Command.pins : Command → List Pin
  | .startStop | .start | .stop | .setTimer _ _ => [.start]
  | .homeInc => [.homeInc]
  | .homeDec => [.homeDec]
  | .awayInc => [.awayInc]
  | .awayDec => [.awayDec]
  | .scoresZero => [.clear]
  | .reset => [.reset]
  | .ledOn | .ledOff => []
  | .aux => [.aux]

/-- The pins of the set-timer train. -/
def Pin.ofTrain : Pin → Bool
  | .minInc | .minDec | .secInc | .secDec => true
  | _ => false

/-! ### What a turn of the loop does -/

section Operations

open Lib.Prog

/-- Waiting and blinking are among the operations `P`. -/
structure BoardOp.Idles (P : BoardOp → Prop) : Prop where
  wait : ∀ ms, P (.afterMillis ms)
  blink : ∀ on, P (.gpioSet on)

variable {P : BoardOp → Prop} {sim : Bool}

theorem pulse_all (hP : BoardOp.Idles P) {pin : Pin} (hpin : ∀ high, P (.setPin pin high)) :
    (pulse pin).All P :=
  .bind (.call (hpin true)) fun _ => .bind (.call (hP.wait _)) fun _ => .call (hpin false)

theorem pulseIf_all (hP : BoardOp.Idles P) (b : Bool) {pin : Pin}
    (hpin : ∀ high, P (.setPin pin high)) : (pulseIf b pin).All P := by
  cases b with
  | false => trivial
  | true => exact pulse_all hP hpin

theorem blinkOnboard_all (hP : BoardOp.Idles P) (b : Bool) : (blinkOnboard b).All P := by
  cases b with
  | true => trivial
  | false =>
    exact .bind (.call (hP.blink _)) fun _ => .bind (.call (hP.wait _)) fun _ => .call (hP.blink _)

theorem cmdStartStop_all (hP : BoardOp.Idles P) {want : Option Bool} (hled : P (.lock .readLed))
    (hsec : P (.lock (if sim then .simStartStop want else .startStop want)))
    (hpin : ∀ high, P (.setPin .start high)) : (cmdStartStop sim want).All P := by
  cases sim with
  | true =>
    exact .bind (.call hled) fun _ => .bind (pulse_all hP hpin) fun _ =>
      .bind (blinkOnboard_all hP _) fun _ => .call hsec
  | false =>
    exact .bind (.call hled) fun _ => .bind (.call hsec) fun b =>
      .bind (pulseIf_all hP b hpin) fun _ => blinkOnboard_all hP _

theorem cmdScore_rest (hP : BoardOp.Idles P) (adjust : ℕ → ℕ) {pin : Pin}
    (hpin : ∀ high, P (.setPin pin high)) (n : ℕ) (r : Bool × Bool) :
    (cmdScore (pure r) adjust pin n).All P := by
  have hadjust : (adjustOrPulse adjust pin n).All P := by
    unfold adjustOrPulse
    split
    · trivial
    · exact .bind (pulse_all hP hpin) fun _ => trivial
  obtain ⟨doHw, led⟩ := r
  cases doHw with
  | false => trivial
  | true =>
    show (adjustOrPulse adjust pin n >>= fun m => blinkOnboard led >>= fun _ => pure m).All _
    exact .bind hadjust fun _ => .bind (blinkOnboard_all hP _) fun _ => trivial

theorem cmdScore_all (hP : BoardOp.Idles P) {sec : BoardProg (Bool × Bool)} (hsec : sec.All P)
    (adjust : ℕ → ℕ) {pin : Pin} (hpin : ∀ high, P (.setPin pin high)) (n : ℕ) :
    (cmdScore sec adjust pin n).All P :=
  .bind hsec (cmdScore_rest hP adjust hpin n)

theorem cmdReset_all (hP : BoardOp.Idles P) (p : Pending) (hsim : sim = true → P (.lock .simReset))
    (hsec : P (.lock .reset)) (hpin : ∀ high, P (.setPin .reset high)) : (cmdReset sim p).All P := by
  have hfirst : (simReset sim).All P := by
    cases sim with
    | true => exact .call (hsim rfl)
    | false => trivial
  exact .bind hfirst fun _ => .bind (.call hsec) fun _ => .bind (pulse_all hP hpin) fun _ =>
    .bind (blinkOnboard_all hP _) fun _ => trivial

theorem cmdSetTimer_all (hP : BoardOp.Idles P) (m s : ℕ) (p : Pending)
    (hsec : ∀ sec ∈ (Command.setTimer m s).sections sim, P (.lock sec))
    (hpin : ∀ high, P (.setPin .start high)) : (cmdSetTimer sim m s p).All P := by
  cases sim with
  | true => exact .bind (.call (hsec _ (by simp [Command.sections]))) fun _ => trivial
  | false =>
    exact .bind (.call (hsec _ (by simp [Command.sections]))) fun b =>
      .bind (pulseIf_all hP b hpin) fun _ =>
        .bind (.call (hsec _ (by simp [Command.sections]))) fun _ => trivial

/-- **The handler of a command** enters its sections, pulses its pins, waits and blinks. -/
theorem handle_all (hP : BoardOp.Idles P) (p : Pending) {cmd : Command}
    (hsec : ∀ sec ∈ cmd.sections sim, P (.lock sec))
    (hpin : ∀ pin ∈ cmd.pins, ∀ high, P (.setPin pin high)) : (handle sim p cmd).All P := by
  cases cmd with
  | startStop | start | stop =>
    exact .bind (cmdStartStop_all hP (hsec _ (by simp [Command.sections]))
      (hsec _ (by simp [Command.sections])) (hpin _ List.mem_cons_self)) fun _ => trivial
  | homeInc | homeDec | awayInc | awayDec =>
    exact .bind (cmdScore_all hP (.call (hsec _ List.mem_cons_self)) _
      (hpin _ List.mem_cons_self) _) fun _ => trivial
  | scoresZero =>
    exact .bind (.call (hsec _ List.mem_cons_self)) fun _ =>
      .bind (pulse_all hP (hpin _ List.mem_cons_self)) fun _ =>
        .bind (blinkOnboard_all hP _) fun _ => trivial
  | reset =>
    refine cmdReset_all hP p (fun hsim => hsec _ ?_) (hsec _ ?_) (hpin _ List.mem_cons_self)
    · simp [Command.sections, hsim]
    · cases sim <;> simp [Command.sections]
  | ledOn | ledOff =>
    exact .bind (.bind (.call (hP.blink _)) fun _ => .bind (.call (hsec _ List.mem_cons_self))
      fun _ => trivial) fun _ => trivial
  | setTimer m s => exact cmdSetTimer_all hP m s p hsec (hpin _ List.mem_cons_self)
  | aux =>
    exact .bind (.bind (.call (hsec _ List.mem_cons_self)) fun _ =>
      .bind (pulse_all hP (hpin _ List.mem_cons_self)) fun _ => blinkOnboard_all hP _) fun _ => trivial

theorem trainPulse_all (hP : BoardOp.Idles P) (p : Pending)
    (hpin : ∀ pin : Pin, pin.ofTrain = true → ∀ high, P (.setPin pin high)) :
    (trainPulse p).All P := by
  unfold trainPulse
  split_ifs
  · exact .bind (pulse_all hP (hpin .minInc rfl)) fun _ => trivial
  · exact .bind (pulse_all hP (hpin .minDec rfl)) fun _ => trivial
  · exact .bind (pulse_all hP (hpin .secInc rfl)) fun _ => trivial
  · exact .bind (pulse_all hP (hpin .secDec rfl)) fun _ => trivial
  · trivial

/-- **The end of the loop** pulses what is pending, and the hardware build checks first that the clock
is stopped. -/
theorem drain_all (hP : BoardOp.Idles P) (p : Pending)
    (hhome : p.homeDec > 0 → ∀ high, P (.setPin .homeDec high))
    (haway : p.awayDec > 0 → ∀ high, P (.setPin .awayDec high))
    (hpin : ∀ pin : Pin, pin.ofTrain = true → ∀ high, P (.setPin pin high))
    (hsec : sim = false → P (.lock (.startStop (some false))))
    (hstart : ∀ high, P (.setPin .start high)) : (drain sim p).All P := by
  unfold drain
  split_ifs with hhomeDec hawayDec _ hsim
  · exact .bind (pulse_all hP (hhome hhomeDec)) fun _ => trivial
  · exact .bind (pulse_all hP (haway hawayDec)) fun _ => trivial
  · exact trainPulse_all hP p hpin
  · refine .bind (.call (hsec (by simpa using hsim))) ?_
    intro restop
    cases restop with
    | true => exact .bind (pulse_all hP hstart) fun _ => trivial
    | false => exact trainPulse_all hP p hpin
  · trivial

theorem nextCommand_all (p : Pending) (hreceive : P .receive) (htry : P .tryReceive) :
    (nextCommand p).All P := by
  unfold nextCommand
  split
  · exact .call htry
  · exact .bind (.call hreceive) fun _ => trivial

end Operations

/-! ### The sections of a turn -/

section Programs

open Lib.Prog

variable {P : Section → Prop} {sim : Bool}

theorem enters_idles : BoardOp.Idles (BoardOp.Enters P) := ⟨fun _ => trivial, fun _ => trivial⟩

theorem handle_enters (p : Pending) {cmd : Command} (h : ∀ sec ∈ cmd.sections sim, P sec) :
    (handle sim p cmd).All (BoardOp.Enters P) :=
  handle_all enters_idles p h fun _ _ _ => trivial

/-- The critical section of a score command. -/
def Command.scoreSection : Command → Option Section
  | .homeInc => some .homeInc
  | .homeDec => some .homeDec
  | .awayInc => some .awayInc
  | .awayDec => some .awayDec
  | .scoresZero => some .scoresZero
  | _ => none

/-- **The handler of a score command begins with its section, and enters no other.** -/
theorem handle_score (p : Pending) {cmd : Command} {sec : Section}
    (h : cmd.scoreSection = some sec) :
    ∃ k, handle sim p cmd = .op (.lock sec) k ∧
      ∀ r, (k r).All (BoardOp.Enters fun _ => False) := by
  cases cmd with
  | homeInc =>
    cases h
    exact ⟨_, rfl, fun r => .bind (cmdScore_rest enters_idles _ (fun _ => trivial) _ r) fun _ => trivial⟩
  | homeDec =>
    cases h
    exact ⟨_, rfl, fun r => .bind (cmdScore_rest enters_idles _ (fun _ => trivial) _ r) fun _ => trivial⟩
  | awayInc =>
    cases h
    exact ⟨_, rfl, fun r => .bind (cmdScore_rest enters_idles _ (fun _ => trivial) _ r) fun _ => trivial⟩
  | awayDec =>
    cases h
    exact ⟨_, rfl, fun r => .bind (cmdScore_rest enters_idles _ (fun _ => trivial) _ r) fun _ => trivial⟩
  | scoresZero =>
    cases h
    refine ⟨_, rfl, fun led => .bind trivial fun _ => ?_⟩
    exact .bind (pulse_all enters_idles fun _ => trivial) fun _ =>
      .bind (blinkOnboard_all enters_idles _) fun _ => trivial
  | startStop | start | stop | reset | ledOn | ledOff | setTimer _ _ | aux => cases h

/-- The end of the loop enters the re-stop check of the hardware build only. -/
theorem drain_enters (p : Pending) (h : sim = false → P (.startStop (some false))) :
    (drain sim p).All (BoardOp.Enters P) :=
  drain_all enters_idles p (fun _ _ => trivial) (fun _ _ => trivial) (fun _ _ _ => trivial) h
    fun _ => trivial

theorem boardTask_enters (p : Pending) (hdrain : sim = false → P (.startStop (some false)))
    (h : ∀ cmd : Command, ∀ sec ∈ cmd.sections sim, P sec) :
    (boardTask sim p).All (BoardOp.Enters P) := by
  refine .bind (nextCommand_all p trivial trivial) ?_
  intro cmd
  cases cmd with
  | some cmd => exact handle_enters p (h cmd)
  | none => exact drain_enters p hdrain

end Programs

end ScoreboardCtrl
