import ScoreboardCtrl.Board.History

/-!
# How long a command waits

The routes put commands into a channel of capacity 8; `board_task` takes them out one at a time, and
even in a train reads the channel once a turn. `command_latency` says that a command is held up by its own
turn and those of the commands before it, 100 ms of `Timer`s each at most, and by no train.
-/

namespace ScoreboardCtrl

/-! ### What a history says of the channel -/

/-- The commands taken, oldest first. -/
def receivedOf : List Entry → List Command
  | [] => []
  | e :: past =>
    match e.event with
    | .received cmd _ => receivedOf past ++ [cmd]
    | _ => receivedOf past

/-- How many commands are in the channel. -/
def backlog : List Entry → ℕ
  | [] => 0
  | e :: past =>
    match e.event with
    | .sent _ => backlog past + 1
    | .received _ _ => backlog past - 1
    | _ => backlog past

/-- The milliseconds of the `Timer`s that have elapsed. -/
def waitedOf : List Entry → ℕ
  | [] => 0
  | e :: past =>
    match e.event with
    | .waited ms => waitedOf past + ms
    | _ => waitedOf past

/-- The milliseconds of the `Timer`s since a command was taken, as long as the channel was not empty. -/
def delay : List Entry → ℕ
  | [] => 0
  | e :: past =>
    match e.event with
    | .received _ _ => 0
    | .waited ms => if backlog past = 0 then 0 else delay past + ms
    | _ => delay past

/-- How long a turn takes at most: two pulses. -/
abbrev turnMs : ℕ := pulseMs + pulseMs

/-- The delay has never been longer than a turn, nor the channel fuller than it can be. -/
def Swift : List Entry → Prop
  | [] => True
  | e :: past =>
    (delay (e :: past) ≤ turnMs ∧ backlog (e :: past) ≤ channelSize) ∧ Swift past

/-- A wait for a channel that is not empty, up to `n` milliseconds. -/
structure Serving (n : ℕ) (w : World) : Prop where
  room : w.queue.length ≤ channelSize
  backlog : backlog w.hist = w.queue.length
  swift : Swift w.hist
  delay : delay w.hist ≤ n
  idle : w.queue = [] → ScoreboardCtrl.delay w.hist = 0

/-! ### How long a turn takes -/

def BoardOp.waitMs : BoardOp → ℕ
  | .afterMillis ms => ms
  | .lock _ | .setPin _ _ | .gpioSet _ | .receive | .tryReceive => 0

section Turn

open Lib.Prog

theorem lock_atMost (sec : Section) : (BoardProg.lock sec).AtMost BoardOp.waitMs 0 :=
  .call (Nat.le_refl _)

theorem setPin_atMost (pin : Pin) (high : Bool) : (BoardProg.setPin pin high).AtMost BoardOp.waitMs 0 :=
  .call (Nat.le_refl _)

theorem gpioSet_atMost (on : Bool) : (BoardProg.gpioSet on).AtMost BoardOp.waitMs 0 :=
  .call (Nat.le_refl _)

theorem wait_atMost : (BoardProg.afterMillis pulseMs).AtMost BoardOp.waitMs pulseMs :=
  .call (Nat.le_refl _)

theorem pulse_atMost (pin : Pin) : (pulse pin).AtMost BoardOp.waitMs pulseMs :=
  .after (setPin_atMost pin true) fun _ => .before wait_atMost fun _ => setPin_atMost pin false

theorem pulseIf_atMost (needed : Bool) (pin : Pin) : (pulseIf needed pin).AtMost BoardOp.waitMs pulseMs := by
  cases needed with
  | true => exact pulse_atMost pin
  | false => exact .pure

theorem blinkOnboard_atMost (holdLed : Bool) : (blinkOnboard holdLed).AtMost BoardOp.waitMs pulseMs := by
  cases holdLed with
  | true => exact .pure
  | false => exact .after (gpioSet_atMost true) fun _ => .before wait_atMost fun _ => gpioSet_atMost false

theorem adjustOrPulse_atMost (adjust : ℕ → ℕ) (pin : Pin) (n : ℕ) :
    (adjustOrPulse adjust pin n).AtMost BoardOp.waitMs pulseMs := by
  unfold adjustOrPulse
  split
  · exact .pure
  · exact .before (pulse_atMost pin) fun _ => .pure

theorem cmdLed_atMost (on : Bool) : (cmdLed on).AtMost BoardOp.waitMs 0 :=
  .after (gpioSet_atMost on) fun _ => .after (lock_atMost _) fun _ => .pure

theorem cmdStartStop_atMost (sim : Bool) (want : Option Bool) :
    (cmdStartStop sim want).AtMost BoardOp.waitMs turnMs := by
  refine .after (lock_atMost .readLed) fun led => ?_
  cases sim with
  | true =>
    exact .bind (pulse_atMost .start) fun _ =>
      .before (blinkOnboard_atMost _) fun _ => .after (lock_atMost _) fun _ => .pure
  | false =>
    exact .after (lock_atMost _) fun needed =>
      .bind (pulseIf_atMost needed .start) fun _ => blinkOnboard_atMost _

theorem cmdScore_atMost {sec : BoardProg (Bool × Bool)} (hsec : sec.AtMost BoardOp.waitMs 0)
    (adjust : ℕ → ℕ) (pin : Pin) (n : ℕ) :
    (cmdScore sec adjust pin n).AtMost BoardOp.waitMs turnMs := by
  refine .after hsec fun r => ?_
  split
  · exact .bind (adjustOrPulse_atMost adjust pin n) fun _ =>
      .before (blinkOnboard_atMost _) fun _ => .pure
  · exact .pure

theorem cmdScoresZero_atMost (p : Pending) : (cmdScoresZero p).AtMost BoardOp.waitMs turnMs :=
  .after (lock_atMost .scoresZero) fun led =>
    .bind (pulse_atMost .clear) fun _ => .before (blinkOnboard_atMost led) fun _ => .pure

theorem cmdReset_atMost (sim : Bool) (p : Pending) : (cmdReset sim p).AtMost BoardOp.waitMs turnMs := by
  have hsim : (simReset sim).AtMost BoardOp.waitMs 0 := by
    cases sim with
    | true => exact lock_atMost .simReset
    | false => exact .pure
  exact .after hsim fun _ => .after (lock_atMost .reset) fun led =>
    .bind (pulse_atMost .reset) fun _ => .before (blinkOnboard_atMost led) fun _ => .pure

theorem cmdSetTimer_atMost (sim : Bool) (min sec : ℕ) (p : Pending) :
    (cmdSetTimer sim min sec p).AtMost BoardOp.waitMs pulseMs := by
  cases sim with
  | true => exact .after (lock_atMost _) fun _ => .pure
  | false =>
    exact .after (lock_atMost _) fun needed => .before (pulseIf_atMost needed .start) fun _ =>
      .after (lock_atMost .snapshot) fun _ => .pure

theorem cmdAux_atMost : cmdAux.AtMost BoardOp.waitMs turnMs :=
  .after (lock_atMost .readLed) fun led => .bind (pulse_atMost .aux) fun _ => blinkOnboard_atMost led

theorem trainPulse_atMost (p : Pending) : (trainPulse p).AtMost BoardOp.waitMs pulseMs := by
  unfold trainPulse
  split
  · exact .before (pulse_atMost _) fun _ => .pure
  · split
    · exact .before (pulse_atMost _) fun _ => .pure
    · split
      · exact .before (pulse_atMost _) fun _ => .pure
      · split
        · exact .before (pulse_atMost _) fun _ => .pure
        · exact .pure

theorem drain_atMost (sim : Bool) (p : Pending) : (drain sim p).AtMost BoardOp.waitMs pulseMs := by
  unfold drain
  split
  · exact .before (pulse_atMost _) fun _ => .pure
  · split
    · exact .before (pulse_atMost _) fun _ => .pure
    · split
      · cases sim with
        | true => exact trainPulse_atMost p
        | false =>
          refine .after (lock_atMost (.startStop (some false))) fun (restop : Bool) => ?_
          cases restop with
          | true => exact .before (pulse_atMost _) fun _ => .pure
          | false => exact trainPulse_atMost p
      · exact .pure

theorem handle_atMost (sim : Bool) (p : Pending) (cmd : Command) :
    (handle sim p cmd).AtMost BoardOp.waitMs turnMs := by
  cases cmd with
  | ledOn => exact .after (cmdLed_atMost true) fun _ => .pure
  | ledOff => exact .after (cmdLed_atMost false) fun _ => .pure
  | startStop | start | stop => exact .before (cmdStartStop_atMost sim _) fun _ => .pure
  | homeInc | homeDec | awayInc | awayDec =>
    exact .before (cmdScore_atMost (lock_atMost _) _ _ _) fun _ => .pure
  | scoresZero => exact cmdScoresZero_atMost p
  | reset => exact cmdReset_atMost sim p
  | setTimer min sec => exact (cmdSetTimer_atMost sim min sec p).mono (Nat.le_add_right _ _)
  | aux => exact .before cmdAux_atMost fun _ => .pure

end Turn

/-! ### Serving commands -/

section Serving

variable {sim : Bool} {allow : Command → Prop} {n : ℕ} {w w' : World}

theorem Serving.mono {m : ℕ} (h : Serving m w) (hle : m ≤ n) : Serving n w :=
  { h with delay := Nat.le_trans h.delay hle }

theorem Serving.step (h : Serving turnMs w) {m : ℕ} (hm : m ≤ turnMs) {e : Entry}
    (hhist : w'.hist = e :: w.hist)
    (hroom : w'.queue.length ≤ channelSize)
    (hback : ScoreboardCtrl.backlog (e :: w.hist) = w'.queue.length)
    (hdelay : ScoreboardCtrl.delay (e :: w.hist) ≤ m)
    (hidle : w'.queue = [] → ScoreboardCtrl.delay (e :: w.hist) = 0) : Serving m w' := by
  rw [← hhist] at hback hdelay hidle
  refine ⟨hroom, hback, ?_, hdelay, hidle⟩
  rw [hhist] at hback hdelay ⊢
  exact ⟨⟨Nat.le_trans hdelay hm, hback.trans_le hroom⟩, h.swift⟩

theorem Serving.boot : Serving n World.boot where
  room := Nat.zero_le _
  backlog := rfl
  swift := trivial
  delay := Nat.zero_le _
  idle _ := rfl

/-- The event is none of the channel, and no wait. -/
def Event.aside : Event → Bool
  | .sent _ | .received _ _ | .waited _ => false
  | .lock _ | .pin _ _ | .gpio _ | .countdown => true

theorem aside_cons {event : Event} (ha : event.aside = true) (t : ℕ) (past : List Entry) :
    receivedOf (⟨t, event⟩ :: past) = receivedOf past ∧
      backlog (⟨t, event⟩ :: past) = backlog past ∧ waitedOf (⟨t, event⟩ :: past) = waitedOf past ∧
      delay (⟨t, event⟩ :: past) = delay past := by
  cases event with
  | sent cmd | received cmd idle | waited ms => cases ha
  | lock sec | pin pin high | gpio on | countdown => exact ⟨rfl, rfl, rfl, rfl⟩

theorem Serving.aside (h : Serving n w) (hn : n ≤ turnMs) {event : Event} (ha : event.aside = true)
    (hhist : w'.hist = ⟨w.now, event⟩ :: w.hist) (hqueue : w'.queue = w.queue) : Serving n w' := by
  obtain ⟨-, hbacklog, -, hdelay⟩ := aside_cons ha w.now w.hist
  refine (h.mono hn).step hn hhist (hqueue ▸ h.room) ?_ (hdelay.trans_le h.delay) fun hidle => ?_
  · rw [hbacklog, hqueue, h.backlog]
  · exact hdelay.trans (h.idle (hqueue ▸ hidle))

theorem Serving.waited (h : Serving n w) {ms : ℕ} (hn : n + ms ≤ turnMs)
    (hhist : w'.hist = ⟨w.now, .waited ms⟩ :: w.hist) (hqueue : w'.queue = w.queue) :
    Serving (n + ms) w' := by
  refine (h.mono (by omega)).step hn hhist (hqueue ▸ h.room) ?_ ?_ fun hidle => ?_
  · rw [hqueue]
    exact h.backlog
  · have := h.delay
    rw [ScoreboardCtrl.delay]
    dsimp only
    split <;> omega
  · have hzero : ScoreboardCtrl.backlog w.hist = 0 := by rw [h.backlog, ← hqueue, hidle]; rfl
    rw [ScoreboardCtrl.delay]
    exact if_pos hzero

/-- A command is taken: nothing has waited since. -/
theorem Serving.received (h : Serving n w) (hn : n ≤ turnMs) {cmd : Command} {idle : Bool}
    {queue : List Command} (hhist : w'.hist = ⟨w.now, .received cmd idle⟩ :: w.hist)
    (hw : w.queue = cmd :: queue) (hqueue : w'.queue = queue) : Serving 0 w' := by
  have hroom := h.room
  have hback := h.backlog
  rw [hw, List.length_cons] at hroom hback
  refine (h.mono hn).step (Nat.zero_le _) hhist ?_ ?_ (Nat.le_refl 0) fun _ => rfl
  · rw [hqueue]
    omega
  · rw [hqueue, ScoreboardCtrl.backlog]
    dsimp only
    omega

theorem Serving.sent (h : Serving n w) (hn : n ≤ turnMs) {cmd : Command}
    (hroom : w.queue.length < channelSize) (hhist : w'.hist = ⟨w.now, .sent cmd⟩ :: w.hist)
    (hqueue : w'.queue = w.queue ++ [cmd]) : Serving n w' := by
  refine (h.mono hn).step hn hhist ?_ ?_ h.delay fun hidle => ?_
  · rw [hqueue, List.length_append]
    exact hroom
  · rw [hqueue, List.length_append, ← h.backlog]
    rfl
  · rw [hqueue] at hidle
    simp at hidle

theorem Serving.env (h : Serving n w) (hn : n ≤ turnMs) (he : (boardSystem sim allow).env w w') :
    Serving n w' := by
  obtain ⟨a, -, ha⟩ := he
  cases a with
  | elapse us =>
    cases ha
    exact ⟨h.room, h.backlog, h.swift, h.delay, h.idle⟩
  | visit sec =>
    simp only [Action.apply] at ha
    split at ha
    · cases ha
      exact h.aside hn (rfl : Event.aside (.lock sec) = true) rfl rfl
    · cases ha
  | send cmd =>
    simp only [Action.apply] at ha
    split at ha
    · cases ha
      exact h.sent hn ‹_› rfl rfl
    · cases ha
  | countdown =>
    cases ha
    exact h.aside hn (rfl : Event.aside (.countdown) = true) rfl rfl

/-- At every moment commands are being served. -/
def servingSpec (sim : Bool) (allow : Command → Prop) : Lib.Spec World BoardOp BoardOp.Ret :=
  (boardSystem sim allow).spec (fun _ w' => Serving turnMs w') fun _ _ => True

theorem Serving.stable (hn : n ≤ turnMs) : (servingSpec sim allow).Stable (Serving n) :=
  Lib.Solo.stable_spec fun _ _ he h => h.env hn he

theorem Serving.exec (h : Serving n w) {o : BoardOp} (hn : n + o.waitMs ≤ turnMs) {r : o.Ret}
    (he : o.exec w = some (r, w')) : Serving (n + o.waitMs) w' := by
  cases o with
  | lock sec =>
    cases he
    exact h.aside hn (rfl : Event.aside (.lock sec) = true) rfl rfl
  | setPin pin high =>
    cases he
    exact h.aside hn (rfl : Event.aside (.pin pin high) = true) rfl rfl
  | gpioSet on =>
    cases he
    exact h.aside hn (rfl : Event.aside (.gpio on) = true) rfl rfl
  | afterMillis ms =>
    simp only [BoardOp.exec] at he
    split at he
    · cases he
      exact h.waited hn rfl rfl
    · cases he
  | receive =>
    simp only [BoardOp.exec] at he
    split at he
    · cases he
    · cases he
      exact (h.received (by omega) rfl ‹_› rfl).mono (Nat.zero_le _)
  | tryReceive =>
    simp only [BoardOp.exec] at he
    split at he
    · cases he
      exact ⟨h.room, h.backlog, h.swift, h.delay, h.idle⟩
    · cases he
      exact (h.received (by omega) rfl ‹_› rfl).mono (Nat.zero_le _)

open Lib.Spec

theorem atMost_serving {α : Type} {t : BoardProg α} {m : ℕ} (ht : t.AtMost BoardOp.waitMs m)
    (hm : n + m ≤ turnMs) : (servingSpec sim allow).Triple (Serving n) t fun _ => Serving turnMs := by
  induction t generalizing n m with
  | ret a => exact fun w hw => hw.mono (by omega)
  | op o k ih =>
    obtain ⟨rest, hrest, hk⟩ := ht
    intro w hw w₁ hrely
    refine ⟨trivial, fun r w₂ he => ?_⟩
    have hafter := (Serving.stable (by omega) w w₁ hrely hw).exec (by omega) he
    exact ⟨hafter.mono (by omega), ih r (hk r) (by omega) w₂ hafter⟩

/-- The channel is read once a turn: a command is taken, or there was none. -/
theorem nextCommand_serving (p : Pending) :
    (servingSpec sim allow).Triple (Serving turnMs) (nextCommand p) fun _ => Serving 0 := by
  unfold nextCommand
  split
  · refine Triple.call (Serving.stable (Nat.le_refl _)) fun w hw => ⟨trivial, fun r w' he => ?_⟩
    suffices hafter : Serving 0 w' from ⟨hafter.mono (Nat.zero_le _), hafter⟩
    simp only [servingSpec, Lib.Solo.spec, boardSystem, BoardOp.exec] at he
    split at he
    · cases he
      rename_i hidle
      exact ⟨hw.room, hw.backlog, hw.swift, Nat.le_of_eq (hw.idle hidle), hw.idle⟩
    · cases he
      exact hw.received (Nat.le_refl _) rfl ‹_› rfl
  · refine .bind (K := fun _ => Serving 0) ?_ fun _ => .pure fun _ hw => hw
    refine Triple.call (Serving.stable (Nat.le_refl _)) fun w hw => ⟨trivial, fun r w' he => ?_⟩
    suffices hafter : Serving 0 w' from ⟨hafter.mono (Nat.zero_le _), hafter⟩
    simp only [servingSpec, Lib.Solo.spec, boardSystem, BoardOp.exec] at he
    split at he
    · cases he
    · cases he
      exact hw.received (Nat.le_refl _) rfl ‹_› rfl

/-- **A turn of the loop.** -/
theorem boardTask_serving (p : Pending) : (servingSpec sim allow).Triple (Serving turnMs)
    (boardTask sim p) fun _ => Serving turnMs := by
  refine .bind (nextCommand_serving p) fun cmd => ?_
  cases cmd with
  | some cmd => exact atMost_serving (handle_atMost sim p cmd) (Nat.le_of_eq (Nat.zero_add _))
  | none => exact atMost_serving (drain_atMost sim p) (by decide)

theorem serving_reach {k : BoardProg Pending}
    (h : (boardSystem sim allow).Reach ⟨World.boot, .ret .zero⟩ ⟨w, k⟩) : Serving turnMs w := by
  have hfits : Lib.Solo.Fits (boardSystem sim allow) (servingSpec sim allow) fun _ => Serving turnMs :=
    Lib.Solo.fits_spec (fun _ _ _ he hw => hw.env (Nat.le_refl _) he) boardTask_serving
  exact Lib.Solo.guar_reach hfits (Serving.stable (Nat.le_refl _)) (fun _ _ hguar _ => hguar) h
    Serving.boot Serving.boot

/-! ### Runs -/

theorem Swift.append {later past : List Entry} (h : Swift (later ++ past)) : Swift past := by
  induction later with
  | nil => exact h
  | cons e later ih => exact ih h.2

theorem Swift.delay_le {hist : List Entry} (h : Swift hist) : delay hist ≤ turnMs := by
  cases hist with
  | nil => exact Nat.zero_le _
  | cons e past => exact h.1.1

variable {later past : List Entry} {t : ℕ} {cmd : Command}

/-- As long as it is not taken, a command is in the channel. -/
theorem backlog_behind : backlog past + 1 ≤
    backlog (later ++ ⟨t, .sent cmd⟩ :: past) + (receivedOf later).length := by
  induction later with
  | nil => exact Nat.le_refl _
  | cons e later ih =>
    obtain ⟨t', event⟩ := e
    rw [List.cons_append]
    cases event with
    | sent cmd' =>
      simp only [backlog, receivedOf] at ih ⊢
      omega
    | received cmd' idle =>
      simp only [backlog, receivedOf, List.length_append, List.length_singleton] at ih ⊢
      omega
    | _ => exact ih

theorem waitedOf_behind (hswift : Swift (later ++ ⟨t, .sent cmd⟩ :: past))
    (hwaits : (receivedOf later).length ≤ backlog past) : waitedOf later ≤
      turnMs * (receivedOf later).length + delay (later ++ ⟨t, .sent cmd⟩ :: past) := by
  induction later with
  | nil => exact Nat.zero_le _
  | cons e later ih =>
    obtain ⟨t', event⟩ := e
    rw [List.cons_append] at hswift ⊢
    have hdelay := hswift.2.delay_le
    cases event with
    | received cmd' idle =>
      simp only [receivedOf, List.length_append, List.length_singleton] at hwaits ⊢
      have hle := ih hswift.2 (by omega)
      simp only [waitedOf, delay, Nat.mul_add]
      omega
    | waited ms =>
      have hbehind := @backlog_behind later past t cmd
      have hle := ih hswift.2 hwaits
      have hbusy : backlog (later ++ ⟨t, .sent cmd⟩ :: past) ≠ 0 := by
        simp only [receivedOf] at hwaits
        omega
      simp only [waitedOf, receivedOf, delay, if_neg hbusy]
      omega
    | _ => exact ih hswift.2 hwaits

/-- **No train holds up a command.** In either build, in every run since power-on: a command found fewer than
eight before it in the channel, and while it waits there the `Timer`s that elapse make up 100 ms at most for
each of those taken since, and 100 ms for the turn that goes on. -/
theorem command_latency {k : BoardProg Pending}
    (h : (boardSystem sim allow).Reach ⟨World.boot, .ret .zero⟩ ⟨w, k⟩)
    (hhist : w.hist = later ++ ⟨t, .sent cmd⟩ :: past)
    (hwaits : (receivedOf later).length ≤ backlog past) :
    backlog past < channelSize ∧ waitedOf later ≤ turnMs * ((receivedOf later).length + 1) := by
  have hswift := (serving_reach h).swift
  rw [hhist] at hswift
  refine ⟨hswift.append.1.2, ?_⟩
  have hle := waitedOf_behind hswift hwaits
  have hdelay := hswift.delay_le
  rw [Nat.mul_add, Nat.mul_one]
  omega

/-- A tap on the home score in the first pulse of a train of two minutes. -/
def midTrain : List (Option Action) :=
  [some (.send (.setTimer 9 30)), none, none, none, none] ++ [none, none, none, none] ++
    [some (.send .homeInc), some (.elapse 50000), none]

def midTrainConf : BoardConf := (play false midTrain ⟨World.boot, .ret .zero⟩).get rfl

theorem midTrain_reach :
    (boardSystem false fun _ => True).Reach ⟨World.boot, .ret .zero⟩ midTrainConf :=
  play_reach (by decide) (Option.some_get _).symm

theorem command_latency_midTrain : backlog (midTrainConf.state.hist.drop 2) < channelSize ∧
    waitedOf (midTrainConf.state.hist.take 1) ≤
      turnMs * ((receivedOf (midTrainConf.state.hist.take 1)).length + 1) := by
  have hhist : midTrainConf.state.hist = midTrainConf.state.hist.take 1 ++
      ⟨0, .sent .homeInc⟩ :: midTrainConf.state.hist.drop 2 := rfl
  exact command_latency midTrain_reach hhist (by decide)

end Serving

end ScoreboardCtrl
