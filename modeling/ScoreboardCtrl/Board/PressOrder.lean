import ScoreboardCtrl.Board.Mirror

/-!
# Every press asked for, once and in order

Apart from the set-timer train, `board_task` presses a button for a reason: a command it has taken, a
score that moved, a start/stop request that was answered with a pulse. `wanted` lists the reasons of a
history and `pressed` the presses; `presses_in_order` says that they are the same list, but for one
reason at most whose press is still to come.
-/

namespace ScoreboardCtrl

/-! ### Reasons and presses -/

/-- The press that a command wants as it is taken. -/
def Command.wants (sim : Bool) : Command → Option Pin
  | .startStop | .start | .stop => if sim then some .start else none
  | .scoresZero => some .clear
  | .reset => some .reset
  | .aux => some .aux
  | .homeInc | .homeDec | .awayInc | .awayDec | .ledOn | .ledOff | .setTimer _ _ => none

/-- The press that a critical section wants: it moves a score, or it finds that the clock has to be
started or stopped. -/
def Section.wants (now : ℕ) (g : Shared) : Section → Option Pin
  | .homeInc => if g.board.home < scoreMax then some .homeInc else none
  | .homeDec => if g.board.home > 0 then some .homeDec else none
  | .awayInc => if g.board.away < scoreMax then some .awayInc else none
  | .awayDec => if g.board.away > 0 then some .awayDec else none
  | .startStop want =>
    if startStopPulseNeeded (g.board.effective now) want then some .start else none
  | _ => none

/-- The press that an entry wants, where the state before it was `g`. -/
def Entry.wants (sim : Bool) (g : Shared) (e : Entry) : Option Pin :=
  match e.event with
  | .received cmd _ => cmd.wants sim
  | .lock sec => sec.wants e.time g
  | _ => none

/-- The press that an entry is, unless it is one of the train. -/
def Entry.press (e : Entry) : Option Pin :=
  match e.event with
  | .pin pin true => if pin.ofTrain then none else some pin
  | _ => none

/-- The presses that a history wants, newest first. -/
def wanted (sim : Bool) (g₀ : Shared) : List Entry → List Pin
  | [] => []
  | e :: past => (e.wants sim (replay g₀ past)).toList ++ wanted sim g₀ past

/-- The presses of a history, newest first. -/
def pressed : List Entry → List Pin
  | [] => []
  | e :: past => e.press.toList ++ pressed past

/-! ### What the task still has to press -/

/-- All that the history wants is pressed, but for `owed`. -/
structure Owing (sim : Bool) (g₀ : Shared) (owed : Option Pin) (w : World) : Prop where
  replayed : Replayed g₀ w
  account : wanted sim g₀ w.hist = owed.toList ++ pressed w.hist

variable {sim : Bool} {g₀ : Shared} {allow : Command → Prop}

/-- The event wants nothing and is no press. -/
def Event.Mute (sim : Bool) (event : Event) : Prop :=
  ∀ now g, (⟨now, event⟩ : Entry).wants sim g = none ∧ (⟨now, event⟩ : Entry).press = none

theorem Owing.mute {owed : Option Pin} {w w' : World} (h : Owing sim g₀ owed w)
    (hreplayed : Replayed g₀ w')
    (hhist : w'.hist = w.hist ∨ ∃ event, w'.hist = ⟨w.now, event⟩ :: w.hist ∧ event.Mute sim) :
    Owing sim g₀ owed w' := by
  refine ⟨hreplayed, ?_⟩
  rcases hhist with hh | ⟨event, hh, hmute⟩
  · rw [hh]
    exact h.account
  · obtain ⟨hwants, hpress⟩ := hmute w.now (replay g₀ w.hist)
    rw [hh, wanted, pressed, hwants, hpress]
    exact h.account

theorem Owing.want {w w' : World} {event : Event} (h : Owing sim g₀ none w)
    (hreplayed : Replayed g₀ w') (hhist : w'.hist = ⟨w.now, event⟩ :: w.hist)
    (hpress : (⟨w.now, event⟩ : Entry).press = none) :
    Owing sim g₀ ((⟨w.now, event⟩ : Entry).wants sim w.shared) w' := by
  refine ⟨hreplayed, ?_⟩
  rw [hhist, wanted, pressed, hpress, h.account, h.replayed, Option.toList_none, List.nil_append]

theorem Owing.pay {pin : Pin} {w w' : World} (h : Owing sim g₀ (some pin) w)
    (hpin : pin.ofTrain = false) (hreplayed : Replayed g₀ w')
    (hhist : w'.hist = ⟨w.now, .pin pin true⟩ :: w.hist) : Owing sim g₀ none w' := by
  have hpress : (⟨w.now, .pin pin true⟩ : Entry).press = some pin := if_neg (by simp [hpin])
  refine ⟨hreplayed, ?_⟩
  rw [hhist, wanted, pressed, hpress]
  exact h.account

theorem Section.visitor_mute {sec : Section} (h : sec.visitor sim = true) :
    (Event.lock sec).Mute sim := by
  intro now g
  cases sec with
  | homeInc | homeDec | awayInc | awayDec | startStop _ => cases h
  | _ => exact ⟨rfl, rfl⟩

theorem Owing.env {owed : Option Pin} {a : Action} {w w' : World} (h : Owing sim g₀ owed w)
    (ha : a.apply sim w = some w') : Owing sim g₀ owed w' := by
  refine h.mute (h.replayed.env ha) ?_
  rcases Action.apply_cases ha with
    ⟨hh, -⟩ | ⟨sec, hsec, hh, -⟩ | ⟨cmd, -, hh, -⟩ | ⟨hh, -⟩
  · exact .inl hh
  · exact .inr ⟨_, hh, Section.visitor_mute hsec⟩
  · exact .inr ⟨_, hh, fun _ _ => ⟨rfl, rfl⟩⟩
  · exact .inr ⟨_, hh, fun _ _ => ⟨rfl, rfl⟩⟩

/-! ### The operations -/

/-- At every moment at most one press is owed. -/
def owingSpec (sim : Bool) (allow : Command → Prop) (g₀ : Shared) :
    Lib.Spec World BoardOp BoardOp.Ret :=
  (boardSystem sim allow).spec (fun _ w' => ∃ owed, Owing sim g₀ owed w') fun _ _ => True

open Lib.Spec

theorem Owing.stable (owed : Option Pin) : (owingSpec sim allow g₀).Stable (Owing sim g₀ owed) :=
  Lib.Solo.stable_spec fun _ _ ⟨_, _, ha⟩ h => h.env ha

/-- An operation is judged by what is owed after it. -/
theorem owing_call {o : BoardOp} {owed : Option Pin} {after : o.Ret → Option Pin}
    (h : ∀ {w w' : World} {r : o.Ret}, Owing sim g₀ owed w → o.exec w = some (r, w') →
      Owing sim g₀ (after r) w') :
    (owingSpec sim allow g₀).Triple (Owing sim g₀ owed) (Lib.Prog.call o)
      fun r => Owing sim g₀ (after r) := by
  refine Triple.call (Owing.stable owed) fun w hw => ⟨trivial, ?_⟩
  intro r w' he
  have hafter := h hw he
  exact ⟨⟨_, hafter⟩, hafter⟩

/-- The operation wants nothing and presses nothing, save for the train. -/
def BoardOp.Mute (sim : Bool) : BoardOp → Prop
  | .lock sec => (Event.lock sec).Mute sim
  | .setPin pin high => high = true → pin.ofTrain = true
  | .receive | .tryReceive => False
  | _ => True

theorem mute_idles : BoardOp.Idles (BoardOp.Mute sim) := ⟨fun _ => trivial, fun _ => trivial⟩

theorem pin_mute {pin : Pin} {high : Bool} (h : high = true → pin.ofTrain = true) :
    (Event.pin pin high).Mute sim := by
  intro now g
  refine ⟨rfl, ?_⟩
  cases high with
  | true => exact if_pos (h rfl)
  | false => rfl

theorem Owing.mute_exec {o : BoardOp} {owed : Option Pin} {w w' : World} {r : o.Ret}
    (h : Owing sim g₀ owed w) (ho : o.Mute sim) (he : o.exec w = some (r, w')) :
    Owing sim g₀ owed w' := by
  refine h.mute (h.replayed.exec he) ?_
  cases o with
  | lock sec =>
    cases he
    exact .inr ⟨_, rfl, ho⟩
  | setPin pin high =>
    cases he
    exact .inr ⟨_, rfl, pin_mute ho⟩
  | gpioSet on =>
    cases he
    exact .inr ⟨_, rfl, fun _ _ => ⟨rfl, rfl⟩⟩
  | afterMillis ms =>
    simp only [BoardOp.exec] at he
    split at he
    · cases he
      exact .inr ⟨_, rfl, fun _ _ => ⟨rfl, rfl⟩⟩
    · cases he
  | receive => exact ho.elim
  | tryReceive => exact ho.elim

theorem mute_owing {α : Type} {t : BoardProg α} (owed : Option Pin) (ht : t.All (BoardOp.Mute sim)) :
    (owingSpec sim allow g₀).Triple (Owing sim g₀ owed) t fun _ => Owing sim g₀ owed := by
  refine .of_all (Owing.stable owed) (fun o ho w hw => ⟨trivial, ?_⟩) ht
  intro r w' he
  have hafter := hw.mute_exec ho he
  exact ⟨⟨_, hafter⟩, hafter⟩

theorem blink_owing (owed : Option Pin) (led : Bool) :
    (owingSpec sim allow g₀).Triple (Owing sim g₀ owed) (blinkOnboard led)
      fun _ => Owing sim g₀ owed :=
  mute_owing owed (blinkOnboard_all mute_idles led)

theorem lock_owing {sec : Section} (owed : Option Pin) (h : ∀ now g, sec.wants now g = none) :
    (owingSpec sim allow g₀).Triple (Owing sim g₀ owed) (BoardProg.lock sec)
      fun _ => Owing sim g₀ owed :=
  owing_call fun hw he => hw.mute_exec (o := .lock sec) (fun now g => ⟨h now g, rfl⟩) he

theorem wantingLock_owing {sec : Section} {after : sec.Ret → Option Pin}
    (h : ∀ now g, sec.wants now g = after (sec.run now g).1) :
    (owingSpec sim allow g₀).Triple (Owing sim g₀ none) (BoardProg.lock sec)
      fun r => Owing sim g₀ (after r) := by
  refine owing_call (o := .lock sec) ?_
  intro w w' r hw he
  have hreplayed := hw.replayed.exec he
  cases he
  rw [← h w.now w.shared]
  exact hw.want hreplayed rfl rfl

/-- **A pulse pays what is owed.** -/
theorem pulse_owing {pin : Pin} (hpin : pin.ofTrain = false) :
    (owingSpec sim allow g₀).Triple (Owing sim g₀ (some pin)) (pulse pin)
      fun _ => Owing sim g₀ none := by
  have hrise : (owingSpec sim allow g₀).Triple (Owing sim g₀ (some pin)) (BoardProg.setPin pin true)
      fun _ => Owing sim g₀ none := by
    refine @owing_call _ _ _ (.setPin pin true) _ (fun _ => none) ?_
    intro w w' r hw he
    have hreplayed := hw.replayed.exec he
    cases he
    exact hw.pay hpin hreplayed rfl
  exact .bind hrise fun _ => mute_owing none (.bind (.call trivial) fun _ => .call (by rintro ⟨⟩))

/-! ### The handlers -/

theorem cmdScore_owing {sec : BoardProg (Bool × Bool)} {adjust : ℕ → ℕ} {pin : Pin} {n : ℕ}
    (hn : n = 0) (hpin : pin.ofTrain = false)
    (hsec : (owingSpec sim allow g₀).Triple (Owing sim g₀ none) sec
      fun r => Owing sim g₀ (if r.1 then some pin else none)) :
    (owingSpec sim allow g₀).Triple (Owing sim g₀ none) (cmdScore sec adjust pin n)
      fun _ => Owing sim g₀ none := by
  subst hn
  refine .bind hsec ?_
  intro r
  obtain ⟨doHw, led⟩ := r
  cases doHw with
  | true =>
    have hpay : (owingSpec sim allow g₀).Triple (Owing sim g₀ (some pin))
        (adjustOrPulse adjust pin 0) fun _ => Owing sim g₀ none :=
      .bind (pulse_owing hpin) fun _ => .pure fun _ hw => hw
    exact .bind hpay fun _ => .bind (blink_owing none led) fun _ => .pure fun _ hw => hw
  | false => exact .pure fun _ hw => hw

/-- The section of a score command wants a press where it moves the score. -/
theorem scoreLock_owing {sec : Section} {pin : Pin} {doHw : sec.Ret → Bool}
    (may : ScoreboardState → Prop) [DecidablePred may]
    (hret : ∀ now g, doHw (sec.run now g).1 = decide (may g.board))
    (hwants : ∀ now g, sec.wants now g = if may g.board then some pin else none) :
    (owingSpec sim allow g₀).Triple (Owing sim g₀ none) (BoardProg.lock sec)
      fun r => Owing sim g₀ (if doHw r then some pin else none) := by
  refine @wantingLock_owing _ _ _ sec (fun r => if doHw r then some pin else none) ?_
  intro now g
  rw [hret, hwants]
  simp

theorem homeInc_owing : (owingSpec sim allow g₀).Triple (Owing sim g₀ none) (BoardProg.lock .homeInc)
    fun r : Bool × Bool => Owing sim g₀ (if r.1 then some .homeInc else none) :=
  scoreLock_owing (fun s => s.home < scoreMax) (fun _ _ => rfl) fun _ _ => rfl

theorem homeDec_owing : (owingSpec sim allow g₀).Triple (Owing sim g₀ none) (BoardProg.lock .homeDec)
    fun r : Bool × Bool => Owing sim g₀ (if r.1 then some .homeDec else none) :=
  scoreLock_owing (fun s => s.home > 0) (fun _ _ => rfl) fun _ _ => rfl

theorem awayInc_owing : (owingSpec sim allow g₀).Triple (Owing sim g₀ none) (BoardProg.lock .awayInc)
    fun r : Bool × Bool => Owing sim g₀ (if r.1 then some .awayInc else none) :=
  scoreLock_owing (fun s => s.away < scoreMax) (fun _ _ => rfl) fun _ _ => rfl

theorem awayDec_owing : (owingSpec sim allow g₀).Triple (Owing sim g₀ none) (BoardProg.lock .awayDec)
    fun r : Bool × Bool => Owing sim g₀ (if r.1 then some .awayDec else none) :=
  scoreLock_owing (fun s => s.away > 0) (fun _ _ => rfl) fun _ _ => rfl

/-- A start/stop request wants a press where it answers that one is needed. -/
theorem startStop_owing (want : Option Bool) :
    (owingSpec sim allow g₀).Triple (Owing sim g₀ none) (BoardProg.lock (.startStop want))
      fun b : Bool => Owing sim g₀ (if b then some .start else none) := by
  refine @wantingLock_owing _ _ _ (.startStop want)
    (fun b : Bool => if b then some .start else none) ?_
  intro now g
  exact (congrArg (fun b : Bool => if b then some Pin.start else none)
    (Shared.startStopPulseFor_fst want now g)).symm

theorem pulseIf_owing (b : Bool) :
    (owingSpec sim allow g₀).Triple (Owing sim g₀ (if b then some .start else none))
      (pulseIf b .start) fun _ => Owing sim g₀ none := by
  cases b with
  | true => exact pulse_owing rfl
  | false => exact .pure fun _ hw => hw

theorem cmdStartStop_owing (want : Option Bool) :
    (owingSpec sim allow g₀).Triple (Owing sim g₀ (if sim then some .start else none))
      (cmdStartStop sim want) fun _ => Owing sim g₀ none := by
  refine .bind (lock_owing _ fun _ _ => rfl) ?_
  intro led
  cases sim with
  | true =>
    refine .bind (pulse_owing rfl) fun _ => .bind (blink_owing none led) fun _ => ?_
    exact .bind (lock_owing none fun _ _ => rfl) fun _ => .pure fun _ hw => hw
  | false =>
    exact .bind (startStop_owing want) fun b => .bind (pulseIf_owing b) fun _ => blink_owing none led

theorem cmdScoresZero_owing (p : Pending) :
    (owingSpec sim allow g₀).Triple (Owing sim g₀ (some .clear)) (cmdScoresZero p)
      fun _ => Owing sim g₀ none :=
  .bind (lock_owing _ fun _ _ => rfl) fun led => .bind (pulse_owing rfl) fun _ =>
    .bind (blink_owing none led) fun _ => .pure fun _ hw => hw

theorem cmdReset_owing (p : Pending) :
    (owingSpec sim allow g₀).Triple (Owing sim g₀ (some .reset)) (cmdReset sim p)
      fun _ => Owing sim g₀ none := by
  have hfirst : (owingSpec sim allow g₀).Triple (Owing sim g₀ (some .reset)) (simReset sim)
      fun _ => Owing sim g₀ (some .reset) := by
    cases sim with
    | true => exact lock_owing _ fun _ _ => rfl
    | false => exact .pure fun _ hw => hw
  exact .bind hfirst fun _ => .bind (lock_owing _ fun _ _ => rfl) fun led =>
    .bind (pulse_owing rfl) fun _ => .bind (blink_owing none led) fun _ => .pure fun _ hw => hw

theorem cmdAux_owing :
    (owingSpec sim allow g₀).Triple (Owing sim g₀ (some .aux)) cmdAux fun _ => Owing sim g₀ none :=
  .bind (lock_owing _ fun _ _ => rfl) fun led => .bind (pulse_owing rfl) fun _ =>
    blink_owing none led

theorem cmdSetTimer_owing (m s : ℕ) (p : Pending) :
    (owingSpec sim allow g₀).Triple (Owing sim g₀ none) (cmdSetTimer sim m s p)
      fun _ => Owing sim g₀ none := by
  cases sim with
  | true => exact .bind (lock_owing none fun _ _ => rfl) fun _ => .pure fun _ hw => hw
  | false =>
    exact .bind (startStop_owing (some false)) fun b => .bind (pulseIf_owing b) fun _ =>
      .bind (lock_owing none fun _ _ => rfl) fun _ => .pure fun _ hw => hw

theorem cmdLed_owing (on : Bool) :
    (owingSpec sim allow g₀).Triple (Owing sim g₀ none) (cmdLed on) fun _ => Owing sim g₀ none :=
  .bind (mute_owing none (.call trivial)) fun _ =>
    .bind (lock_owing none fun _ _ => rfl) fun _ => .pure fun _ hw => hw

/-- **The handler of a command** presses what the command wants, and what its section turns out to
want. -/
theorem handle_owing {p : Pending} (hp : NoneDue p) (cmd : Command) :
    (owingSpec sim allow g₀).Triple (Owing sim g₀ (cmd.wants sim)) (handle sim p cmd)
      fun _ => Owing sim g₀ none := by
  have hdone : ∀ {α : Type} {t : BoardProg α} {f : α → Pending} {owed : Option Pin},
      (owingSpec sim allow g₀).Triple (Owing sim g₀ owed) t (fun _ => Owing sim g₀ none) →
      (owingSpec sim allow g₀).Triple (Owing sim g₀ owed) (t >>= fun a => pure (f a))
        fun _ => Owing sim g₀ none := fun ht => .bind ht fun _ => .pure fun _ hw => hw
  cases cmd with
  | startStop => exact hdone (cmdStartStop_owing none)
  | start => exact hdone (cmdStartStop_owing (some true))
  | stop => exact hdone (cmdStartStop_owing (some false))
  | homeInc => exact hdone (cmdScore_owing hp.1 rfl homeInc_owing)
  | homeDec => exact hdone (cmdScore_owing hp.1 rfl homeDec_owing)
  | awayInc => exact hdone (cmdScore_owing hp.2 rfl awayInc_owing)
  | awayDec => exact hdone (cmdScore_owing hp.2 rfl awayDec_owing)
  | scoresZero => exact cmdScoresZero_owing p
  | reset => exact cmdReset_owing p
  | ledOn => exact hdone (cmdLed_owing true)
  | ledOff => exact hdone (cmdLed_owing false)
  | setTimer m s => exact cmdSetTimer_owing m s p
  | aux => exact hdone cmdAux_owing

/-! ### The loop -/

theorem train_owing (p : Pending) :
    (owingSpec sim allow g₀).Triple (Owing sim g₀ none) (trainPulse p) fun _ => Owing sim g₀ none :=
  mute_owing none (trainPulse_all mute_idles p fun _ hpin _ _ => hpin)

/-- The end of the loop presses for itself only what its stop check wants. -/
theorem drain_owing {p : Pending} (hp : NoneDue p) :
    (owingSpec sim allow g₀).Triple (Owing sim g₀ none) (drain sim p)
      fun _ => Owing sim g₀ none := by
  obtain ⟨hhome, haway⟩ := hp
  unfold drain
  rw [if_neg (by omega), if_neg (by omega)]
  split_ifs
  · exact train_owing p
  · refine .bind (startStop_owing (some false)) ?_
    intro restop
    cases restop with
    | true => exact .bind (pulse_owing rfl) fun _ => .pure fun _ hw => hw
    | false => exact train_owing p
  · exact .pure fun _ hw => hw

theorem nextCommand_owing (p : Pending) :
    (owingSpec sim allow g₀).Triple (Owing sim g₀ none) (nextCommand p)
      fun cmd => Owing sim g₀ (cmd.bind (Command.wants sim)) := by
  unfold nextCommand
  split
  · refine @owing_call _ _ _ .tryReceive none (fun cmd => cmd.bind (Command.wants sim)) ?_
    intro w w' r hw he
    have hreplayed := hw.replayed.exec he
    simp only [BoardOp.exec] at he
    split at he
    · cases he
      exact hw.mute hreplayed (.inl rfl)
    · cases he
      exact hw.want hreplayed rfl rfl
  · refine .bind (@owing_call _ _ _ .receive none (Command.wants sim) ?_) fun cmd =>
      .pure fun _ hw => hw
    intro w w' r hw he
    have hreplayed := hw.replayed.exec he
    simp only [BoardOp.exec] at he
    split at he
    · cases he
    · cases he
      exact hw.want hreplayed rfl rfl

theorem boardTask_owing (p : Pending) :
    (owingSpec sim allow g₀).Triple (fun w => NoneDue p ∧ Owing sim g₀ none w) (boardTask sim p)
      fun p' w => NoneDue p' ∧ Owing sim g₀ none w := by
  refine .of_fact fun hp => .ends ?_ (boardTask_noneDue hp)
  refine .bind (nextCommand_owing p) ?_
  intro cmd
  cases cmd with
  | some cmd => exact handle_owing hp cmd
  | none => exact drain_owing hp

/-! ### Runs -/

theorem owingSpec_fits : Lib.Solo.Fits (boardSystem sim allow) (owingSpec sim allow g₀)
    fun p w => NoneDue p ∧ Owing sim g₀ none w :=
  Lib.Solo.fits_spec (fun _ _ _ ⟨_, _, ha⟩ h => ⟨h.1, h.2.env ha⟩) boardTask_owing

/-- **Every press asked for, once and in order.** In every run of either build, with any commands, the
presses outside the train are those that the commands taken, the scores moved and the start/stop
requests so far want, in their order, but for one at most that is still to come; and none is to come
whenever the task is at the head of its loop. -/
theorem presses_in_order {w : World} {k : BoardProg Pending}
    (h : (boardSystem sim allow).Reach ⟨World.boot, .ret .zero⟩ ⟨w, k⟩) :
    (∃ owed : Option Pin,
      wanted sim World.boot.shared w.hist = owed.toList ++ pressed w.hist) ∧
    ∀ p, k = .ret p → wanted sim World.boot.shared w.hist = pressed w.hist := by
  have hboot : NoneDue .zero ∧ Owing sim World.boot.shared none World.boot :=
    ⟨⟨rfl, rfl⟩, rfl, rfl⟩
  have hrely : (owingSpec sim allow World.boot.shared).Stable
      fun w => ∃ owed, Owing sim World.boot.shared owed w := by
    refine Lib.Solo.stable_spec ?_
    rintro w₁ w₂ ⟨a, -, ha⟩ ⟨owed, hw⟩
    exact ⟨owed, hw.env ha⟩
  constructor
  · obtain ⟨owed, hw⟩ := Lib.Solo.guar_reach owingSpec_fits hrely (fun _ _ hg _ => hg) h hboot
      ⟨none, hboot.2⟩
    exact ⟨owed, hw.account⟩
  · rintro p rfl
    exact (Lib.Solo.head_reach owingSpec_fits h hboot).2.account

/-- An aux and a reset, up to where the reset has been taken. -/
def auxThenReset : List (Option Action) :=
  [some (.send .aux), some (.send .reset)] ++
    [none, none, none, none, some (.elapse 50000), none, none] ++
    [none, some (.elapse 50000), none, none] ++ [none, none]

def auxThenResetConf : BoardConf := (play false auxThenReset ⟨World.boot, .ret .zero⟩).get rfl

/-- The aux is pressed, and the reset is still to come. -/
theorem presses_in_order_auxThenReset :
    wanted false World.boot.shared auxThenResetConf.state.hist = [.reset, .aux] ∧
    pressed auxThenResetConf.state.hist = [.aux] ∧
    (∃ owed : Option Pin, wanted false World.boot.shared auxThenResetConf.state.hist =
      owed.toList ++ pressed auxThenResetConf.state.hist) ∧
    ∀ p, auxThenResetConf.task = .ret p →
      wanted false World.boot.shared auxThenResetConf.state.hist =
        pressed auxThenResetConf.state.hist := by
  have hrun : (boardSystem false fun _ => True).Reach ⟨World.boot, .ret .zero⟩ auxThenResetConf :=
    play_reach (by decide) (Option.some_get _).symm
  refine ⟨rfl, rfl, ?_⟩
  exact presses_in_order hrun

end ScoreboardCtrl
