import ScoreboardCtrl.Board.Law
import ScoreboardCtrl.Board.Mirror

/-!
# The edges of the outputs

`pulse` holds a pin high for one `Timer` and leaves it no time low. After a command's own press comes
a blink, which waits again, unless the LED is held on. `pressLaw` says what every edge of an output
finds behind it: all outputs low, the blink of the newest press over, a `Timer` before the fall. Both
builds keep it (`press_reach`).
-/

namespace ScoreboardCtrl

/-! ### What a history says of the outputs -/

/-- The newest edge of an output. -/
def edge : List Entry → Option (Pin × Bool)
  | [] => none
  | e :: past =>
    match e.event with
    | .pin pin high => some (pin, high)
    | _ => edge past

/-- A `Timer` has elapsed since the newest edge. -/
def rested : List Entry → Bool
  | [] => false
  | e :: past =>
    match e.event with
    | .pin _ _ => false
    | .waited _ => true
    | _ => rested past

/-- The command taken last, if no `Timer` has elapsed since. -/
def fresh : List Entry → Option Command
  | [] => none
  | e :: past =>
    match e.event with
    | .received cmd _ => some cmd
    | .waited _ => none
    | _ => fresh past

/-- The pin that a command's handler presses before it blinks. -/
def Command.button : Command → Option Pin
  | .startStop | .start | .stop => some .start
  | .homeInc => some .homeInc
  | .homeDec => some .homeDec
  | .awayInc => some .awayInc
  | .awayDec => some .awayDec
  | .scoresZero => some .clear
  | .reset => some .reset
  | .aux => some .aux
  | .ledOn | .ledOff | .setTimer _ _ => none

/-- The LED the UI has asked for. -/
def ledHeld (g₀ : Shared) (past : List Entry) : Bool := (replay g₀ past).board.led

/-- A press of `pin` after `past` is the one that the command just taken asks for, and the LED is not
held on. -/
def Blinks (g₀ : Shared) (pin : Pin) (past : List Entry) : Prop :=
  ∃ cmd, fresh past = some cmd ∧ cmd.button = some pin ∧ ledHeld g₀ past = false

/-- The newest press is followed by a blink. -/
def owes (g₀ : Shared) : List Entry → Prop
  | [] => False
  | e :: past =>
    match e.event with
    | .pin pin true => Blinks g₀ pin past
    | _ => owes g₀ past

/-- No output is high. -/
def Low (past : List Entry) : Prop := ∀ pin, edge past ≠ some (pin, true)

/-- An output goes up where all are low, and not before the blink that follows the newest press; it
goes down after a `Timer`. -/
structure PressOk (g₀ : Shared) (e : Entry) (past : List Entry) : Prop where
  rise : ∀ pin, e.event = .pin pin true → Low past ∧ (owes g₀ past → rested past = true)
  fall : ∀ pin, e.event = .pin pin false → edge past = some (pin, true) ∧ rested past = true

/-- The event is no edge, no wait and no command, and leaves the LED as it is. -/
def Event.idle : Event → Bool
  | .pin _ _ | .waited _ | .received _ _ | .lock (.setLed _) => false
  | _ => true

/-! ### Idle events -/

theorem Shared.refreshRunning_led (g : Shared) (now : ℕ) :
    (g.refreshRunning now).board.led = g.board.led := by
  rw [refreshRunning_board]

theorem Shared.publish_led (g : Shared) : g.publish.board.led = g.board.led := by
  rw [publish_board]

theorem Section.score_led {may : ScoreboardState → Bool} {move : ScoreboardState → ScoreboardState}
    (hmove : ∀ s, (move s).led = s.led) (g : Shared) :
    (score may move g).2.board.led = g.board.led := by
  unfold score
  cases may g.board with
  | true => exact (Shared.publish_led _).trans (hmove g.board)
  | false => rfl

/-- **Only `LedOn` and `LedOff` touch the LED.** -/
theorem Section.run_led {sec : Section} (h : ∀ on, sec ≠ .setLed on) (now : ℕ) (g : Shared) :
    (sec.run now g).2.board.led = g.board.led := by
  cases sec with
  | setLed on => exact absurd rfl (h on)
  | startStop want =>
    show (g.startStopPulseFor want now).2.board.led = _
    rw [Shared.startStopPulseFor_snd]
    split <;> exact g.refreshRunning_led now
  | homeInc | homeDec | awayInc | awayDec =>
    refine score_led ?_ g
    exact fun _ => rfl
  | scoresZero => exact Shared.publish_led _
  | setClock m s | simStartStop want | simReset => exact Shared.refreshRunning_led _ now
  | simSetTimer m s =>
    exact (Shared.refreshRunning_led _ now).trans (Shared.refreshRunning_led _ now)
  | timerTick =>
    show (runTimerTick now g).board.led = _
    unfold runTimerTick
    split
    · simp only
      split
      · exact Shared.refreshRunning_led _ now
      · split <;> exact Shared.refreshRunning_led _ now
    · rfl
  | heartbeat | status | refresh => exact g.refreshRunning_led now
  | readLed | reset | snapshot | stopWait => rfl

variable {g₀ : Shared} {e : Entry} {past : List Entry}

theorem edge_idle (h : e.event.idle = true) : edge (e :: past) = edge past := by
  rw [edge]
  split <;> first | rfl | (rename_i he; rw [he] at h; cases h)

theorem rested_idle (h : e.event.idle = true) : rested (e :: past) = rested past := by
  rw [rested]
  split <;> first | rfl | (rename_i he; rw [he] at h; cases h)

theorem fresh_idle (h : e.event.idle = true) : fresh (e :: past) = fresh past := by
  rw [fresh]
  split <;> first | rfl | (rename_i he; rw [he] at h; cases h)

theorem owes_idle (h : e.event.idle = true) : owes g₀ (e :: past) ↔ owes g₀ past := by
  rw [owes]
  split <;> first | rfl | (rename_i he; rw [he] at h; cases h)

theorem ledHeld_idle (h : e.event.idle = true) : ledHeld g₀ (e :: past) = ledHeld g₀ past := by
  obtain ⟨t, event⟩ := e
  cases event with
  | lock sec =>
    refine Section.run_led ?_ t _
    rintro on rfl
    cases h
  | _ => rfl

theorem pressOk_idle (h : e.event.idle = true) : PressOk g₀ e past where
  rise pin he := by
    rw [he] at h
    cases h
  fall pin he := by
    rw [he] at h
    cases h

theorem low_idle (h : e.event.idle = true) (hp : Low past) : Low (e :: past) := by
  intro pin
  rw [edge_idle h]
  exact hp pin

theorem blinks_idle (h : e.event.idle = true) (pin : Pin) :
    Blinks g₀ pin (e :: past) ↔ Blinks g₀ pin past := by
  rw [Blinks, fresh_idle h, ledHeld_idle h, Blinks]

/-- **The law of the outputs.** -/
def pressLaw (sim : Bool) (g₀ : Shared) : Law sim where
  Ok := PressOk g₀
  calm := Event.idle
  ok_calm := pressOk_idle
  calm_visit {sec} h := by
    cases sec with
    | setLed on => cases h
    | _ => rfl
  calm_sent _ := rfl
  calm_countdown := rfl

/-! ### Where a turn of the loop stands -/

/-- A pin may be pressed. -/
def Poised (g₀ : Shared) (past : List Entry) : Prop :=
  Low past ∧ (owes g₀ past → rested past = true)

/-- `board_task` has taken `cmd` and done nothing about it. -/
def Asked (g₀ : Shared) (cmd : Command) (past : List Entry) : Prop :=
  Poised g₀ past ∧ fresh past = some cmd

/-- It has, and the LED is as `led` says. -/
def AskedLed (g₀ : Shared) (cmd : Command) (led : Bool) (past : List Entry) : Prop :=
  Asked g₀ cmd past ∧ ledHeld g₀ past = led

/-- Only `blinkOnboard holdLed` is left to do for the command. -/
structure Pressed (g₀ : Shared) (holdLed : Bool) (past : List Entry) : Prop where
  low : Low past
  owed : owes g₀ past → rested past = true ∨ holdLed = false
  start : ∀ cmd, fresh past = some cmd → cmd.button = some .start →
    ledHeld g₀ past = true ∨ holdLed = false

/-- `pin` may be pressed, and only `blinkOnboard holdLed` follows. -/
def Pressable (g₀ : Shared) (pin : Pin) (holdLed : Bool) (past : List Entry) : Prop :=
  Poised g₀ past ∧ (Blinks g₀ pin past → holdLed = false)

/-- `pin` is high. -/
structure Held (g₀ : Shared) (pin : Pin) (holdLed : Bool) (past : List Entry) : Prop where
  high : edge past = some (pin, true)
  owed : owes g₀ past → holdLed = false

/-- `pin` has been high for a `Timer`. -/
structure HeldLong (g₀ : Shared) (pin : Pin) (holdLed : Bool) (past : List Entry) : Prop
    extends Held g₀ pin holdLed past where
  rested : rested past = true
  fresh : fresh past = none

section Calm

variable {sim : Bool}

theorem poised_calm : (pressLaw sim g₀).CalmKept (Poised g₀) := by
  intro e past he ⟨hlow, howes⟩
  refine ⟨low_idle he hlow, ?_⟩
  rw [owes_idle he, rested_idle he]
  exact howes

theorem asked_calm (cmd : Command) : (pressLaw sim g₀).CalmKept (Asked g₀ cmd) :=
  fun e past he ⟨hpoised, hfresh⟩ => ⟨poised_calm e past he hpoised, (fresh_idle he).trans hfresh⟩

theorem askedLed_calm (cmd : Command) (led : Bool) :
    (pressLaw sim g₀).CalmKept (AskedLed g₀ cmd led) :=
  fun e past he ⟨hasked, hled⟩ => ⟨asked_calm cmd e past he hasked, (ledHeld_idle he).trans hled⟩

theorem pressed_calm (holdLed : Bool) : (pressLaw sim g₀).CalmKept (Pressed g₀ holdLed) := by
  intro e past he ⟨hlow, howed, hstart⟩
  refine ⟨low_idle he hlow, ?_, ?_⟩
  · rw [owes_idle he, rested_idle he]
    exact howed
  · rw [fresh_idle he, ledHeld_idle he]
    exact hstart

theorem pressable_calm (pin : Pin) (holdLed : Bool) :
    (pressLaw sim g₀).CalmKept (Pressable g₀ pin holdLed) := by
  intro e past he ⟨hpoised, hblinks⟩
  refine ⟨poised_calm e past he hpoised, ?_⟩
  rw [blinks_idle he]
  exact hblinks

theorem held_calm (pin : Pin) (holdLed : Bool) :
    (pressLaw sim g₀).CalmKept (Held g₀ pin holdLed) := by
  intro e past he ⟨hhigh, howed⟩
  refine ⟨(edge_idle he).trans hhigh, ?_⟩
  rw [owes_idle he]
  exact howed

theorem heldLong_calm (pin : Pin) (holdLed : Bool) :
    (pressLaw sim g₀).CalmKept (HeldLong g₀ pin holdLed) :=
  fun e past he h => ⟨held_calm pin holdLed e past he h.toHeld, (rested_idle he).trans h.rested,
    (fresh_idle he).trans h.fresh⟩

end Calm

/-! ### The code keeps the law -/

variable {sim : Bool} {allow : Command → Prop}

open Lib.Spec Law

/-- Entries that are no edges come where they may. -/
theorem pressOk_other (h : ∀ pin high, e.event ≠ .pin pin high) : PressOk g₀ e past :=
  ⟨fun pin he => absurd he (h pin true), fun pin he => absurd he (h pin false)⟩

/-- **A press.** -/
theorem pulse_presses (pin : Pin) (holdLed : Bool) :
    (pressLaw sim g₀).Leads allow g₀ (Pressable g₀ pin holdLed) (pulse pin)
      fun _ => Pressed g₀ holdLed := by
  have hrise : (pressLaw sim g₀).Leads allow g₀ (Pressable g₀ pin holdLed)
      (BoardProg.setPin pin true) fun _ => Held g₀ pin holdLed := by
    refine setPin_course (pressable_calm pin holdLed) ?_
    intro t past hpast
    obtain ⟨hpoised, hblinks⟩ := hpast
    exact ⟨⟨by rintro _ ⟨⟩; exact hpoised, by rintro _ ⟨⟩⟩, rfl, hblinks⟩
  have hwait : (pressLaw sim g₀).Leads allow g₀ (Held g₀ pin holdLed)
      (BoardProg.afterMillis pulseMs) fun _ => HeldLong g₀ pin holdLed :=
    afterMillis_course (held_calm pin holdLed) fun t past hpast =>
      ⟨pressOk_other (by simp), ⟨hpast.high, hpast.owed⟩, rfl, rfl⟩
  have hfall : (pressLaw sim g₀).Leads allow g₀ (HeldLong g₀ pin holdLed)
      (BoardProg.setPin pin false) fun _ => Pressed g₀ holdLed := by
    refine setPin_course (heldLong_calm pin holdLed) fun t past hpast => ⟨⟨?_, ?_⟩, ?_, ?_, ?_⟩
    · rintro _ ⟨⟩
    · rintro _ ⟨⟩
      exact ⟨hpast.high, hpast.rested⟩
    · rintro x ⟨⟩
    · exact fun howes => .inr (hpast.owed howes)
    · intro cmd hcmd
      have hnone : fresh past = some cmd := hcmd
      rw [hpast.fresh] at hnone
      cases hnone
  exact .bind hrise fun _ => .bind hwait fun _ => hfall

theorem idle_gpio (on : Bool) : (pressLaw sim g₀).CalmOp (.gpioSet on) := rfl

theorem blinkOnboard_presses (holdLed : Bool) :
    (pressLaw sim g₀).Leads allow g₀ (Pressed g₀ holdLed) (blinkOnboard holdLed)
      fun _ => Pressed g₀ true := by
  cases holdLed with
  | true => exact .pure fun _ hw => hw
  | false =>
    refine .bind (calm_course (pressed_calm _) (.call (idle_gpio true))) fun _ =>
      .bind (K := fun _ => (pressLaw sim g₀).Course g₀ (Pressed g₀ true)) ?_ fun _ =>
        calm_course (pressed_calm _) (.call (idle_gpio false))
    exact afterMillis_course (pressed_calm _) fun t past hpast =>
      ⟨pressOk_other (by simp), hpast.low, fun _ => .inl rfl, by rintro cmd ⟨⟩⟩

/-! ### The handlers -/

theorem AskedLed.pressable {cmd : Command} {led : Bool} (h : AskedLed g₀ cmd led past) (pin : Pin) :
    Pressable g₀ pin led past :=
  ⟨h.1.1, fun ⟨_, _, _, hled⟩ => h.2.symm.trans hled⟩

theorem AskedLed.pressed {cmd : Command} {led : Bool} (h : AskedLed g₀ cmd led past) :
    Pressed g₀ led past := by
  obtain ⟨⟨⟨hlow, howes⟩, -⟩, hled⟩ := h
  refine ⟨hlow, fun ho => .inl (howes ho), fun _ _ _ => ?_⟩
  cases led with
  | true => exact .inl hled
  | false => exact .inr rfl

/-- A command that has no start button needs nothing else. -/
theorem Asked.pressed {cmd : Command} (h : Asked g₀ cmd past) (hcmd : cmd.button ≠ some .start) :
    Pressed g₀ true past := by
  obtain ⟨⟨hlow, howes⟩, hfresh⟩ := h
  refine ⟨hlow, fun ho => .inl (howes ho), fun c hc hbutton => ?_⟩
  obtain rfl : cmd = c := Option.some.inj (hfresh.symm.trans hc)
  exact absurd hbutton hcmd

theorem Pressed.poised (h : Pressed g₀ true past) : Poised g₀ past :=
  ⟨h.low, fun ho => (h.owed ho).resolve_right (by decide)⟩

theorem Section.idle {sec : Section} (h : ∀ on, sec ≠ .setLed on) : (Event.lock sec).idle = true := by
  cases sec with
  | setLed on => exact absurd rfl (h on)
  | _ => rfl

theorem idle_lock {sec : Section} (h : ∀ on, sec ≠ .setLed on) :
    (pressLaw sim g₀).CalmOp (.lock sec) := Section.idle h

theorem lockLed_presses {cmd : Command} (sec : Section) (led : sec.Ret → Bool)
    (hsec : ∀ on, sec ≠ .setLed on)
    (hled : ∀ t g, (sec.run t g).2.board.led = led (sec.run t g).1) :
    (pressLaw sim g₀).Leads allow g₀ (Asked g₀ cmd) (BoardProg.lock sec)
      fun r => AskedLed g₀ cmd (led r) := by
  refine lock_course (asked_calm cmd) ?_
  intro t past hpast
  have hkept : (pressLaw sim g₀).CalmKept (Asked g₀ cmd) := asked_calm cmd
  have hidle : (Event.lock sec).idle = true := Section.idle hsec
  exact ⟨pressOk_idle hidle, hkept _ _ hidle hpast, hled t _⟩

theorem askedPulse_presses {cmd : Command} (pin : Pin) (led : Bool) :
    (pressLaw sim g₀).Leads allow g₀ (AskedLed g₀ cmd led) (pulse pin) fun _ => Pressed g₀ led :=
  (pulse_presses pin led).weaken (fun _ hpast => hpast.pressable pin) fun _ _ hpast => hpast

theorem askedPulseIf_presses {cmd : Command} (b : Bool) (pin : Pin) (led : Bool) :
    (pressLaw sim g₀).Leads allow g₀ (AskedLed g₀ cmd led) (pulseIf b pin)
      fun _ => Pressed g₀ led := by
  cases b with
  | true => exact askedPulse_presses pin led
  | false => exact .pure fun _ hw => ⟨hw.kept, hw.replayed, hw.holds.pressed⟩

theorem cmdLed_presses {cmd : Command} (on : Bool) (hcmd : cmd.button ≠ some .start) :
    (pressLaw sim g₀).Leads allow g₀ (Asked g₀ cmd) (cmdLed on) fun _ => Pressed g₀ true := by
  refine .bind (calm_course (asked_calm cmd) (.call (idle_gpio on))) fun _ =>
    .bind (K := fun _ => (pressLaw sim g₀).Course g₀ (Pressed g₀ true)) ?_ fun _ => .pure fun _ hw => hw
  refine lock_course (asked_calm cmd) fun t past ⟨⟨hlow, howes⟩, hfresh⟩ => ?_
  have hasked : Asked g₀ cmd (⟨t, .lock (.setLed on)⟩ :: past) := ⟨⟨hlow, howes⟩, hfresh⟩
  exact ⟨pressOk_other (by simp), hasked.pressed hcmd⟩

theorem cmdStartStop_presses {cmd : Command} (want : Option Bool) :
    (pressLaw sim g₀).Leads allow g₀ (Asked g₀ cmd) (cmdStartStop sim want)
      fun _ => Pressed g₀ true := by
  refine .bind (lockLed_presses .readLed id (by simp) fun _ _ => rfl) ?_
  intro led
  cases sim with
  | true =>
    exact .bind (askedPulse_presses .start led) fun _ => .bind (blinkOnboard_presses led) fun _ =>
      calm_course (pressed_calm _) (.bind (.call (idle_lock (by simp))) fun _ => trivial)
  | false =>
    exact .bind (calm_course (askedLed_calm cmd led) (.call (idle_lock (by simp)))) fun b =>
      .bind (askedPulseIf_presses b .start led) fun _ => blinkOnboard_presses led

theorem cmdScore_presses {cmd : Command} {sec : BoardProg (Bool × Bool)} (adjust : ℕ → ℕ)
    (pin : Pin) (n : ℕ) (hcmd : cmd.button ≠ some .start)
    (hsec : (pressLaw sim g₀).Leads allow g₀ (Asked g₀ cmd) sec fun r => AskedLed g₀ cmd r.2) :
    (pressLaw sim g₀).Leads allow g₀ (Asked g₀ cmd) (cmdScore sec adjust pin n)
      fun _ => Pressed g₀ true := by
  refine .bind hsec ?_
  intro r
  obtain ⟨doHw, led⟩ := r
  cases doHw with
  | false => exact .pure fun _ hw => ⟨hw.kept, hw.replayed, hw.holds.1.pressed hcmd⟩
  | true =>
    have hadjust : (pressLaw sim g₀).Leads allow g₀ (AskedLed g₀ cmd led) (adjustOrPulse adjust pin n)
        fun _ => Pressed g₀ led := by
      unfold adjustOrPulse
      split
      · exact .pure fun _ hw => ⟨hw.kept, hw.replayed, hw.holds.pressed⟩
      · exact .bind (askedPulse_presses pin led) fun _ => .pure fun _ hw => hw
    exact .bind hadjust fun _ => .bind (blinkOnboard_presses led) fun _ => .pure fun _ hw => hw

theorem cmdScoresZero_presses {cmd : Command} (p : Pending) :
    (pressLaw sim g₀).Leads allow g₀ (Asked g₀ cmd) (cmdScoresZero p) fun _ => Pressed g₀ true :=
  .bind (lockLed_presses .scoresZero id (by simp) fun _ _ => rfl)
    fun led => .bind (askedPulse_presses .clear led) fun _ =>
      .bind (blinkOnboard_presses led) fun _ => .pure fun _ hw => hw

theorem cmdReset_presses {cmd : Command} (p : Pending) :
    (pressLaw sim g₀).Leads allow g₀ (Asked g₀ cmd) (cmdReset sim p) fun _ => Pressed g₀ true := by
  have hfirst : (simReset sim).All (pressLaw sim g₀).CalmOp := by
    cases sim with
    | true => exact .call (idle_lock (by simp))
    | false => trivial
  exact .bind (calm_course (asked_calm cmd) hfirst) fun _ =>
    .bind (lockLed_presses .reset id (by simp) fun _ _ => rfl) fun led =>
      .bind (askedPulse_presses .reset led) fun _ =>
        .bind (blinkOnboard_presses led) fun _ => .pure fun _ hw => hw

theorem cmdAux_presses {cmd : Command} :
    (pressLaw sim g₀).Leads allow g₀ (Asked g₀ cmd) cmdAux fun _ => Pressed g₀ true :=
  .bind (lockLed_presses .readLed id (by simp) fun _ _ => rfl) fun led =>
    .bind (askedPulse_presses .aux led) fun _ => blinkOnboard_presses led

/-- A press that no blink follows: the newest command did not ask for it. -/
theorem plainPulse_presses (pin : Pin) {K : List Entry → Prop}
    (hK : ∀ past, K past → Poised g₀ past ∧ ¬ Blinks g₀ pin past) :
    (pressLaw sim g₀).Leads allow g₀ K (pulse pin) fun _ => Pressed g₀ true :=
  (pulse_presses pin true).weaken
    (fun past hpast => ⟨(hK past hpast).1, fun hb => absurd hb (hK past hpast).2⟩)
    fun _ _ hpast => hpast

theorem cmdSetTimer_presses (min sec : ℕ) (p : Pending) :
    (pressLaw sim g₀).Leads allow g₀ (Asked g₀ (.setTimer min sec)) (cmdSetTimer sim min sec p)
      fun _ => Pressed g₀ true := by
  have hdone {past : List Entry} (h : Asked g₀ (.setTimer min sec) past) : Pressed g₀ true past :=
    h.pressed (by simp [Command.button])
  cases sim with
  | true =>
    exact .bind (calm_course (asked_calm _) (.call (idle_lock (by simp)))) fun _ =>
      .pure fun _ hw => ⟨hw.kept, hw.replayed, hdone hw.holds⟩
  | false =>
    refine .bind (calm_course (asked_calm _) (.call (idle_lock (by simp)))) fun b =>
      .bind (K := fun _ => (pressLaw false g₀).Course g₀ (Pressed g₀ true)) ?_ fun _ =>
        .bind (calm_course (pressed_calm _) (.call (idle_lock (by simp)))) fun _ =>
          .pure fun _ hw => hw
    cases b with
    | false => exact .pure fun _ hw => ⟨hw.kept, hw.replayed, hdone hw.holds⟩
    | true =>
      refine plainPulse_presses .start fun past hpast => ⟨hpast.1, ?_⟩
      rintro ⟨cmd, hcmd, hbutton, -⟩
      obtain rfl : Command.setTimer min sec = cmd := Option.some.inj (hpast.2.symm.trans hcmd)
      cases hbutton

/-- **The handlers.** -/
theorem handle_presses (p : Pending) (cmd : Command) :
    (pressLaw sim g₀).Leads allow g₀ (Asked g₀ cmd) (handle sim p cmd) fun _ => Pressed g₀ true := by
  cases cmd with
  | startStop | start | stop => exact .bind (cmdStartStop_presses _) fun _ => .pure fun _ hw => hw
  | homeInc =>
    exact .bind (cmdScore_presses _ _ _ (by simp [Command.button])
      (lockLed_presses .homeInc Prod.snd (by simp) fun _ _ => rfl))
      fun _ => .pure fun _ hw => hw
  | homeDec =>
    exact .bind (cmdScore_presses _ _ _ (by simp [Command.button])
      (lockLed_presses .homeDec Prod.snd (by simp) fun _ _ => rfl))
      fun _ => .pure fun _ hw => hw
  | awayInc =>
    exact .bind (cmdScore_presses _ _ _ (by simp [Command.button])
      (lockLed_presses .awayInc Prod.snd (by simp) fun _ _ => rfl))
      fun _ => .pure fun _ hw => hw
  | awayDec =>
    exact .bind (cmdScore_presses _ _ _ (by simp [Command.button])
      (lockLed_presses .awayDec Prod.snd (by simp) fun _ _ => rfl))
      fun _ => .pure fun _ hw => hw
  | scoresZero => exact cmdScoresZero_presses p
  | reset => exact cmdReset_presses p
  | ledOn | ledOff =>
    exact .bind (cmdLed_presses _ (by simp [Command.button])) fun _ => .pure fun _ hw => hw
  | setTimer min sec => exact cmdSetTimer_presses min sec p
  | aux => exact .bind cmdAux_presses fun _ => .pure fun _ hw => hw

/-! ### Turns of the loop -/

theorem trainPulse_presses (p : Pending) :
    (pressLaw sim g₀).Leads allow g₀ (Pressed g₀ true) (trainPulse p) fun _ => Pressed g₀ true := by
  have hpulse {pin : Pin} (hpin : ∀ cmd : Command, cmd.button ≠ some pin) :
      (pressLaw sim g₀).Leads allow g₀ (Pressed g₀ true) (pulse pin) fun _ => Pressed g₀ true :=
    plainPulse_presses pin fun past hpast => ⟨hpast.poised, fun ⟨cmd, _, hb, _⟩ => hpin cmd hb⟩
  unfold trainPulse
  split_ifs
  · exact .bind (hpulse (by rintro ⟨⟩ <;> simp [Command.button])) fun _ => .pure fun _ hw => hw
  · exact .bind (hpulse (by rintro ⟨⟩ <;> simp [Command.button])) fun _ => .pure fun _ hw => hw
  · exact .bind (hpulse (by rintro ⟨⟩ <;> simp [Command.button])) fun _ => .pure fun _ hw => hw
  · exact .bind (hpulse (by rintro ⟨⟩ <;> simp [Command.button])) fun _ => .pure fun _ hw => hw
  · exact .pure fun _ hw => hw

theorem drain_presses {p : Pending} (hp : NoneDue p) :
    (pressLaw sim g₀).Leads allow g₀ (Pressed g₀ true) (drain sim p) fun _ => Pressed g₀ true := by
  obtain ⟨hhome, haway⟩ := hp
  unfold drain
  rw [if_neg (by omega), if_neg (by omega)]
  split_ifs
  · exact trainPulse_presses p
  · refine .bind (calm_course (pressed_calm _) (.call (idle_lock (by simp)))) ?_
    intro restop
    cases restop with
    | false => exact trainPulse_presses p
    | true =>
      refine .bind (plainPulse_presses .start fun past hpast => ⟨hpast.poised, ?_⟩) fun _ =>
        .pure fun _ hw => hw
      -- a start/stop request that has not waited found the LED on
      rintro ⟨cmd, hcmd, hbutton, hled⟩
      rcases hpast.start cmd hcmd hbutton with hon | hoff
      · rw [hled] at hon
        cases hon
      · cases hoff
  · exact .pure fun _ hw => hw

theorem boardTask_presses (p : Pending) :
    (pressLaw sim g₀).Leads allow g₀ (fun past => NoneDue p ∧ Pressed g₀ true past)
      (boardTask sim p) fun p' past => NoneDue p' ∧ Pressed g₀ true past := by
  have hturn (hp : NoneDue p) : (pressLaw sim g₀).Leads allow g₀ (Pressed g₀ true) (boardTask sim p)
      fun _ => Pressed g₀ true := by
    refine .bind (nextCommand_course (fun cmd => cmd.elim (Pressed g₀ true) (Asked g₀))
      (pressed_calm true) p (fun _ hpast => hpast) fun t past cmd idle hpast => ?_) fun cmd => ?_
    · exact ⟨pressOk_other (by simp), hpast.poised, rfl⟩
    · cases cmd with
      | some cmd => exact handle_presses p cmd
      | none => exact drain_presses hp
  intro w hw
  have hp : NoneDue p := hw.holds.1
  exact (hturn hp).ends (boardTask_noneDue hp) w ⟨hw.kept, hw.replayed, hw.holds.2⟩

/-- **Both builds keep the law of the outputs.** -/
theorem press_reach {w : World} {k : BoardProg Pending}
    (h : (boardSystem sim allow).Reach ⟨World.boot, .ret .zero⟩ ⟨w, k⟩) :
    (pressLaw sim World.boot.shared).Kept w.hist := by
  have hboot : (pressLaw sim World.boot.shared).Course World.boot.shared
      (fun past => NoneDue .zero ∧ Pressed World.boot.shared true past) World.boot :=
    ⟨trivial, rfl, ⟨rfl, rfl⟩, by rintro x ⟨⟩, by rintro ⟨⟩, by rintro cmd ⟨⟩⟩
  have hkept : (pressLaw sim World.boot.shared).CalmKept (Pressed World.boot.shared true) :=
    pressed_calm true
  exact (Law.reach (H := fun p past => NoneDue p ∧ Pressed World.boot.shared true past)
    (fun p e past he hpast => ⟨hpast.1, hkept e past he hpast.2⟩) boardTask_presses h hboot).1

end ScoreboardCtrl
