import ScoreboardCtrl.Lib.Pool
import ScoreboardCtrl.Board.Outputs
import ScoreboardCtrl.Board.RunControl

/-!
# `heartbeat_task` and the onboard LED (`src/main.rs`)

Two tasks drive the LED of the Pico W. `board_task` writes it for `LedOn` and `LedOff`, and blinks it for a
press where the flag `led` is down; `heartbeat_task` holds it or beats, as it has read the flag at the head of
its turn, and between that and its writes the other task may run. So a write of the heartbeat can be stale: it
can put out an LED that was switched on a moment ago. `led_settles` says for how long.

The two run as a `Pool` over `Onboard`; `beats` counts the turns of the heartbeat since the other task last
touched the LED.
-/

namespace ScoreboardCtrl

open BoardProg

/-! ### The task -/

/-- `if !led { gpio_set(0, false) }`, of the flag that was read -/
def beatOut (led : Bool) : BoardProg Unit := if led then pure () else gpioSet false

/-- One turn of the loop of `heartbeat_task`. -/
def heartbeatTask : BoardProg Unit := do
  let hold : Bool ← lock .heartbeat
  if hold then
    gpioSet true
    afterMillis 200
  else
    gpioSet true
    afterMillis 80
    let led : Bool ← lock .readLed
    beatOut led
    afterMillis 920

inductive LedTask where
  | board
  | heartbeat
  deriving DecidableEq, Repr

/-- The world of `board_task`, the LED, and when `heartbeat_task` made its last operation. -/
structure Onboard where
  world : World
  lit : Bool
  beatSince : ℕ

def Onboard.flag (s : Onboard) : Bool := s.world.shared.board.led

/-! ### The system -/

/-- The LED after an operation. -/
def BoardOp.lights : BoardOp → Bool → Bool
  | .gpioSet on, _ => on
  | _, lit => lit

/-- An operation of `heartbeat_task`. -/
def BoardOp.beat : (o : BoardOp) → Onboard → Option (o.Ret × Onboard)
  | .lock sec, s =>
    let r := sec.run s.world.now s.world.shared
    some (r.1, { s with
      world := { s.world with shared := r.2, hist := ⟨s.world.now, .lock sec⟩ :: s.world.hist }
      beatSince := s.world.now })
  | .gpioSet on, s => some ((), { s with lit := on, beatSince := s.world.now })
  | .afterMillis ms, s =>
    if s.beatSince + ms * 1000 ≤ s.world.now then some ((), { s with beatSince := s.world.now }) else none
  | _, _ => none

def LedTask.exec : LedTask → (o : BoardOp) → Onboard → Option (o.Ret × Onboard)
  | .board, o, s => (o.exec s.world).map fun r => (r.1, { s with world := r.2, lit := o.lights s.lit })
  | .heartbeat, o, s => o.beat s

/-- The turns of the two tasks. -/
def LedTask.turn (sim : Bool) : Option Pending → BoardProg (Option Pending)
  | some p => do
    let p ← boardTask sim p
    pure (some p)
  | none => do
    heartbeatTask
    pure none

/-- The environment of the two: that of `board_task` without the heartbeat. -/
def ledEnv (sim : Bool) (allow : Command → Prop) (s s' : Onboard) : Prop :=
  ∃ a : Action, a.Admitted allow ∧ a ≠ .visit .heartbeat ∧
    ∃ w', a.apply sim s.world = some w' ∧ s' = { s with world := w' }

/-- What a task carries into its first turn. -/
def LedTask.first : LedTask → Option Pending
  | .board => some .zero
  | .heartbeat => none

/-- Both tasks run from the start, and for ever. -/
def ledPool (sim : Bool) (allow : Command → Prop) :
    Lib.Pool LedTask Onboard BoardOp BoardOp.Ret (Option Pending) where
  exec i o s r s' := i.exec o s = some (r, s')
  env := ledEnv sim allow
  enter _ _ _ := False
  start i := LedTask.turn sim i.first
  next a := some (LedTask.turn sim a)

abbrev LedConf : Type := Lib.Pool.Conf LedTask Onboard BoardOp BoardOp.Ret (Option Pending)

/-- Power-on, the LED dark. -/
def ledBoot (sim : Bool) : LedConf := ⟨⟨World.boot, false, 0⟩, fun i => some (LedTask.turn sim i.first)⟩

/-! ### What the tasks rely on -/

/-- The turns that the heartbeat has begun since `board_task` touched the LED or its flag. -/
def beats : List Entry → ℕ
  | [] => 0
  | e :: past =>
    match e.event with
    | .lock .heartbeat => beats past + 1
    | .lock (.setLed _) | .gpio _ => 0
    | _ => beats past

def Onboard.beats (s : Onboard) : ℕ := ScoreboardCtrl.beats s.world.hist

/-- The command taken last. -/
def Onboard.took (s : Onboard) : Option Command := (commandsTaken s.world.hist).head?.map (·.1)

/-- What the heartbeat sees of the others: they touch the LED, or leave alone all that it looks at. -/
def Untouched (s s' : Onboard) : Prop :=
  s'.beats = 0 ∨ s'.beats = s.beats ∧ s'.flag = s.flag ∧ s'.lit = s.lit

/-- What `board_task` sees of the others. -/
def Unasked (s s' : Onboard) : Prop := s'.flag = s.flag ∧ s'.took = s.took

theorem Untouched.trans {s₁ s₂ s₃ : Onboard} (h₁ : Untouched s₁ s₂) (h₂ : Untouched s₂ s₃) :
    Untouched s₁ s₃ := by
  rcases h₂ with h₂ | ⟨hbeats, hflag, hlit⟩
  · exact .inl h₂
  · rcases h₁ with h₁ | ⟨hbeats', hflag', hlit'⟩
    · exact .inl (hbeats.trans h₁)
    · exact .inr ⟨hbeats.trans hbeats', hflag.trans hflag', hlit.trans hlit'⟩

/-- The operation makes its entry in the history, and it is none of those that count. -/
def Event.counts : Event → Bool
  | .lock .heartbeat | .lock (.setLed _) | .gpio _ => true
  | _ => false

theorem beats_other {e : Entry} (h : e.event.counts = false) (past : List Entry) :
    beats (e :: past) = beats past := by
  obtain ⟨t, event⟩ := e
  cases event with
  | lock sec =>
    cases sec with
    | heartbeat | setLed on => cases h
    | _ => rfl
  | gpio on => cases h
  | _ => rfl

/-! ### The environment -/

variable {sim : Bool} {allow : Command → Prop}

theorem ledEnv_cases {s s' : Onboard} (h : ledEnv sim allow s s') :
    s'.beats = s.beats ∧ s'.flag = s.flag ∧ s'.lit = s.lit ∧ s'.took = s.took := by
  obtain ⟨a, -, hne, w', ha, rfl⟩ := h
  cases a with
  | elapse us =>
    cases ha
    exact ⟨rfl, rfl, rfl, rfl⟩
  | visit sec =>
    simp only [Action.apply] at ha
    split at ha
    · rename_i hvisit
      cases ha
      have hcounts : (Event.lock sec).counts = false := by
        cases sec with
        | heartbeat => exact absurd rfl hne
        | setLed on => cases hvisit
        | _ => rfl
      have hled : ∀ on, sec ≠ .setLed on := by
        rintro on rfl
        cases hvisit
      exact ⟨beats_other hcounts _, Section.run_led hled _ _, rfl, rfl⟩
    · cases ha
  | send cmd =>
    simp only [Action.apply] at ha
    split at ha
    · cases ha
      exact ⟨rfl, rfl, rfl, rfl⟩
    · cases ha
  | countdown =>
    cases ha
    exact ⟨rfl, rfl, rfl, rfl⟩

/-! ### The specifications -/

/-- The command taken last is one for the LED. -/
def ForLed (s : Onboard) : Prop := s.took = some .ledOn ∨ s.took = some .ledOff

/-- What `board_task` finds where it is about to make an operation: it writes the LED with the flag up only
for a command that is meant for the LED. -/
def boardPre (o : BoardOp) (s : Onboard) : Prop :=
  match o with
  | .gpioSet _ => s.flag = true → ForLed s
  | _ => True

/-- What `heartbeat_task` finds where it is about to make an operation. -/
structure BeatPre (o : BoardOp) (s : Onboard) : Prop where
  solid : 2 ≤ s.beats → s.flag = true → s.lit = true
  hold : o = .afterMillis 200 → 1 ≤ s.beats → s.flag = true ∧ s.lit = true
  beat : o = .afterMillis 80 → 1 ≤ s.beats → s.flag = false ∧ s.lit = true
  rest : o = .afterMillis 920 → 1 ≤ s.beats → s.flag = false ∧ s.lit = false

def ledSpec : LedTask → Lib.Spec Onboard BoardOp BoardOp.Ret
  | .board => ⟨fun o s r s' => LedTask.board.exec o s = some (r, s'), Unasked, Untouched, boardPre⟩
  | .heartbeat => ⟨fun o s r s' => LedTask.heartbeat.exec o s = some (r, s'), Untouched, Unasked, BeatPre⟩

open Lib.Spec

/-! ### `board_task` -/

/-- The operation neither touches the LED nor takes a command. -/
def BoardOp.Steady : BoardOp → Prop
  | .lock sec => (Event.lock sec).counts = false
  | .gpioSet _ | .receive | .tryReceive => False
  | _ => True

theorem Section.not_setLed {sec : Section} (h : (Event.lock sec).counts = false) (on : Bool) :
    sec ≠ .setLed on := by
  rintro rfl
  cases h

theorem steadyOp {o : BoardOp} (ho : o.Steady) {K : Onboard → Prop}
    (hK : ∀ s s', s'.flag = s.flag → K s → K s') : (ledSpec .board).OpTriple K o fun _ => K := by
  intro s hs
  refine ⟨?_, fun r s' he => ?_⟩
  · cases o with
    | gpioSet on => exact ho.elim
    | _ => trivial
  suffices hsame : s'.beats = s.beats ∧ s'.flag = s.flag ∧ s'.lit = s.lit from
    ⟨.inr hsame, hK s s' hsame.2.1 hs⟩
  obtain ⟨⟨_, w'⟩, hexec, heq⟩ := Option.map_eq_some_iff.1 he
  cases heq
  cases o with
  | lock sec =>
    cases hexec
    exact ⟨beats_other (e := ⟨s.world.now, .lock sec⟩) ho _,
      Section.run_led (Section.not_setLed ho) _ _, rfl⟩
  | setPin pin high =>
    cases hexec
    exact ⟨rfl, rfl, rfl⟩
  | afterMillis ms =>
    simp only [BoardOp.exec] at hexec
    split at hexec
    · cases hexec
      exact ⟨rfl, rfl, rfl⟩
    · cases hexec
  | gpioSet on | receive | tryReceive => exact ho.elim

/-- Programs that leave the LED alone. -/
theorem steady_all {α : Type} {t : BoardProg α} (ht : t.All BoardOp.Steady) {K : Onboard → Prop}
    (hK : ∀ s s', s'.flag = s.flag → K s → K s') : (ledSpec .board).Triple K t fun _ => K :=
  .of_all (fun s s' hrely hs => hK s s' hrely.1 hs) (fun _ ho => steadyOp ho hK) ht

/-- Where `held` is down so is the flag: a blink does not touch an LED that is held. -/
def MayBlink (held : Bool) (s : Onboard) : Prop := held = false → s.flag = false

theorem MayBlink.same {held : Bool} (s s' : Onboard) (hflag : s'.flag = s.flag) (h : MayBlink held s) :
    MayBlink held s' := fun hheld => hflag.trans (h hheld)

theorem MayBlink.stable (held : Bool) : (ledSpec .board).Stable (MayBlink held) :=
  fun s s' hrely hs => hs.same s s' hrely.1

/-- A write of the LED where the flag is down, or for a command that is meant for it. -/
theorem gpioSet_board {K : Onboard → Prop} (hstable : (ledSpec .board).Stable K)
    (hpre : ∀ s, K s → s.flag = true → ForLed s)
    (hK : ∀ s s', s'.flag = s.flag → s'.took = s.took → K s → K s') (on : Bool) :
    (ledSpec .board).Triple K (BoardProg.gpioSet on) fun _ => K := by
  refine Triple.call hstable fun s hs => ⟨hpre s hs, ?_⟩
  rintro r s' ⟨⟩
  exact ⟨.inl rfl, hK s _ rfl rfl hs⟩

theorem blinkOnboard_board (held : Bool) :
    (ledSpec .board).Triple (MayBlink held) (blinkOnboard held) fun _ _ => True := by
  cases held with
  | true => exact .pure fun _ _ => trivial
  | false =>
    have hset : ∀ on, (ledSpec .board).Triple (MayBlink false) (BoardProg.gpioSet on)
        fun _ => MayBlink false := by
      intro on
      refine gpioSet_board (.stable false) (fun s hs hflag => ?_) (fun s s' hflag _ => .same s s' hflag) on
      exact absurd (hs rfl) (by simp [hflag])
    have hsteady : (BoardProg.afterMillis pulseMs).All BoardOp.Steady := .call trivial
    have hwait : (ledSpec .board).Triple (MayBlink false) (BoardProg.afterMillis pulseMs)
        fun _ => MayBlink false := steady_all hsteady .same
    exact .bind (hset true) fun _ => .bind hwait fun _ =>
      (hset false).mono (fun _ hs => hs) fun _ _ _ => trivial

theorem lock_board {sec : Section} (hsec : (Event.lock sec).counts = false) {led : sec.Ret → Bool}
    (hled : ∀ now g, led (sec.run now g).1 = (sec.run now g).2.board.led) :
    (ledSpec .board).Triple (fun _ => True) (BoardProg.lock sec) fun r => MayBlink (led r) := by
  refine Triple.call (fun _ _ _ _ => trivial) fun s _ => ⟨trivial, ?_⟩
  rintro r s' ⟨⟩
  refine ⟨.inr ⟨beats_other (e := ⟨s.world.now, .lock sec⟩) hsec _,
    Section.run_led (Section.not_setLed hsec) _ _, rfl⟩, fun hheld => ?_⟩
  exact (hled _ _).symm.trans hheld

theorem pulse_steady (pin : Pin) : (pulse pin).All BoardOp.Steady :=
  .bind (.call trivial) fun _ => .bind (.call trivial) fun _ => .call trivial

theorem pulse_board (held : Bool) (pin : Pin) :
    (ledSpec .board).Triple (MayBlink held) (pulse pin) fun _ => MayBlink held :=
  steady_all (pulse_steady pin) .same

theorem pulseIf_board (held needed : Bool) (pin : Pin) :
    (ledSpec .board).Triple (MayBlink held) (pulseIf needed pin) fun _ => MayBlink held := by
  cases needed with
  | true => exact pulse_board held pin
  | false => exact .pure fun _ hs => hs

theorem steady_any {α : Type} {t : BoardProg α} (ht : t.All BoardOp.Steady) :
    (ledSpec .board).Triple (fun _ => True) t fun _ _ => True :=
  steady_all ht fun _ _ _ _ => trivial

/-! ### The handlers -/

theorem cmdLed_board (on : Bool) :
    (ledSpec .board).Triple ForLed (cmdLed on) fun _ _ => True := by
  have hset : (ledSpec .board).Triple ForLed (BoardProg.gpioSet on) fun _ _ => True := by
    refine (gpioSet_board ?_ (fun _ hs _ => hs) ?_ on).mono (fun _ hs => hs) fun _ _ _ => trivial
    · intro s s' hrely hs
      exact (congrArg (fun x => x = some Command.ledOn ∨ x = some .ledOff) hrely.2).mpr hs
    · intro s s' _ htook hs
      exact (congrArg (fun x => x = some Command.ledOn ∨ x = some .ledOff) htook).mpr hs
  have hlock : (ledSpec .board).Triple (fun _ => True) (BoardProg.lock (.setLed on)) fun _ _ => True := by
    refine Triple.call (fun _ _ _ _ => trivial) fun s _ => ⟨trivial, ?_⟩
    rintro r s' ⟨⟩
    exact ⟨.inl rfl, trivial⟩
  exact .bind hset fun _ => .bind hlock fun _ => .pure fun _ _ => trivial

theorem cmdStartStop_board (want : Option Bool) :
    (ledSpec .board).Triple (fun _ => True) (cmdStartStop sim want) fun _ _ => True := by
  have hread : (ledSpec .board).Triple (fun _ => True) (BoardProg.lock .readLed)
      fun led : Bool => MayBlink led := lock_board rfl fun _ _ => rfl
  refine .bind hread fun led => ?_
  cases sim with
  | true =>
    have hsteady : (BoardProg.lock (.simStartStop want)).All BoardOp.Steady := .call rfl
    exact .bind (pulse_board led _) fun _ => .bind (blinkOnboard_board led) fun _ =>
      steady_any hsteady
  | false =>
    have hsteady : (BoardProg.lock (.startStop want)).All BoardOp.Steady := .call rfl
    have hlock : (ledSpec .board).Triple (MayBlink led) (BoardProg.lock (.startStop want))
        fun _ => MayBlink led := steady_all hsteady .same
    exact .bind hlock fun needed => .bind (pulseIf_board led needed _) fun _ => blinkOnboard_board led

/-- A score command blinks as its section has read the flag. -/
theorem cmdScore_board {sec : BoardProg (Bool × Bool)} (adjust : ℕ → ℕ) (pin : Pin) (n : ℕ)
    (hsec : (ledSpec .board).Triple (fun _ => True) sec fun r => MayBlink r.2) :
    (ledSpec .board).Triple (fun _ => True) (cmdScore sec adjust pin n) fun _ _ => True := by
  refine .bind hsec fun r => ?_
  obtain ⟨doHw, led⟩ := r
  cases doHw with
  | false => exact .pure fun _ _ => trivial
  | true =>
    have hadjust : (ledSpec .board).Triple (MayBlink led) (adjustOrPulse adjust pin n)
        fun _ => MayBlink led := by
      unfold adjustOrPulse
      split
      · exact .pure fun _ hs => hs
      · exact .bind (pulse_board led pin) fun _ => .pure fun _ hs => hs
    exact .bind hadjust fun m => .bind (blinkOnboard_board led) fun _ => .pure fun _ _ => trivial

/-- The section, the pulse and the blink of the other buttons. -/
theorem pressed_board {α : Type} {sec : BoardProg Bool} (pin : Pin) {f : Unit → BoardProg α}
    (hsec : (ledSpec .board).Triple (fun _ => True) sec fun led => MayBlink led)
    (hf : ∀ u, (ledSpec .board).Triple (fun _ => True) (f u) fun _ _ => True) :
    (ledSpec .board).Triple (fun _ => True)
      (sec >>= fun led => pulse pin >>= fun _ => blinkOnboard led >>= f) fun _ _ => True :=
  .bind hsec fun led => .bind (pulse_board led pin) fun _ => .bind (blinkOnboard_board led) hf

theorem cmdReset_board (p : Pending) :
    (ledSpec .board).Triple (fun _ => True) (cmdReset sim p) fun _ _ => True := by
  have hfirst : (simReset sim).All BoardOp.Steady := by
    cases sim with
    | true => exact .call rfl
    | false => trivial
  have hlock : (ledSpec .board).Triple (fun _ => True) (BoardProg.lock .reset)
      fun led : Bool => MayBlink led := lock_board rfl fun _ _ => rfl
  exact .bind (steady_any hfirst) fun _ => pressed_board .reset hlock fun _ => .pure fun _ _ => trivial

theorem cmdSetTimer_board (m s : ℕ) (p : Pending) :
    (ledSpec .board).Triple (fun _ => True) (cmdSetTimer sim m s p) fun _ _ => True := by
  refine steady_any ?_
  cases sim with
  | true => exact .bind (.call rfl) fun _ => trivial
  | false =>
    refine .bind (.call rfl) fun needed => .bind ?_ fun _ => .bind (.call rfl) fun _ => trivial
    cases needed with
    | true => exact pulse_steady _
    | false => trivial

theorem handle_board (p : Pending) (cmd : Command) :
    (ledSpec .board).Triple (fun s => s.took = some cmd) (handle sim p cmd) fun _ _ => True := by
  have hany {t : BoardProg Pending} (ht : (ledSpec .board).Triple (fun _ => True) t fun _ _ => True) :
      (ledSpec .board).Triple (fun s => s.took = some cmd) t fun _ _ => True :=
    ht.mono (fun _ _ => trivial) fun _ _ _ => trivial
  have hpure : ∀ n : Unit → Pending, ∀ u, (ledSpec .board).Triple (fun _ => True)
      (pure (n u) : BoardProg Pending) fun _ _ => True := fun _ _ => .pure fun _ _ => trivial
  cases cmd with
  | ledOn =>
    exact .bind ((cmdLed_board true).mono (fun _ hs => .inl hs) fun _ _ h => h) (hpure fun _ => p)
  | ledOff =>
    exact .bind ((cmdLed_board false).mono (fun _ hs => .inr hs) fun _ _ h => h) (hpure fun _ => p)
  | startStop | start | stop => exact hany (.bind (cmdStartStop_board _) (hpure fun _ => p))
  | homeInc =>
    have hsec := @lock_board .homeInc rfl Prod.snd fun _ _ => rfl
    exact hany (.bind (cmdScore_board _ .homeInc p.homeDec hsec) fun _ => .pure fun _ _ => trivial)
  | homeDec =>
    have hsec := @lock_board .homeDec rfl Prod.snd fun _ _ => rfl
    exact hany (.bind (cmdScore_board _ .homeDec p.homeDec hsec) fun _ => .pure fun _ _ => trivial)
  | awayInc =>
    have hsec := @lock_board .awayInc rfl Prod.snd fun _ _ => rfl
    exact hany (.bind (cmdScore_board _ .awayInc p.awayDec hsec) fun _ => .pure fun _ _ => trivial)
  | awayDec =>
    have hsec := @lock_board .awayDec rfl Prod.snd fun _ _ => rfl
    exact hany (.bind (cmdScore_board _ .awayDec p.awayDec hsec) fun _ => .pure fun _ _ => trivial)
  | scoresZero =>
    have hsec := @lock_board .scoresZero rfl id fun _ _ => rfl
    exact hany (pressed_board .clear hsec fun _ => .pure fun _ _ => trivial)
  | reset => exact hany (cmdReset_board p)
  | setTimer m s => exact hany (cmdSetTimer_board m s p)
  | aux =>
    have hsec := @lock_board .readLed rfl id fun _ _ => rfl
    have haux : (ledSpec .board).Triple (fun _ => True) cmdAux fun _ _ => True :=
      .bind hsec fun led => .bind (pulse_board led .aux) fun _ => blinkOnboard_board led
    exact hany (.bind haux (hpure fun _ => p))

theorem trainPulse_steady (p : Pending) : (trainPulse p).All BoardOp.Steady := by
  unfold trainPulse
  split_ifs
  · exact .bind (pulse_steady _) fun _ => trivial
  · exact .bind (pulse_steady _) fun _ => trivial
  · exact .bind (pulse_steady _) fun _ => trivial
  · exact .bind (pulse_steady _) fun _ => trivial
  · trivial

theorem drain_steady (p : Pending) : (drain sim p).All BoardOp.Steady := by
  unfold drain
  split_ifs
  · exact .bind (pulse_steady _) fun _ => trivial
  · exact .bind (pulse_steady _) fun _ => trivial
  · exact trainPulse_steady p
  · refine .bind (.call rfl) ?_
    intro restop
    cases restop with
    | true => exact .bind (pulse_steady _) fun _ => trivial
    | false => exact trainPulse_steady p
  · trivial

theorem nextCommand_board (p : Pending) :
    (ledSpec .board).Triple (fun _ => True) (nextCommand p)
      fun cmd s => ∀ c ∈ cmd, s.took = some c := by
  have htry : (ledSpec .board).Triple (fun _ => True) BoardProg.tryReceive
      fun (cmd : Option Command) s => ∀ c ∈ cmd, s.took = some c := by
    refine Triple.call (fun _ _ _ _ => trivial) fun s _ => ⟨trivial, fun r s' he => ?_⟩
    obtain ⟨⟨_, w'⟩, hexec, heq⟩ := Option.map_eq_some_iff.1 he
    cases heq
    simp only [BoardOp.exec] at hexec
    split at hexec
    · cases hexec
      exact ⟨.inr ⟨rfl, rfl, rfl⟩, by simp⟩
    · cases hexec
      exact ⟨.inr ⟨rfl, rfl, rfl⟩, by rintro c ⟨⟩; rfl⟩
  have hreceive : (ledSpec .board).Triple (fun _ => True) BoardProg.receive
      fun (cmd : Command) s => s.took = some cmd := by
    refine Triple.call (fun _ _ _ _ => trivial) fun s _ => ⟨trivial, fun r s' he => ?_⟩
    obtain ⟨⟨_, w'⟩, hexec, heq⟩ := Option.map_eq_some_iff.1 he
    cases heq
    simp only [BoardOp.exec] at hexec
    split at hexec
    · cases hexec
    · cases hexec
      exact ⟨.inr ⟨rfl, rfl, rfl⟩, rfl⟩
  unfold nextCommand
  split
  · exact htry
  · exact .bind hreceive fun cmd => .pure fun s hs => by rintro c ⟨⟩; exact hs

theorem boardTask_board (p : Pending) :
    (ledSpec .board).Triple (fun _ => True) (boardTask sim p) fun _ _ => True := by
  refine .bind (nextCommand_board p) fun cmd => ?_
  cases cmd with
  | some cmd => exact (handle_board p cmd).mono (fun _ hs => hs cmd rfl) fun _ _ h => h
  | none => exact (steady_any (drain_steady p)).mono (fun _ _ => trivial) fun _ _ h => h

/-! ### `heartbeat_task` -/

/-- What depends only on the turns, the flag and the LED, and not on them while the count is at zero. -/
structure Settles (K : Onboard → Prop) : Prop where
  zero : ∀ s, s.beats = 0 → K s
  same : ∀ s s', s'.beats = s.beats → s'.flag = s.flag → s'.lit = s.lit → K s → K s'

theorem Settles.stable {K : Onboard → Prop} (h : Settles K) : (ledSpec .heartbeat).Stable K := by
  intro s s' hrely hs
  rcases hrely with hzero | ⟨hbeats, hflag, hlit⟩
  · exact h.zero s' hzero
  · exact h.same s s' hbeats hflag hlit hs

/-- At the head of the loop: the LED is as the flag says. -/
def LedShown (s : Onboard) : Prop := 1 ≤ s.beats → s.lit = s.flag

/-- The flag has been read as `hold`, and the LED not been written yet. -/
def HasRead (hold : Bool) (s : Onboard) : Prop :=
  (1 ≤ s.beats → s.flag = hold) ∧ (2 ≤ s.beats → s.lit = s.flag)

/-- The flag is `flag` and the LED `lit`. -/
def Shows (flag lit : Bool) (s : Onboard) : Prop := 1 ≤ s.beats → s.flag = flag ∧ s.lit = lit

/-- In the beat, the flag has been read again as `led`. -/
def Again (led : Bool) (s : Onboard) : Prop := 1 ≤ s.beats → (s.flag = false ∧ s.lit = true) ∧ led = false

theorem ledShown_settles : Settles LedShown where
  zero s h := fun hpos => by omega
  same s s' hbeats hflag hlit h := by
    unfold LedShown
    rw [hbeats, hflag, hlit]
    exact h

theorem hasRead_settles (hold : Bool) : Settles (HasRead hold) where
  zero s h := ⟨fun hpos => by omega, fun hpos => by omega⟩
  same s s' hbeats hflag hlit h := by
    unfold HasRead
    rw [hbeats, hflag, hlit]
    exact h

theorem shows_settles (flag lit : Bool) : Settles (Shows flag lit) where
  zero s h := fun hpos => by omega
  same s s' hbeats hflag hlit h := by
    unfold Shows
    rw [hbeats, hflag, hlit]
    exact h

theorem again_settles (led : Bool) : Settles (Again led) where
  zero s h := fun hpos => by omega
  same s s' hbeats hflag hlit h := by
    unfold Again
    rw [hbeats, hflag, hlit]
    exact h

theorem afterMillis_beat {K : Onboard → Prop} (hK : Settles K) {ms : ℕ}
    (hpre : ∀ s, K s → BeatPre (.afterMillis ms) s) :
    (ledSpec .heartbeat).Triple K (BoardProg.afterMillis ms) fun _ => K := by
  refine Triple.call hK.stable fun s hs => ⟨hpre s hs, fun r s' he => ?_⟩
  simp only [ledSpec, LedTask.exec, BoardOp.beat] at he
  split at he
  · cases he
    exact ⟨⟨rfl, rfl⟩, hK.same s _ rfl rfl rfl hs⟩
  · cases he

theorem gpioSet_beat {K K' : Onboard → Prop} (hK : Settles K) (on : Bool)
    (hpre : ∀ s, K s → BeatPre (.gpioSet on) s)
    (hpost : ∀ s s' : Onboard, K s → s'.beats = s.beats → s'.flag = s.flag → s'.lit = on → K' s') :
    (ledSpec .heartbeat).Triple K (BoardProg.gpioSet on) fun _ => K' := by
  refine Triple.call hK.stable fun s hs => ⟨hpre s hs, ?_⟩
  rintro r s' ⟨⟩
  exact ⟨⟨rfl, rfl⟩, hpost s _ hs rfl rfl rfl⟩

theorem heartbeatTask_beats :
    (ledSpec .heartbeat).Triple LedShown heartbeatTask fun _ => LedShown := by
  have hread : (ledSpec .heartbeat).Triple LedShown (BoardProg.lock .heartbeat)
      fun hold : Bool => HasRead hold := by
    refine Triple.call ledShown_settles.stable fun s hs => ⟨⟨?_, nofun, nofun, nofun⟩, ?_⟩
    · intro hbeats hflag
      exact (hs (by omega)).trans hflag
    · rintro r s' ⟨⟩
      have hled : (Section.run .heartbeat s.world.now s.world.shared).2.board.led = s.flag :=
        Section.run_led (by simp) _ _
      refine ⟨⟨hled, rfl⟩, fun _ => rfl, fun hbeats => ?_⟩
      have hpos : 1 ≤ s.beats := Nat.le_of_succ_le_succ hbeats
      exact (hs hpos).trans hled.symm
  refine .bind hread fun hold => ?_
  cases hold with
  | true =>
    have hset : (ledSpec .heartbeat).Triple (HasRead true) (BoardProg.gpioSet true)
        fun _ => Shows true true := by
      refine gpioSet_beat (hasRead_settles true) true (fun s hs => ⟨?_, nofun, nofun, nofun⟩) ?_
      · intro hbeats hflag
        exact (hs.2 hbeats).trans hflag
      · intro s s' hs hbeats hflag hlit hpos
        exact ⟨hflag.trans (hs.1 (hbeats ▸ hpos)), hlit⟩
    have hwait : (ledSpec .heartbeat).Triple (Shows true true) (BoardProg.afterMillis 200)
        fun _ => Shows true true := by
      refine afterMillis_beat (shows_settles _ _) fun s hs => ⟨?_, fun _ => hs, by simp, by simp⟩
      intro hbeats _
      exact (hs (by omega)).2
    refine .bind hset fun _ => hwait.mono (fun _ hs => hs) fun _ s hs hpos => ?_
    obtain ⟨hflag, hlit⟩ := hs hpos
    exact hlit.trans hflag.symm
  | false =>
    have hset : (ledSpec .heartbeat).Triple (HasRead false) (BoardProg.gpioSet true)
        fun _ => Shows false true := by
      refine gpioSet_beat (hasRead_settles false) true (fun s hs => ⟨?_, nofun, nofun, nofun⟩) ?_
      · intro hbeats hflag
        exact (hs.2 hbeats).trans hflag
      · intro s s' hs hbeats hflag hlit hpos
        exact ⟨hflag.trans (hs.1 (hbeats ▸ hpos)), hlit⟩
    have hwait : (ledSpec .heartbeat).Triple (Shows false true) (BoardProg.afterMillis 80)
        fun _ => Shows false true := by
      refine afterMillis_beat (shows_settles _ _) fun s hs => ⟨?_, by simp, fun _ => hs, by simp⟩
      intro hbeats _
      exact (hs (by omega)).2
    -- the flag is read again, and the guard dropped before the write
    have hagain : (ledSpec .heartbeat).Triple (Shows false true) (BoardProg.lock .readLed)
        fun led : Bool => Again led := by
      refine Triple.call (shows_settles _ _).stable fun s hs =>
        ⟨⟨fun hbeats _ => ?_, nofun, nofun, nofun⟩, ?_⟩
      · exact (hs (by omega)).2
      · rintro r s' ⟨⟩
        exact ⟨⟨rfl, rfl⟩, fun hpos => ⟨hs hpos, (hs hpos).1⟩⟩
    have hout : ∀ led : Bool, (ledSpec .heartbeat).Triple (Again led) (beatOut led)
        fun _ => Shows false false := by
      intro led
      cases led with
      | true => exact .pure fun s hs hpos => absurd (hs hpos).2 (by simp)
      | false =>
        refine gpioSet_beat (again_settles false) false
          (fun s hs => ⟨fun hbeats _ => ?_, nofun, nofun, nofun⟩) ?_
        · exact (hs (by omega)).1.2
        · intro s s' hs hbeats hflag hlit hpos
          exact ⟨hflag.trans (hs (hbeats ▸ hpos)).1.1, hlit⟩
    have hrest : (ledSpec .heartbeat).Triple (Shows false false) (BoardProg.afterMillis 920)
        fun _ => Shows false false := by
      refine afterMillis_beat (shows_settles _ _) fun s hs => ⟨?_, by simp, by simp, fun _ => hs⟩
      intro hbeats hflag
      exact absurd (hs (by omega)).1 (by simp [hflag])
    refine .bind hset fun _ => .bind hwait fun _ => .bind hagain fun led => .bind (hout led) fun _ => ?_
    refine hrest.mono (fun _ hs => hs) fun _ s hs hpos => ?_
    obtain ⟨hflag, hlit⟩ := hs hpos
    exact hlit.trans hflag.symm

/-! ### Both tasks -/

/-- What holds where a task is at the head of its loop. -/
def LedTask.Head : LedTask → Option Pending → Onboard → Prop
  | .board, a, _ => a.isSome = true
  | .heartbeat, a, s => a = none ∧ LedShown s

theorem turn_wp (i : LedTask) (a : Option Pending) (s : Onboard) (h : i.Head a s) :
    (ledSpec i).wp i.Head (LedTask.turn sim a) s := by
  cases i with
  | board =>
    obtain ⟨p, rfl⟩ := Option.isSome_iff_exists.1 h
    exact Triple.bind (boardTask_board p) (fun p' => .pure fun _ _ => rfl) s trivial
  | heartbeat =>
    obtain ⟨rfl, hs⟩ := h
    exact Triple.bind heartbeatTask_beats (fun _ => .pure fun _ hs' => ⟨rfl, hs'⟩) s hs

theorem ledEnv_rely {s s' : Onboard} (h : ledEnv sim allow s s') (i : LedTask) :
    (ledSpec i).rely s s' := by
  obtain ⟨hbeats, hflag, hlit, htook⟩ := ledEnv_cases h
  cases i with
  | board => exact ⟨hflag, htook⟩
  | heartbeat => exact .inr ⟨hbeats, hflag, hlit⟩

theorem ledPool_fits : Lib.Pool.Fits (ledPool sim allow) (fun _ => True) ledSpec LedTask.Head where
  exec i o s r s' he := by cases i <;> exact he
  refl i s := by
    cases i with
    | board => exact ⟨rfl, rfl⟩
    | heartbeat => exact .inr ⟨rfl, rfl, rfl⟩
  trans i s₁ s₂ s₃ h₁ h₂ := by
    cases i with
    | board => exact ⟨h₂.1.trans h₁.1, h₂.2.trans h₁.2⟩
    | heartbeat => exact Untouched.trans h₁ h₂
  stable i a s s' hq hrely := by
    cases i with
    | board => exact hq
    | heartbeat => exact ⟨hq.1, ledShown_settles.stable s s' hrely hq.2⟩
  env s s' _ h := ⟨trivial, ledEnv_rely h⟩
  guar i s s' _ hguar := by
    refine ⟨trivial, fun j hj => ?_⟩
    cases i with
    | board => cases j with
      | board => exact absurd rfl hj
      | heartbeat => exact hguar
    | heartbeat => cases j with
      | board => exact hguar
      | heartbeat => exact absurd rfl hj
  enter i s s' _ h := h.elim
  next i a t s _ hq hnext := by
    cases hnext
    exact turn_wp i a s hq

theorem ledBoot_keeps : (ledBoot sim).Keeps ledSpec LedTask.Head := by
  intro i t ht
  cases ht
  refine turn_wp i i.first _ ?_
  cases i with
  | board => rfl
  | heartbeat => exact ⟨rfl, ledShown_settles.zero _ rfl⟩

theorem update_runs {f : LedTask → Option (BoardProg (Option Pending))} {i : LedTask}
    (h : ∃ t, f i = some t) (j : LedTask) (t : BoardProg (Option Pending)) :
    ∃ t', Function.update f j (some t) i = some t' := by
  by_cases hj : i = j
  · subst hj
    exact ⟨t, Function.update_self ..⟩
  · rw [Function.update_of_ne hj]
    exact h

/-- No task leaves. -/
theorem ledPool_runs {c : LedConf} (h : (ledPool sim allow).Reach (ledBoot sim) c) (i : LedTask) :
    ∃ t, c.task i = some t := by
  induction h with
  | refl => exact ⟨_, rfl⟩
  | tail _ hstep ih =>
    cases hstep with
    | op ht he => exact update_runs ih _ _
    | next ht => exact update_runs ih _ _
    | enter ht he => exact he.elim
    | env he => exact ih

/-- **The LED settles.** In every run of either build, however the two tasks and all the others interleave:
once the heartbeat has begun two turns since `board_task` last touched the LED, an LED that is switched on is
lit; from the first such turn on, the heartbeat waits for 200 ms with the LED on and lit, and else for 80 ms
with it lit and for 920 ms with it dark; and `board_task` never touches an LED that is switched on but for
`LedOn` and `LedOff`, so that no press of a button makes it blink. -/
theorem led_settles {c : LedConf} (h : (ledPool sim allow).Reach (ledBoot sim) c) :
    (2 ≤ c.state.beats → c.state.flag = true → c.state.lit = true) ∧
      (∀ o k, c.task .heartbeat = some (.op o k) → 1 ≤ c.state.beats →
        (o = .afterMillis 200 → c.state.flag = true ∧ c.state.lit = true) ∧
        (o = .afterMillis 80 → c.state.flag = false ∧ c.state.lit = true) ∧
        (o = .afterMillis 920 → c.state.flag = false ∧ c.state.lit = false)) ∧
      (∀ on k, c.task .board = some (.op (.gpioSet on) k) → c.state.flag = true → ForLed c.state) := by
  have hkeeps := Lib.Pool.wp_reach ledPool_fits h trivial ledBoot_keeps
  have hpre : ∀ o k, c.task .heartbeat = some (.op o k) → BeatPre o c.state :=
    fun o k ht => Lib.Pool.pre_reach ledPool_fits h trivial ledBoot_keeps ht
  refine ⟨fun hbeats hflag => ?_, fun o k ht hpos => ?_, fun on k ht => ?_⟩
  · obtain ⟨t, ht⟩ := ledPool_runs h .heartbeat
    cases t with
    | ret a =>
      have hhead : LedTask.heartbeat.Head a c.state := hkeeps.2 _ _ ht
      exact (hhead.2 (by omega)).trans hflag
    | op o k => exact (hpre o k ht).solid hbeats hflag
  · have hbeat := hpre o k ht
    exact ⟨fun ho => hbeat.hold ho hpos, fun ho => hbeat.beat ho hpos, fun ho => hbeat.rest ho hpos⟩
  · exact Lib.Pool.pre_reach ledPool_fits h trivial ledBoot_keeps ht

/-- The heartbeat has lit the LED for its first beat. -/
theorem led_settles_firstBeat : ∃ c : LedConf,
    (∃ k, c.task .heartbeat = some (.op (.afterMillis 80) k)) ∧ c.state.flag = false ∧
      c.state.lit = true := by
  have h₀ : (ledPool true fun _ => True).Reach (ledBoot true) (ledBoot true) := .refl
  obtain ⟨c₁, h₁, hs₁, ht₁⟩ :=
    @Lib.Pool.Reach.op _ _ _ _ _ _ _ _ _ h₀ .heartbeat (.lock .heartbeat) false _ _ rfl rfl
  obtain ⟨c₂, h₂, hs₂, ht₂⟩ :=
    @Lib.Pool.Reach.op _ _ _ _ _ _ _ _ _ h₁ .heartbeat (.gpioSet true) () _ _ ht₁ rfl
  have hbeats : 1 ≤ c₂.state.beats := by
    rw [hs₂, hs₁]
    decide
  exact ⟨c₂, ⟨_, ht₂⟩, ((led_settles h₂).2.1 _ _ ht₂ hbeats).2.1 rfl⟩

end ScoreboardCtrl
