import ScoreboardCtrl.Lib.Prog
import ScoreboardCtrl.Section
import Mathlib.Data.Int.Notation

/-!
# `board_task` as a program (`src/main.rs`)

The task that owns the GPIO pins: it takes one command at a time from the channel and turns it
into critical sections on the scoreboard mutex, pin edges and waits. `boardTask` is one turn of its
`loop`; the local counters it carries from turn to turn are a `Pending`. The Boolean `sim` is the
cargo feature `simulate`, and both `cfg` branches of the source are kept.

Between any two operations other tasks may run. `set_high`, `set_low` and `try_receive` do not
yield in the source, so this allows more interleavings than the executor has.
-/

namespace ScoreboardCtrl

inductive Command where
  | startStop
  | start
  | stop
  | homeInc
  | homeDec
  | awayInc
  | awayDec
  | scoresZero
  | reset
  | ledOn
  | ledOff
  | setTimer (min sec : ℕ)
  | aux
  deriving DecidableEq, Repr

/-- The outputs of `Io`. -/
inductive Pin where
  | start
  | homeInc
  | homeDec
  | awayInc
  | awayDec
  | reset
  | minInc
  | minDec
  | secInc
  | secDec
  | clear
  | aux
  deriving DecidableEq, Repr

/-- The operations of `board_task`. -/
inductive BoardOp where
  /-- one critical section on the scoreboard mutex -/
  | lock (sec : Section)
  /-- `pin.set_high()` and `pin.set_low()` -/
  | setPin (pin : Pin) (high : Bool)
  /-- `Timer::after_millis(ms).await` -/
  | afterMillis (ms : ℕ)
  /-- `control.0.lock().await.gpio_set(0, on).await`: the onboard LED -/
  | gpioSet (on : Bool)
  | receive
  | tryReceive

/-- What an operation answers. -/
def BoardOp.Ret : BoardOp → Type
  | .lock sec => sec.Ret
  | .receive => Command
  | .tryReceive => Option Command
  | _ => Unit

abbrev BoardProg (α : Type) : Type := Lib.Prog BoardOp BoardOp.Ret α

namespace BoardProg

def lock (sec : Section) : BoardProg sec.Ret := Lib.Prog.call (R := BoardOp.Ret) (BoardOp.lock sec)
def setPin (pin : Pin) (high : Bool) : BoardProg Unit := Lib.Prog.call (R := BoardOp.Ret) (BoardOp.setPin pin high)
def afterMillis (ms : ℕ) : BoardProg Unit := Lib.Prog.call (R := BoardOp.Ret) (BoardOp.afterMillis ms)
def gpioSet (on : Bool) : BoardProg Unit := Lib.Prog.call (R := BoardOp.Ret) (BoardOp.gpioSet on)
def receive : BoardProg Command := Lib.Prog.call (R := BoardOp.Ret) BoardOp.receive
def tryReceive : BoardProg (Option Command) := Lib.Prog.call (R := BoardOp.Ret) BoardOp.tryReceive

end BoardProg

open BoardProg

/-- `pending_home_dec`, `pending_away_dec`, `pending_min`, `pending_sec`. -/
structure Pending where
  homeDec : ℕ
  awayDec : ℕ
  min : ℤ
  sec : ℤ
  deriving DecidableEq, Repr

/-- Nothing left to pulse. -/
def Pending.zero : Pending := ⟨0, 0, 0, 0⟩

def Pending.hasPending (p : Pending) : Bool :=
  decide (p.homeDec > 0) || decide (p.awayDec > 0) || p.min != 0 || p.sec != 0

/-- `u16::saturating_add(1)`. -/
def saturatingSucc (n : ℕ) : ℕ := min (n + 1) 65535

def pulse (pin : Pin) : BoardProg Unit := do
  setPin pin true
  afterMillis pulseMs
  setPin pin false

/-- `if needed { pulse(pin).await; }` -/
def pulseIf (needed : Bool) (pin : Pin) : BoardProg Unit :=
  if needed then pulse pin else pure ()

def blinkOnboard (holdLed : Bool) : BoardProg Unit :=
  if holdLed then pure ()
  else do
    gpioSet true
    afterMillis pulseMs
    gpioSet false

/-- `LedOn` and `LedOff`. -/
def cmdLed (on : Bool) : BoardProg Unit := do
  gpioSet on
  let _ : Unit ← lock (.setLed on)

/-- `StartStop | Start | Stop`; `want` is the state asked for, `none` for the raw toggle. -/
def cmdStartStop (sim : Bool) (want : Option Bool) : BoardProg Unit := do
  let led : Bool ← lock .readLed
  if sim then
    pulse .start
    blinkOnboard led
    let _ : Unit ← lock (.simStartStop want)
  else
    let pulseNeeded : Bool ← lock (.startStop want)
    pulseIf pulseNeeded .start
    blinkOnboard led

/-- Adjust the decrements still pending, or pulse at once when there are none. -/
def adjustOrPulse (adjust : ℕ → ℕ) (pin : Pin) (pendingDec : ℕ) : BoardProg ℕ :=
  if pendingDec > 0 then pure (adjust pendingDec)
  else do
    pulse pin
    pure pendingDec

/-- `HomeInc`, `HomeDec`, `AwayInc` and `AwayDec`: the critical section, what it does to the
decrements still pending, the pin to pulse otherwise. -/
def cmdScore (sec : BoardProg (Bool × Bool)) (adjust : ℕ → ℕ) (pin : Pin) (pendingDec : ℕ) :
    BoardProg ℕ := do
  let r ← sec
  if r.1 then do
    let n ← adjustOrPulse adjust pin pendingDec
    blinkOnboard r.2
    pure n
  else pure pendingDec

def cmdScoresZero (p : Pending) : BoardProg Pending := do
  let led : Bool ← lock .scoresZero
  pulse .clear
  blinkOnboard led
  pure { p with homeDec := 0, awayDec := 0 }

/-- The `cfg(feature = "simulate")` block of `Reset`. -/
def simReset (sim : Bool) : BoardProg Unit :=
  if sim then lock .simReset else pure ()

def cmdReset (sim : Bool) (p : Pending) : BoardProg Pending := do
  simReset sim
  let led : Bool ← lock .reset
  pulse .reset
  blinkOnboard led
  pure { p with min := 0, sec := 0 }

def cmdSetTimer (sim : Bool) (min sec : ℕ) (p : Pending) : BoardProg Pending := do
  let min := Min.min min 99
  let sec := Min.min sec 59
  if sim then
    let _ : Unit ← lock (.simSetTimer min sec)
    pure p
  else
    let pulseStop : Bool ← lock (.startStop (some false))
    pulseIf pulseStop .start
    let shown : ℕ × ℕ ← lock .snapshot
    pure { p with min := (min : ℤ) - shown.1, sec := (sec : ℤ) - shown.2 }

def cmdAux : BoardProg Unit := do
  let led : Bool ← lock .readLed
  pulse .aux
  blinkOnboard led

/-- The `match cmd` of the loop. -/
def handle (sim : Bool) (p : Pending) : Command → BoardProg Pending
  | .ledOn => do cmdLed true; pure p
  | .ledOff => do cmdLed false; pure p
  | .startStop => do cmdStartStop sim none; pure p
  | .start => do cmdStartStop sim (some true); pure p
  | .stop => do cmdStartStop sim (some false); pure p
  | .homeInc => do
    let n ← cmdScore (lock .homeInc) (· - 1) .homeInc p.homeDec
    pure { p with homeDec := n }
  | .homeDec => do
    let n ← cmdScore (lock .homeDec) saturatingSucc .homeDec p.homeDec
    pure { p with homeDec := n }
  | .awayInc => do
    let n ← cmdScore (lock .awayInc) (· - 1) .awayInc p.awayDec
    pure { p with awayDec := n }
  | .awayDec => do
    let n ← cmdScore (lock .awayDec) saturatingSucc .awayDec p.awayDec
    pure { p with awayDec := n }
  | .scoresZero => cmdScoresZero p
  | .reset => cmdReset sim p
  | .setTimer min sec => cmdSetTimer sim min sec p
  | .aux => do cmdAux; pure p

/-- One pulse of the set-timer train: minutes first, towards zero from either side. -/
def trainPulse (p : Pending) : BoardProg Pending :=
  if p.min > 0 then do
    pulse .minInc
    pure { p with min := p.min - 1 }
  else if p.min < 0 then do
    pulse .minDec
    pure { p with min := p.min + 1 }
  else if p.sec > 0 then do
    pulse .secInc
    pure { p with sec := p.sec - 1 }
  else if p.sec < 0 then do
    pulse .secDec
    pure { p with sec := p.sec + 1 }
  else pure p

/-- The end of the loop, reached when no command was taken. -/
def drain (sim : Bool) (p : Pending) : BoardProg Pending :=
  if p.homeDec > 0 then do
    pulse .homeDec
    pure { p with homeDec := p.homeDec - 1 }
  else if p.awayDec > 0 then do
    pulse .awayDec
    pure { p with awayDec := p.awayDec - 1 }
  else if p.min ≠ 0 ∨ p.sec ≠ 0 then
    if sim then trainPulse p
    else do
      -- a start in mid-train would let the clock tick: freeze before more pulses
      let restop : Bool ← lock (.startStop (some false))
      if restop then do
        pulse .start
        pure p
      else trainPulse p
  else pure p

/-- A pending train polls the channel, an idle task waits for it. -/
def nextCommand (p : Pending) : BoardProg (Option Command) :=
  if p.hasPending then tryReceive
  else do
    let cmd ← receive
    pure (some cmd)

/-- One turn of the loop of `board_task`. -/
def boardTask (sim : Bool) (p : Pending) : BoardProg Pending := do
  let cmd ← nextCommand p
  match cmd with
  | some cmd => handle sim p cmd
  | none => drain sim p

end ScoreboardCtrl
