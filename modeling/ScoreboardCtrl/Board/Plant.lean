import ScoreboardCtrl.Board.RunControl

/-!
# The physical scoreboard at the other end

What the pulses of a history do to the physical scoreboard: a rising edge on GP1 toggles its run
flag, one on a minute or second pin moves the time by one, and a running board counts down. None
of this is read by the Pico; it comes back only as reports.

`closedLoop` says of a history that its reports are those of such a scoreboard: at most 500 ms
late, with a countdown every second while it runs.
-/

namespace ScoreboardCtrl

/-! ### Counting pulses -/

/-- The state of the run flag: every rising edge on GP1 toggles it. -/
def physRun (run₀ : Bool) : List Entry → Bool
  | [] => run₀
  | e :: past => if e.event = .pin .start true then !physRun run₀ past else physRun run₀ past

/-- Rising edges on `up` minus rising edges on `down`. -/
def net (up down : Pin) : List Entry → ℤ
  | [] => 0
  | e :: past => net up down past +
      if e.event = .pin up true then 1 else if e.event = .pin down true then -1 else 0

def netMin : List Entry → ℤ := net .minInc .minDec
def netSec : List Entry → ℤ := net .secInc .secDec

theorem physRun_toggle (run₀ : Bool) (t : ℕ) (past : List Entry) :
    physRun run₀ (⟨t, .pin .start true⟩ :: past) = !physRun run₀ past := if_pos rfl

theorem physRun_other {run₀ : Bool} {e : Entry} {past : List Entry}
    (h : e.event ≠ .pin .start true) : physRun run₀ (e :: past) = physRun run₀ past := if_neg h

theorem net_other {up down : Pin} {e : Entry} {past : List Entry}
    (h : ∀ pin, e.event ≠ .pin pin true) : net up down (e :: past) = net up down past := by
  rw [net, if_neg (h up), if_neg (h down), Int.add_zero]

/-! ### The closed loop -/

structure Plant where
  minutes : ℤ
  seconds : ℤ
  run : Bool
  /-- when it last started to count a second: at a countdown or an edge on GP1 -/
  beat : ℕ
  deriving DecidableEq, Repr

namespace Plant

/-- Stopped at the power-on time. -/
def boot : Plant := ⟨periodMin, periodSec, false, 0⟩

def display (x : Plant) : ℤ × ℤ := (x.minutes, x.seconds)

/-- One second less. -/
def countdown (x : Plant) : Plant :=
  if x.seconds > 0 then { x with seconds := x.seconds - 1 }
  else if x.minutes > 0 then { x with minutes := x.minutes - 1, seconds := 59 }
  else x

def on (e : Entry) (x : Plant) : Plant :=
  match e.event with
  | .pin .start true => { x with run := !x.run, beat := e.time }
  | .pin .minInc true => { x with minutes := x.minutes + 1 }
  | .pin .minDec true => { x with minutes := x.minutes - 1 }
  | .pin .secInc true => { x with seconds := x.seconds + 1 }
  | .pin .secDec true => { x with seconds := x.seconds - 1 }
  | .countdown => { x.countdown with beat := e.time }
  | _ => x

/-- The scoreboard after a history. -/
def after (x₀ : Plant) : List Entry → Plant
  | [] => x₀
  | e :: past => on e (after x₀ past)

/-- What it showed at some time since `since`, the history lasting until now. -/
def shownSince (x₀ : Plant) (since : ℕ) : List Entry → List (ℤ × ℤ)
  | [] => [x₀.display]
  | e :: past => (after x₀ (e :: past)).display ::
      if since ≤ e.time then shownSince x₀ since past else []

/-- Reports come at most 500 ms late: what the Pico has was shown within the last 500 ms. -/
def timely (x₀ : Plant) (u₀ : Uart) (now : ℕ) (hist : List Entry) : Bool :=
  let u := uartAfter u₀ (reports hist)
  (shownSince x₀ (now - 500000) hist).contains ((u.minutes : ℤ), (u.seconds : ℤ))

/-- It counts down once a second while it runs, and only then. -/
def ticking (x₀ : Plant) (e : Entry) (past : List Entry) : Bool :=
  if (after x₀ past).run then
    decide (e.time ≤ (after x₀ past).beat + 1000000) &&
      (e.event != .countdown || decide ((after x₀ past).beat + 1000000 ≤ e.time))
  else e.event != .countdown

/-- The history is one of the Pico connected to this scoreboard. -/
def closedLoop (x₀ : Plant) (u₀ : Uart) : List Entry → Bool
  | [] => true
  | e :: past => closedLoop x₀ u₀ past && timely x₀ u₀ e.time past &&
      timely x₀ u₀ e.time (e :: past) && ticking x₀ e past

theorem countdown_run (x : Plant) : x.countdown.run = x.run := by
  unfold countdown
  split_ifs <;> rfl

theorem on_run {e : Entry} (h : e.event ≠ .pin .start true) (x : Plant) :
    (on e x).run = x.run := by
  unfold on
  split
  · exact absurd ‹_› h
  · rfl
  · rfl
  · rfl
  · rfl
  · exact countdown_run x
  · rfl

theorem after_run (x₀ : Plant) (hist : List Entry) :
    (after x₀ hist).run = physRun x₀.run hist := by
  induction hist with
  | nil => rfl
  | cons e past ih =>
    obtain ⟨t, event⟩ := e
    by_cases h : event = .pin .start true
    · subst h
      rw [physRun_toggle, ← ih]
      rfl
    · rw [physRun_other h, ← ih]
      exact on_run h _

end Plant

end ScoreboardCtrl
