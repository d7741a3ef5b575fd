import ScoreboardCtrl.State

/-!
# The critical sections on the scoreboard mutex (`src/main.rs`)

Every task reaches `ScoreboardState` only between a `scoreboard.0.lock().await` and the end of the
block that holds the guard. Each such block is one `Section`, named after the place it stands in,
and `Section.run` is what it does and what it hands back to its task. Values that only a log line
reads are left out of the answers.

`Section.hardware` tells which of them the hardware build (`not(feature = "simulate")`) contains.
The section lemmas at the end say once what a section of the hardware build can do to the clock
(`run_uart`) and to the pending pair.
-/

namespace ScoreboardCtrl

inductive Section where
  /-- `board_task`, `LedOn` and `LedOff` -/
  | setLed (on : Bool)
  /-- `let led = scoreboard.0.lock().await.led` -/
  | readLed
  /-- `start_stop_pulse_for(want)`: `StartStop | Start | Stop`, `SetTimer` and the re-stop check -/
  | startStop (want : Option Bool)
  | homeInc
  | homeDec
  | awayInc
  | awayDec
  | scoresZero
  /-- `board_task`, `Reset` -/
  | reset
  /-- `board_task`, `SetTimer`: the read of MM:SS the deltas are taken from -/
  | snapshot
  /-- simulate build, `StartStop | Start | Stop` -/
  | simStartStop (want : Option Bool)
  /-- simulate build, `Reset` -/
  | simReset
  /-- simulate build, `SetTimer` -/
  | simSetTimer (min sec : ℕ)
  /-- `read_serial` -/
  | setClock (minutes seconds : ℕ)
  /-- `timer_task` -/
  | timerTick
  /-- `heartbeat_task` -/
  | heartbeat
  /-- `GET /api/status` and `StatusEvents::write_snapshot` -/
  | status
  /-- `StatusEvents::write_events`, third arm -/
  | refresh
  /-- `StatusEvents::stop_wait` -/
  | stopWait
  deriving DecidableEq, Repr

namespace Section

/-- What a section hands back. -/
def Ret : Section → Type
  | .readLed | .startStop _ | .scoresZero | .reset | .heartbeat => Bool
  | .homeInc | .homeDec | .awayInc | .awayDec => Bool × Bool
  | .snapshot => ℕ × ℕ
  | .stopWait => Bool × ℕ
  | .status => ScoreboardState
  | _ => Unit

/-- A score command: move the score if it may move, and tell whether it did and how the LED is. -/
def score (may : ScoreboardState → Bool) (move : ScoreboardState → ScoreboardState) (g : Shared) :
    (Bool × Bool) × Shared :=
  let doHw := may g.board
  let g := if doHw then Shared.publish { g with board := move g.board } else g
  ((doHw, g.board.led), g)

def runHomeInc : Shared → (Bool × Bool) × Shared :=
  score (fun s => decide (s.home < scoreMax)) (fun s => { s with home := s.home + 1 })

def runHomeDec : Shared → (Bool × Bool) × Shared :=
  score (fun s => decide (s.home > 0)) (fun s => { s with home := s.home - 1 })

def runAwayInc : Shared → (Bool × Bool) × Shared :=
  score (fun s => decide (s.away < scoreMax)) (fun s => { s with away := s.away + 1 })

def runAwayDec : Shared → (Bool × Bool) × Shared :=
  score (fun s => decide (s.away > 0)) (fun s => { s with away := s.away - 1 })

/-- The body of `timer_task`'s critical section. -/
def runTimerTick (now : ℕ) (g : Shared) : Shared :=
  if g.board.running then
    let min := g.board.minutes
    let sec := g.board.seconds
    if sec > 0 then g.setClock min (sec - 1) now
    else if min > 0 then g.setClock (min - 1) 59 now
    else Shared.refreshRunning now { g with board := { g.board with lastChange := none } }
  else g

/-- What a section does at `now`, and what it hands back. -/
def run : (sec : Section) → ℕ → Shared → sec.Ret × Shared
  | .setLed on, _, g => ((), Shared.publish { g with board := { g.board with led := on } })
  | .readLed, _, g => (g.board.led, g)
  | .startStop want, now, g => g.startStopPulseFor want now
  | .homeInc, _, g => runHomeInc g
  | .homeDec, _, g => runHomeDec g
  | .awayInc, _, g => runAwayInc g
  | .awayDec, _, g => runAwayDec g
  | .scoresZero, _, g =>
    let g := Shared.publish { g with board := { g.board with home := 0, away := 0 } }
    (g.board.led, g)
  | .reset, _, g =>
    (g.board.led, { g with board := { g.board with pendingRunning := none, pendingAt := none } })
  | .snapshot, _, g => ((g.board.minutes, g.board.seconds), g)
  | .simStartStop want, now, g =>
    let start := want.getD (!g.board.running)
    ((), Shared.refreshRunning now
      { g with board := { g.board with lastChange := if start then some now else none } })
  | .simReset, now, g =>
    ((), Shared.refreshRunning now { g with board := { g.board with lastChange := none } })
  | .simSetTimer min sec, now, g =>
    let g := g.setClock min sec now
    ((), Shared.refreshRunning now { g with board := { g.board with lastChange := none } })
  | .setClock minutes seconds, now, g => ((), g.setClock minutes seconds now)
  | .timerTick, now, g => ((), runTimerTick now g)
  | .heartbeat, now, g =>
    let g := g.refreshRunning now
    (g.board.led, g)
  | .status, now, g =>
    let g := g.refreshRunning now
    (g.board, g)
  | .refresh, now, g => ((), g.refreshRunning now)
  | .stopWait, now, g => ((g.board.running, g.board.ageMs now), g)

/-- The sections that `not(feature = "simulate")` compiles. -/
def hardware : Section → Bool
  | .simStartStop _ | .simReset | .simSetTimer _ _ | .timerTick => false
  | _ => true

/-- The sections that end in a `refresh_running`. -/
def refreshes : Section → Bool
  | .startStop _ | .setClock _ _ | .heartbeat | .status | .refresh => true
  | _ => false

end Section

/-- The timed sections `mid`, in order. -/
def runSections : List (ℕ × Section) → Shared → Shared
  | [], g => g
  | e :: mid, g => runSections mid (e.2.run e.1 g).2

theorem runSections_append (l mid : List (ℕ × Section)) (g : Shared) :
    runSections (l ++ mid) g = runSections mid (runSections l g) := by
  induction l generalizing g with
  | nil => rfl
  | cons e l ih => exact ih _

end ScoreboardCtrl
