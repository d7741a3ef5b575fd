import ScoreboardCtrl.Board.Task
import ScoreboardCtrl.Events.Status

/-!
# The scores on the page (`src/index.html`)

What the script keeps about the scores: `home`, `away`, `scoreInflight`, and the POSTs of the score
buttons whose promise is not settled. A tap paints the new score at once; `applyStatus` leaves the
scores alone while a POST is in flight; a POST that fails takes its change back. The clock, the
badges and the sound are left out, and so are the pointer events before a tap.
-/

namespace ScoreboardCtrl

/-- `Math.max(0, Math.min(99, x))` -/
def clampScore (x : ℤ) : ℤ := max 0 (min 99 x)

theorem clampScore_of_le {n : ℕ} (h : n ≤ 99) : clampScore n = n := by
  unfold clampScore
  omega

inductive Team where
  | home
  | away
  deriving DecidableEq, Repr

/-- The score buttons. -/
inductive ScoreButton where
  | homeInc
  | homeDec
  | awayInc
  | awayDec
  | scoresZero
  deriving DecidableEq, Repr

namespace ScoreButton

/-- What the route of a button's path sends. -/
def command : ScoreButton → Command
  | .homeInc => .homeInc
  | .homeDec => .homeDec
  | .awayInc => .awayInc
  | .awayDec => .awayDec
  | .scoresZero => .scoresZero

/-- `team` and `delta` in `bindScore(id, team, delta, path)`; `btnScoresZero` has its own code. -/
def bindScore : ScoreButton → Option (Team × ℤ)
  | .homeInc => some (.home, 1)
  | .homeDec => some (.home, -1)
  | .awayInc => some (.away, 1)
  | .awayDec => some (.away, -1)
  | .scoresZero => none

end ScoreButton

/-- The POST of a score button, in flight. -/
structure Inflight where
  button : ScoreButton
  prevHome : ℤ
  prevAway : ℤ
  /-- its route has sent the command -/
  arrived : Bool
  deriving DecidableEq, Repr

structure Page where
  home : ℤ
  away : ℤ
  scoreInflight : ℕ
  posts : List Inflight
  deriving DecidableEq, Repr

namespace Page

/-- `let home = 0; let away = 0; let scoreInflight = 0;` -/
def load : Page := ⟨0, 0, 0, []⟩

def score (p : Page) : Team → ℤ
  | .home => p.home
  | .away => p.away

def setScore (p : Page) (team : Team) (x : ℤ) : Page :=
  match team with
  | .home => { p with home := x }
  | .away => { p with away := x }

/-- `scoreInflight += 1`, and the POST is on its way. -/
def post (p : Page) (button : ScoreButton) (prevHome prevAway : ℤ) : Page :=
  { p with
    scoreInflight := p.scoreInflight + 1
    posts := p.posts ++ [⟨button, prevHome, prevAway, false⟩] }

/-- A tap on a score button. -/
def tap (button : ScoreButton) (p : Page) : Page :=
  match button.bindScore with
  | some (team, delta) =>
    let cur := p.score team
    let next := clampScore (cur + delta)
    if next = cur then p else (p.setScore team next).post button p.home p.away
  | none => { p with home := 0, away := 0 }.post button p.home p.away

/-- `.catch((e) => ..)` of a POST -/
def rollback (x : Inflight) (p : Page) : Page :=
  match x.button.bindScore with
  | some (team, delta) => p.setScore team (clampScore (p.score team - delta))
  | none => { p with home := x.prevHome, away := x.prevAway }

/-- `.finally(() => ..)` of the `k`-th POST -/
def settle (k : ℕ) (p : Page) : Page :=
  { p with scoreInflight := p.scoreInflight - 1, posts := p.posts.eraseIdx k }

def applyStatus (data : StatusJson) (p : Page) : Page :=
  if p.scoreInflight = 0 then
    { p with home := clampScore data.home, away := clampScore data.away }
  else p

/-- The page shows these scores. -/
def Shows (p : Page) (scores : ℕ × ℕ) : Prop := p.home = scores.1 ∧ p.away = scores.2

instance (p : Page) (scores : ℕ × ℕ) : Decidable (p.Shows scores) :=
  inferInstanceAs (Decidable (_ ∧ _))

end Page

end ScoreboardCtrl
