import ScoreboardCtrl.Board.Scores
import ScoreboardCtrl.Board.World
import ScoreboardCtrl.Events.Publish
import ScoreboardCtrl.Lib.Lts
import ScoreboardCtrl.Phone.Page

/-!
# Phones and the Pico

Any number of phones with the page open, the Pico's state and its command channel. POSTs, event
streams and polls are messages: a POST of a score button goes up, its command enters the channel,
the answer or a failure comes back, in any order with respect to the other POSTs; the events
written to a stream are delivered in their order; polls may overtake everything.

* `NetAction.apply` — the moves of the system;
* a command is taken and its section run in one move: `handle_score` says that the section comes
  first, and the mutex is never held across an `await`. Its other sections are `visit`s
  (`handle_visits`).
-/

namespace ScoreboardCtrl

/-! ### Scores -/

def StatusJson.scores (body : StatusJson) : ℕ × ℕ := (body.home, body.away)

instance : DecidablePred Section.inRange
  | .setClock m s | .simSetTimer m s => inferInstanceAs (Decidable (m ≤ 99 ∧ s ≤ 59))
  | .setLed _ | .readLed | .startStop _ | .homeInc | .homeDec | .awayInc | .awayDec | .scoresZero
  | .reset | .snapshot | .simStartStop _ | .simReset | .timerTick | .heartbeat | .status
  | .refresh | .stopWait => .isTrue trivial

/-! ### The system -/

/-- An open event stream. -/
structure Stream where
  /-- events written and not yet delivered, oldest first -/
  fifo : List StatusJson
  /-- up to which message of `EVENTS` the Pico's side has seen; `none` before the first snapshot -/
  seen : Option ℕ
  /-- the last event delivered -/
  heard : Option StatusJson
  deriving DecidableEq, Repr

structure Phone where
  page : Page
  stream : Option Stream
  /-- `updateStatus` calls not settled; a snapshot once `/api/status` has answered -/
  polls : List (Option StatusJson)
  deriving DecidableEq, Repr

/-- The phones `ι` and the Pico. -/
structure Net (ι : Type) where
  now : ℕ
  pico : Shared
  /-- the command channel, oldest first -/
  channel : List Command
  /-- POSTs under way that no score button waits for -/
  strays : List Command
  phone : ι → Phone

/-- The Pico has just booted and every page has just been loaded. -/
def Net.boot {ι : Type} : Net ι := ⟨0, Shared.boot, [], [], fun _ => ⟨.load, none, []⟩⟩

inductive NetAction (ι : Type) where
  | elapse (us : ℕ)
  /-- a critical section that is not a score command's -/
  | visit (sec : Section)
  /-- a client sends a POST that has nothing to do with the score buttons of a page -/
  | request (cmd : Command)
  /-- such a POST is processed: its route sends the command -/
  | arriveStray (k : ℕ)
  | tap (i : ι) (button : ScoreButton)
  /-- the `k`-th POST in flight of phone `i` is processed -/
  | arrive (i : ι) (k : ℕ)
  /-- `board_task` takes a command and runs its section -/
  | board
  /-- the response to the `k`-th POST of phone `i` -/
  | succeed (i : ι) (k : ℕ)
  | fail (i : ι) (k : ℕ)
  | connect (i : ι)
  | disconnect (i : ι)
  /-- the Pico writes a snapshot to the stream of `i` -/
  | write (i : ι)
  /-- the oldest event under way reaches phone `i` -/
  | deliver (i : ι)
  | poll (i : ι)
  /-- `GET /api/status` answers the `k`-th poll of phone `i` -/
  | answer (i : ι) (k : ℕ)
  | applyPoll (i : ι) (k : ℕ)
  | failPoll (i : ι) (k : ℕ)
  deriving Repr

section System

variable {ι : Type} [DecidableEq ι]

def Net.setPhone (s : Net ι) (i : ι) (ph : Phone) : Net ι :=
  { s with phone := Function.update s.phone i ph }

/-- What taking a command does to the Pico. -/
def Command.runOn (c : Command) (now : ℕ) (g : Shared) : Shared :=
  match c.scoreSection with
  | some sec => (sec.run now g).2
  | none => g

/-- A snapshot written now: what the message count was before it, and the status. -/
def Stream.written (st : Stream) (sent : ℕ) (body : StatusJson) : Stream :=
  { st with fifo := st.fifo ++ [body], seen := some sent }

/-- The POST at `k` has been processed. -/
def Page.arrive (k : ℕ) (x : Inflight) (p : Page) : Page :=
  { p with posts := p.posts.set k { x with arrived := true } }

/-- The command of a POST that failed before it was processed may still arrive. -/
def Inflight.stray (x : Inflight) : List Command := if x.arrived then [] else [x.button.command]

def NetAction.apply (rel : Release) : NetAction ι → Net ι → Option (Net ι)
  | .elapse us, s => some { s with now := s.now + us }
  | .visit sec, s =>
    if sec.ofScores = false ∧ sec.inRange then some { s with pico := (sec.run s.now s.pico).2 }
    else none
  | .request cmd, s => some { s with strays := s.strays ++ [cmd] }
  | .arriveStray k, s =>
    if s.channel.length < channelSize then
      s.strays[k]?.map fun cmd =>
        { s with channel := s.channel ++ [cmd], strays := s.strays.eraseIdx k }
    else none
  | .tap i button, s =>
    some (s.setPhone i { s.phone i with page := (s.phone i).page.tap button })
  | .arrive i k, s =>
    match (s.phone i).page.posts[k]? with
    | some x =>
      if x.arrived = false ∧ s.channel.length < channelSize then
        some { s.setPhone i { s.phone i with page := (s.phone i).page.arrive k x } with
          channel := s.channel ++ [x.button.command] }
      else none
    | none => none
  | .board, s =>
    match s.channel with
    | cmd :: channel => some { s with pico := cmd.runOn s.now s.pico, channel := channel }
    | [] => none
  | .succeed i k, s =>
    match (s.phone i).page.posts[k]? with
    | some x =>
      if x.arrived then some (s.setPhone i { s.phone i with page := (s.phone i).page.settle k })
      else none
    | none => none
  | .fail i k, s =>
    match (s.phone i).page.posts[k]? with
    | some x =>
      some { s.setPhone i { s.phone i with page := ((s.phone i).page.rollback x).settle k } with
        strays := s.strays ++ x.stray }
    | none => none
  | .connect i, s =>
    match (s.phone i).stream with
    | some _ => none
    | none => some (s.setPhone i { s.phone i with stream := some ⟨[], none, none⟩ })
  | .disconnect i, s => some (s.setPhone i { s.phone i with stream := none })
  | .write i, s =>
    (s.phone i).stream.map fun st =>
      let r := Section.status.run s.now s.pico
      { s.setPhone i { s.phone i with
          stream := some (st.written s.pico.sent (statusOf rel r.1 s.now)) } with pico := r.2 }
  | .deliver i, s =>
    match (s.phone i).stream with
    | some ⟨e :: rest, seen, _⟩ =>
      some (s.setPhone i { s.phone i with
        page := (s.phone i).page.applyStatus e
        stream := some ⟨rest, seen, some e⟩ })
    | _ => none
  | .poll i, s => some (s.setPhone i { s.phone i with polls := (s.phone i).polls ++ [none] })
  | .answer i k, s =>
    match (s.phone i).polls[k]? with
    | some none =>
      let r := Section.status.run s.now s.pico
      some { s.setPhone i { s.phone i with
          polls := (s.phone i).polls.set k (some (statusOf rel r.1 s.now)) } with pico := r.2 }
    | _ => none
  | .applyPoll i k, s =>
    match (s.phone i).polls[k]? with
    | some (some data) =>
      some (s.setPhone i { s.phone i with
        page := (s.phone i).page.applyStatus data
        polls := (s.phone i).polls.eraseIdx k })
    | _ => none
  | .failPoll i k, s =>
    some (s.setPhone i { s.phone i with polls := (s.phone i).polls.eraseIdx k })

/-- The system of the phones `ι` around one Pico. -/
def netSystem (ι : Type) [DecidableEq ι] (rel : Release) : Lib.Lts (Net ι) (NetAction ι) where
  step := NetAction.apply rel

end System

end ScoreboardCtrl
