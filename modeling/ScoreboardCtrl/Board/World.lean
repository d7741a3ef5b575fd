import ScoreboardCtrl.Lib.Solo
import ScoreboardCtrl.Board.Task

/-!
# `board_task` among the other tasks

The system around `board_task`: time, the statics, the command channel of capacity 8, and the
history of everything that happened, newest first. The environment lets time pass, sends commands
(the HTTP routes), runs the critical sections of the other tasks, and lets the physical scoreboard
count down; it does so in any order and at any time.

* `BoardOp.exec` — what an operation of `board_task` does; a `Timer` started by an operation can
  only elapse later than that operation by its length;
* `Action.apply` — what the environment does;
* `boardSystem sim allow` — the system, with the commands `allow` admits;
* `play` — the runs of the system as a function of the schedule, and `play_reach`, that they are
  runs.
-/

namespace ScoreboardCtrl

/-! ### Histories -/

inductive Event where
  /-- a critical section, of any task -/
  | lock (sec : Section)
  /-- an edge of an output of `board_task` -/
  | pin (pin : Pin) (high : Bool)
  /-- a `Timer` of `board_task` elapsed -/
  | waited (ms : ℕ)
  | gpio (on : Bool)
  /-- a route put a command into the channel -/
  | sent (cmd : Command)
  /-- `board_task` took it out; `idle` if it was waiting for it, not polling in a train -/
  | received (cmd : Command) (idle : Bool)
  /-- the physical clock showed one second less -/
  | countdown
  deriving DecidableEq, Repr

structure Entry where
  time : ℕ
  event : Event
  deriving DecidableEq, Repr

structure World where
  now : ℕ
  shared : Shared
  queue : List Command
  /-- when `board_task` made its last operation -/
  since : ℕ
  hist : List Entry
  deriving DecidableEq, Repr

/-- Capacity of the command channel. -/
def channelSize : ℕ := 8

/-! ### Operations of `board_task` -/

/-- `board_task` did something now. -/
def World.act (w : World) (e : Event) : World :=
  { w with since := w.now, hist := ⟨w.now, e⟩ :: w.hist }

def BoardOp.exec : (o : BoardOp) → World → Option (o.Ret × World)
  | .lock sec, w =>
    let r := sec.run w.now w.shared
    some (r.1, { w.act (.lock sec) with shared := r.2 })
  | .setPin pin high, w => some ((), w.act (.pin pin high))
  | .afterMillis ms, w =>
    if w.since + ms * 1000 ≤ w.now then some ((), w.act (.waited ms)) else none
  | .gpioSet on, w => some ((), w.act (.gpio on))
  | .receive, w =>
    match w.queue with
    | [] => none
    | cmd :: queue => some (cmd, { w.act (.received cmd true) with queue := queue })
  | .tryReceive, w =>
    match w.queue with
    | [] => some (none, { w with since := w.now })
    | cmd :: queue => some (some cmd, { w.act (.received cmd false) with queue := queue })

/-! ### The environment -/

/-- The sections of the other tasks. `read_serial` passes on what `parse_clock_packet` accepts. -/
def Section.visitor (sim : Bool) : Section → Bool
  | .setClock m s => !sim && decide (m ≤ 99) && decide (s ≤ 59)
  | .timerTick => sim
  | .readLed | .heartbeat | .status | .refresh | .stopWait => true
  | _ => false

inductive Action where
  | elapse (us : ℕ)
  | visit (sec : Section)
  | send (cmd : Command)
  | countdown
  deriving DecidableEq, Repr

def Action.apply (sim : Bool) : Action → World → Option World
  | .elapse us, w => some { w with now := w.now + us }
  | .visit sec, w =>
    if sec.visitor sim then
      some { w with shared := (sec.run w.now w.shared).2, hist := ⟨w.now, .lock sec⟩ :: w.hist }
    else none
  | .send cmd, w =>
    if w.queue.length < channelSize then
      some { w with queue := w.queue ++ [cmd], hist := ⟨w.now, .sent cmd⟩ :: w.hist }
    else none
  | .countdown, w => some { w with hist := ⟨w.now, .countdown⟩ :: w.hist }

/-- The commands that `allow` admits are the only ones sent. -/
def Action.Admitted (allow : Command → Prop) : Action → Prop
  | .send cmd => allow cmd
  | _ => True

instance (allow : Command → Prop) [DecidablePred allow] : DecidablePred (Action.Admitted allow)
  | .send cmd => inferInstanceAs (Decidable (allow cmd))
  | .elapse _ | .visit _ | .countdown => .isTrue trivial

/-! ### The system -/

def boardSystem (sim : Bool) (allow : Command → Prop) : Lib.Solo World BoardOp BoardOp.Ret Pending where
  exec o w r w' := o.exec w = some (r, w')
  env w w' := ∃ a : Action, a.Admitted allow ∧ a.apply sim w = some w'
  body := boardTask sim

abbrev BoardConf : Type := Lib.Solo.Conf World BoardOp BoardOp.Ret Pending

/-- What the task does when it is polled: start a turn, or make its next operation. -/
def boardPoll (sim : Bool) (c : BoardConf) : Option BoardConf :=
  match c.task with
  | .ret p => some ⟨c.state, boardTask sim p⟩
  | .op o k => (o.exec c.state).map fun r => ⟨r.2, k r.1⟩

/-- One move of a schedule: `none` polls `board_task`. -/
def playOne (sim : Bool) : Option Action → BoardConf → Option BoardConf
  | none, c => boardPoll sim c
  | some a, c => (a.apply sim c.state).map fun w => ⟨w, c.task⟩

/-- The run of a schedule. -/
def play (sim : Bool) : List (Option Action) → BoardConf → Option BoardConf
  | [], c => some c
  | a :: as, c => (playOne sim a c).bind (play sim as)

/-- The run of a schedule that ends at the head of the loop. -/
def playHead (sim : Bool) (as : List (Option Action)) (w : World) (p : Pending) :
    Option (World × Pending) :=
  (play sim as ⟨w, .ret p⟩).bind fun c =>
    match c.task with
    | .ret p => some (c.state, p)
    | .op _ _ => none

theorem playOne_step {sim : Bool} {allow : Command → Prop} {a : Option Action} {c c' : BoardConf}
    (ha : ∀ b ∈ a, b.Admitted allow) (h : playOne sim a c = some c') :
    (boardSystem sim allow).Step c c' := by
  obtain ⟨w, t⟩ := c
  cases a with
  | none =>
    cases t with
    | ret p =>
      cases h
      exact .turn
    | op o k =>
      obtain ⟨⟨r, w'⟩, he, rfl⟩ := Option.map_eq_some_iff.1 h
      exact .op he
  | some a =>
    obtain ⟨w', he, rfl⟩ := Option.map_eq_some_iff.1 h
    exact .env ⟨a, ha a rfl, he⟩

theorem play_reach {sim : Bool} {allow : Command → Prop} {as : List (Option Action)}
    {c c' : BoardConf} (has : ∀ a ∈ as, ∀ b ∈ a, b.Admitted allow)
    (h : play sim as c = some c') : (boardSystem sim allow).Reach c c' := by
  induction as generalizing c with
  | nil =>
    cases h
    exact .refl
  | cons a as ih =>
    obtain ⟨c₁, h₁, h₂⟩ := Option.bind_eq_some_iff.1 h
    exact .head (playOne_step (has a (by simp)) h₁) (ih (fun b hb => has b (by simp [hb])) h₂)

theorem playHead_reach {sim : Bool} {allow : Command → Prop} {as : List (Option Action)}
    {w w' : World} {p p' : Pending} (has : ∀ a ∈ as, ∀ b ∈ a, b.Admitted allow)
    (h : playHead sim as w p = some (w', p')) :
    (boardSystem sim allow).Reach ⟨w, .ret p⟩ ⟨w', .ret p'⟩ := by
  obtain ⟨⟨w₁, t⟩, h₁, h₂⟩ := Option.bind_eq_some_iff.1 h
  cases t with
  | ret p₁ =>
    cases h₂
    exact play_reach has h₁
  | op o k => cases h₂

end ScoreboardCtrl
