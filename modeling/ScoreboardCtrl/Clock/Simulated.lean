import ScoreboardCtrl.Board.RunControl
import ScoreboardCtrl.Clock.Uart

/-!
# The set time of the simulate build

`SetTimer` of the simulate build writes MM:SS and stops the clock, and from then on nothing but a start or
another `SetTimer` moves it: a stop, a reset, the ticks of `timer_task`, which finds the clock stopped, and
all refreshes leave it (`SetAt.run`). `lastSet` is the time that the commands taken so far ask for, and
`obeyed_reach` the result for whole runs.
-/

namespace ScoreboardCtrl

/-- The clock is stopped at `m:s`. -/
structure SetAt (m s : ℕ) (g : Shared) : Prop where
  uart : g.board.uart = ⟨m, s, none⟩
  running : g.board.running = false

/-- The sections of the simulate build that leave a stopped clock alone. -/
def Section.holds : Section → Bool
  | .simStartStop want => want == some false
  | .simSetTimer _ _ | .setClock _ _ => false
  | _ => true

variable {m s : ℕ} {g : Shared}

theorem SetAt.stopped (h : g.board.uart = ⟨m, s, none⟩) (now : ℕ) : g.board.uartRunning now = false := by
  rw [ScoreboardState.uartRunning_eq, h, ← Bool.not_eq_true, Uart.running_iff]
  rintro ⟨-, c, hc, -⟩
  cases hc

theorem SetAt.refreshed (h : g.board.uart = ⟨m, s, none⟩) (now : ℕ) : SetAt m s (g.refreshRunning now) where
  uart := (Shared.refreshRunning_uart now g).trans h
  running := (Section.refreshRunning_running now g).trans (SetAt.stopped h now)

/-- `last_change = None`, and a refresh. -/
theorem SetAt.stop (hmin : g.board.minutes = m) (hsec : g.board.seconds = s) (now : ℕ) :
    SetAt m s (Shared.refreshRunning now { g with board := { g.board with lastChange := none } }) := by
  refine SetAt.refreshed ?_ now
  rw [← hmin, ← hsec]
  rfl

theorem SetAt.set (now : ℕ) : SetAt m s ((Section.simSetTimer m s).run now g).2 := by
  have huart := Shared.setClock_uart m s now g
  exact SetAt.stop (congrArg Uart.minutes huart) (congrArg Uart.seconds huart) now

/-- Nothing that the clock consists of has changed. -/
theorem SetAt.same {g' : Shared} (h : SetAt m s g) (huart : g'.board.uart = g.board.uart)
    (hrunning : g'.board.running = g.board.running) : SetAt m s g' :=
  ⟨huart.trans h.uart, hrunning.trans h.running⟩

theorem SetAt.publish (h : SetAt m s g) : SetAt m s g.publish :=
  h.same (Shared.publish_uart g) ((congrArg ScoreboardState.running (Shared.publish_board g)).trans rfl)

theorem SetAt.score {may : ScoreboardState → Bool} {move : ScoreboardState → ScoreboardState}
    (huart : ∀ x, (move x).uart = x.uart) (hrunning : ∀ x, (move x).running = x.running)
    (h : SetAt m s g) : SetAt m s (Section.score may move g).2 :=
  h.same (Section.score_uart huart g) (Section.score_running hrunning g)

/-- **A stopped clock stays** where it is. -/
theorem SetAt.run {sec : Section} (hsec : sec.holds = true) (now : ℕ) (h : SetAt m s g) :
    SetAt m s (sec.run now g).2 := by
  have huart := h.uart
  cases sec with
  | setLed on => exact SetAt.publish (h.same rfl rfl)
  | readLed | snapshot | stopWait => exact h
  | startStop want =>
    show SetAt m s (g.startStopPulseFor want now).2
    rw [Shared.startStopPulseFor_snd]
    split
    · exact (SetAt.refreshed huart now).same rfl rfl
    · exact SetAt.refreshed huart now
  | homeInc | homeDec | awayInc | awayDec => exact h.score (fun _ => rfl) fun _ => rfl
  | scoresZero => exact SetAt.publish (h.same rfl rfl)
  | reset => exact h.same rfl rfl
  | simStartStop want =>
    obtain rfl : want = some false := by simpa [Section.holds] using hsec
    exact SetAt.stop (congrArg Uart.minutes huart) (congrArg Uart.seconds huart) now
  | simReset => exact SetAt.stop (congrArg Uart.minutes huart) (congrArg Uart.seconds huart) now
  | simSetTimer m' s' => cases hsec
  | setClock m' s' => cases hsec
  | timerTick =>
    show SetAt m s (Section.runTimerTick now g)
    rw [Section.runTimerTick, h.running]
    exact h
  | heartbeat | status | refresh => exact SetAt.refreshed huart now

/-! ### The time asked for -/

/-- What a command makes of the time asked for: a start puts an end to it. -/
def Command.asks : Command → Option (ℕ × ℕ) → Option (ℕ × ℕ)
  | .setTimer m s, _ => some (min m 99, min s 59)
  | .start, _ | .startStop, _ => none
  | _, x => x

def Entry.asks (e : Entry) (x : Option (ℕ × ℕ)) : Option (ℕ × ℕ) :=
  match e.event with
  | .received cmd _ => cmd.asks x
  | _ => x

/-- The time that the commands of a history, newest first, ask the stopped clock for. -/
def lastSet : List Entry → Option (ℕ × ℕ)
  | [] => none
  | e :: past => e.asks (lastSet past)

/-- The command sets the simulated clock or starts it. -/
def Command.moves : Command → Bool
  | .setTimer _ _ | .start | .startStop => true
  | _ => false

/-- The newest command that sets the clock or starts it decides. -/
theorem lastSet_eq (hist : List Entry) :
    lastSet hist = ((commandsTaken hist).find? (·.1.moves)).bind (·.1.asks none) := by
  induction hist with
  | nil => rfl
  | cons e past ih =>
    obtain ⟨t, event⟩ := e
    cases event with
    | received cmd idle =>
      cases cmd with
      | setTimer m s | start | startStop => rfl
      | stop | reset | homeInc | homeDec | awayInc | awayDec | scoresZero | ledOn | ledOff | aux => exact ih
    | lock sec | pin pin high | waited ms | gpio on | sent cmd | countdown => exact ih

/-- The clock stands at the time asked for. -/
def Obeyed (w : World) : Prop := ∀ x, lastSet w.hist = some x → SetAt x.1 x.2 w.shared

/-- What holds between the arrival of a command and its first operation. -/
def TakenBefore (cmd : Command) (w : World) : Prop :=
  match cmd with
  | .setTimer m s => lastSet w.hist = some (min m 99, min s 59)
  | .start | .startStop => lastSet w.hist = none
  | _ => Obeyed w

/-! ### The environment -/

theorem Section.visitor_holds {sec : Section} (h : sec.visitor true = true) : sec.holds = true := by
  cases sec <;> first | rfl | cases h

/-- The other tasks take no commands, and leave a stopped clock alone. -/
theorem Action.apply_set {a : Action} {w w' : World} (h : a.apply true w = some w') :
    lastSet w'.hist = lastSet w.hist ∧
      ∀ m s, SetAt m s w.shared → SetAt m s w'.shared := by
  rcases Action.apply_cases h with
    ⟨hh, hs, -⟩ | ⟨sec, hsec, hh, hs, -⟩ | ⟨cmd, -, hh, hs, -⟩ | ⟨hh, hs, -⟩
  · exact ⟨by rw [hh], fun m s hset => hs ▸ hset⟩
  · refine ⟨by rw [hh]; rfl, ?_⟩
    intro m s hset
    rw [hs]
    exact SetAt.run (Section.visitor_holds hsec) w.now hset
  · exact ⟨by rw [hh]; rfl, fun m s hset => hs ▸ hset⟩
  · exact ⟨by rw [hh]; rfl, fun m s hset => hs ▸ hset⟩

theorem Obeyed.env {a : Action} {w w' : World} (h : Obeyed w) (ha : a.apply true w = some w') :
    Obeyed w' := by
  obtain ⟨hlast, hset⟩ := Action.apply_set ha
  intro x hx
  exact hset _ _ (h x (hlast ▸ hx))

/-! ### The program -/

/-- Nothing is asked of the operations here; only the states in between matter. -/
def setSpec (allow : Command → Prop) : Lib.Spec World BoardOp BoardOp.Ret :=
  (boardSystem true allow).spec (fun _ _ => True) fun _ _ => True

variable {allow : Command → Prop}

theorem Obeyed.stable : (setSpec allow).Stable Obeyed :=
  Lib.Solo.stable_spec fun _ _ ⟨_, _, ha⟩ h => h.env ha

theorem lastSet_stable (x : Option (ℕ × ℕ)) : (setSpec allow).Stable fun w => lastSet w.hist = x :=
  Lib.Solo.stable_spec fun _ _ ⟨_, _, ha⟩ h => (Action.apply_set ha).1.trans h

open Lib.Spec

/-- The operation takes no command, and its section is one that `P` admits. -/
def BoardOp.Keeps (P : Section → Prop) : BoardOp → Prop
  | .lock sec => P sec
  | .receive | .tryReceive => False
  | _ => True

theorem keeps_idles {P : Section → Prop} : BoardOp.Idles (BoardOp.Keeps P) :=
  ⟨fun _ => trivial, fun _ => trivial⟩

theorem keepsOp {P : Section → Prop} {o : BoardOp} (ho : o.Keeps P) {w w' : World} {r : o.Ret}
    (he : o.exec w = some (r, w')) : lastSet w'.hist = lastSet w.hist ∧
      (w'.shared = w.shared ∨ ∃ sec, P sec ∧ w'.shared = (sec.run w.now w.shared).2) := by
  cases o with
  | lock sec =>
    cases he
    exact ⟨rfl, .inr ⟨sec, ho, rfl⟩⟩
  | setPin pin high | gpioSet on =>
    cases he
    exact ⟨rfl, .inl rfl⟩
  | afterMillis ms =>
    simp only [BoardOp.exec] at he
    split at he
    · cases he
      exact ⟨rfl, .inl rfl⟩
    · cases he
  | receive | tryReceive => exact ho.elim

theorem obeyed_all {α : Type} {t : BoardProg α} (ht : t.All (BoardOp.Keeps fun sec => sec.holds = true)) :
    (setSpec allow).Triple Obeyed t fun _ => Obeyed := by
  refine .of_all Obeyed.stable (fun o ho w hw => ⟨trivial, fun r w' he => ⟨trivial, ?_⟩⟩) ht
  obtain ⟨hlast, hshared⟩ := keepsOp ho he
  intro x hx
  have hset := hw x (hlast ▸ hx)
  rcases hshared with hshared | ⟨sec, hsec, hshared⟩
  · exact hshared ▸ hset
  · rw [hshared]
    exact hset.run hsec w.now

/-- Programs that take no command, with a start among their sections. -/
theorem started_all {α : Type} {t : BoardProg α} (ht : t.All (BoardOp.Keeps fun _ => True)) :
    (setSpec allow).Triple (fun w => lastSet w.hist = none) t fun _ => Obeyed := by
  have hnone : (setSpec allow).Triple (fun w => lastSet w.hist = none) t
      fun _ w => lastSet w.hist = none :=
    .of_all (lastSet_stable none)
      (fun o ho w hw => ⟨trivial, fun r w' he => ⟨trivial, (keepsOp ho he).1.trans hw⟩⟩) ht
  refine hnone.mono (fun _ hw => hw) ?_
  intro _ w hw x hx
  rw [hw] at hx
  cases hx

theorem setTimer_obeyed (m s : ℕ) (p : Pending) :
    (setSpec allow).Triple (fun w => lastSet w.hist = some (min m 99, min s 59))
      (cmdSetTimer true m s p) fun _ => Obeyed := by
  have hlock : (setSpec allow).Triple (fun w => lastSet w.hist = some (min m 99, min s 59))
      (BoardProg.lock (.simSetTimer (min m 99) (min s 59))) fun _ => Obeyed := by
    refine Triple.call (lastSet_stable _) fun w hw => ⟨trivial, ?_⟩
    rintro r w' ⟨⟩
    refine ⟨trivial, fun x hx => ?_⟩
    have hlast : lastSet w.hist = some x := hx
    obtain rfl := Option.some.inj (hw.symm.trans hlast)
    exact SetAt.set w.now
  exact .bind hlock fun _ => .pure fun _ hw => hw

theorem handle_obeyed (p : Pending) (cmd : Command) :
    (setSpec allow).Triple (TakenBefore cmd) (handle true p cmd) fun _ => Obeyed := by
  cases cmd with
  | setTimer m s => exact setTimer_obeyed m s p
  | start | startStop => exact started_all (handle_all keeps_idles p (fun _ _ => trivial) fun _ _ _ => trivial)
  | stop | reset | homeInc | homeDec | awayInc | awayDec | scoresZero | ledOn | ledOff | aux =>
    refine obeyed_all (handle_all keeps_idles p ?_ fun _ _ _ => trivial)
    simp [Command.sections, BoardOp.Keeps, Section.holds]

theorem taken_before {w : World} (hw : Obeyed w) (cmd : Command) (idle : Bool) (queue : List Command) :
    TakenBefore cmd { w.act (.received cmd idle) with queue := queue } := by
  cases cmd with
  | setTimer m s | start | startStop => exact rfl
  | stop | reset | homeInc | homeDec | awayInc | awayDec | scoresZero | ledOn | ledOff | aux => exact hw

theorem nextCommand_obeyed (p : Pending) :
    (setSpec allow).Triple Obeyed (nextCommand p) fun cmd w => cmd.elim (Obeyed w) (TakenBefore · w) := by
  have htry : (setSpec allow).Triple Obeyed BoardProg.tryReceive
      fun cmd w => Option.elim cmd (Obeyed w) (TakenBefore · w) := by
    refine Triple.call Obeyed.stable fun w hw => ⟨trivial, fun r w' he => ⟨trivial, ?_⟩⟩
    simp only [setSpec, Lib.Solo.spec, boardSystem, BoardOp.exec] at he
    split at he
    · cases he
      exact hw
    · cases he
      exact taken_before hw _ _ _
  have hreceive : (setSpec allow).Triple Obeyed BoardProg.receive fun cmd => TakenBefore cmd := by
    refine Triple.call Obeyed.stable fun w hw => ⟨trivial, fun r w' he => ⟨trivial, ?_⟩⟩
    simp only [setSpec, Lib.Solo.spec, boardSystem, BoardOp.exec] at he
    split at he
    · cases he
    · cases he
      exact taken_before hw _ _ _
  unfold nextCommand
  split
  · exact htry
  · exact .bind hreceive fun _ => .pure fun _ hw => hw

theorem boardTask_obeyed (p : Pending) :
    (setSpec allow).Triple Obeyed (boardTask true p) fun _ => Obeyed := by
  refine .bind (nextCommand_obeyed p) ?_
  intro cmd
  cases cmd with
  | some cmd => exact handle_obeyed p cmd
  | none =>
    exact obeyed_all (drain_all keeps_idles p (fun _ _ => trivial) (fun _ _ => trivial)
      (fun _ _ _ => trivial) nofun fun _ => trivial)

theorem setSpec_fits : Lib.Solo.Fits (boardSystem true allow) (setSpec allow) fun _ => Obeyed :=
  Lib.Solo.fits_spec (fun _ _ _ ⟨_, _, ha⟩ h => h.env ha) boardTask_obeyed

theorem obeyed_reach {w : World} {p : Pending}
    (h : (boardSystem true allow).Reach ⟨World.boot, .ret .zero⟩ ⟨w, .ret p⟩) : Obeyed w :=
  Lib.Solo.head_reach setSpec_fits h (by rintro x ⟨⟩)

end ScoreboardCtrl
