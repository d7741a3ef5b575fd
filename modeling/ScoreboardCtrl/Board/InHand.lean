import ScoreboardCtrl.Board.Law
import ScoreboardCtrl.Board.Scores

/-!
# The command in hand

Between taking a score command and the critical section that moves the score, `board_task` has the
command in hand: it is in the channel no more and the score is as before. `inHand` reads it from the
history. `handLaw` says that the task takes a command with none in hand, and moves a score only for the
one it has; both builds keep it (`hand_reach`).
-/

namespace ScoreboardCtrl

/-- The command, if it is a score command. -/
def Command.toHand (cmd : Command) : Option Command :=
  if cmd.scoreSection.isSome then some cmd else none

/-- The score command taken last, if its section has not come yet. -/
def inHand : List Entry → Option Command
  | [] => none
  | e :: past =>
    match e.event with
    | .received cmd _ => cmd.toHand
    | .lock sec => if sec.ofScores then none else inHand past
    | _ => inHand past

/-- A command is taken with none in hand, and a section of a score command is that of the one in
hand. -/
structure HandOk (e : Entry) (past : List Entry) : Prop where
  take : ∀ cmd idle, e.event = .received cmd idle → inHand past = none
  run : ∀ sec, e.event = .lock sec → sec.ofScores = true →
    ∃ cmd, inHand past = some cmd ∧ cmd.scoreSection = some sec

/-- The event takes no command and moves no score. -/
def Event.apart : Event → Bool
  | .received _ _ => false
  | .lock sec => !sec.ofScores
  | _ => true

variable {e : Entry} {past : List Entry}

theorem inHand_apart (h : e.event.apart = true) : inHand (e :: past) = inHand past := by
  obtain ⟨t, event⟩ := e
  cases event with
  | received cmd idle => cases h
  | lock sec =>
    have hsec : sec.ofScores = false := by simpa [Event.apart] using h
    exact if_neg (by simp [hsec])
  | _ => rfl

theorem handOk_apart (h : e.event.apart = true) : HandOk e past where
  take cmd idle he := by
    rw [he] at h
    cases h
  run sec he hsec := by
    rw [he] at h
    simp [Event.apart, hsec] at h

/-- **The law of the command in hand.** -/
def handLaw (sim : Bool) : Law sim where
  Ok := HandOk
  calm := Event.apart
  ok_calm := handOk_apart
  calm_visit {sec} h := by
    cases sec with
    | homeInc | homeDec | awayInc | awayDec | scoresZero => cases h
    | _ => rfl
  calm_sent _ := rfl
  calm_countdown := rfl

/-- The command in hand is `hand`. -/
def HandIs (hand : Option Command) (past : List Entry) : Prop := inHand past = hand

/-! ### The code keeps the law -/

variable {sim : Bool} {allow : Command → Prop} {g₀ : Shared}

theorem holds_calm (hand : Option Command) : (handLaw sim).CalmKept (HandIs hand) :=
  fun _ _ he hpast => (inHand_apart he).trans hpast

open Lib.Spec Law

/-- The operation takes no command and moves no score. -/
abbrev BoardOp.Apart (sim : Bool) : BoardOp → Prop := (handLaw sim).CalmOp

theorem apart_idles : BoardOp.Idles (BoardOp.Apart sim) := ⟨fun _ => rfl, fun _ => rfl⟩

theorem scoreLock_hand {cmd : Command} {sec : Section} (h : cmd.scoreSection = some sec)
    (hsec : sec.ofScores = true) :
    (handLaw sim).Leads allow g₀ (HandIs (some cmd)) (BoardProg.lock sec) fun _ => HandIs none := by
  refine lock_course (holds_calm _) ?_
  intro t past hpast
  refine ⟨⟨by rintro _ _ ⟨⟩, ?_⟩, if_pos hsec⟩
  rintro _ ⟨⟩ -
  exact ⟨cmd, hpast, h⟩

theorem cmdScore_hand {cmd : Command} {sec : BoardProg (Bool × Bool)} (adjust : ℕ → ℕ) (pin : Pin)
    (n : ℕ)
    (hsec : (handLaw sim).Leads allow g₀ (HandIs (some cmd)) sec fun _ => HandIs none) :
    (handLaw sim).Leads allow g₀ (HandIs (some cmd)) (cmdScore sec adjust pin n)
      fun _ => HandIs none :=
  .bind hsec fun r => calm_course (holds_calm none) (cmdScore_rest apart_idles adjust (fun _ => rfl) n r)

theorem cmdScoresZero_hand (p : Pending) :
    (handLaw sim).Leads allow g₀ (HandIs (some .scoresZero)) (cmdScoresZero p) fun _ => HandIs none := by
  refine .bind (scoreLock_hand rfl rfl) fun led => calm_course (holds_calm none) ?_
  exact .bind (pulse_all apart_idles fun _ => rfl) fun _ =>
    .bind (blinkOnboard_all apart_idles led) fun _ => trivial

/-- **The handlers** run the section of the command in hand, if it has one. -/
theorem handle_hand (p : Pending) (cmd : Command) :
    (handLaw sim).Leads allow g₀ (HandIs cmd.toHand) (handle sim p cmd) fun _ => HandIs none := by
  have hother (hcmd : cmd.scoreSection = none) :
      (handLaw sim).Leads allow g₀ (HandIs none) (handle sim p cmd) fun _ => HandIs none := by
    refine calm_course (holds_calm none) (handle_all apart_idles p ?_ fun _ _ _ => rfl)
    intro sec hsec
    show (!sec.ofScores) = true
    rw [Command.sections_other sim hcmd sec hsec]
    rfl
  cases cmd with
  | homeInc | homeDec | awayInc | awayDec =>
    exact .bind (cmdScore_hand _ _ _ (scoreLock_hand rfl rfl)) fun _ => .pure fun _ hw => hw
  | scoresZero => exact cmdScoresZero_hand p
  | startStop | start | stop | reset | ledOn | ledOff | setTimer _ _ | aux => exact hother rfl

theorem boardTask_hand (p : Pending) :
    (handLaw sim).Leads allow g₀ (HandIs none) (boardTask sim p) fun _ => HandIs none := by
  refine .bind (nextCommand_course (fun cmd => HandIs (cmd.bind Command.toHand))
    (holds_calm none) p (fun _ hpast => hpast) ?_) ?_
  · intro t past cmd idle hpast
    exact ⟨⟨fun _ _ _ => hpast, by rintro _ ⟨⟩⟩, rfl⟩
  · intro cmd
    cases cmd with
    | some cmd => exact handle_hand p cmd
    | none =>
      exact calm_course (holds_calm none) (drain_all apart_idles p (fun _ _ => rfl) (fun _ _ => rfl)
        (fun _ _ _ => rfl) (fun _ => rfl) fun _ => rfl)

/-- **No command is taken but with none in hand**, and no score moves but for the one in hand. -/
theorem hand_reach {w : World} {k : BoardProg Pending}
    (h : (boardSystem sim allow).Reach ⟨World.boot, .ret .zero⟩ ⟨w, k⟩) : (handLaw sim).Kept w.hist :=
  (Law.reach (fun _ => holds_calm none) boardTask_hand h
    (⟨trivial, (rfl : Replayed World.boot.shared World.boot), rfl⟩ :
      (handLaw sim).Course World.boot.shared (HandIs none) World.boot)).1

end ScoreboardCtrl
