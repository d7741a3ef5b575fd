import ScoreboardCtrl.Board.History
import ScoreboardCtrl.Board.Scores

/-!
# The scoreboard mirrors the scores

The score counters of the physical scoreboard follow the pulses of the history: `ScoreBoard.after`.
A score command changes the Pico's score in its critical section and then owes the board one pulse;
the counters of decrements still pending never leave zero, since only a positive one is ever
raised. `scores_mirrored` is the result for whole runs.
-/

namespace ScoreboardCtrl

/-! ### The counters of the board -/

/-- The scores the board shows, home and away. -/
abbrev ScoreBoard : Type := ℤ × ℤ

namespace ScoreBoard

/-- What a pulse does. -/
def pulse (pin : Pin) (b : ScoreBoard) : ScoreBoard :=
  match pin with
  | .homeInc => (b.1 + 1, b.2)
  | .homeDec => (b.1 - 1, b.2)
  | .awayInc => (b.1, b.2 + 1)
  | .awayDec => (b.1, b.2 - 1)
  | .clear => (0, 0)
  | _ => b

/-- The board after a history, newest first, both scores `0` at first. -/
def after : List Entry → ScoreBoard
  | [] => (0, 0)
  | e :: past =>
    match e.event with
    | .pin pin true => pulse pin (after past)
    | _ => after past

/-- The board can follow the pulse: it has no more than 99 and no less than 0. -/
def Takes (b : ScoreBoard) : Pin → Prop
  | .homeInc => b.1 < 99
  | .homeDec => 0 < b.1
  | .awayInc => b.2 < 99
  | .awayDec => 0 < b.2
  | _ => True

/-- Every pulse of the history was one the board could follow. -/
def Followed : List Entry → Prop
  | [] => True
  | e :: past => (∀ pin, e.event = .pin pin true → (after past).Takes pin) ∧ Followed past

end ScoreBoard

/-- The pulses that move a score. -/
def Pin.scores : Pin → Bool
  | .homeInc | .homeDec | .awayInc | .awayDec | .clear => true
  | _ => false

theorem ScoreBoard.pulse_other {pin : Pin} (h : pin.scores = false) (b : ScoreBoard) :
    b.pulse pin = b := by
  cases pin with
  | homeInc | homeDec | awayInc | awayDec | clear => cases h
  | _ => rfl

theorem ScoreBoard.takes_other {pin : Pin} (h : pin.scores = false) (b : ScoreBoard) :
    b.Takes pin := by
  cases pin with
  | homeInc | homeDec | awayInc | awayDec | clear => cases h
  | _ => trivial

theorem ScoreBoard.after_quiet {e : Entry} {past : List Entry}
    (h : ∀ pin, e.event ≠ .pin pin true) : after (e :: past) = after past := by
  rw [after]
  split
  · exact absurd ‹_› (h _)
  · rfl

theorem ScoreBoard.followed_quiet {e : Entry} {past : List Entry}
    (h : ∀ pin, e.event ≠ .pin pin true) : Followed (e :: past) ↔ Followed past :=
  and_iff_right fun pin he => absurd he (h pin)

/-! ### What the task owes the board -/

/-- The scores of the Pico as the board would show them. -/
def ScoreboardState.onBoard (s : ScoreboardState) : ScoreBoard := (s.home, s.away)

theorem ScoreboardState.onBoard_congr {s s' : ScoreboardState} (h : s'.scores = s.scores) :
    s'.onBoard = s.onBoard := by
  obtain ⟨hhome, haway⟩ := Prod.mk.inj h
  rw [onBoard, hhome, haway]
  rfl

/-- The scores of the Pico are those of the board, once the pulse that is owed is made. -/
structure Mirrored (owed : Option Pin) (w : World) : Prop where
  followed : ScoreBoard.Followed w.hist
  home : w.shared.board.home ≤ scoreMax
  away : w.shared.board.away ≤ scoreMax
  scores : w.shared.board.onBoard =
    owed.elim (ScoreBoard.after w.hist) fun pin => (ScoreBoard.after w.hist).pulse pin
  takes : ∀ pin, owed = some pin → (ScoreBoard.after w.hist).Takes pin

/-- Nothing that the scores or the pulses depend on has changed. -/
theorem Mirrored.same {owed : Option Pin} {w w' : World} (h : Mirrored owed w)
    (hscores : w'.shared.board.scores = w.shared.board.scores)
    (hhist : w'.hist = w.hist ∨ ∃ event, w'.hist = ⟨w.now, event⟩ :: w.hist ∧
      ∀ pin, event ≠ .pin pin true) : Mirrored owed w' := by
  obtain ⟨hhome, haway⟩ := Prod.mk.inj hscores
  have hafter : ScoreBoard.after w'.hist = ScoreBoard.after w.hist := by
    rcases hhist with hh | ⟨event, hh, hquiet⟩
    · rw [hh]
    · rw [hh]
      exact ScoreBoard.after_quiet hquiet
  refine ⟨?_, hhome ▸ h.home, haway ▸ h.away, ?_, ?_⟩
  · rcases hhist with hh | ⟨event, hh, hquiet⟩
    · rw [hh]
      exact h.followed
    · rw [hh]
      exact (ScoreBoard.followed_quiet hquiet).2 h.followed
  · rw [ScoreboardState.onBoard, hhome, haway, hafter]
    exact h.scores
  · rw [hafter]
    exact h.takes

theorem Section.visitor_ofScores {sim : Bool} {sec : Section} (h : sec.visitor sim = true) :
    sec.ofScores = false := by
  cases sec <;> first | rfl | cases h

/-- Nothing else than `board_task` moves a score or raises a pin. -/
theorem Action.apply_still {sim : Bool} {a : Action} {w w' : World}
    (h : a.apply sim w = some w') : w'.shared.board.scores = w.shared.board.scores ∧
      (w'.hist = w.hist ∨ ∃ event, w'.hist = ⟨w.now, event⟩ :: w.hist ∧
        ∀ pin, event ≠ .pin pin true) := by
  rcases Action.apply_cases h with
    ⟨hh, hs, -⟩ | ⟨sec, hsec, hh, hs, -⟩ | ⟨cmd, -, hh, hs, -⟩ | ⟨hh, hs, -⟩
  · exact ⟨by rw [hs], .inl hh⟩
  · refine ⟨?_, .inr ⟨_, hh, by simp⟩⟩
    rw [hs]
    exact Section.run_other (Section.visitor_ofScores hsec) w.now w.shared
  · exact ⟨by rw [hs], .inr ⟨_, hh, by simp⟩⟩
  · exact ⟨by rw [hs], .inr ⟨_, hh, by simp⟩⟩

theorem Mirrored.env {owed : Option Pin} {sim : Bool} {a : Action} {w w' : World}
    (h : Mirrored owed w) (ha : a.apply sim w = some w') : Mirrored owed w' :=
  h.same (Action.apply_still ha).1 (Action.apply_still ha).2

/-! ### The program -/

/-- At every moment every pulse so far was one the board could follow. -/
def mirrorSpec (sim : Bool) (allow : Command → Prop) : Lib.Spec World BoardOp BoardOp.Ret :=
  (boardSystem sim allow).spec (fun _ w' => ScoreBoard.Followed w'.hist) fun _ _ => True

variable {sim : Bool} {allow : Command → Prop}

theorem Mirrored.stable (owed : Option Pin) :
    (mirrorSpec sim allow).Stable (Mirrored owed) :=
  Lib.Solo.stable_spec fun _ _ ⟨_, _, ha⟩ h => h.env ha

open Lib.Spec

/-- The operation moves no score and raises no pin of the scores. -/
def BoardOp.Still : BoardOp → Prop
  | .lock sec => sec.ofScores = false
  | .setPin pin high => high = true → pin.scores = false
  | _ => True

theorem still_idles : BoardOp.Idles BoardOp.Still := ⟨fun _ => trivial, fun _ => trivial⟩

theorem Mirrored.rise {pin : Pin} {w : World} (h : Mirrored (some pin) w) :
    Mirrored none (w.act (.pin pin true)) where
  followed := ⟨by rintro _ ⟨⟩; exact h.takes pin rfl, h.followed⟩
  home := h.home
  away := h.away
  scores := h.scores
  takes := by rintro _ ⟨⟩

/-- A pulse that moves no score may be owed at any time. -/
theorem Mirrored.owe {pin : Pin} {w : World} (h : Mirrored none w) (hpin : pin.scores = false) :
    Mirrored (some pin) w := by
  refine ⟨h.followed, h.home, h.away, ?_, ?_⟩
  · exact h.scores.trans (ScoreBoard.pulse_other hpin _).symm
  · rintro _ ⟨⟩
    exact ScoreBoard.takes_other hpin _

theorem stillOp_mirrored (o : BoardOp) (ho : o.Still) :
    (mirrorSpec sim allow).OpTriple (Mirrored none) o fun _ => Mirrored none := by
  intro w hw
  refine ⟨trivial, fun r w' he => ?_⟩
  suffices hafter : Mirrored none w' from ⟨hafter.followed, hafter⟩
  cases o with
  | lock sec =>
    cases he
    exact hw.same (Section.run_other ho w.now w.shared) (.inr ⟨_, rfl, by simp⟩)
  | setPin pin high =>
    cases he
    cases high with
    | true => exact (hw.owe (ho rfl)).rise
    | false => exact hw.same rfl (.inr ⟨_, rfl, by simp⟩)
  | gpioSet on =>
    cases he
    exact hw.same rfl (.inr ⟨_, rfl, by simp⟩)
  | afterMillis ms =>
    simp only [mirrorSpec, Lib.Solo.spec, boardSystem, BoardOp.exec] at he
    split at he
    · cases he
      exact hw.same rfl (.inr ⟨_, rfl, by simp⟩)
    · cases he
  | receive =>
    simp only [mirrorSpec, Lib.Solo.spec, boardSystem, BoardOp.exec] at he
    split at he
    · cases he
    · cases he
      exact hw.same rfl (.inr ⟨_, rfl, by simp⟩)
  | tryReceive =>
    simp only [mirrorSpec, Lib.Solo.spec, boardSystem, BoardOp.exec] at he
    split at he
    · cases he
      exact hw.same rfl (.inl rfl)
    · cases he
      exact hw.same rfl (.inr ⟨_, rfl, by simp⟩)

theorem still_mirrored {α : Type} {t : BoardProg α} (ht : t.All BoardOp.Still) :
    (mirrorSpec sim allow).Triple (Mirrored none) t fun _ => Mirrored none :=
  .of_all (Mirrored.stable none) stillOp_mirrored ht

/-- **A pulse pays what is owed.** -/
theorem owedPulse_mirrored (pin : Pin) :
    (mirrorSpec sim allow).Triple (Mirrored (some pin)) (pulse pin) fun _ => Mirrored none := by
  have hrise : (mirrorSpec sim allow).Triple (Mirrored (some pin)) (BoardProg.setPin pin true)
      fun _ => Mirrored none := by
    refine Triple.call (Mirrored.stable _) fun w hw => ⟨trivial, ?_⟩
    rintro r w' ⟨⟩
    exact ⟨hw.rise.followed, hw.rise⟩
  exact .bind hrise fun _ => still_mirrored (.bind (.call trivial) fun _ => .call (by rintro ⟨⟩))

/-! ### The handlers -/

/-- The lock of a score command: where it moves the score, it owes the pulse that moves the board
alike. -/
theorem scoreLock_mirrored {sec : Section} {may : ScoreboardState → Bool}
    {move : ScoreboardState → ScoreboardState} {pin : Pin} {doHw : sec.Ret → Bool}
    (hret : ∀ now g, doHw (sec.run now g).1 = may g.board)
    (hrun : ∀ now g, (sec.run now g).2 = (Section.score may move g).2)
    (hmove : ∀ s, may s = true →
      s.onBoard.Takes pin ∧ (move s).onBoard = s.onBoard.pulse pin) :
    (mirrorSpec sim allow).Triple (Mirrored none) (BoardProg.lock sec)
      fun r => Mirrored (if doHw r then some pin else none) := by
  refine Triple.call (Mirrored.stable _) fun w hw => ⟨trivial, ?_⟩
  rintro r w' ⟨⟩
  have hquiet : ∀ pin, (⟨w.now, .lock sec⟩ : Entry).event ≠ .pin pin true := by simp
  have hafter : ScoreBoard.after (⟨w.now, .lock sec⟩ :: w.hist) = w.shared.board.onBoard :=
    (ScoreBoard.after_quiet hquiet).trans hw.scores.symm
  have hfollowed := (ScoreBoard.followed_quiet hquiet).2 hw.followed
  have hle := sec.run_scores_le w.now ⟨hw.home, hw.away⟩
  have hscores := Section.score_scores may move w.shared
  rw [← hrun w.now] at hscores
  refine ⟨hfollowed, ?_⟩
  rw [hret]
  cases hmay : may w.shared.board with
  | true =>
    rw [if_pos hmay] at hscores
    obtain ⟨htakes, hpulse⟩ := hmove _ hmay
    refine ⟨hfollowed, hle.1, hle.2, ?_, ?_⟩
    · show (sec.run w.now w.shared).2.board.onBoard = ScoreBoard.pulse pin _
      rw [ScoreboardState.onBoard_congr hscores, hpulse]
      exact congrArg _ hafter.symm
    · rintro _ ⟨⟩
      exact hafter ▸ htakes
  | false =>
    rw [if_neg (by simp [hmay])] at hscores
    refine ⟨hfollowed, hle.1, hle.2, ?_, by rintro _ ⟨⟩⟩
    exact (ScoreboardState.onBoard_congr hscores).trans hafter.symm

theorem homeInc_mirrored : (mirrorSpec sim allow).Triple (Mirrored none) (BoardProg.lock .homeInc)
    fun r : Bool × Bool => Mirrored (if r.1 then some .homeInc else none) := by
  refine scoreLock_mirrored (fun _ _ => rfl) (fun _ _ => rfl) ?_
  intro s hmay
  have hlt : s.home < 99 := of_decide_eq_true hmay
  refine ⟨?_, Prod.ext ?_ rfl⟩
  · exact Int.ofNat_lt.2 hlt
  · exact Int.natCast_succ s.home

theorem homeDec_mirrored : (mirrorSpec sim allow).Triple (Mirrored none) (BoardProg.lock .homeDec)
    fun r : Bool × Bool => Mirrored (if r.1 then some .homeDec else none) := by
  refine scoreLock_mirrored (fun _ _ => rfl) (fun _ _ => rfl) ?_
  intro s hmay
  have hpos : 0 < s.home := of_decide_eq_true hmay
  refine ⟨?_, Prod.ext ?_ rfl⟩
  · exact Int.natCast_pos.2 hpos
  · show ((s.home - 1 : ℕ) : ℤ) = s.home - 1
    omega

theorem awayInc_mirrored : (mirrorSpec sim allow).Triple (Mirrored none) (BoardProg.lock .awayInc)
    fun r : Bool × Bool => Mirrored (if r.1 then some .awayInc else none) := by
  refine scoreLock_mirrored (fun _ _ => rfl) (fun _ _ => rfl) ?_
  intro s hmay
  have hlt : s.away < 99 := of_decide_eq_true hmay
  refine ⟨?_, Prod.ext rfl ?_⟩
  · exact Int.ofNat_lt.2 hlt
  · exact Int.natCast_succ s.away

theorem awayDec_mirrored : (mirrorSpec sim allow).Triple (Mirrored none) (BoardProg.lock .awayDec)
    fun r : Bool × Bool => Mirrored (if r.1 then some .awayDec else none) := by
  refine scoreLock_mirrored (fun _ _ => rfl) (fun _ _ => rfl) ?_
  intro s hmay
  have hpos : 0 < s.away := of_decide_eq_true hmay
  refine ⟨?_, Prod.ext rfl ?_⟩
  · exact Int.natCast_pos.2 hpos
  · show ((s.away - 1 : ℕ) : ℤ) = s.away - 1
    omega

/-- The decrements still pending never leave zero. -/
def NoneDue (p : Pending) : Prop := p.homeDec = 0 ∧ p.awayDec = 0

section NoneDue

open Lib.Prog

theorem cmdScore_noneDue (sec : BoardProg (Bool × Bool)) (adjust : ℕ → ℕ) (pin : Pin) :
    (cmdScore sec adjust pin 0).Ends fun n => n = 0 := by
  refine .after sec ?_
  intro r
  obtain ⟨doHw, led⟩ := r
  cases doHw with
  | false => exact rfl
  | true =>
    have hadjust : (adjustOrPulse adjust pin 0).Ends fun n => n = 0 := .after (pulse pin) fun _ => rfl
    exact .bind hadjust fun n hn => .after (blinkOnboard led) fun _ => hn

theorem handle_noneDue {p : Pending} (hp : NoneDue p) (cmd : Command) :
    (handle sim p cmd).Ends NoneDue := by
  obtain ⟨homeDec, awayDec, min, sec⟩ := p
  obtain ⟨rfl, rfl⟩ := hp
  cases cmd with
  | homeInc | homeDec => exact .bind (cmdScore_noneDue _ _ _) fun n hn => ⟨hn, rfl⟩
  | awayInc | awayDec => exact .bind (cmdScore_noneDue _ _ _) fun n hn => ⟨rfl, hn⟩
  | scoresZero => exact .after _ fun _ => .after _ fun _ => .after _ fun _ => ⟨rfl, rfl⟩
  | reset =>
    exact .after _ fun _ => .after _ fun _ => .after _ fun _ => .after _ fun _ => ⟨rfl, rfl⟩
  | setTimer min sec =>
    cases sim with
    | true => exact .after _ fun _ => ⟨rfl, rfl⟩
    | false => exact .after _ fun _ => .after _ fun _ => .after _ fun _ => ⟨rfl, rfl⟩
  | _ => exact .after _ fun _ => ⟨rfl, rfl⟩

theorem drain_noneDue {p : Pending} (hp : NoneDue p) : (drain sim p).Ends NoneDue := by
  have htrain : (trainPulse p).Ends NoneDue := by
    unfold trainPulse
    split_ifs
    · exact .after _ fun _ => hp
    · exact .after _ fun _ => hp
    · exact .after _ fun _ => hp
    · exact .after _ fun _ => hp
    · exact hp
  obtain ⟨hhome, haway⟩ := hp
  unfold drain
  rw [if_neg (by omega), if_neg (by omega)]
  split_ifs
  · exact htrain
  · refine .after _ ?_
    intro restop
    cases restop with
    | true => exact .after _ fun _ => ⟨hhome, haway⟩
    | false => exact htrain
  · exact ⟨hhome, haway⟩

theorem boardTask_noneDue {p : Pending} (hp : NoneDue p) : (boardTask sim p).Ends NoneDue := by
  refine .after _ ?_
  intro cmd
  cases cmd with
  | some cmd => exact handle_noneDue hp cmd
  | none => exact drain_noneDue hp

end NoneDue

theorem cmdScore_mirrored {sec : BoardProg (Bool × Bool)} {adjust : ℕ → ℕ} {pin : Pin} {n : ℕ}
    (hn : n = 0) (hsec : (mirrorSpec sim allow).Triple (Mirrored none) sec
      fun r => Mirrored (if r.1 then some pin else none)) :
    (mirrorSpec sim allow).Triple (Mirrored none) (cmdScore sec adjust pin n)
      fun _ => Mirrored none := by
  subst hn
  refine .bind hsec ?_
  intro r
  obtain ⟨doHw, led⟩ := r
  cases doHw with
  | true =>
    have hpay : (mirrorSpec sim allow).Triple (Mirrored (some pin)) (adjustOrPulse adjust pin 0)
        fun _ => Mirrored none := .bind (owedPulse_mirrored pin) fun _ => .pure fun _ hw => hw
    exact .bind hpay fun _ =>
      still_mirrored (.bind (blinkOnboard_all still_idles led) fun _ => trivial)
  | false => exact .pure fun _ hw => hw

theorem cmdScoresZero_mirrored (p : Pending) :
    (mirrorSpec sim allow).Triple (Mirrored none) (cmdScoresZero p) fun _ => Mirrored none := by
  have hlock : (mirrorSpec sim allow).Triple (Mirrored none) (BoardProg.lock .scoresZero)
      fun _ => Mirrored (some .clear) := by
    refine Triple.call (Mirrored.stable _) fun w hw => ⟨trivial, ?_⟩
    rintro r w' ⟨⟩
    have hquiet : ∀ pin, (⟨w.now, .lock .scoresZero⟩ : Entry).event ≠ .pin pin true := by simp
    have hfollowed := (ScoreBoard.followed_quiet hquiet).2 hw.followed
    have hscores := Section.run_scores (c := .scoresZero) rfl w.now w.shared
    have hle := Section.scoresZero.run_scores_le w.now ⟨hw.home, hw.away⟩
    refine ⟨hfollowed, hfollowed, hle.1, hle.2, ?_, by rintro _ ⟨⟩; trivial⟩
    exact ScoreboardState.onBoard_congr (s := ScoreboardState.default) hscores
  exact .bind hlock fun led => .bind (owedPulse_mirrored .clear) fun _ =>
    still_mirrored (.bind (blinkOnboard_all still_idles led) fun _ => trivial)

theorem handle_still (p : Pending) {cmd : Command} (h : cmd.scoreSection = none) :
    (handle sim p cmd).All BoardOp.Still := by
  refine handle_all still_idles p (Command.sections_other sim h) ?_
  cases cmd with
  | homeInc | homeDec | awayInc | awayDec | scoresZero => cases h
  | startStop | start | stop | reset | ledOn | ledOff | setTimer _ _ | aux =>
    simp [Command.pins, BoardOp.Still, Pin.scores]

theorem handle_mirrored {p : Pending} (hp : NoneDue p) (cmd : Command) :
    (mirrorSpec sim allow).Triple (Mirrored none) (handle sim p cmd) fun _ => Mirrored none := by
  cases cmd with
  | homeInc => exact .bind (cmdScore_mirrored hp.1 homeInc_mirrored) fun _ => .pure fun _ hw => hw
  | homeDec => exact .bind (cmdScore_mirrored hp.1 homeDec_mirrored) fun _ => .pure fun _ hw => hw
  | awayInc => exact .bind (cmdScore_mirrored hp.2 awayInc_mirrored) fun _ => .pure fun _ hw => hw
  | awayDec => exact .bind (cmdScore_mirrored hp.2 awayDec_mirrored) fun _ => .pure fun _ hw => hw
  | scoresZero => exact cmdScoresZero_mirrored p
  | _ => exact still_mirrored (handle_still p rfl)

/-! ### The loop -/

theorem drain_still {p : Pending} (hp : NoneDue p) : (drain sim p).All BoardOp.Still := by
  obtain ⟨hhome, haway⟩ := hp
  refine drain_all still_idles p (fun h => ?_) (fun h => ?_) ?_ (fun _ => rfl) fun _ _ => rfl
  · omega
  · omega
  · intro pin hpin high _
    cases pin <;> first | rfl | cases hpin

theorem boardTask_mirrored (p : Pending) :
    (mirrorSpec sim allow).Triple (fun w => NoneDue p ∧ Mirrored none w) (boardTask sim p)
      fun p' w => NoneDue p' ∧ Mirrored none w := by
  refine .of_fact fun hp => .ends ?_ (boardTask_noneDue hp)
  refine .bind (still_mirrored (nextCommand_all p trivial trivial)) ?_
  intro cmd
  cases cmd with
  | some cmd => exact handle_mirrored hp cmd
  | none => exact still_mirrored (drain_still hp)

/-! ### Runs -/

theorem World.boot_mirrored : Mirrored none World.boot :=
  ⟨trivial, Nat.zero_le _, Nat.zero_le _, rfl, by rintro _ ⟨⟩⟩

theorem mirrorSpec_fits : Lib.Solo.Fits (boardSystem sim allow) (mirrorSpec sim allow)
    fun p w => NoneDue p ∧ Mirrored none w :=
  Lib.Solo.fits_spec (fun _ _ _ ⟨_, _, ha⟩ h => ⟨h.1, h.2.env ha⟩) boardTask_mirrored

/-- **The scoreboard mirrors the scores.** In every run of either build, with any commands, every
pulse was one the board could follow, no increment at 99 and no decrement at 0; and whenever the
task is at the head of its loop the board shows the scores of the Pico, both at most 99. -/
theorem scores_mirrored {w : World} {k : BoardProg Pending}
    (h : (boardSystem sim allow).Reach ⟨World.boot, .ret .zero⟩ ⟨w, k⟩) :
    ScoreBoard.Followed w.hist ∧ ∀ p, k = .ret p →
      ScoreBoard.after w.hist = ((w.shared.board.home : ℤ), (w.shared.board.away : ℤ)) ∧
        w.shared.board.home ≤ 99 ∧ w.shared.board.away ≤ 99 := by
  have hboot : NoneDue .zero ∧ Mirrored none World.boot := ⟨⟨rfl, rfl⟩, World.boot_mirrored⟩
  have hrely : (mirrorSpec sim allow).Stable fun w => ScoreBoard.Followed w.hist := by
    refine Lib.Solo.stable_spec ?_
    rintro w₁ w₂ ⟨a, -, ha⟩ hw
    rcases (Action.apply_still ha).2 with hh | ⟨event, hh, hquiet⟩
    · exact hh ▸ hw
    · exact hh ▸ (ScoreBoard.followed_quiet hquiet).2 hw
  refine ⟨?_, ?_⟩
  · exact Lib.Solo.guar_reach mirrorSpec_fits hrely (fun _ _ hg _ => hg) h hboot trivial
  · rintro p rfl
    have hw := (Lib.Solo.head_reach mirrorSpec_fits h hboot).2
    exact ⟨hw.scores.symm, hw.home, hw.away⟩

/-- A tap on the home score. -/
def homeTap : List (Option Action) :=
  [some (.send .homeInc), none, none, none, none, some (.elapse 50000), none, none, none,
    some (.elapse 50000), none, none]

def homeTapConf : BoardConf := (play false homeTap ⟨World.boot, .ret .zero⟩).get rfl

theorem scores_mirrored_homeTap :
    ScoreBoard.Followed homeTapConf.state.hist ∧ ∀ p, homeTapConf.task = .ret p →
      ScoreBoard.after homeTapConf.state.hist = ((homeTapConf.state.shared.board.home : ℤ),
          (homeTapConf.state.shared.board.away : ℤ)) ∧
        homeTapConf.state.shared.board.home ≤ 99 ∧ homeTapConf.state.shared.board.away ≤ 99 := by
  have hrun : (boardSystem false fun _ => True).Reach ⟨World.boot, .ret .zero⟩ homeTapConf :=
    play_reach (by decide) (Option.some_get _).symm
  exact scores_mirrored hrun

end ScoreboardCtrl
