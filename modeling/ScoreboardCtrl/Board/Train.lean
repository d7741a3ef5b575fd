import ScoreboardCtrl.Board.Law
import ScoreboardCtrl.Board.RunControl

/-!
# The set-timer train

From a history one can tell what a set-timer train still has to pulse: `left` is set by the reading of
the clock that `SetTimer` makes, counted down by the pulses, and cleared by `Reset`. It is a law that
every pulse of a minute or second pin is the next one that is left (`trainLaw`). The hardware build
keeps it, and at the head of the loop what is left is what `board_task` has pending, whatever commands
come in between (`train_reach`).
-/

namespace ScoreboardCtrl

/-! ### What is left of a train -/

/-- The target of a `SetTimer` that was taken and has not read the clock yet. -/
def due : List Entry → Option (ℕ × ℕ)
  | [] => none
  | e :: past =>
    match e.event with
    | .received (.setTimer min sec) _ => some (Min.min min 99, Min.min sec 59)
    | .received _ _ => none
    | .lock .snapshot => none
    | _ => due past

/-- What `SetTimer` computes if it reads the clock after `past`: the minutes and seconds from the time
shown to its target. -/
def deltas (g₀ : Shared) (past : List Entry) : Option (ℤ × ℤ) :=
  (due past).map fun t => ((t.1 : ℤ) - (shown g₀ past).1, (t.2 : ℤ) - (shown g₀ past).2)

/-- What is left after a pulse. -/
def Pin.count (d : ℤ × ℤ) : Pin → ℤ × ℤ
  | .minInc => (d.1 - 1, d.2)
  | .minDec => (d.1 + 1, d.2)
  | .secInc => (d.1, d.2 - 1)
  | .secDec => (d.1, d.2 + 1)
  | _ => d

/-- The pulse is the next one where `d` is left: minutes first. -/
def Pin.Next (d : ℤ × ℤ) : Pin → Prop
  | .minInc => 0 < d.1
  | .minDec => d.1 < 0
  | .secInc => d.1 = 0 ∧ 0 < d.2
  | .secDec => d.1 = 0 ∧ d.2 < 0
  | _ => False

/-- The minutes and seconds that are left to pulse. -/
def left (g₀ : Shared) : List Entry → ℤ × ℤ
  | [] => (0, 0)
  | e :: past =>
    match e.event with
    | .lock .snapshot => (deltas g₀ past).getD (left g₀ past)
    | .received .reset _ => (0, 0)
    | .pin pin true => pin.count (left g₀ past)
    | _ => left g₀ past

/-- A pulse of the train is the next one; the clock is read for a `SetTimer` only, and before the next
command is taken. -/
structure StepOk (g₀ : Shared) (e : Entry) (past : List Entry) : Prop where
  rise : ∀ pin, e.event = .pin pin true → pin.ofTrain = true →
    due past = none ∧ pin.Next (left g₀ past)
  read : e.event = .lock .snapshot → due past ≠ none
  take : ∀ cmd idle, e.event = .received cmd idle → due past = none

/-- The entry takes no command, does not read the clock and raises no pin of the train. -/
def Event.calm : Event → Bool
  | .received _ _ | .lock .snapshot => false
  | .pin x true => !x.ofTrain
  | _ => true

variable {g₀ : Shared} {e : Entry} {past : List Entry}

theorem due_calm (h : e.event.calm = true) : due (e :: past) = due past := by
  rw [due]
  split <;> first | rfl | (rename_i he; rw [he] at h; cases h)

theorem Pin.count_other {pin : Pin} (h : pin.ofTrain = false) (d : ℤ × ℤ) : pin.count d = d := by
  cases pin with
  | minInc | minDec | secInc | secDec => cases h
  | _ => rfl

theorem left_calm (h : e.event.calm = true) : left g₀ (e :: past) = left g₀ past := by
  rw [left]
  split
  · rename_i he
    rw [he] at h
    cases h
  · rename_i he
    rw [he] at h
    cases h
  · rename_i pin he
    rw [he] at h
    exact pin.count_other (by simpa [Event.calm] using h) _
  · rfl

theorem stepOk_calm (h : e.event.calm = true) : StepOk g₀ e past where
  rise pin he htrain := by
    rw [he] at h
    simp [Event.calm, htrain] at h
  read he := by
    rw [he] at h
    cases h
  take cmd idle he := by
    rw [he] at h
    cases h

/-- **The law of the train.** -/
def trainLaw (g₀ : Shared) : Law false where
  Ok := StepOk g₀
  calm := Event.calm
  ok_calm := stepOk_calm
  calm_visit {sec} h := by
    cases sec with
    | snapshot => cases h
    | _ => rfl
  calm_sent _ := rfl
  calm_countdown := rfl

/-! ### The code keeps it -/

/-- No `SetTimer` is at work, and `d` is left. -/
def Leaves (g₀ : Shared) (d : ℤ × ℤ) (hist : List Entry) : Prop := due hist = none ∧ left g₀ hist = d

/-- A `SetTimer` for `t` is about to read the clock. -/
def Awaits (t : ℕ × ℕ) (hist : List Entry) : Prop := due hist = some t

theorem leaves_calm (d : ℤ × ℤ) : (trainLaw g₀).CalmKept (Leaves g₀ d) :=
  fun _ _ he h => ⟨(due_calm he).trans h.1, (left_calm he).trans h.2⟩

theorem awaits_calm (t : ℕ × ℕ) : (trainLaw g₀).CalmKept (Awaits t) :=
  fun _ _ he h => (due_calm he).trans h

variable {allow : Command → Prop}

open Lib.Spec Law

theorem calm_idles : BoardOp.Idles (trainLaw g₀).CalmOp := ⟨fun _ => rfl, fun _ => rfl⟩

theorem setPin_calm {pin : Pin} (h : pin.ofTrain = false) (high : Bool) :
    (trainLaw g₀).CalmOp (.setPin pin high) := by
  cases high <;> simp [CalmOp, trainLaw, Event.calm, h]

/-- **A pulse of the train** counts down what is left. -/
theorem trainPin_course (pin : Pin) {d : ℤ × ℤ} (hnext : pin.Next d) :
    (trainLaw g₀).Leads allow g₀ (Leaves g₀ d) (pulse pin) fun _ => Leaves g₀ (pin.count d) := by
  have hrise : (trainLaw g₀).Leads allow g₀ (Leaves g₀ d) (BoardProg.setPin pin true)
      fun _ => Leaves g₀ (pin.count d) := by
    refine setPin_course (leaves_calm d) ?_
    intro t past hpast
    obtain ⟨hdue, hleft⟩ := hpast
    refine ⟨⟨?_, by rintro ⟨⟩, by rintro _ _ ⟨⟩⟩, hdue, ?_⟩
    · rintro _ ⟨⟩ _
      exact ⟨hdue, hleft ▸ hnext⟩
    · show pin.count (left g₀ past) = _
      rw [hleft]
  exact .bind hrise fun _ =>
    calm_course (leaves_calm _) (.bind (.call rfl) fun _ => .call rfl)

/-- What is pending for the train. -/
def Pending.remaining (p : Pending) : ℤ × ℤ := (p.min, p.sec)

theorem trainPulse_course (p : Pending) : (trainLaw g₀).Leads allow g₀ (Leaves g₀ p.remaining)
    (trainPulse p) fun p' => Leaves g₀ p'.remaining := by
  unfold trainPulse
  split_ifs with hmin hmin' hsec hsec'
  · exact .bind (trainPin_course .minInc hmin) fun _ => .pure fun _ hw => hw
  · exact .bind (trainPin_course .minDec hmin') fun _ => .pure fun _ hw => hw
  · have hzero : p.min = 0 := by omega
    exact .bind (trainPin_course .secInc ⟨hzero, hsec⟩) fun _ => .pure fun _ hw => hw
  · have hzero : p.min = 0 := by omega
    exact .bind (trainPin_course .secDec ⟨hzero, hsec'⟩) fun _ => .pure fun _ hw => hw
  · exact .pure fun _ hw => hw

/-! ### A turn of the loop -/

/-- What is left once a command is taken. -/
def Taken (g₀ : Shared) (d : ℤ × ℤ) : Option Command → List Entry → Prop
  | some (.setTimer min sec) => Awaits (Min.min min 99, Min.min sec 59)
  | some .reset => Leaves g₀ (0, 0)
  | _ => Leaves g₀ d

theorem taken_received {d : ℤ × ℤ} (h : Leaves g₀ d past) (t : ℕ) (cmd : Command) (idle : Bool) :
    StepOk g₀ ⟨t, .received cmd idle⟩ past ∧
      Taken g₀ d (some cmd) (⟨t, .received cmd idle⟩ :: past) := by
  obtain ⟨hdue, hleft⟩ := h
  refine ⟨⟨by rintro _ ⟨⟩, by rintro ⟨⟩, fun _ _ _ => hdue⟩, ?_⟩
  cases cmd with
  | setTimer min sec => exact rfl
  | reset => exact ⟨rfl, rfl⟩
  | _ => exact ⟨rfl, hleft⟩

theorem handle_calm (p : Pending) {cmd : Command} (h : ∀ min sec, cmd ≠ .setTimer min sec) :
    (handle false p cmd).All (trainLaw g₀).CalmOp := by
  refine handle_all calm_idles p ?_ ?_
  · cases cmd with
    | setTimer min sec => exact absurd rfl (h min sec)
    | _ => simp [Command.sections, CalmOp, trainLaw, Event.calm]
  · cases cmd with
    | setTimer min sec => exact absurd rfl (h min sec)
    | _ => simp [Command.pins, CalmOp, trainLaw, Event.calm, Pin.ofTrain]

theorem handle_train (p : Pending) {cmd : Command} (h : ∀ min sec, cmd ≠ .setTimer min sec) :
    (handle false p cmd).Ends fun p' =>
      p'.remaining = if cmd = .reset then (0, 0) else p.remaining := by
  cases cmd with
  | setTimer min sec => exact absurd rfl (h min sec)
  | reset => exact .after _ fun _ => .after _ fun _ => .after _ fun _ => .after _ fun _ => rfl
  | scoresZero => exact .after _ fun _ => .after _ fun _ => .after _ fun _ => rfl
  | _ => exact .after _ fun _ => rfl

theorem cmdSetTimer_course (min sec : ℕ) (p : Pending) :
    (trainLaw g₀).Leads allow g₀ (Awaits (Min.min min 99, Min.min sec 59))
      (cmdSetTimer false min sec p) fun p' => Leaves g₀ p'.remaining := by
  have hkept : (trainLaw g₀).CalmKept (Awaits (Min.min min 99, Min.min sec 59)) := awaits_calm _
  have hread : (trainLaw g₀).Leads allow g₀ (Awaits (Min.min min 99, Min.min sec 59))
      (BoardProg.lock .snapshot) fun shown => Leaves g₀ (p.aim min sec shown).remaining := by
    refine lock_course hkept fun t past (hdue : due past = _) => ?_
    have hread : due past ≠ none := by simp [hdue]
    refine ⟨⟨by rintro _ ⟨⟩, fun _ => hread, by rintro _ _ ⟨⟩⟩, rfl, ?_⟩
    show (deltas g₀ past).getD _ = _
    rw [deltas, hdue]
    rfl
  exact .bind (calm_course hkept (.call rfl)) fun pulseStop =>
    .bind (calm_course hkept (pulseIf_all calm_idles pulseStop (setPin_calm rfl))) fun _ =>
      .bind hread fun _ => .pure fun _ hw => hw

/-- **The handlers.** -/
theorem handle_course (p : Pending) (cmd : Command) :
    (trainLaw g₀).Leads allow g₀ (Taken g₀ p.remaining (some cmd)) (handle false p cmd)
      fun p' => Leaves g₀ p'.remaining := by
  by_cases h : ∃ min sec, cmd = .setTimer min sec
  · obtain ⟨min, sec, rfl⟩ := h
    exact cmdSetTimer_course min sec p
  · have hother : ∀ min sec, cmd ≠ .setTimer min sec := fun min sec he => h ⟨min, sec, he⟩
    have htaken : Taken g₀ p.remaining (some cmd) =
        Leaves g₀ (if cmd = .reset then (0, 0) else p.remaining) := by
      cases cmd with
      | setTimer min sec => exact absurd rfl (hother min sec)
      | _ => rfl
    rw [htaken]
    exact ((calm_course (leaves_calm _) (handle_calm p hother)).ends (handle_train p hother)).weaken
      (fun _ hpast => hpast) fun p' past ⟨htrain, hpast⟩ => htrain ▸ hpast

theorem drain_course (p : Pending) :
    (trainLaw g₀).Leads allow g₀ (Leaves g₀ p.remaining) (drain false p)
      fun p' => Leaves g₀ p'.remaining := by
  have hpulse {pin : Pin} (hpin : pin.ofTrain = false) :
      (trainLaw g₀).Leads allow g₀ (Leaves g₀ p.remaining) (pulse pin) fun _ => Leaves g₀ p.remaining :=
    calm_course (leaves_calm _) (pulse_all calm_idles (setPin_calm hpin))
  unfold drain
  split_ifs with _ _ _ hsim
  · exact .bind (hpulse rfl) fun _ => .pure fun _ hw => hw
  · exact .bind (hpulse rfl) fun _ => .pure fun _ hw => hw
  · cases hsim
  · refine .bind (calm_course (leaves_calm _) (.call rfl)) ?_
    intro restop
    cases restop with
    | true => exact .bind (hpulse rfl) fun _ => .pure fun _ hw => hw
    | false => exact trainPulse_course p
  · exact .pure fun _ hw => hw

theorem boardTask_course (p : Pending) :
    (trainLaw g₀).Leads allow g₀ (Leaves g₀ p.remaining) (boardTask false p)
      fun p' => Leaves g₀ p'.remaining := by
  refine .bind (nextCommand_course (Taken g₀ p.remaining) (leaves_calm _) p
    (fun _ hpast => hpast) fun t past cmd idle hpast => taken_received hpast t cmd idle) fun cmd => ?_
  cases cmd with
  | some cmd => exact handle_course p cmd
  | none => exact drain_course p

/-- **The hardware build keeps the law of the train**, and what is left is what it has pending. -/
theorem train_reach (g₀ : Shared) {w₀ w : World} {p₀ : Pending} {k : BoardProg Pending}
    (h : (boardSystem false allow).Reach ⟨w₀, .ret p₀⟩ ⟨w, k⟩)
    (h₀ : (trainLaw g₀).Course g₀ (Leaves g₀ p₀.remaining) w₀) :
    (trainLaw g₀).Kept w.hist ∧ ∀ p, k = .ret p → Leaves g₀ p.remaining w.hist :=
  Law.reach (H := fun p => Leaves g₀ p.remaining) (fun p => leaves_calm p.remaining)
    boardTask_course h h₀

end ScoreboardCtrl
