import ScoreboardCtrl.Board.LastTarget
import ScoreboardCtrl.Board.Outputs

/-!
# Two presses of one button

What the law of the outputs makes of two presses of one button in a row (`presses_apart`): the first
is over before the second, and a `Timer` separates them after a command's own press, unless the LED is
held on, and wherever another button is pressed in between. The pulses of a train come back to back
(`presses_back_to_back`).
-/

namespace ScoreboardCtrl

/-! ### From one press to the next -/

/-- No output changes. -/
def NoEdge (l : List Entry) : Prop := ∀ e ∈ l, ∀ pin high, e.event ≠ .pin pin high

def Event.isWait : Event → Bool
  | .waited _ => true
  | _ => false

/-- A `Timer` elapses. -/
def Waits (l : List Entry) : Prop := ∃ e ∈ l, e.event.isWait = true

instance (l : List Entry) : Decidable (Waits l) :=
  inferInstanceAs (Decidable (∃ e ∈ l, e.event.isWait = true))

/-- `pin` is pressed after `past`, and pressed next after `between`. -/
def NextPress (pin : Pin) (hist between past : List Entry) : Prop :=
  ∃ later t₁ t₂, hist = later ++ ⟨t₂, .pin pin true⟩ :: (between ++ ⟨t₁, .pin pin true⟩ :: past) ∧
    ∀ e ∈ between, e.event ≠ .pin pin true

/-- From one press of `pin` to the next it is high for `up`, alone and for a `Timer`, then low for
`down`. -/
structure HighLow (pin : Pin) (between up down : List Entry) : Prop where
  split : ∃ t, between = down ++ ⟨t, .pin pin false⟩ :: up
  alone : NoEdge up
  lasts : Waits up
  low : ∀ e ∈ down, ∀ high, e.event ≠ .pin pin high

variable {g₀ : Shared} {e : Entry} {l past : List Entry} {sim : Bool} {allow : Command → Prop}

theorem NoEdge.cons (h : NoEdge (e :: l)) : (∀ pin high, e.event ≠ .pin pin high) ∧ NoEdge l :=
  List.forall_mem_cons.1 h

theorem edge_append (h : NoEdge l) : edge (l ++ past) = edge past := by
  induction l with
  | nil => rfl
  | cons e l ih =>
    obtain ⟨he, hl⟩ := h.cons
    rw [List.cons_append, edge]
    split
    · exact absurd ‹_› (he _ _)
    · exact ih hl

theorem owes_append (h : NoEdge l) : owes g₀ (l ++ past) ↔ owes g₀ past := by
  induction l with
  | nil => rfl
  | cons e l ih =>
    obtain ⟨he, hl⟩ := h.cons
    rw [List.cons_append, owes]
    split
    · exact absurd ‹_› (he _ _)
    · exact ih hl

theorem rested_append (h : NoEdge l) {t : ℕ} {pin : Pin} {high : Bool}
    (hrested : rested (l ++ ⟨t, .pin pin high⟩ :: past) = true) : Waits l := by
  induction l with
  | nil => cases hrested
  | cons e l ih =>
    obtain ⟨he, hl⟩ := h.cons
    rw [List.cons_append, rested] at hrested
    split at hrested
    · cases hrested
    · rename_i he
      exact ⟨e, List.mem_cons_self, by rw [he]; rfl⟩
    · obtain ⟨e', he', hwait⟩ := ih hl hrested
      exact ⟨e', List.mem_cons_of_mem _ he', hwait⟩

/-- After a rising edge the output is still high, or it has fallen after a `Timer`. -/
theorem high_or_fallen {t : ℕ} {pin : Pin}
    (hkept : (pressLaw sim g₀).Kept (l ++ ⟨t, .pin pin true⟩ :: past)) :
    NoEdge l ∨ ∃ up t' down, l = down ++ ⟨t', .pin pin false⟩ :: up ∧ NoEdge up ∧ Waits up := by
  induction l with
  | nil => exact .inl (List.forall_mem_nil _)
  | cons e l ih =>
    obtain ⟨t', event⟩ := e
    obtain ⟨(hok : PressOk g₀ _ _), hrest⟩ := hkept
    rcases ih hrest with hl | ⟨up, t'', down, rfl, hup⟩
    · have hhigh : edge (l ++ ⟨t, .pin pin true⟩ :: past) = some (pin, true) := edge_append hl
      cases event with
      | pin x high =>
        cases high with
        | true => exact absurd hhigh ((hok.rise x rfl).1 pin)
        | false =>
          obtain ⟨hedge, hrested⟩ := hok.fall x rfl
          obtain ⟨rfl, -⟩ := Prod.mk.inj (Option.some.inj (hhigh.symm.trans hedge))
          exact .inr ⟨l, t', [], rfl, hl, rested_append hl hrested⟩
      | _ => exact .inl (List.forall_mem_cons.2 ⟨by simp, hl⟩)
    · exact .inr ⟨up, t'', ⟨t', event⟩ :: down, rfl, hup⟩

/-- A press that is over by the end took its `Timer`. -/
theorem waits_of_press {t : ℕ} {pin : Pin} (hkept : (pressLaw sim g₀).Kept (l ++ past))
    (hlow : Low (l ++ past)) (he : ⟨t, .pin pin true⟩ ∈ l) : Waits l := by
  obtain ⟨later, before, rfl⟩ := List.append_of_mem he
  rw [List.append_assoc, List.cons_append] at hkept hlow
  rcases high_or_fallen hkept with hno | ⟨up, t', down, rfl, -, e, heup, hwait⟩
  · exact absurd (edge_append hno) (hlow pin)
  · exact ⟨e, by simp [heup], hwait⟩

/-- An output that falls, and was low before, has risen in between. -/
theorem rise_of_edge {t : ℕ} {x pin : Pin}
    (h : edge (l ++ ⟨t, .pin x false⟩ :: past) = some (pin, true)) :
    ∃ t', (⟨t', .pin pin true⟩ : Entry) ∈ l := by
  induction l with
  | nil => cases h
  | cons e l ih =>
    obtain ⟨t', event⟩ := e
    cases event with
    | pin y high =>
      cases h
      exact ⟨t', List.mem_cons_self⟩
    | _ =>
      obtain ⟨t'', ht⟩ := ih h
      exact ⟨t'', List.mem_cons_of_mem _ ht⟩

theorem rise_of_fall {t : ℕ} {x pin : Pin}
    (hkept : (pressLaw sim g₀).Kept (l ++ ⟨t, .pin x false⟩ :: past)) {t' : ℕ}
    (he : ⟨t', .pin pin false⟩ ∈ l) : ∃ t'', (⟨t'', .pin pin true⟩ : Entry) ∈ l := by
  obtain ⟨later, before, rfl⟩ := List.append_of_mem he
  rw [List.append_assoc, List.cons_append] at hkept
  obtain ⟨(hok : PressOk g₀ _ _), -⟩ := hkept.append
  obtain ⟨t'', ht⟩ := rise_of_edge (hok.fall pin rfl).1
  exact ⟨t'', by simp [ht]⟩

/-- **Two presses of one button**, in either build and under any commands. From one press of a pin to
the next, the pin is high for a `Timer`, with no other, and then low; and a `Timer` elapses while it is
low if the first press was the one its command asks for and the LED was not held on, or if another
output goes high in between. -/
theorem presses_apart {w : World} {k : BoardProg Pending}
    (h : (boardSystem sim allow).Reach ⟨World.boot, .ret .zero⟩ ⟨w, k⟩) {pin : Pin}
    {between past : List Entry} (hnext : NextPress pin w.hist between past) :
    ∃ up down, HighLow pin between up down ∧
      (Blinks World.boot.shared pin past ∨ (∃ e ∈ down, ∃ x, e.event = .pin x true) →
        Waits down) := by
  obtain ⟨later, t₁, t₂, hhist, hno⟩ := hnext
  have hkept := press_reach h
  rw [hhist] at hkept
  obtain ⟨(hok : PressOk _ _ _), hrest⟩ := hkept.append
  obtain ⟨hlow, howes⟩ := hok.rise pin rfl
  rcases high_or_fallen hrest with hnone | ⟨up, t, down, rfl, halone, hlasts⟩
  · exact absurd (edge_append hnone) (hlow pin)
  rw [List.append_assoc, List.cons_append] at hrest hlow howes
  have hother : ∀ {t' : ℕ} {x : Pin}, (⟨t', .pin x true⟩ : Entry) ∈ down → Waits down :=
    fun he => waits_of_press hrest hlow he
  refine ⟨up, down, ⟨⟨t, rfl⟩, halone, hlasts, ?_⟩, ?_⟩
  · rintro ⟨t', event⟩ he high rfl
    cases high with
    | true => exact hno _ (List.mem_append_left _ he) rfl
    | false =>
      obtain ⟨t'', ht⟩ := rise_of_fall hrest he
      exact hno _ (List.mem_append_left _ ht) rfl
  · rintro (hblinks | ⟨⟨t', event⟩, he, x, rfl⟩)
    · by_cases hedge : NoEdge down
      · have howed : owes World.boot.shared
            (down ++ ⟨t, .pin pin false⟩ :: (up ++ ⟨t₁, .pin pin true⟩ :: past)) :=
          (owes_append hedge).2 ((owes_append halone).2 hblinks)
        exact rested_append hedge (howes howed)
      · simp only [NoEdge, not_forall, not_not] at hedge
        obtain ⟨⟨t', event⟩, he, x, high, rfl⟩ := hedge
        cases high with
        | true => exact hother he
        | false =>
          obtain ⟨t'', ht⟩ := rise_of_fall hrest he
          exact hother ht
    · exact hother he

/-- Two taps on the home score. -/
def homeTwice : List (Option Action) :=
  [some (.send .homeInc), some (.send .homeInc)] ++
    [none, none, none, none, some (.elapse 50000), none, none] ++
    [none, some (.elapse 50000), none, none] ++
    [none, none, none, none]

def homeTwiceConf : BoardConf := (play false homeTwice ⟨World.boot, .ret .zero⟩).get rfl

/-- With the LED off the blink keeps them apart. -/
theorem presses_apart_homeTwice : ∃ up down,
    HighLow .homeInc ((homeTwiceConf.state.hist.drop 1).take 7) up down ∧
      (Blinks World.boot.shared .homeInc (homeTwiceConf.state.hist.drop 9) ∨
        (∃ e ∈ down, ∃ x, e.event = .pin x true) → Waits down) := by
  have hrun : (boardSystem false fun _ => True).Reach ⟨World.boot, .ret .zero⟩ homeTwiceConf :=
    play_reach (by decide) (Option.some_get _).symm
  refine presses_apart hrun ⟨homeTwiceConf.state.hist.take 0, 0, 100000, rfl, ?_⟩
  decide +kernel

/-! ### Back to back -/

/-- Two presses of `pin` with no `Timer` between them. -/
def Merged (pin : Pin) (hist : List Entry) : Prop :=
  ∃ between past, NextPress pin hist between past ∧
    ∀ up down, HighLow pin between up down → ¬ Waits down

theorem HighLow.down_eq {pin : Pin} {between up down : List Entry} (h : HighLow pin between up down) :
    down = between.takeWhile fun e => decide (e.event ≠ .pin pin false) := by
  obtain ⟨t, rfl⟩ := h.split
  have hdown : ∀ e ∈ down, decide (e.event ≠ .pin pin false) = true :=
    fun e he => decide_eq_true (h.low e he false)
  rw [List.takeWhile_append_of_pos hdown]
  simp

/-- `SetTimer` to `09:30` at `07:30`. -/
def twoMinutes : List (Option Action) :=
  [some (.send (.setTimer 9 30)), none, none, none, none] ++ silentPulse ++ silentPulse

def twoMinutesEnd : World × Pending := (playHead false twoMinutes World.boot .zero).get rfl

/-- Two taps on the home score while the LED is held on. -/
def heldTaps : List (Option Action) :=
  [some (.send .ledOn), none, none, none, none, some (.send .homeInc), some (.send .homeInc)] ++
    [none, none, none, none, some (.elapse 50000), none, none] ++
    [none, none, none, none, some (.elapse 50000), none, none]

def heldTapsEnd : World × Pending := (playHead true heldTaps World.boot .zero).get rfl

/-- The minute pulses of a train, and two taps on a score while the LED is held on, come back to
back. -/
theorem presses_back_to_back :
    ((boardSystem false fun _ => True).Reach ⟨World.boot, .ret .zero⟩
        ⟨twoMinutesEnd.1, .ret twoMinutesEnd.2⟩ ∧ Merged .minInc twoMinutesEnd.1.hist) ∧
      (boardSystem true fun _ => True).Reach ⟨World.boot, .ret .zero⟩
        ⟨heldTapsEnd.1, .ret heldTapsEnd.2⟩ ∧ Merged .homeInc heldTapsEnd.1.hist := by
  have htrain : playHead false twoMinutes World.boot .zero = some twoMinutesEnd :=
    (Option.some_get _).symm
  have htaps : playHead true heldTaps World.boot .zero = some heldTapsEnd :=
    (Option.some_get _).symm
  refine ⟨⟨playHead_reach (by decide) htrain, ?_⟩, playHead_reach (by decide) htaps, ?_⟩
  · refine ⟨(twoMinutesEnd.1.hist.drop 3).take 3, twoMinutesEnd.1.hist.drop 7,
      ⟨twoMinutesEnd.1.hist.take 2, 0, 50000, rfl, by decide +kernel⟩, ?_⟩
    rintro up down hsplit
    rw [hsplit.down_eq]
    decide +kernel
  · refine ⟨(heldTapsEnd.1.hist.drop 3).take 4, heldTapsEnd.1.hist.drop 8,
      ⟨heldTapsEnd.1.hist.take 2, 0, 50000, rfl, by decide +kernel⟩, ?_⟩
    rintro up down hsplit
    rw [hsplit.down_eq]
    decide +kernel

end ScoreboardCtrl
