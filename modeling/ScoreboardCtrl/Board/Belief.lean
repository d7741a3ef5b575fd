import ScoreboardCtrl.Board.ColdTrain

/-!
# What the Pico reads off the scoreboard

The run flag of the physical scoreboard is not reported: the Pico reads it off the changes of
MM:SS. That reading lags behind the pulses, by up to 500 ms of report and the 2 s after which an
unchanged time counts as stopped; once no pulse was made for some time it is right.

* `Plant.reading_stopped` — 2.5 s after the newest pulse a stopped scoreboard reads as stopped;
* `Plant.at_beat` — a running one counts down exactly one second after the other, and each
  countdown was reported before the next but one;
* `Plant.reading_running` — so it reads as running 1.5 s after the newest pulse, unless MM:SS is
  `00:00`. Its train was over when it was started (`TrainStopped`).
-/

namespace ScoreboardCtrl

/-! ### Pulses -/

/-- A rising edge of an output. -/
def Event.rises : Event → Bool
  | .pin _ true => true
  | _ => false

/-- The newest pulse is more than `us` old. -/
def Rested (us now : ℕ) (hist : List Entry) : Prop :=
  ∀ e ∈ hist, e.event.rises = true → e.time + us < now

instance (us now : ℕ) (hist : List Entry) : Decidable (Rested us now hist) :=
  inferInstanceAs (Decidable (∀ e ∈ hist, e.event.rises = true → e.time + us < now))

/-- Neither the run flag nor the display moves at the entry. -/
def Entry.Still (e : Entry) : Prop := e.event.rises = false ∧ e.event ≠ .countdown

variable {x₀ : Plant} {u₀ : Uart} {t₀ now : ℕ} {hist : List Entry}

theorem rested_cons {us : ℕ} {e : Entry} {past : List Entry} : Rested us now (e :: past) ↔
    (e.event.rises = true → e.time + us < now) ∧ Rested us now past := List.forall_mem_cons

theorem Event.rises_start {e : Event} (h : e.rises = false) : e ≠ .pin .start true := by
  rintro rfl
  cases h

theorem Event.quiet_rises {e : Event} (h : e.quiet = true) : e.rises = false := by
  cases e with
  | pin pin high =>
    cases high with
    | true => cases h
    | false => rfl
  | _ => rfl

/-! ### The reports -/

def Uart.display (u : Uart) : ℤ × ℤ := (u.minutes, u.seconds)

theorem Uart.accept_step (u : Uart) (m s now : ℕ) : u.accept m s now = u ∨
    ((u.accept m s now).display ≠ u.display ∧ (u.accept m s now).lastChange = some now) := by
  by_cases h : u.minutes ≠ m ∨ u.seconds ≠ s
  · refine .inr ⟨?_, if_pos h⟩
    simp only [display, accept, ne_eq, Prod.mk.injEq]
    omega
  · refine .inl ?_
    obtain ⟨minutes, seconds, lastChange⟩ := u
    simp only [accept, if_neg h, mk.injEq, and_true]
    simp only at h
    omega

theorem Entry.report_time {e : Entry} {r : Report} (h : e.report = some r) : r.time = e.time := by
  unfold report at h
  split at h
  · cases h
    rfl
  · cases h

theorem uartAfter_step (u₀ : Uart) (e : Entry) (past : List Entry) :
    uartAfter u₀ (reports (e :: past)) = uartAfter u₀ (reports past) ∨
      ((uartAfter u₀ (reports (e :: past))).display ≠ (uartAfter u₀ (reports past)).display ∧
        (uartAfter u₀ (reports (e :: past))).lastChange = some e.time) := by
  rw [reports_cons]
  cases hr : e.report with
  | none => exact .inl rfl
  | some r =>
    rw [← Entry.report_time hr]
    exact (uartAfter u₀ (reports past)).accept_step r.minutes r.seconds r.time

theorem lastChange_le (h : Ordered t₀ now hist) (hu : ∀ c, u₀.lastChange = some c → c ≤ t₀)
    {c : ℕ} (hc : (uartAfter u₀ (reports hist)).lastChange = some c) : c ≤ now := by
  induction hist generalizing now with
  | nil => exact Nat.le_trans (hu c hc) h.start_le
  | cons e past ih =>
    rcases uartAfter_step u₀ e past with hsame | ⟨-, hnew⟩
    · rw [hsame] at hc
      exact ih (h.2.mono h.1) hc
    · cases hnew.symm.trans hc
      exact h.1

/-- A display that differs from an earlier one changed in between. -/
theorem change_since {later past : List Entry} {b : ℕ} (hlater : ∀ e ∈ later, b ≤ e.time)
    (hne : (uartAfter u₀ (reports (later ++ past))).display ≠
      (uartAfter u₀ (reports past)).display) :
    ∃ c, (uartAfter u₀ (reports (later ++ past))).lastChange = some c ∧ b ≤ c := by
  induction later with
  | nil => exact absurd rfl hne
  | cons e later ih =>
    obtain ⟨hb, hlater⟩ := List.forall_mem_cons.1 hlater
    rcases uartAfter_step u₀ e (later ++ past) with hsame | ⟨-, hnew⟩
    · rw [List.cons_append, hsame] at hne ⊢
      exact ih hlater hne
    · exact ⟨e.time, hnew, hb⟩

/-! ### The display -/

namespace Plant

theorem closedLoop_cons {e : Entry} {past : List Entry} :
    closedLoop x₀ u₀ (e :: past) = true ↔ closedLoop x₀ u₀ past = true ∧
      timely x₀ u₀ e.time past = true ∧ timely x₀ u₀ e.time (e :: past) = true ∧
      ticking x₀ e past = true := by
  simp only [closedLoop, Bool.and_eq_true, and_assoc]

theorem timely_iff : timely x₀ u₀ now hist = true ↔
    (uartAfter u₀ (reports hist)).display ∈ shownSince x₀ (now - 500000) hist :=
  List.contains_iff_mem

theorem on_still {e : Entry} (h : e.Still) (x : Plant) : on e x = x := by
  obtain ⟨hrise, hdown⟩ := h
  unfold on
  split
  all_goals first
    | rfl
    | exact absurd ‹_› hdown
    | (rw [‹e.event = _›] at hrise; cases hrise)

theorem on_beat (e : Entry) (x : Plant) : (on e x).beat = x.beat ∨ (on e x).beat = e.time := by
  unfold on
  split
  · exact .inr rfl
  · exact .inl rfl
  · exact .inl rfl
  · exact .inl rfl
  · exact .inl rfl
  · exact .inr rfl
  · exact .inl rfl

theorem after_beat_le (h : Ordered t₀ now hist) (hx : x₀.beat ≤ t₀) :
    (after x₀ hist).beat ≤ now := by
  induction hist generalizing now with
  | nil => exact Nat.le_trans hx h.start_le
  | cons e past ih =>
    rcases on_beat e (after x₀ past) with hb | hb
    · exact Nat.le_trans (Nat.le_of_eq hb) (ih (h.2.mono h.1))
    · exact Nat.le_trans (Nat.le_of_eq hb) h.1

theorem countdown_le_beat (x₀ : Plant) (h : Ordered t₀ now hist) {e : Entry} (he : e ∈ hist)
    (hdown : e.event = .countdown) : e.time ≤ (after x₀ hist).beat := by
  induction hist generalizing now with
  | nil => cases he
  | cons e' past ih =>
    rcases List.mem_cons.1 he with rfl | he
    · show e.time ≤ (on e (after x₀ past)).beat
      simp only [on, hdown, Nat.le_refl]
    · rcases on_beat e' (after x₀ past) with hb | hb
      · exact Nat.le_trans (ih h.2 he) (Nat.le_of_eq hb.symm)
      · exact Nat.le_trans (h.2.mem_le he) (Nat.le_of_eq hb.symm)

/-- A display that did not move since then is all that was shown. -/
theorem shownSince_still {since : ℕ} (h : ∀ e ∈ hist, since ≤ e.time → e.Still) {d : ℤ × ℤ}
    (hd : d ∈ shownSince x₀ since hist) : d = (after x₀ hist).display := by
  induction hist with
  | nil => exact List.mem_singleton.1 hd
  | cons e past ih =>
    rcases List.mem_cons.1 hd with rfl | hd
    · rfl
    · split at hd
      · have hon := on_still (h e (by simp) ‹_›) (after x₀ past)
        exact (ih (fun e' he' => h e' (by simp [he'])) hd).trans (congrArg display hon).symm
      · cases hd

/-! ### A stopped scoreboard -/

/-- The Pico and the scoreboard agree at `t₀`: the clock reads as the scoreboard runs. -/
structure Known (x₀ : Plant) (u₀ : Uart) (t₀ : ℕ) : Prop where
  change : ∀ c, u₀.lastChange = some c → c ≤ t₀
  beat : x₀.beat ≤ t₀
  reading : u₀.running t₀ = x₀.run

theorem after_run_other {e : Entry} (he : e.event.rises = false) (past : List Entry) :
    (after x₀ (e :: past)).run = (after x₀ past).run :=
  on_run (Event.rises_start he) _

theorem ticking_stopped {e : Entry} {past : List Entry} (h : ticking x₀ e past = true)
    (hstop : (after x₀ past).run = false) : e.event ≠ .countdown := by
  simpa [ticking, hstop] using h

theorem ticking_running {e : Entry} {past : List Entry} (h : ticking x₀ e past = true)
    (hrun : (after x₀ past).run = true) : e.time ≤ (after x₀ past).beat + 1000000 ∧
      (e.event = .countdown → (after x₀ past).beat + 1000000 ≤ e.time) := by
  simpa [ticking, hrun, Decidable.imp_iff_not_or] using h

/-- While it stands still nothing moves later than its pulses. -/
theorem stopped_still {T : ℕ} (hrested : Rested 2500000 T hist)
    (hloop : closedLoop x₀ u₀ hist = true) (h : Ordered t₀ now hist)
    (hstop : (after x₀ hist).run = false) {e : Entry} (he : e ∈ hist)
    (hlate : T ≤ e.time + 2500000) : e.Still := by
  induction hist generalizing now with
  | nil => cases he
  | cons e' past ih =>
    obtain ⟨hpast, -, -, htick⟩ := closedLoop_cons.1 hloop
    obtain ⟨hold, hrested⟩ := rested_cons.1 hrested
    cases he' : e'.event.rises with
    | true =>
      have hhead : Ordered t₀ e'.time (e' :: past) := ⟨Nat.le_refl _, h.2⟩
      have := hhead.mem_le he
      have := hold he'
      omega
    | false =>
      rw [after_run_other he'] at hstop
      rcases List.mem_cons.1 he with rfl | he
      · exact ⟨he', ticking_stopped htick hstop⟩
      · exact ih hrested hpast h.2 hstop he

/-- The Pico shows what a stopped scoreboard shows, 500 ms after the newest pulse. -/
theorem stopped_display {T : ℕ} (hrested : Rested 2500000 T hist)
    (hloop : closedLoop x₀ u₀ hist = true) (h : Ordered t₀ now hist)
    (hstop : (after x₀ hist).run = false) (hnow : T ≤ now + 2000000)
    (htimely : timely x₀ u₀ now hist = true) :
    (uartAfter u₀ (reports hist)).display = (after x₀ hist).display := by
  refine shownSince_still (fun e he hsince => ?_) (timely_iff.1 htimely)
  exact stopped_still hrested hloop h hstop he (by omega)

theorem aged_reading {u : Uart} {c T : ℕ} (hc : u.lastChange = some c) (hT : c + 2000000 ≤ T) :
    u.running T = false := by
  rw [Bool.eq_false_iff, ne_eq, Uart.running_iff]
  rintro ⟨-, c', hc', hlt⟩
  cases hc.symm.trans hc'
  omega

theorem unchanged_reading {u : Uart} (hu : u.lastChange = none) (T : ℕ) : u.running T = false := by
  rw [Bool.eq_false_iff, ne_eq, Uart.running_iff]
  rintro ⟨-, c, hc, -⟩
  cases hu.symm.trans hc

/-- **A stopped scoreboard reads as stopped**, 2.5 s after its newest pulse. -/
theorem reading_stopped {T : ℕ} (hx : Known x₀ u₀ t₀) (hrested : Rested 2500000 T hist)
    (hT : t₀ ≤ T) (hloop : closedLoop x₀ u₀ hist = true) (h : Ordered t₀ now hist)
    (hstop : (after x₀ hist).run = false) :
    (uartAfter u₀ (reports hist)).running T = false := by
  induction hist generalizing now with
  | nil =>
    rw [Bool.eq_false_iff]
    intro hrun
    have hstart : u₀.running t₀ = true := Uart.running_anti hT hrun
    cases hstop.symm.trans (hx.reading.symm.trans hstart)
  | cons e past ih =>
    obtain ⟨hpast, hbefore, hafter, htick⟩ := closedLoop_cons.1 hloop
    obtain ⟨hold, hrested'⟩ := rested_cons.1 hrested
    have hhead : Ordered t₀ e.time (e :: past) := ⟨Nat.le_refl _, h.2⟩
    cases he : e.event.rises with
    | true =>
      have := hold he
      cases hc : (uartAfter u₀ (reports (e :: past))).lastChange with
      | none => exact unchanged_reading hc T
      | some c =>
        have := lastChange_le hhead hx.change hc
        exact aged_reading hc (by omega)
    | false =>
      have hstop' := (after_run_other he past).symm.trans hstop
      have hstill : e.Still := ⟨he, ticking_stopped htick hstop'⟩
      rcases uartAfter_step u₀ e past with hsame | ⟨hne, hnew⟩
      · rw [hsame]
        exact ih hrested' hpast h.2 hstop'
      · refine aged_reading hnew ?_
        -- a newer change would be one of the scoreboard in the last 500 ms
        by_contra hlate
        have hdisp := stopped_display hrested' hpast h.2 hstop' (by omega) hbefore
        have hdisp' := stopped_display hrested hloop hhead hstop (by omega) hafter
        refine hne (hdisp'.trans (Eq.trans ?_ hdisp.symm))
        exact congrArg display (on_still hstill _)

/-! ### A running scoreboard -/

/-- The history ends with a countdown and then nothing that moves; the Pico had caught up with the
scoreboard when it came. -/
structure Tick (x₀ : Plant) (u₀ : Uart) (hist later past : List Entry) : Prop where
  eq : hist = later ++ ⟨(after x₀ hist).beat, .countdown⟩ :: past
  still : ∀ e ∈ later, e.Still
  run : (after x₀ past).run = true
  beat : (after x₀ past).beat + 1000000 = (after x₀ hist).beat
  calm : ∀ e ∈ past, (after x₀ hist).beat ≤ e.time + 500000 → e.Still
  loop : closedLoop x₀ u₀ past = true
  display : (uartAfter u₀ (reports past)).display = (after x₀ past).display

/-- **The newest countdown of a running scoreboard.** -/
theorem at_beat (hx : x₀.beat < (after x₀ hist).beat) (hbeat : x₀.beat ≤ t₀)
    (hloop : closedLoop x₀ u₀ hist = true) (h : Ordered t₀ now hist)
    (hrun : (after x₀ hist).run = true) (hrested : Rested 500000 (after x₀ hist).beat hist) :
    ∃ later past, Tick x₀ u₀ hist later past := by
  induction hist generalizing now with
  | nil => exact absurd hx (Nat.lt_irrefl _)
  | cons e past ih =>
    obtain ⟨hpast, hbefore, -, htick⟩ := closedLoop_cons.1 hloop
    obtain ⟨hold, hrested⟩ := rested_cons.1 hrested
    have hhead : Ordered t₀ e.time (e :: past) := ⟨Nat.le_refl _, h.2⟩
    cases he : e.event.rises with
    | true =>
      have := after_beat_le hhead hbeat
      have := hold he
      omega
    | false =>
      have hrun' := (after_run_other he past).symm.trans hrun
      by_cases hdown : e.event = .countdown
      · obtain ⟨t, event⟩ := e
        subst hdown
        obtain ⟨hle, hge⟩ := ticking_running htick hrun'
        have hge : (after x₀ past).beat + 1000000 ≤ t := hge rfl
        have hb : (after x₀ (⟨t, .countdown⟩ :: past)).beat = t := rfl
        rw [hb] at hrested
        have hcalm : ∀ e ∈ past, t ≤ e.time + 500000 → e.Still := by
          intro e' he' hlate
          refine ⟨Bool.eq_false_iff.2 fun hrise => ?_, fun hdown => ?_⟩
          · have := hrested e' he' hrise
            omega
          · have := countdown_le_beat x₀ h.2 he' hdown
            omega
        refine ⟨[], past, rfl, List.forall_mem_nil _, hrun', ?_, hcalm, hpast, ?_⟩
        · rw [hb]
          exact Nat.le_antisymm hge hle
        · refine shownSince_still (fun e' he' hsince => hcalm e' he' ?_) (timely_iff.1 hbefore)
          exact Nat.sub_le_iff_le_add.1 hsince
      · have hsame : after x₀ (e :: past) = after x₀ past := on_still ⟨he, hdown⟩ _
        rw [hsame] at hx hrested
        obtain ⟨later, past', ht⟩ := ih hx hpast h.2 hrun' hrested
        refine ⟨e :: later, past', ?_, ?_, ht.run, ?_, ?_, ht.loop, ht.display⟩
        · rw [hsame, List.cons_append, ← ht.eq]
        · exact List.forall_mem_cons.2 ⟨⟨he, hdown⟩, ht.still⟩
        · rw [hsame]
          exact ht.beat
        · rw [hsame]
          exact ht.calm

theorem after_later {later past : List Entry} (h : ∀ e ∈ later, e.Still) :
    after x₀ (later ++ past) = after x₀ past := by
  induction later with
  | nil => rfl
  | cons e later ih =>
    obtain ⟨he, hlater⟩ := List.forall_mem_cons.1 h
    exact (on_still he _).trans (ih hlater)

theorem shownSince_later {later past : List Entry} {since : ℕ} (h : ∀ e ∈ later, e.Still)
    {d : ℤ × ℤ} (hd : d ∈ shownSince x₀ since (later ++ past)) :
    d = (after x₀ past).display ∨ d ∈ shownSince x₀ since past := by
  induction later with
  | nil => exact .inr hd
  | cons e later ih =>
    rcases List.mem_cons.1 hd with rfl | hd
    · exact .inl (congrArg Plant.display (after_later h))
    · split at hd
      · exact ih (List.forall_mem_cons.1 h).2 hd
      · cases hd

section Tick

variable {later past : List Entry}

theorem Tick.split (h : Tick x₀ u₀ hist later past) :
    later ++ [⟨(after x₀ hist).beat, .countdown⟩] ++ past = hist := by
  rw [List.append_assoc]
  exact h.eq.symm

theorem Tick.after_eq (h : Tick x₀ u₀ hist later past) :
    (after x₀ hist).display = (after x₀ past).countdown.display := by
  rw [h.eq, after_later h.still]
  rfl

/-- What was shown in the last 500 ms is the time of this beat, or that of the one before. -/
theorem Tick.shown (h : Tick x₀ u₀ hist later past) {since : ℕ}
    (hsince : (after x₀ hist).beat ≤ since + 500000) {d : ℤ × ℤ}
    (hd : d ∈ shownSince x₀ since hist) : d = (after x₀ past).countdown.display ∨
      since ≤ (after x₀ hist).beat ∧ d = (after x₀ past).display := by
  rw [h.eq] at hd
  rcases shownSince_later h.still hd with hd | hd
  · exact .inl hd
  · rcases List.mem_cons.1 hd with hd | hd
    · exact .inl hd
    · split at hd
      · refine .inr ⟨‹_›, shownSince_still (fun e he hle => h.calm e he ?_) hd⟩
        omega
      · cases hd

/-- Only `00:00` counts down to itself. -/
theorem countdown_ne {x : Plant} {u : Uart} (hu : u.display = x.countdown.display)
    (h0 : (u.minutes, u.seconds) ≠ (0, 0)) : x.countdown.display ≠ x.display := by
  intro hx
  rw [hx] at hu
  unfold countdown at hx
  simp only [Uart.display, display, Prod.mk.injEq] at hu
  split_ifs at hx <;> simp only [display, Prod.mk.injEq] at hx
  · omega
  · omega
  · refine h0 (Prod.ext ?_ ?_)
    · show u.minutes = 0
      omega
    · show u.seconds = 0
      omega

/-- Once the time of the newest beat is reported, the change is not older than that beat. -/
theorem Tick.change (h : Tick x₀ u₀ hist later past) (hord : Ordered t₀ now hist)
    {newer : List Entry} (hnewer : ∀ e ∈ newer, (after x₀ hist).beat ≤ e.time)
    (hd : (uartAfter u₀ (reports (newer ++ hist))).display = (after x₀ past).countdown.display)
    (h0 : ((uartAfter u₀ (reports (newer ++ hist))).minutes,
      (uartAfter u₀ (reports (newer ++ hist))).seconds) ≠ (0, 0)) :
    ∃ c, (uartAfter u₀ (reports (newer ++ hist))).lastChange = some c ∧
      (after x₀ hist).beat ≤ c := by
  have hlater : ∀ e ∈ newer ++ later ++ [⟨(after x₀ hist).beat, .countdown⟩],
      (after x₀ hist).beat ≤ e.time := by
    rw [h.eq] at hord
    have := hord.append.1
    simp only [List.mem_append, List.mem_singleton]
    rintro e ((he | he) | rfl)
    · exact hnewer e he
    · exact this e he
    · exact Nat.le_refl _
  have hsplit : newer ++ later ++ [⟨(after x₀ hist).beat, .countdown⟩] ++ past = newer ++ hist := by
    rw [List.append_assoc newer, List.append_assoc newer, h.split]
  have hne := countdown_ne hd h0
  rw [← hsplit] at hd ⊢
  refine change_since hlater ?_
  rw [hd, h.display]
  exact hne

end Tick

/-- Pulses on the other pins than GP1 are made while the scoreboard stands still. -/
def TrainStopped (run₀ : Bool) : List Entry → Prop
  | [] => True
  | e :: past => TrainStopped run₀ past ∧
      (e.event.rises = true → e.event ≠ .pin .start true → physRun run₀ past = false)

theorem TrainStopped.of_append {run₀ : Bool} {later past : List Entry}
    (h : TrainStopped run₀ (later ++ past)) : TrainStopped run₀ past := by
  induction later with
  | nil => exact h
  | cons e later ih => exact ih h.1

/-- A scoreboard that was started counts its first second, or all pulses are a second older than its
beat. -/
theorem pulses_at_beat (htrain : TrainStopped x₀.run hist) (hloop : closedLoop x₀ u₀ hist = true)
    (h : Ordered t₀ now hist) (hrun : (after x₀ hist).run = true) :
    (∃ e ∈ hist, e.event.rises = true ∧ e.time = (after x₀ hist).beat) ∧
        (∀ e ∈ hist, e.event.rises = true → e.time ≤ (after x₀ hist).beat) ∨
      ∀ e ∈ hist, e.event.rises = true → e.time + 1000000 ≤ (after x₀ hist).beat := by
  induction hist generalizing now with
  | nil => exact .inr fun e he => by cases he
  | cons e past ih =>
    obtain ⟨hpast, -, -, htick⟩ := closedLoop_cons.1 hloop
    obtain ⟨t, event⟩ := e
    by_cases hstart : event = .pin .start true
    · subst hstart
      have hhead : Ordered t₀ t (⟨t, .pin .start true⟩ :: past) := ⟨Nat.le_refl _, h.2⟩
      exact .inl ⟨⟨_, List.mem_cons_self, rfl, rfl⟩, fun e he _ => hhead.mem_le he⟩
    · have hrun' : (after x₀ past).run = true := (on_run hstart _).symm.trans hrun
      have hrise : event.rises = false := by
        rw [Bool.eq_false_iff]
        intro hrise
        have := htrain.2 hrise hstart
        rw [← after_run, hrun'] at this
        cases this
      have hnow := ih htrain.1 hpast h.2 hrun'
      by_cases hdown : event = .countdown
      · -- every pulse was made before the second that is over now
        subst hdown
        have hge : (after x₀ past).beat + 1000000 ≤ t := (ticking_running htick hrun').2 rfl
        have hle : ∀ e ∈ past, e.event.rises = true → e.time ≤ (after x₀ past).beat := by
          rcases hnow with ⟨-, hle⟩ | hle
          · exact hle
          · exact fun e he hrise => Nat.le_trans (Nat.le_add_right _ _) (hle e he hrise)
        refine .inr (List.forall_mem_cons.2 ⟨?_, fun e he hrise => ?_⟩)
        · intro hrise
          cases hrise
        · exact Nat.le_trans (Nat.add_le_add_right (hle e he hrise) _) hge
      · have hsame : after x₀ (⟨t, event⟩ :: past) = after x₀ past := on_still ⟨hrise, hdown⟩ _
        have hnone : ∀ {P : Prop}, event.rises = true → P := by
          intro P hr
          rw [hrise] at hr
          cases hr
        rw [hsame]
        rcases hnow with ⟨⟨e, he, hedge⟩, hle⟩ | hle
        · exact .inl ⟨⟨e, List.mem_cons_of_mem _ he, hedge⟩, List.forall_mem_cons.2 ⟨hnone, hle⟩⟩
        · exact .inr (List.forall_mem_cons.2 ⟨hnone, hle⟩)

/-- **The last change that the Pico sees of a running scoreboard.** -/
theorem running_change (hbeat : x₀.beat ≤ t₀) (htrain : TrainStopped x₀.run hist)
    (hloop : closedLoop x₀ u₀ hist = true) (h : Ordered t₀ now hist)
    (hrun : (after x₀ hist).run = true) (hstart : t₀ + 1500000 < now)
    (hrested : Rested 1500000 now hist) (hnow : now ≤ (after x₀ hist).beat + 1000000)
    (htimely : timely x₀ u₀ now hist = true)
    (h0 : ((uartAfter u₀ (reports hist)).minutes, (uartAfter u₀ (reports hist)).seconds) ≠
      (0, 0)) :
    ∃ c, (uartAfter u₀ (reports hist)).lastChange = some c ∧ now < c + 2000000 := by
  have hle := after_beat_le h hbeat
  have hbefore : Rested 500000 (after x₀ hist).beat hist := by
    intro e he hrise
    have := hrested e he hrise
    omega
  obtain ⟨later, past, ht⟩ := at_beat (by omega) hbeat hloop h hrun hbefore
  rcases ht.shown (by omega) (timely_iff.1 htimely) with hd | ⟨hsince, hd⟩
  · obtain ⟨c, hc, hbc⟩ := ht.change h (List.forall_mem_nil _) hd h0
    exact ⟨c, hc, by omega⟩
  · -- the newest countdown is not reported yet: the one before it is
    have hsub : ∀ e ∈ past, e ∈ hist := by
      intro e he
      rw [ht.eq]
      simp [he]
    have hord := h
    rw [ht.eq] at hord
    obtain ⟨hlater, hpast, -⟩ := hord.append
    have hb := ht.beat
    have htrain : TrainStopped x₀.run past := by
      rw [← ht.split] at htrain
      exact htrain.of_append
    have hold : Rested 500000 (after x₀ past).beat past := by
      rcases pulses_at_beat htrain ht.loop hpast ht.run with ⟨⟨e, he, hrise, heq⟩, -⟩ | hold
      · have := hrested e (hsub e he) hrise
        omega
      · intro e he hrise
        have := hold e he hrise
        omega
    obtain ⟨later', past', ht'⟩ := at_beat (by omega) hbeat ht.loop hpast ht.run hold
    rw [ht'.after_eq] at hd
    have hnewer : ∀ e ∈ later ++ [⟨(after x₀ hist).beat, .countdown⟩],
        (after x₀ past).beat ≤ e.time := by
      intro e he
      rcases List.mem_append.1 he with he | he
      · have : (after x₀ hist).beat ≤ e.time := hlater e he
        omega
      · cases List.mem_singleton.1 he
        exact hb ▸ Nat.le_add_right _ _
    rw [← ht.split] at hd h0
    obtain ⟨c, hc, hbc⟩ := ht'.change hpast hnewer hd h0
    rw [ht.split] at hc
    exact ⟨c, hc, by omega⟩

/-- **A running scoreboard reads as running**, 1.5 s after its newest pulse, unless MM:SS is
`00:00`. -/
theorem reading_running (hbeat : x₀.beat ≤ t₀) {e : Entry} {past : List Entry}
    (htrain : TrainStopped x₀.run past) (hloop : closedLoop x₀ u₀ (e :: past) = true)
    (h : Ordered t₀ now (e :: past)) (hrun : (after x₀ past).run = true)
    (hstart : t₀ + 1500000 < e.time) (hrested : Rested 1500000 e.time past)
    (h0 : ((uartAfter u₀ (reports past)).minutes, (uartAfter u₀ (reports past)).seconds) ≠ (0, 0)) :
    (uartAfter u₀ (reports past)).running e.time = true := by
  obtain ⟨hpast, hbefore, -, htick⟩ := closedLoop_cons.1 hloop
  rw [Uart.running_iff]
  refine ⟨h0, ?_⟩
  exact running_change hbeat htrain hpast h.2 hrun hstart hrested (ticking_running htick hrun).1
    hbefore h0

end Plant

end ScoreboardCtrl
