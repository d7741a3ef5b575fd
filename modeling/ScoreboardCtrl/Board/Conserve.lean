import ScoreboardCtrl.Board.LastTarget
import ScoreboardCtrl.Board.Train
import ScoreboardCtrl.Board.WellFormed

/-!
# The pulses of a set-timer train add up

Where every pulse is the next one of what is left (`trainLaw`), the pulses since the reading of the clock
and what is left make up the deltas, each pair of pins goes one way only, and the minutes come first
(`spent_of_kept`). `set_timer_conserves` says this of every run of the hardware build, with what a
`Reset` leaves and where pulses come from.
-/

namespace ScoreboardCtrl

/-! ### Counting -/

/-- How often `pin` was raised. -/
def presses (pin : Pin) (hist : List Entry) : ℕ :=
  hist.countP fun e => decide (e.event = .pin pin true)

/-- Neither `SetTimer` nor `Reset`. -/
def Command.keepsTrain : Command → Bool
  | .setTimer _ _ | .reset => false
  | _ => true

/-- No `SetTimer` and no `Reset` was taken. -/
def Undisturbed (later : List Entry) : Prop :=
  ∀ e ∈ later, ∀ cmd idle, e.event = .received cmd idle → cmd.keepsTrain = true

/-- No `SetTimer` was taken. -/
def NoTarget (later : List Entry) : Prop :=
  ∀ e ∈ later, ∀ min sec idle, e.event ≠ .received (.setTimer min sec) idle

/-- The pulses of `later` on the pins `up` and `down` have brought `d` to `l`, from one side. -/
structure Counted (up down : Pin) (d l : ℤ) (later : List Entry) : Prop where
  toward : 0 ≤ l ∧ l ≤ d ∨ d ≤ l ∧ l ≤ 0
  balance : net up down later + l = d
  rising : presses up later ≠ 0 → 0 < d
  falling : presses down later ≠ 0 → d < 0

/-- The pulses of `later` have brought the deltas `d` to `l`. -/
structure Spent (d l : ℤ × ℤ) (later : List Entry) : Prop where
  minutes : Counted .minInc .minDec d.1 l.1 later
  seconds : Counted .secInc .secDec d.2 l.2 later

theorem presses_cons (pin : Pin) (e : Entry) (past : List Entry) :
    presses pin (e :: past) = presses pin past + if e.event = .pin pin true then 1 else 0 := by
  simp [presses, List.countP_cons]

theorem net_eq_presses {up down : Pin} (h : up ≠ down) (hist : List Entry) :
    net up down hist = (presses up hist : ℤ) - presses down hist := by
  induction hist with
  | nil => rfl
  | cons e past ih =>
    rw [net, ih, presses_cons, presses_cons]
    by_cases hup : e.event = .pin up true
    · have hdown : e.event ≠ .pin down true := by simp [hup, h]
      simp only [if_pos hup, if_neg hdown]
      omega
    · simp only [if_neg hup]
      split <;> omega

variable {e : Entry} {later past : List Entry} {d l : ℤ × ℤ}

theorem presses_other {pin : Pin} (h : e.event ≠ .pin pin true) :
    presses pin (e :: past) = presses pin past := by
  rw [presses_cons, if_neg h, Nat.add_zero]

theorem Event.calm_cases (event : Event) : event.calm = true ∨ event = .lock .snapshot ∨
    (∃ cmd idle, event = .received cmd idle) ∨ ∃ pin : Pin, pin.ofTrain = true ∧
      event = .pin pin true := by
  cases event with
  | lock sec =>
    cases sec with
    | snapshot => exact .inr (.inl rfl)
    | _ => exact .inl rfl
  | received cmd idle => exact .inr (.inr (.inl ⟨cmd, idle, rfl⟩))
  | pin x high =>
    cases high with
    | false => exact .inl rfl
    | true =>
      cases hx : x.ofTrain with
      | false => exact .inl (by simp [calm, hx])
      | true => exact .inr (.inr (.inr ⟨x, hx, rfl⟩))
  | _ => exact .inl rfl

theorem presses_calm {pin : Pin} (hpin : pin.ofTrain = true) (h : e.event.calm = true) :
    presses pin (e :: past) = presses pin past := by
  refine presses_other ?_
  intro he
  rw [he] at h
  simp [Event.calm, hpin] at h

theorem Counted.refl (up down : Pin) (d : ℤ) : Counted up down d d [] :=
  ⟨by omega, by simp [net], by simp [presses], by simp [presses]⟩

theorem Counted.same {up down : Pin} {d l : ℤ} (h : Counted up down d l later)
    (hup : presses up (e :: later) = presses up later)
    (hdown : presses down (e :: later) = presses down later)
    (hnet : net up down (e :: later) = net up down later) : Counted up down d l (e :: later) :=
  ⟨h.toward, by rw [hnet]; exact h.balance, by rw [hup]; exact h.rising,
    by rw [hdown]; exact h.falling⟩

theorem Spent.same (h : Spent d l later)
    (he : ∀ pin : Pin, pin.ofTrain = true → presses pin (e :: later) = presses pin later) :
    Spent d l (e :: later) := by
  have hmin : net .minInc .minDec (e :: later) = net .minInc .minDec later := by
    simp only [net_eq_presses (show Pin.minInc ≠ .minDec by decide), he .minInc rfl, he .minDec rfl]
  have hsec : net .secInc .secDec (e :: later) = net .secInc .secDec later := by
    simp only [net_eq_presses (show Pin.secInc ≠ .secDec by decide), he .secInc rfl, he .secDec rfl]
  exact ⟨h.minutes.same (he _ rfl) (he _ rfl) hmin, h.seconds.same (he _ rfl) (he _ rfl) hsec⟩

theorem Spent.pulse (h : Spent d l later) {pin : Pin} (hnext : pin.Next l) (t : ℕ) :
    Spent d (pin.count l) (⟨t, .pin pin true⟩ :: later) := by
  obtain ⟨⟨ht, hb, hr, hf⟩, ⟨ht', hb', hr', hf'⟩⟩ := h
  cases pin with
  | minInc | minDec | secInc | secDec =>
    simp only [Pin.Next] at hnext
    constructor <;> constructor <;> simp [presses_cons, net, Pin.count] <;> omega
  | _ => cases hnext

/-! ### What the rules say -/

variable {g₀ : Shared}

theorem Pin.not_next_zero (pin : Pin) : ¬ pin.Next (0, 0) := by
  cases pin <;> simp [Next]

theorem Undisturbed.cons (h : Undisturbed (e :: later)) :
    (∀ cmd idle, e.event = .received cmd idle → cmd.keepsTrain = true) ∧ Undisturbed later :=
  List.forall_mem_cons.1 h

theorem left_received {t : ℕ} {cmd : Command} {idle : Bool} (h : cmd ≠ .reset) :
    left g₀ (⟨t, .received cmd idle⟩ :: past) = left g₀ past := by
  cases cmd with
  | reset => exact absurd rfl h
  | _ => rfl

theorem due_received {t : ℕ} {cmd : Command} {idle : Bool}
    (h : ∀ min sec, cmd ≠ .setTimer min sec) : due (⟨t, .received cmd idle⟩ :: past) = none := by
  cases cmd with
  | setTimer min sec => exact absurd rfl (h min sec)
  | _ => rfl

theorem presses_received {t : ℕ} {cmd : Command} {idle : Bool} (pin : Pin) :
    presses pin (⟨t, .received cmd idle⟩ :: past) = presses pin past := presses_other (by simp)

/-- **As long as no `SetTimer` and no `Reset` is taken**, what is left goes down by the pulses made. -/
theorem spent_of_kept (hs : (trainLaw g₀).Kept (later ++ past)) (hl : Undisturbed later)
    (hdue : due past = none) :
    due (later ++ past) = none ∧ Spent (left g₀ past) (left g₀ (later ++ past)) later := by
  induction later with
  | nil => exact ⟨hdue, .refl _ _ _, .refl _ _ _⟩
  | cons e later ih =>
    obtain ⟨t, event⟩ := e
    obtain ⟨(hstep : StepOk g₀ _ _), hrest⟩ := hs
    obtain ⟨hkeeps, hl⟩ := hl.cons
    obtain ⟨hdue, hspent⟩ := ih hrest hl
    rcases event.calm_cases with hcalm | rfl | ⟨cmd, idle, rfl⟩ | ⟨pin, hpin, rfl⟩
    · refine ⟨(due_calm hcalm).trans hdue, ?_⟩
      rw [List.cons_append, left_calm hcalm]
      exact hspent.same fun pin hpin => presses_calm hpin hcalm
    · exact absurd hdue (hstep.read rfl)
    · have hkeep := hkeeps cmd idle rfl
      refine ⟨due_received ?_, ?_⟩
      · rintro min sec rfl
        cases hkeep
      · rw [List.cons_append, left_received (by rintro rfl; cases hkeep)]
        exact hspent.same fun pin _ => presses_received pin
    · exact ⟨hdue, hspent.pulse (hstep.rise pin rfl hpin).2 t⟩

/-- Where nothing is left, no pulse comes before the next `SetTimer`. -/
theorem cleared_of_kept (hs : (trainLaw g₀).Kept (later ++ past)) (hl : NoTarget later)
    (hpast : Leaves g₀ (0, 0) past) : Leaves g₀ (0, 0) (later ++ past) ∧
      ∀ pin : Pin, pin.ofTrain = true → presses pin later = 0 := by
  induction later with
  | nil => exact ⟨hpast, fun _ _ => rfl⟩
  | cons e later ih =>
    obtain ⟨t, event⟩ := e
    obtain ⟨(hstep : StepOk g₀ _ _), hrest⟩ := hs
    obtain ⟨hno, hl⟩ := List.forall_mem_cons.1 hl
    obtain ⟨⟨hdue, hleft⟩, hzero⟩ := ih hrest hl
    rcases event.calm_cases with hcalm | rfl | ⟨cmd, idle, rfl⟩ | ⟨pin, hpin, rfl⟩
    · refine ⟨leaves_calm _ _ _ hcalm ⟨hdue, hleft⟩, fun pin hpin => ?_⟩
      rw [presses_calm hpin hcalm, hzero pin hpin]
    · exact absurd hdue (hstep.read rfl)
    · refine ⟨⟨due_received fun min sec => ?_, ?_⟩, fun pin hpin => ?_⟩
      · rintro rfl
        exact hno min sec idle rfl
      · by_cases hreset : cmd = .reset
        · rw [hreset]
          rfl
        · rw [List.cons_append, left_received hreset, hleft]
      · rw [presses_received, hzero pin hpin]
    · have hnext : pin.Next (left g₀ (later ++ past)) := (hstep.rise pin rfl hpin).2
      exact absurd (hleft ▸ hnext) pin.not_next_zero

/-- What is left was computed by a reading of the clock, and no `Reset` came since. -/
theorem origin_of_kept {hist : List Entry} (hs : (trainLaw g₀).Kept hist) (hdue : due hist = none)
    (hleft : left g₀ hist ≠ (0, 0)) :
    ∃ later t past, hist = later ++ ⟨t, .lock .snapshot⟩ :: past ∧ Undisturbed later := by
  induction hist with
  | nil => exact absurd rfl hleft
  | cons e past ih =>
    obtain ⟨t, event⟩ := e
    obtain ⟨(hstep : StepOk g₀ _ _), hrest⟩ := hs
    have hmore (hkeeps : ∀ cmd idle, event = .received cmd idle → cmd.keepsTrain = true)
        (hdue : due past = none) (hleft : left g₀ past ≠ (0, 0)) :
        ∃ later t' past', (⟨t, event⟩ :: past : List Entry) =
          later ++ ⟨t', .lock .snapshot⟩ :: past' ∧ Undisturbed later := by
      obtain ⟨later, t', past', rfl, hl⟩ := ih hrest hdue hleft
      exact ⟨⟨t, event⟩ :: later, t', past', rfl, List.forall_mem_cons.2 ⟨hkeeps, hl⟩⟩
    rcases event.calm_cases with hcalm | rfl | ⟨cmd, idle, rfl⟩ | ⟨pin, hpin, rfl⟩
    · have hsame : left g₀ (⟨t, event⟩ :: past) = left g₀ past := left_calm hcalm
      refine hmore ?_ ((due_calm hcalm).symm.trans hdue) (hsame ▸ hleft)
      rintro cmd idle rfl
      cases hcalm
    · exact ⟨[], t, past, rfl, List.forall_mem_nil _⟩
    · have hkeep : cmd.keepsTrain = true := by
        cases cmd with
        | setTimer min sec => cases hdue
        | reset => exact absurd rfl hleft
        | _ => rfl
      refine hmore ?_ (hstep.take cmd idle rfl) ?_
      · rintro _ _ ⟨⟩
        exact hkeep
      · rwa [left_received (by rintro rfl; cases hkeep)] at hleft
    · obtain ⟨hdue, hnext⟩ := hstep.rise pin rfl hpin
      exact hmore (by rintro _ _ ⟨⟩) hdue fun hzero => pin.not_next_zero (hzero ▸ hnext)

/-! ### The deltas -/

theorem due_le {t : ℕ × ℕ} (h : due past = some t) : t.1 ≤ 99 ∧ t.2 ≤ 59 := by
  induction past with
  | nil => cases h
  | cons e past ih =>
    rw [due] at h
    split at h
    · cases h
      exact ⟨Nat.min_le_right _ _, Nat.min_le_right _ _⟩
    · cases h
    · cases h
    · exact ih h

theorem replay_wellFormed {hist : List Entry} (hg : WellFormed g₀)
    (h : ∀ e ∈ hist, ∀ sec, e.event = .lock sec → sec.inRange) : WellFormed (replay g₀ hist) := by
  induction hist with
  | nil => exact hg
  | cons e past ih =>
    obtain ⟨he, hpast⟩ := List.forall_mem_cons.1 h
    obtain ⟨t, event⟩ := e
    cases event with
    | lock sec => exact sec.run_wellFormed (he sec rfl) t (ih hpast)
    | _ => exact ih hpast

theorem deltas_le (hwf : WellFormed (replay g₀ past)) (hdue : due past ≠ none) :
    ∃ d, deltas g₀ past = some d ∧ d.1.natAbs ≤ 99 ∧ d.2.natAbs ≤ 59 := by
  obtain ⟨t, ht⟩ := Option.ne_none_iff_exists'.1 hdue
  obtain ⟨hmin, hsec⟩ := due_le ht
  have hm : (replay g₀ past).board.minutes ≤ 99 := hwf.minutes
  have hs : (replay g₀ past).board.seconds ≤ 59 := hwf.seconds
  refine ⟨_, by rw [deltas, ht, Option.map_some], ?_⟩
  simp only [shown]
  omega

/-! ### Runs -/

/-- A train with the deltas `d`: the pulses of `later` since they were computed, and where it leaves
the task. -/
structure Conserves (d : ℤ × ℤ) (later : List Entry) (k : BoardProg Pending) : Prop where
  /-- at the head of the loop -/
  balance : ∀ p, k = .ret p → netMin later + p.min = d.1 ∧ netSec later + p.sec = d.2
  /-- the pins of the deltas' signs -/
  minutes : (presses .minInc later ≠ 0 → 0 < d.1) ∧ (presses .minDec later ≠ 0 → d.1 < 0)
  seconds : (presses .secInc later ≠ 0 → 0 < d.2) ∧ (presses .secDec later ≠ 0 → d.2 < 0)
  /-- no second pulse before the last minute pulse -/
  order : ∀ l₂ t pin l₁, later = l₂ ++ ⟨t, .pin pin true⟩ :: l₁ →
    pin = .secInc ∨ pin = .secDec → netMin l₁ = d.1
  drained : ∀ p, k = .ret p → p.min = 0 → p.sec = 0 →
    presses .minInc later + presses .minDec later = d.1.natAbs ∧
      presses .secInc later + presses .secDec later = d.2.natAbs

/-- What holds of the trains of a run that made `hist` and has `k` left of its turn. -/
structure TrainLaw (g₀ : Shared) (hist : List Entry) (k : BoardProg Pending) : Prop where
  /-- after `SetTimer` has read the clock, until the next `SetTimer` or `Reset` is taken -/
  conserved : ∀ later t past, hist = later ++ ⟨t, .lock .snapshot⟩ :: past → Undisturbed later →
    ∃ d, deltas g₀ past = some d ∧ d.1.natAbs ≤ 99 ∧ d.2.natAbs ≤ 59 ∧ Conserves d later k
  /-- after a `Reset`, until the next `SetTimer` is taken -/
  cleared : ∀ later t idle past, hist = later ++ ⟨t, .received .reset idle⟩ :: past →
    NoTarget later → ∀ pin : Pin, pin.ofTrain = true → presses pin later = 0
  /-- every pulse is the next one of a train -/
  inside : ∀ later t pin past, hist = later ++ ⟨t, .pin pin true⟩ :: past → pin.ofTrain = true →
    ∃ l₂ t' l₁ d, past = l₂ ++ ⟨t', .lock .snapshot⟩ :: l₁ ∧ Undisturbed l₂ ∧
      deltas g₀ l₁ = some d ∧ pin.Next (d.1 - netMin l₂, d.2 - netSec l₂)

theorem Spent.left_eq (h : Spent d l later) : l = (d.1 - netMin later, d.2 - netSec later) := by
  have hmin : netMin later + l.1 = d.1 := h.minutes.balance
  have hsec : netSec later + l.2 = d.2 := h.seconds.balance
  exact Prod.ext (by omega) (by omega)

theorem train_of_kept {t : ℕ} (hs : (trainLaw g₀).Kept (later ++ ⟨t, .lock .snapshot⟩ :: past))
    (hl : Undisturbed later) (hd : deltas g₀ past = some d) :
    Spent d (left g₀ (later ++ ⟨t, .lock .snapshot⟩ :: past)) later := by
  have hstart : left g₀ (⟨t, .lock .snapshot⟩ :: past) = d := by
    show (deltas g₀ past).getD _ = d
    rw [hd]
    rfl
  have hspent := (spent_of_kept hs hl rfl).2
  rwa [hstart] at hspent

theorem conserves_of_kept {t : ℕ} {k : BoardProg Pending}
    (hs : (trainLaw g₀).Kept (later ++ ⟨t, .lock .snapshot⟩ :: past)) (hl : Undisturbed later)
    (hd : deltas g₀ past = some d)
    (hk : ∀ p, k = .ret p → left g₀ (later ++ ⟨t, .lock .snapshot⟩ :: past) = p.remaining) :
    Conserves d later k := by
  have hspent := train_of_kept hs hl hd
  refine ⟨fun p hp => ?_, ⟨hspent.minutes.rising, hspent.minutes.falling⟩,
    ⟨hspent.seconds.rising, hspent.seconds.falling⟩, ?_, fun p hp hmin hsec => ?_⟩
  · rw [hk p hp] at hspent
    exact ⟨hspent.minutes.balance, hspent.seconds.balance⟩
  · rintro l₂ t' pin l₁ rfl hpin
    rw [List.append_assoc, List.cons_append] at hs
    obtain ⟨(hstep : StepOk g₀ _ _), hrest⟩ := hs.append
    have hnext := (hstep.rise pin rfl (by obtain rfl | rfl := hpin <;> rfl)).2
    rw [(train_of_kept hrest (fun e he => hl e (by simp [he])) hd).left_eq] at hnext
    have hzero : d.1 - netMin l₁ = 0 := by
      rcases hpin with rfl | rfl
      · exact hnext.1
      · exact hnext.1
    omega
  · rw [hk p hp] at hspent
    obtain ⟨⟨-, hb, hr, hf⟩, ⟨-, hb', hr', hf'⟩⟩ := hspent
    rw [net_eq_presses (by decide)] at hb hb'
    simp only [Pending.remaining] at hb hb'
    omega

/-- **Conservation of the set-timer pulses.** In every run of the hardware build, under any commands:
after `SetTimer` has computed its deltas and until the next `SetTimer` or `Reset`, pulses made and
pulses pending add up to the deltas; a `Reset` ends the pulses until the next `SetTimer`; and there is
no minute or second pulse but those of a train. -/
theorem set_timer_conserves {allow : Command → Prop} {w : World} {k : BoardProg Pending}
    (h : (boardSystem false allow).Reach ⟨World.boot, .ret .zero⟩ ⟨w, k⟩) :
    TrainLaw World.boot.shared w.hist k := by
  obtain ⟨hkept, hhead⟩ := train_reach World.boot.shared h ⟨trivial, rfl, rfl, rfl⟩
  have hleft : ∀ p, k = .ret p → left World.boot.shared w.hist = p.remaining :=
    fun p hp => (hhead p hp).2
  have hrange : ∀ e ∈ w.hist, ∀ sec, e.event = .lock sec → sec.inRange :=
    entered_reach (boardTask_inRange false) (fun _ => Section.visitor_inRange) h
      (List.forall_mem_nil _)
  refine ⟨?_, ?_, ?_⟩
  · intro later t past hhist hl
    rw [hhist] at hkept hleft hrange
    have hwf : WellFormed (replay World.boot.shared past) :=
      replay_wellFormed Shared.boot_wellFormed fun e he => hrange e (by simp [he])
    obtain ⟨(hread : StepOk _ _ _), -⟩ := hkept.append
    obtain ⟨d, hd, hmin, hsec⟩ := deltas_le hwf (hread.read rfl)
    exact ⟨d, hd, hmin, hsec, conserves_of_kept hkept hl hd hleft⟩
  · intro later t idle past hhist hl
    rw [hhist] at hkept
    exact (cleared_of_kept hkept hl ⟨rfl, rfl⟩).2
  · intro later t pin past hhist hpin
    rw [hhist] at hkept
    obtain ⟨(hstep : StepOk _ _ _), hpast⟩ := hkept.append
    obtain ⟨hdue, hnext⟩ := hstep.rise pin rfl hpin
    obtain ⟨l₂, t', l₁, rfl, hl⟩ :=
      origin_of_kept hpast hdue fun hzero => pin.not_next_zero (hzero ▸ hnext)
    obtain ⟨(hread : StepOk _ _ _), -⟩ := hpast.append
    have hsome : deltas World.boot.shared l₁ ≠ none := by simpa [deltas] using hread.read rfl
    obtain ⟨d, hd⟩ := Option.ne_none_iff_exists'.1 hsome
    exact ⟨l₂, t', l₁, d, rfl, hl, hd, (train_of_kept hpast hl hd).left_eq ▸ hnext⟩

/-- Two `SetTimer` requests in a row. -/
theorem set_timer_conserves_doubleTap :
    TrainLaw World.boot.shared doubleTapEnd.1.hist (.ret doubleTapEnd.2) :=
  set_timer_conserves doubleTap_reach

end ScoreboardCtrl
