import ScoreboardCtrl.Board.ColdTrain

/-!
# Several set-timer requests

`SetTimer` takes its deltas from the time the Pico has when the request is handled, and forgets
what is left of an earlier train. The pulses of a train add up to the deltas (`Trace.course`), so
the last request decides where the clock lands, from the time it read; `last_target_iff` says that
this is the target exactly when the reading was up to date with the pulses already made.
-/

namespace ScoreboardCtrl

/-- The target of the newest `SetTimer` taken, within the range the board can show. -/
def lastTarget : List Entry → Option (ℕ × ℕ)
  | [] => none
  | e :: past =>
    match e.event with
    | .received (.setTimer min sec) _ => some (Min.min min 99, Min.min sec 59)
    | _ => lastTarget past

/-- At the newest reading of the clock: the pulses made so far, less the time read. -/
def drift (g₀ : Shared) : List Entry → Option (ℤ × ℤ)
  | [] => none
  | e :: past =>
    if e.event = .lock .snapshot then
      some (netMin past - (shown g₀ past).1, netSec past - (shown g₀ past).2)
    else drift g₀ past

/-- The newest reading of the clock was up to date: it was `m₀:s₀` moved by the pulses made so
far. -/
def ReadingCurrent (g₀ : Shared) (m₀ s₀ : ℤ) : List Entry → Prop
  | [] => True
  | e :: past =>
    if e.event = .lock .snapshot then
      ((shown g₀ past).1 : ℤ) = m₀ + netMin past ∧ ((shown g₀ past).2 : ℤ) = s₀ + netSec past
    else ReadingCurrent g₀ m₀ s₀ past

/-- The pulses made and those pending add up to the newest target from the newest reading. -/
def OnCourse (g₀ : Shared) (p : Pending) (hist : List Entry) : Prop :=
  ∀ target, lastTarget hist = some target → ∃ d, drift g₀ hist = some d ∧
    netMin hist + p.min = target.1 + d.1 ∧ netSec hist + p.sec = target.2 + d.2

/-- What a trace says about the train at a point. -/
def CourseAt (g₀ : Shared) : Point → List Entry → Prop
  | .head p, hist | .toggling p, hist | .stepping p, hist => OnCourse g₀ p hist
  | .taken _ (.setTimer min sec), hist | .freezing _ min sec, hist | .frozen _ min sec, hist =>
    lastTarget hist = some (Min.min min 99, Min.min sec 59)
  | .taken _ _, _ => True

variable {g₀ : Shared} {allow : Command → Prop}

theorem lastTarget_other {e : Entry} {past : List Entry}
    (h : ∀ cmd idle, e.event ≠ .received cmd idle) : lastTarget (e :: past) = lastTarget past := by
  rw [lastTarget]
  split
  · exact absurd ‹_› (h _ _)
  · rfl

theorem drift_other {e : Entry} {past : List Entry} (h : e.event ≠ .lock .snapshot) :
    drift g₀ (e :: past) = drift g₀ past := if_neg h

theorem readingCurrent_iff {m₀ s₀ : ℤ} {hist : List Entry} {d : ℤ × ℤ}
    (h : drift g₀ hist = some d) : ReadingCurrent g₀ m₀ s₀ hist ↔ d = (-m₀, -s₀) := by
  induction hist with
  | nil => cases h
  | cons e past ih =>
    rw [drift] at h
    rw [ReadingCurrent]
    by_cases he : e.event = .lock .snapshot
    · rw [if_pos he] at h ⊢
      cases h
      rw [Prod.mk.injEq]
      omega
    · rw [if_neg he] at h ⊢
      exact ih h

theorem OnCourse.skip {p : Pending} {e : Entry} {past : List Entry} (h : OnCourse g₀ p past)
    (htake : ∀ cmd idle, e.event ≠ .received cmd idle) (hread : e.event ≠ .lock .snapshot)
    (hmin : netMin (e :: past) = netMin past) (hsec : netSec (e :: past) = netSec past) :
    OnCourse g₀ p (e :: past) := by
  rw [OnCourse, drift_other hread, lastTarget_other htake, hmin, hsec]
  exact h

theorem CourseAt.skip {c : Point} {e : Entry} {past : List Entry} (h : CourseAt g₀ c past)
    (htake : ∀ cmd idle, e.event ≠ .received cmd idle) (hread : e.event ≠ .lock .snapshot)
    (hmin : netMin (e :: past) = netMin past) (hsec : netSec (e :: past) = netSec past) :
    CourseAt g₀ c (e :: past) := by
  cases c with
  | head p => exact OnCourse.skip h htake hread hmin hsec
  | toggling p => exact OnCourse.skip h htake hread hmin hsec
  | stepping p => exact OnCourse.skip h htake hread hmin hsec
  | freezing p min sec => exact (lastTarget_other htake).trans h
  | frozen p min sec => exact (lastTarget_other htake).trans h
  | taken p cmd =>
    cases cmd with
    | setTimer min sec => exact (lastTarget_other htake).trans h
    | _ => trivial

/-- The next pulse of the train moves one from what is pending to what was made. -/
theorem Pending.next_net {p p' : Pending} {pin : Pin} (h : p.next = some (pin, p')) (t : ℕ)
    (past : List Entry) :
    netMin (⟨t, .pin pin true⟩ :: past) + p'.min = netMin past + p.min ∧
      netSec (⟨t, .pin pin true⟩ :: past) + p'.sec = netSec past + p.sec := by
  unfold next at h
  split_ifs at h <;> cases h <;> simp [netMin, netSec, net] <;> omega

/-- **The pulses of a train add up to the deltas it was given.** -/
theorem Trace.course {c : Point} {hist : List Entry} (h : Trace OnlySetTimer g₀ c hist) :
    CourseAt g₀ c hist := by
  induction h with
  | start => rintro target ⟨⟩
  | @quiet c e past _ hq ih =>
    have hpin := Event.quiet_ne_pin hq
    refine ih.skip ?_ ?_ (net_other hpin) (net_other hpin)
    · rintro cmd idle he
      rw [he] at hq
      cases hq
    · rintro he
      rw [he] at hq
      cases hq
  | @move c c' e past htrace hmove ih =>
    cases hmove with
    | @receive p cmd t hcmd =>
      obtain ⟨min, sec, rfl⟩ := hcmd
      exact rfl
    | @requestPulse p cmd want t hwant =>
      obtain ⟨min, sec, rfl⟩ := htrace.allowed p cmd rfl
      cases hwant
    | @requestSilent p cmd want t hwant =>
      obtain ⟨min, sec, rfl⟩ := htrace.allowed p cmd rfl
      cases hwant
    | toggle => exact OnCourse.skip ih (by simp) (by simp) (by simp [netMin, net]) (by simp [netSec, net])
    | freezePulse => exact (lastTarget_other (by simp)).trans ih
    | freezeSilent => exact (lastTarget_other (by simp)).trans ih
    | freeze => exact (lastTarget_other (by simp)).trans ih
    | @snapshot p min sec t =>
      have htarget : lastTarget past = some (Min.min min 99, Min.min sec 59) := ih
      have hmin : netMin (⟨t, .lock .snapshot⟩ :: past) = netMin past := net_other (by simp)
      have hsec : netSec (⟨t, .lock .snapshot⟩ :: past) = netSec past := net_other (by simp)
      intro target hlast
      rw [lastTarget_other (by simp), htarget] at hlast
      cases hlast
      refine ⟨_, if_pos rfl, ?_, ?_⟩
      · rw [hmin]
        simp only [Pending.aim]
        omega
      · rw [hsec]
        simp only [Pending.aim]
        omega
    | checkPulse =>
      exact OnCourse.skip ih (by simp) (by simp) (net_other (by simp)) (net_other (by simp))
    | checkSilent =>
      exact OnCourse.skip ih (by simp) (by simp) (net_other (by simp)) (net_other (by simp))
    | @step p p' pin t hnext =>
      obtain ⟨hmin, hsec⟩ := Pending.next_net hnext t past
      have hcourse : OnCourse g₀ p past := ih
      show OnCourse g₀ p' _
      rw [OnCourse, drift_other (by simp), lastTarget_other (by simp), hmin, hsec]
      exact hcourse

/-! ### Runs -/

/-- Nothing is left to take or to pulse. -/
structure Drained (w : World) (p : Pending) : Prop where
  queue : w.queue = []
  pending : p.hasPending = false

theorem Drained.train {w : World} {p : Pending} (h : Drained w p) : p.min = 0 ∧ p.sec = 0 := by
  have := h.pending
  simp only [Pending.hasPending, Bool.or_eq_false_iff, bne_eq_false_iff_eq] at this
  exact ⟨this.1.2, this.2⟩

/-- **When the last `SetTimer` wins.** In every run of `SetTimer` requests on a clock showing
`m₀:s₀`, once all of them are taken and the train is drained, the net numbers of minute and second
pulses are those from `m₀:s₀` to the last target iff the reading that the last request was computed
from was up to date with the pulses made before it. -/
theorem last_target_iff {w₀ w : World} {p : Pending} (h₀ : Starts OnlySetTimer w₀)
    (h : (boardSystem false OnlySetTimer).Reach ⟨w₀, .ret .zero⟩ ⟨w, .ret p⟩) (hp : Drained w p)
    {target : ℕ × ℕ} (htarget : lastTarget w.hist = some target) (m₀ s₀ : ℤ) :
    (netMin w.hist = target.1 - m₀ ∧ netSec w.hist = target.2 - s₀) ↔
      ReadingCurrent w₀.shared m₀ s₀ w.hist := by
  have hhead : OnCourse w₀.shared p w.hist :=
    (trace_head onlySetTimer_runControl h₀ h).trace.course
  obtain ⟨d, hd, hmin, hsec⟩ := hhead target htarget
  obtain ⟨hpmin, hpsec⟩ := hp.train
  rw [readingCurrent_iff hd, Prod.ext_iff]
  simp only
  omega

/-! ### A double tap -/

/-- One pulse of a train, with nothing reported. -/
def silentPulse : List (Option Action) :=
  [none, none, none, none, some (.elapse 50000), none, none]

/-- `SetTimer` to `09:30` at `07:30`, and the same again after the first minute pulse. -/
def doubleTap : List (Option Action) :=
  [some (.send (.setTimer 9 30)), none, none, none, none] ++ silentPulse ++
    [some (.send (.setTimer 9 30)), none, none, none, none] ++ silentPulse ++ silentPulse

def doubleTapEnd : World × Pending := (playHead false doubleTap World.boot .zero).get rfl

theorem doubleTap_reach : (boardSystem false OnlySetTimer).Reach ⟨World.boot, .ret .zero⟩
    ⟨doubleTapEnd.1, .ret doubleTapEnd.2⟩ := by
  have hplay : playHead false doubleTap World.boot .zero = some doubleTapEnd :=
    (Option.some_get _).symm
  exact playHead_reach (by decide) hplay

theorem doubleTap_netMin : netMin doubleTapEnd.1.hist ≠ 9 - 7 := by decide +kernel

theorem last_target_iff_doubleTap :
    netMin doubleTapEnd.1.hist ≠ (9 : ℕ) - 7 ∧
      ¬ ReadingCurrent World.boot.shared 7 30 doubleTapEnd.1.hist := by
  have htarget : lastTarget doubleTapEnd.1.hist = some (9, 30) := rfl
  have hiff := last_target_iff (World.boot_starts _) doubleTap_reach ⟨rfl, rfl⟩ htarget 7 30
  exact ⟨doubleTap_netMin, fun hcurrent => doubleTap_netMin (hiff.2 hcurrent).1⟩

/-- The second tap makes three minute pulses of two. -/
theorem double_tap_overshoots :
    AtRest World.boot ∧
      (boardSystem false OnlySetTimer).Reach ⟨World.boot, .ret .zero⟩
        ⟨doubleTapEnd.1, .ret doubleTapEnd.2⟩ ∧
      Drained doubleTapEnd.1 doubleTapEnd.2 ∧
      commandsTaken doubleTapEnd.1.hist = [(.setTimer 9 30, false), (.setTimer 9 30, true)] ∧
      Plant.closedLoop Plant.boot Uart.boot doubleTapEnd.1.hist = true ∧
      lastTarget doubleTapEnd.1.hist = some (9, 30) ∧ netMin doubleTapEnd.1.hist ≠ 9 - 7 :=
  ⟨World.boot_atRest, doubleTap_reach, ⟨rfl, rfl⟩, by decide +kernel, by decide +kernel, rfl,
    doubleTap_netMin⟩

end ScoreboardCtrl
