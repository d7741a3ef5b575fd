import ScoreboardCtrl.Board.Sections
import ScoreboardCtrl.Board.World
import ScoreboardCtrl.Clock.Uart

/-!
# What a history determines

A run of the board system is recorded in its history, and the shared state is what the critical
sections of the history made of it (`Replayed`). In the hardware build (`recorded_reach`) the clock
in it depends on the reports of the UART alone: `replay_uart`.
-/

namespace ScoreboardCtrl

/-- Power-on. -/
def World.boot : World := ⟨0, Shared.boot, [], 0, []⟩

/-! ### Replaying a history -/

def Entry.onShared (e : Entry) (g : Shared) : Shared :=
  match e.event with
  | .lock sec => (sec.run e.time g).2
  | _ => g

/-- What the history, newest first, makes of the state `g₀`. -/
def replay (g₀ : Shared) : List Entry → Shared
  | [] => g₀
  | e :: past => e.onShared (replay g₀ past)

/-- The shared state of `w` is what its history made of `g₀`. -/
def Replayed (g₀ : Shared) (w : World) : Prop := w.shared = replay g₀ w.hist

theorem Replayed.exec {g₀ : Shared} {o : BoardOp} {w w' : World} {r : o.Ret}
    (h : Replayed g₀ w) (he : o.exec w = some (r, w')) : Replayed g₀ w' := by
  unfold Replayed at h ⊢
  cases o with
  | lock sec =>
    cases he
    simp only [World.act, replay, Entry.onShared, h]
  | setPin pin high => cases he; exact h
  | gpioSet on => cases he; exact h
  | afterMillis ms =>
    simp only [BoardOp.exec] at he
    split at he
    · cases he; exact h
    · cases he
  | receive =>
    simp only [BoardOp.exec] at he
    split at he
    · cases he
    · cases he; exact h
  | tryReceive =>
    simp only [BoardOp.exec] at he
    split at he
    · cases he; exact h
    · cases he; exact h

/-- What an action of the environment adds to the history. -/
theorem Action.apply_cases {sim : Bool} {a : Action} {w w' : World} (h : a.apply sim w = some w') :
    (w'.hist = w.hist ∧ w'.shared = w.shared ∧ w'.queue = w.queue) ∨
    (∃ sec : Section, sec.visitor sim = true ∧ w'.hist = ⟨w.now, .lock sec⟩ :: w.hist ∧
      w'.shared = (sec.run w.now w.shared).2 ∧ w'.queue = w.queue) ∨
    (∃ cmd, a = .send cmd ∧ w'.hist = ⟨w.now, .sent cmd⟩ :: w.hist ∧ w'.shared = w.shared ∧
      w'.queue = w.queue ++ [cmd]) ∨
    (w'.hist = ⟨w.now, .countdown⟩ :: w.hist ∧ w'.shared = w.shared ∧ w'.queue = w.queue) := by
  cases a with
  | elapse us => cases h; exact .inl ⟨rfl, rfl, rfl⟩
  | visit sec =>
    simp only [apply] at h
    split at h
    · cases h; exact .inr (.inl ⟨sec, ‹_›, rfl, rfl, rfl⟩)
    · cases h
  | send cmd =>
    simp only [apply] at h
    split at h
    · cases h; exact .inr (.inr (.inl ⟨cmd, rfl, rfl, rfl, rfl⟩))
    · cases h
  | countdown => cases h; exact .inr (.inr (.inr ⟨rfl, rfl, rfl⟩))

theorem Replayed.env {g₀ : Shared} {sim : Bool} {a : Action} {w w' : World} (h : Replayed g₀ w)
    (ha : a.apply sim w = some w') : Replayed g₀ w' := by
  unfold Replayed at h ⊢
  rcases Action.apply_cases ha with
    ⟨hh, hs, -⟩ | ⟨sec, -, hh, hs, -⟩ | ⟨cmd, -, hh, hs, -⟩ | ⟨hh, hs, -⟩
  · rw [hh, hs, h]
  · rw [hh, hs, h]
    rfl
  · rw [hh, hs, h]
    rfl
  · rw [hh, hs, h]
    rfl

/-! ### The order of a history -/

/-- The entries stand in the order of their times, none before `t₀` and none after `now`. -/
def Ordered (t₀ : ℕ) : ℕ → List Entry → Prop
  | now, [] => t₀ ≤ now
  | now, e :: past => e.time ≤ now ∧ Ordered t₀ e.time past

theorem Ordered.mono {t₀ now now' : ℕ} {hist : List Entry} (h : Ordered t₀ now hist)
    (hle : now ≤ now') : Ordered t₀ now' hist := by
  cases hist with
  | nil => exact Nat.le_trans h hle
  | cons e past => exact ⟨Nat.le_trans h.1 hle, h.2⟩

theorem Ordered.start_le {t₀ now : ℕ} {hist : List Entry} (h : Ordered t₀ now hist) : t₀ ≤ now := by
  induction hist generalizing now with
  | nil => exact h
  | cons e past ih => exact Nat.le_trans (ih h.2) h.1

theorem Ordered.mem_le {t₀ now : ℕ} {hist : List Entry} (h : Ordered t₀ now hist) {e : Entry}
    (he : e ∈ hist) : e.time ≤ now := by
  induction hist generalizing now with
  | nil => cases he
  | cons e' past ih =>
    rcases List.mem_cons.1 he with rfl | he
    · exact h.1
    · exact Nat.le_trans (ih h.2 he) h.1

theorem Ordered.append {t₀ now : ℕ} {later past : List Entry} {e : Entry}
    (h : Ordered t₀ now (later ++ e :: past)) :
    (∀ e' ∈ later, e.time ≤ e'.time) ∧ Ordered t₀ e.time past ∧ e.time ≤ now := by
  induction later generalizing now with
  | nil => exact ⟨List.forall_mem_nil _, h.2, h.1⟩
  | cons e₁ later ih =>
    obtain ⟨hlater, hpast, hle⟩ := ih h.2
    exact ⟨List.forall_mem_cons.2 ⟨hle, hlater⟩, hpast, Nat.le_trans hle h.1⟩

/-- An operation of `board_task` takes no time and makes at most one entry. -/
theorem BoardOp.exec_entry {o : BoardOp} {w w' : World} {r : o.Ret}
    (h : o.exec w = some (r, w')) : w'.now = w.now ∧ (w'.hist = w.hist ∨
      ∃ event, w'.hist = ⟨w.now, event⟩ :: w.hist ∧ ∀ sec, event = .lock sec → o = .lock sec) := by
  cases o with
  | lock sec => cases h; exact ⟨rfl, .inr ⟨_, rfl, by rintro _ ⟨⟩; rfl⟩⟩
  | setPin pin high => cases h; exact ⟨rfl, .inr ⟨_, rfl, by rintro _ ⟨⟩⟩⟩
  | gpioSet on => cases h; exact ⟨rfl, .inr ⟨_, rfl, by rintro _ ⟨⟩⟩⟩
  | afterMillis ms =>
    simp only [exec] at h
    split at h
    · cases h; exact ⟨rfl, .inr ⟨_, rfl, by rintro _ ⟨⟩⟩⟩
    · cases h
  | receive =>
    simp only [exec] at h
    split at h
    · cases h
    · cases h; exact ⟨rfl, .inr ⟨_, rfl, by rintro _ ⟨⟩⟩⟩
  | tryReceive =>
    simp only [exec] at h
    split at h
    · cases h; exact ⟨rfl, .inl rfl⟩
    · cases h; exact ⟨rfl, .inr ⟨_, rfl, by rintro _ ⟨⟩⟩⟩

theorem Action.apply_now {sim : Bool} {a : Action} {w w' : World} (h : a.apply sim w = some w') :
    w.now ≤ w'.now ∧ (w'.hist = w.hist ∨ ∃ event, w'.hist = ⟨w.now, event⟩ :: w.hist) := by
  cases a with
  | elapse us => cases h; exact ⟨Nat.le_add_right _ _, .inl rfl⟩
  | visit sec =>
    simp only [apply] at h
    split at h
    · cases h; exact ⟨Nat.le_refl _, .inr ⟨_, rfl⟩⟩
    · cases h
  | send cmd =>
    simp only [apply] at h
    split at h
    · cases h; exact ⟨Nat.le_refl _, .inr ⟨_, rfl⟩⟩
    · cases h
  | countdown => cases h; exact ⟨Nat.le_refl _, .inr ⟨_, rfl⟩⟩

theorem Ordered.next {t₀ : ℕ} {w w' : World} (h : Ordered t₀ w.now w.hist)
    (hle : w.now ≤ w'.now)
    (hhist : w'.hist = w.hist ∨ ∃ event, w'.hist = ⟨w.now, event⟩ :: w.hist) :
    Ordered t₀ w'.now w'.hist := by
  rcases hhist with hh | ⟨event, hh⟩
  · rw [hh]
    exact h.mono hle
  · rw [hh]
    exact ⟨hle, h⟩

/-- **Histories are in order.** -/
theorem ordered_reach {sim : Bool} {allow : Command → Prop} {t₀ : ℕ} {w w' : World} {p : Pending}
    {t : BoardProg Pending} (h : (boardSystem sim allow).Reach ⟨w, .ret p⟩ ⟨w', t⟩)
    (hw : Ordered t₀ w.now w.hist) : Ordered t₀ w'.now w'.hist := by
  have hexec : ∀ o s r s', True → (boardSystem sim allow).exec o s r s' →
      Ordered t₀ s.now s.hist → Ordered t₀ s'.now s'.hist := by
    intro o s r s' _ he hI
    obtain ⟨hnow, hhist⟩ := BoardOp.exec_entry he
    exact hI.next (Nat.le_of_eq hnow.symm) (hhist.imp_right fun ⟨event, hh, _⟩ => ⟨event, hh⟩)
  have henv : ∀ s s', (boardSystem sim allow).env s s' → Ordered t₀ s.now s.hist →
      Ordered t₀ s'.now s'.hist := by
    rintro s s' ⟨a, -, ha⟩ hI
    exact hI.next (Action.apply_now ha).1 (Action.apply_now ha).2
  have hbody : ∀ p, (boardTask sim p).All fun _ => True :=
    fun p => Lib.Prog.All.of_forall (fun _ => trivial) (boardTask sim p)
  exact (Lib.Solo.inv_reach hbody hexec henv h trivial hw).1

/-! ### The hardware build -/

/-- The operation is one the hardware build contains. -/
abbrev BoardOp.Hardware : BoardOp → Prop := BoardOp.Enters fun sec => sec.hardware = true

theorem Command.sections_hardware (cmd : Command) :
    ∀ sec ∈ cmd.sections false, sec.hardware = true := by
  cases cmd <;> simp [Command.sections, Section.hardware]

/-- **`board_task` of the hardware build never enters a simulate section.** -/
theorem boardTask_hardware (p : Pending) : (boardTask false p).All BoardOp.Hardware :=
  boardTask_enters p (fun _ => rfl) Command.sections_hardware

/-- The entry is no section that only the simulate build has. -/
def Entry.Hardware (e : Entry) : Prop := ∀ sec, e.event = .lock sec → sec.hardware = true

theorem Section.visitor_hardware {sec : Section} (h : sec.visitor false = true) :
    sec.hardware = true := by
  cases sec with
  | timerTick => cases h
  | simStartStop want => cases h
  | simReset => cases h
  | simSetTimer min sec => cases h
  | _ => rfl

/-- Nothing but sections of the hardware build happened, and the shared state is what they made of
`g₀`. -/
structure Recorded (g₀ : Shared) (w : World) : Prop where
  replayed : Replayed g₀ w
  hardware : ∀ e ∈ w.hist, e.Hardware

theorem World.boot_recorded : Recorded Shared.boot World.boot :=
  ⟨rfl, fun _ he => by cases he⟩

/-- **The sections of a history** are those of `board_task` and those of the other tasks. -/
theorem entered_reach {sim : Bool} {allow : Command → Prop} {P : Section → Prop}
    (hbody : ∀ p, (boardTask sim p).All (BoardOp.Enters P))
    (hvisit : ∀ sec : Section, sec.visitor sim = true → P sec) {w w' : World} {p : Pending}
    {t : BoardProg Pending} (h : (boardSystem sim allow).Reach ⟨w, .ret p⟩ ⟨w', t⟩)
    (hw : ∀ e ∈ w.hist, ∀ sec, e.event = .lock sec → P sec) :
    ∀ e ∈ w'.hist, ∀ sec, e.event = .lock sec → P sec := by
  have hexec : ∀ o s r s', BoardOp.Enters P o → (boardSystem sim allow).exec o s r s' →
      (∀ e ∈ s.hist, ∀ sec, e.event = .lock sec → P sec) →
      ∀ e ∈ s'.hist, ∀ sec, e.event = .lock sec → P sec := by
    intro o s r s' ho he hI
    rcases (BoardOp.exec_entry he).2 with hh | ⟨event, hh, hlock⟩
    · rwa [hh]
    · rw [hh]
      refine List.forall_mem_cons.2 ⟨fun sec hsec => ?_, hI⟩
      obtain rfl := hlock sec hsec
      exact ho
  have henv : ∀ s s', (boardSystem sim allow).env s s' →
      (∀ e ∈ s.hist, ∀ sec, e.event = .lock sec → P sec) →
      ∀ e ∈ s'.hist, ∀ sec, e.event = .lock sec → P sec := by
    rintro s s' ⟨a, -, ha⟩ hI
    rcases Action.apply_cases ha with ⟨hh, -⟩ | ⟨sec, hsec, hh, -⟩ | ⟨cmd, -, hh, -⟩ | ⟨hh, -⟩
    · rwa [hh]
    · rw [hh]
      refine List.forall_mem_cons.2 ⟨?_, hI⟩
      rintro _ ⟨⟩
      exact hvisit sec hsec
    · rw [hh]
      exact List.forall_mem_cons.2 ⟨by rintro _ ⟨⟩, hI⟩
    · rw [hh]
      exact List.forall_mem_cons.2 ⟨by rintro _ ⟨⟩, hI⟩
  exact (Lib.Solo.inv_reach hbody hexec henv h trivial hw).1

/-- **The shared state is what the history made of it.** -/
theorem replayed_reach {sim : Bool} {allow : Command → Prop} {g₀ : Shared} {w w' : World}
    {p : Pending} {t : BoardProg Pending}
    (h : (boardSystem sim allow).Reach ⟨w, .ret p⟩ ⟨w', t⟩) (hw : Replayed g₀ w) :
    Replayed g₀ w' := by
  have hbody : ∀ p, (boardTask sim p).All fun _ => True :=
    fun p => Lib.Prog.All.of_forall (fun _ => trivial) (boardTask sim p)
  have henv : ∀ s s', (boardSystem sim allow).env s s' → Replayed g₀ s → Replayed g₀ s' := by
    rintro s s' ⟨a, -, ha⟩ hI
    exact hI.env ha
  exact (Lib.Solo.inv_reach hbody (fun _ _ _ _ _ he hI => hI.exec he) henv h trivial hw).1

/-- **Every run of the hardware build is recorded in its history.** -/
theorem recorded_reach {allow : Command → Prop} {g₀ : Shared} {w w' : World} {p : Pending}
    {t : BoardProg Pending} (h : (boardSystem false allow).Reach ⟨w, .ret p⟩ ⟨w', t⟩)
    (hw : Recorded g₀ w) : Recorded g₀ w' :=
  ⟨replayed_reach h hw.replayed,
    entered_reach boardTask_hardware (fun _ => Section.visitor_hardware) h hw.hardware⟩

/-! ### The reports of the UART -/

/-- A frame that `read_serial` passed on. -/
structure Report where
  time : ℕ
  minutes : ℕ
  seconds : ℕ
  deriving DecidableEq, Repr

def Entry.report (e : Entry) : Option Report :=
  match e.event with
  | .lock (.setClock m s) => some ⟨e.time, m, s⟩
  | _ => none

/-- The reports of a history, newest first. -/
def reports (hist : List Entry) : List Report := hist.filterMap Entry.report

/-- The clock after some reports, newest first. -/
def uartAfter (u₀ : Uart) : List Report → Uart
  | [] => u₀
  | r :: rs => (uartAfter u₀ rs).accept r.minutes r.seconds r.time

theorem reports_cons (e : Entry) (past : List Entry) :
    reports (e :: past) = e.report.toList ++ reports past := by
  unfold reports
  cases h : e.report with
  | none => rw [List.filterMap_cons_none h]; rfl
  | some r => rw [List.filterMap_cons_some h]; rfl

theorem Entry.onShared_uart {e : Entry} (he : e.Hardware) (g : Shared) :
    (e.onShared g).board.uart = uartAfter g.board.uart e.report.toList := by
  obtain ⟨time, event⟩ := e
  cases event with
  | lock sec =>
    have hrun := Section.run_uart (he sec rfl) time g
    cases sec with
    | setClock m s => exact hrun
    | _ => exact hrun
  | _ => rfl

theorem uartAfter_append (u₀ : Uart) (rs rs' : List Report) :
    uartAfter u₀ (rs ++ rs') = uartAfter (uartAfter u₀ rs') rs := by
  induction rs with
  | nil => rfl
  | cons r rs ih => rw [List.cons_append, uartAfter, uartAfter, ih]

/-- **The clock depends on the reports alone.** -/
theorem replay_uart {g₀ : Shared} {hist : List Entry} (h : ∀ e ∈ hist, e.Hardware) :
    (replay g₀ hist).board.uart = uartAfter g₀.board.uart (reports hist) := by
  induction hist with
  | nil => rfl
  | cons e past ih =>
    obtain ⟨he, hpast⟩ := List.forall_mem_cons.1 h
    rw [replay, Entry.onShared_uart he, ih hpast, reports_cons, uartAfter_append]

end ScoreboardCtrl
