import ScoreboardCtrl.Board.History

/-!
# Laws of histories

A `Law` says of each entry of a history what may have come before it, and which events are of no
concern to it (calm). Everything the environment adds to a history is calm. `Course K` is a point in a
run that has kept the law so far and whose history satisfies `K`; the triples below are the operations
of `board_task` as steps from one such point to the next, and `Law.reach` is the rule of whole runs.
-/

namespace ScoreboardCtrl

structure Law (sim : Bool) where
  /-- the entry may come after `past` -/
  Ok : Entry → List Entry → Prop
  calm : Event → Bool
  ok_calm : ∀ {e : Entry} {past : List Entry}, calm e.event = true → Ok e past
  calm_visit : ∀ {sec : Section}, sec.visitor sim = true → calm (.lock sec) = true
  calm_sent : ∀ cmd, calm (.sent cmd) = true
  calm_countdown : calm .countdown = true

namespace Law

variable {sim : Bool} (L : Law sim)

/-- Every entry of the history came where it may. -/
def Kept : List Entry → Prop
  | [] => True
  | e :: past => L.Ok e past ∧ Kept past

variable {L}

theorem Kept.append {later past : List Entry} (h : L.Kept (later ++ past)) : L.Kept past := by
  induction later with
  | nil => exact h
  | cons e later ih => exact ih h.2

variable (L)

/-- Calm entries do not change `K`. -/
def CalmKept (K : List Entry → Prop) : Prop :=
  ∀ e past, L.calm e.event = true → K past → K (e :: past)

/-- The run has kept the law, and its history satisfies `K`. -/
structure Course (g₀ : Shared) (K : List Entry → Prop) (w : World) : Prop where
  kept : L.Kept w.hist
  replayed : Replayed g₀ w
  holds : K w.hist

/-- The law is kept at every moment. -/
def spec (allow : Command → Prop) : Lib.Spec World BoardOp BoardOp.Ret :=
  (boardSystem sim allow).spec (fun _ w' => L.Kept w'.hist) fun _ _ => True

/-- The program takes histories that satisfy `K` to such that satisfy `K'`, and keeps the law. -/
abbrev Leads (allow : Command → Prop) (g₀ : Shared) {α : Type} (K : List Entry → Prop)
    (t : BoardProg α) (K' : α → List Entry → Prop) : Prop :=
  (L.spec allow).Triple (L.Course g₀ K) t fun a => L.Course g₀ (K' a)

variable {L} {g₀ : Shared} {K K' : List Entry → Prop} {allow : Command → Prop}

theorem apply_calm {a : Action} {w w' : World} (h : a.apply sim w = some w') :
    w'.hist = w.hist ∨ ∃ event, w'.hist = ⟨w.now, event⟩ :: w.hist ∧ L.calm event = true := by
  rcases Action.apply_cases h with ⟨hh, -⟩ | ⟨sec, hsec, hh, -⟩ | ⟨cmd, -, hh, -⟩ | ⟨hh, -⟩
  · exact .inl hh
  · exact .inr ⟨_, hh, L.calm_visit hsec⟩
  · exact .inr ⟨_, hh, L.calm_sent cmd⟩
  · exact .inr ⟨_, hh, L.calm_countdown⟩

theorem Course.step {w w' : World} (h : L.Course g₀ K w) {event : Event}
    (hhist : w'.hist = ⟨w.now, event⟩ :: w.hist) (hrep : Replayed g₀ w')
    (hok : L.Ok ⟨w.now, event⟩ w.hist) (hK' : K' (⟨w.now, event⟩ :: w.hist)) :
    L.Course g₀ K' w' := by
  refine ⟨?_, hrep, ?_⟩
  · rw [hhist]
    exact ⟨hok, h.kept⟩
  · rwa [hhist]

theorem Course.calm (hK : L.CalmKept K) {w w' : World} (h : L.Course g₀ K w) (hrep : Replayed g₀ w')
    (hhist : w'.hist = w.hist ∨ ∃ event, w'.hist = ⟨w.now, event⟩ :: w.hist ∧ L.calm event = true) :
    L.Course g₀ K w' := by
  rcases hhist with hh | ⟨event, hh, hcalm⟩
  · exact ⟨hh ▸ h.kept, hrep, hh ▸ h.holds⟩
  · exact h.step hh hrep (L.ok_calm hcalm) (hK _ _ hcalm h.holds)

theorem Course.env (hK : L.CalmKept K) {w w' : World} (h : L.Course g₀ K w)
    (he : (boardSystem sim allow).env w w') : L.Course g₀ K w' := by
  obtain ⟨a, -, ha⟩ := he
  exact h.calm hK (h.replayed.env ha) (apply_calm ha)

theorem Course.stable (hK : L.CalmKept K) : (L.spec allow).Stable (L.Course g₀ K) :=
  Lib.Solo.stable_spec fun _ _ he h => h.env hK he

open Lib.Spec

/-! ### Operations -/

theorem op_course {o : BoardOp} (hK : L.CalmKept K) {K' : o.Ret → List Entry → Prop}
    (h : ∀ w r w', L.Course g₀ K w → o.exec w = some (r, w') → ∃ event,
      w'.hist = ⟨w.now, event⟩ :: w.hist ∧ L.Ok ⟨w.now, event⟩ w.hist ∧
        K' r (⟨w.now, event⟩ :: w.hist)) :
    L.Leads allow g₀ K (Lib.Prog.call (R := BoardOp.Ret) o) K' := by
  refine Triple.call (Course.stable hK) fun w hw => ⟨trivial, fun r w' he => ?_⟩
  obtain ⟨event, hhist, hok, hK'⟩ := h w r w' hw he
  have hafter := hw.step hhist (hw.replayed.exec he) hok hK'
  exact ⟨hafter.kept, hafter⟩

theorem setPin_course (hK : L.CalmKept K) {pin : Pin} {high : Bool}
    (h : ∀ t past, K past → L.Ok ⟨t, .pin pin high⟩ past ∧ K' (⟨t, .pin pin high⟩ :: past)) :
    L.Leads allow g₀ K (BoardProg.setPin pin high) fun _ => K' := by
  refine op_course hK ?_
  intro w r w' hw he
  cases he
  exact ⟨_, rfl, h w.now w.hist hw.holds⟩

theorem lock_course (hK : L.CalmKept K) {sec : Section} {K' : sec.Ret → List Entry → Prop}
    (h : ∀ t past, K past → L.Ok ⟨t, .lock sec⟩ past ∧
      K' (sec.run t (replay g₀ past)).1 (⟨t, .lock sec⟩ :: past)) :
    L.Leads allow g₀ K (BoardProg.lock sec) K' := by
  refine op_course (o := .lock sec) hK ?_
  intro w r w' hw he
  cases he
  have hboard : w.shared = replay g₀ w.hist := hw.replayed
  exact ⟨_, rfl, hboard ▸ h w.now w.hist hw.holds⟩

theorem afterMillis_course (hK : L.CalmKept K) {ms : ℕ}
    (h : ∀ t past, K past → L.Ok ⟨t, .waited ms⟩ past ∧ K' (⟨t, .waited ms⟩ :: past)) :
    L.Leads allow g₀ K (BoardProg.afterMillis ms) fun _ => K' := by
  refine op_course hK ?_
  intro w r w' hw he
  simp only [BoardOp.exec] at he
  split at he
  · cases he
    exact ⟨_, rfl, h w.now w.hist hw.holds⟩
  · cases he

/-- The next command, or none where a train is pending. -/
theorem nextCommand_course (K' : Option Command → List Entry → Prop) (hK : L.CalmKept K)
    (p : Pending) (hnone : ∀ past, K past → K' none past)
    (hsome : ∀ t past cmd idle, K past →
      L.Ok ⟨t, .received cmd idle⟩ past ∧ K' (some cmd) (⟨t, .received cmd idle⟩ :: past)) :
    L.Leads allow g₀ K (nextCommand p) K' := by
  unfold nextCommand
  split
  · refine Triple.call (Course.stable hK) fun w hw => ⟨trivial, fun (r : Option Command) w' he => ?_⟩
    suffices hafter : L.Course g₀ (K' r) w' from ⟨hafter.kept, hafter⟩
    have hrep := hw.replayed.exec he
    simp only [spec, Lib.Solo.spec, boardSystem, BoardOp.exec] at he
    split at he
    · cases he
      exact ⟨hw.kept, hw.replayed, hnone _ hw.holds⟩
    · cases he
      obtain ⟨hok, hK'⟩ := hsome w.now w.hist _ false hw.holds
      exact hw.step rfl hrep hok hK'
  · refine .bind (K := fun cmd => L.Course g₀ (K' (some cmd))) ?_ fun cmd => .pure fun _ hw => hw
    refine op_course (o := .receive) hK fun w (r : Command) w' hw he => ?_
    simp only [BoardOp.exec] at he
    split at he
    · cases he
    · cases he
      exact ⟨_, rfl, hsome w.now w.hist _ true hw.holds⟩

/-! ### Programs that the law does not concern -/

variable (L) in
/-- The operation makes a calm entry. -/
def CalmOp : BoardOp → Prop
  | .lock sec => L.calm (.lock sec) = true
  | .setPin pin high => L.calm (.pin pin high) = true
  | .afterMillis ms => L.calm (.waited ms) = true
  | .gpioSet on => L.calm (.gpio on) = true
  | .receive | .tryReceive => False

theorem calmOp_course (hK : L.CalmKept K) (o : BoardOp) (ho : L.CalmOp o) :
    (L.spec allow).OpTriple (L.Course g₀ K) o fun _ => L.Course g₀ K := by
  intro w hw
  refine ⟨trivial, fun r w' he => ?_⟩
  have hhist : w'.hist = w.hist ∨
      ∃ event, w'.hist = ⟨w.now, event⟩ :: w.hist ∧ L.calm event = true := by
    cases o with
    | lock sec => cases he; exact .inr ⟨_, rfl, ho⟩
    | setPin pin high => cases he; exact .inr ⟨_, rfl, ho⟩
    | gpioSet on => cases he; exact .inr ⟨_, rfl, ho⟩
    | afterMillis ms =>
      simp only [spec, Lib.Solo.spec, boardSystem, BoardOp.exec] at he
      split at he
      · cases he; exact .inr ⟨_, rfl, ho⟩
      · cases he
    | receive => cases ho
    | tryReceive => cases ho
  have hafter := hw.calm hK (hw.replayed.exec he) hhist
  exact ⟨hafter.kept, hafter⟩

theorem calm_course (hK : L.CalmKept K) {α : Type} {t : BoardProg α} (ht : t.All L.CalmOp) :
    L.Leads allow g₀ K t fun _ => K :=
  Triple.of_all (Course.stable hK) (calmOp_course hK) ht

/-- **Consequence**, on the histories. -/
theorem Leads.weaken {α : Type} {t : BoardProg α} {K₁ : List Entry → Prop}
    {K₂ K₂' : α → List Entry → Prop} (h : L.Leads allow g₀ K t K₂) (hK : ∀ past, K₁ past → K past)
    (hK₂ : ∀ a past, K₂ a past → K₂' a past) : L.Leads allow g₀ K₁ t K₂' :=
  Triple.mono h (fun _ hw => ⟨hw.kept, hw.replayed, hK _ hw.holds⟩)
    fun a _ hw => ⟨hw.kept, hw.replayed, hK₂ a _ hw.holds⟩

theorem Leads.ends {α : Type} {t : BoardProg α} {K' : α → List Entry → Prop} {E : α → Prop}
    (h : L.Leads allow g₀ K t K') (hE : t.Ends E) :
    L.Leads allow g₀ K t fun a past => E a ∧ K' a past :=
  Triple.mono (Triple.ends h hE) (fun _ hw => hw)
    fun _ _ ⟨hE, hw⟩ => ⟨hw.kept, hw.replayed, hE, hw.holds⟩

/-! ### Runs -/

/-- **The rule of whole runs.** If every turn of the loop leads from `H p` to `H p'`, from what was
pending to what is, then the law is kept at every moment and `H` holds at every head of the loop. -/
theorem reach {H : Pending → List Entry → Prop} (hH : ∀ p, L.CalmKept (H p))
    (hbody : ∀ p, L.Leads allow g₀ (H p) (boardTask sim p) H) {w₀ w : World} {p₀ : Pending}
    {k : BoardProg Pending}
    (h : (boardSystem sim allow).Reach ⟨w₀, .ret p₀⟩ ⟨w, k⟩) (h₀ : L.Course g₀ (H p₀) w₀) :
    L.Kept w.hist ∧ ∀ p, k = .ret p → H p w.hist := by
  have hfits : Lib.Solo.Fits (boardSystem sim allow) (L.spec allow) fun p => L.Course g₀ (H p) :=
    Lib.Solo.fits_spec (fun p _ _ he hw => hw.env (hH p) he) hbody
  have henv : ∀ w w', (L.spec allow).rely w w' → L.Kept w.hist → L.Kept w'.hist :=
    Lib.Solo.stable_spec fun w w' ⟨a, _, ha⟩ hw => by
      rcases apply_calm (L := L) ha with hh | ⟨event, hh, hcalm⟩
      · exact hh ▸ hw
      · rw [hh]
        exact ⟨L.ok_calm hcalm, hw⟩
  refine ⟨Lib.Solo.guar_reach hfits henv (fun _ _ hg _ => hg) h h₀ h₀.kept, ?_⟩
  rintro p rfl
  exact (Lib.Solo.head_reach hfits h h₀).holds

end Law

end ScoreboardCtrl
