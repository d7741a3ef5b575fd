import Mathlib.Tactic.Common

/-!
# Labelled transition systems

A system that follows a label or refuses it, so that a schedule can be run.

* `run`, `run_append` — the run of a schedule;
* `Guarded` — every label of the schedule meets a condition where it is followed;
* `inv_run` — what each such step keeps, a guarded run keeps;
* `run_any` — what a run ends in, by evaluation;
* `Reach` — some schedule leads there.
-/

namespace ScoreboardCtrl.Lib

structure Lts (σ α : Type) where
  step : α → σ → Option σ

namespace Lts

variable {σ α : Type} (M : Lts σ α)

def run : List α → σ → Option σ
  | [], s => some s
  | a :: as, s => (M.step a s).bind (run as)

theorem run_cons (a : α) (as : List α) (s : σ) : M.run (a :: as) s = (M.step a s).bind (M.run as) :=
  rfl

theorem run_append (as bs : List α) (s : σ) : M.run (as ++ bs) s = (M.run as s).bind (M.run bs) := by
  induction as generalizing s with
  | nil => rfl
  | cons a as ih =>
    rw [List.cons_append, run_cons, run_cons, Option.bind_assoc]
    exact congrArg _ (funext ih)

/-- Every label meets `fine` in the state where it is followed. -/
def Guarded (fine : α → σ → Prop) : List α → σ → Prop
  | [], _ => True
  | a :: as, s => fine a s ∧ ∀ s', M.step a s = some s' → Guarded fine as s'

variable {M} {fine : α → σ → Prop} {inv : σ → Prop}

instance decidableGuarded [∀ a s, Decidable (fine a s)] :
    (as : List α) → (s : σ) → Decidable (M.Guarded fine as s)
  | [], _ => .isTrue trivial
  | a :: as, s =>
    match hstep : M.step a s with
    | none => decidable_of_iff (fine a s)
        ⟨fun h => ⟨h, fun s' hs' => by rw [hstep] at hs'; cases hs'⟩, And.left⟩
    | some s' =>
      have := decidableGuarded as s'
      decidable_of_iff (fine a s ∧ M.Guarded fine as s')
        ⟨fun h => ⟨h.1, fun s₁ hs₁ => by rw [hstep] at hs₁; cases hs₁; exact h.2⟩,
          fun h => ⟨h.1, h.2 s' hstep⟩⟩

theorem guarded_true (as : List α) (s : σ) : M.Guarded (fun _ _ => True) as s := by
  induction as generalizing s with
  | nil => trivial
  | cons a as ih => exact ⟨trivial, fun s' _ => ih s'⟩

/-- **The rule of guarded runs.** -/
theorem inv_run (hstep : ∀ a s s', inv s → fine a s → M.step a s = some s' → inv s') {as : List α}
    {s s' : σ} (hs : inv s) (hfine : M.Guarded fine as s) (hrun : M.run as s = some s') :
    inv s' := by
  induction as generalizing s with
  | nil =>
    cases hrun
    exact hs
  | cons a as ih =>
    obtain ⟨s₁, h₁, h₂⟩ := Option.bind_eq_some_iff.1 hrun
    exact ih (hstep a s s₁ hs hfine.1 h₁) (hfine.2 s₁ h₁) h₂

theorem run_any {as : List α} {s : σ} {p : σ → Prop} [DecidablePred p]
    (h : (M.run as s).any fun s => decide (p s)) : ∃ s', M.run as s = some s' ∧ p s' := by
  obtain ⟨s', hs', hp⟩ := (Option.any_eq_true ..).1 h
  exact ⟨s', hs', of_decide_eq_true hp⟩

/-- Some schedule leads from `s` to `s'`. -/
def Reach (M : Lts σ α) (s s' : σ) : Prop := ∃ as, M.run as s = some s'

theorem Reach.refl (s : σ) : M.Reach s s := ⟨[], rfl⟩

theorem Reach.head {a : α} {s s₁ s' : σ} (hstep : M.step a s = some s₁) (h : M.Reach s₁ s') :
    M.Reach s s' := by
  obtain ⟨as, has⟩ := h
  refine ⟨a :: as, ?_⟩
  rw [run_cons, hstep, Option.bind_some]
  exact has

theorem Reach.trans {s s₁ s' : σ} (h : M.Reach s s₁) (h' : M.Reach s₁ s') : M.Reach s s' := by
  obtain ⟨as, has⟩ := h
  obtain ⟨bs, hbs⟩ := h'
  refine ⟨as ++ bs, ?_⟩
  rw [run_append, has, Option.bind_some]
  exact hbs

end Lts

end ScoreboardCtrl.Lib
