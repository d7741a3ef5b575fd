import ScoreboardCtrl.Lib.Prog

/-!
# One looping task in its environment

A task that runs the same program for ever, each time from what the last turn returned, while an
environment changes the shared state between its operations. The task stands at `ret a` exactly
at the head of its loop.

`Solo.wp_reach` is the rule of the loop: if every turn, started where `Q` holds, keeps the
specification and ends where `Q` holds, then `Q` holds whenever the task is at the head of its
loop. `Solo.guar_reach` carries to every reachable state what the environment and the guarantee
both keep.
-/

namespace ScoreboardCtrl.Lib

variable {O S α : Type} {R : O → Type}

/-- A looping task in an environment. -/
structure Solo (S O : Type) (R : O → Type) (α : Type) where
  exec : (o : O) → S → R o → S → Prop
  env : S → S → Prop
  body : α → Prog O R α

/-- The shared state and what is left of the current turn. -/
structure Solo.Conf (S O : Type) (R : O → Type) (α : Type) where
  state : S
  task : Prog O R α

namespace Solo

variable (M : Solo S O R α)

inductive Step : Conf S O R α → Conf S O R α → Prop
  | op {o : O} {k : R o → Prog O R α} {s s' : S} {r : R o} :
      M.exec o s r s' → Step ⟨s, .op o k⟩ ⟨s', k r⟩
  | turn {a : α} {s : S} : Step ⟨s, .ret a⟩ ⟨s, M.body a⟩
  | env {s s' : S} {t : Prog O R α} : M.env s s' → Step ⟨s, t⟩ ⟨s', t⟩

/-- `c'` is reached from `c` by some interleaving. -/
def Reach : Conf S O R α → Conf S O R α → Prop := Relation.ReflTransGen M.Step

variable {M} {Γ : Spec S O R} {Q : α → S → Prop}

/-- The specification is one of `M`: same operations, and a rely that covers the environment. -/
structure Fits (M : Solo S O R α) (Γ : Spec S O R) (Q : α → S → Prop) : Prop where
  exec : ∀ o s r s', M.exec o s r s' → Γ.exec o s r s'
  env : ∀ s s', M.env s s' → Γ.rely s s'
  refl : ∀ s, Γ.rely s s
  trans : ∀ s₁ s₂ s₃, Γ.rely s₁ s₂ → Γ.rely s₂ s₃ → Γ.rely s₁ s₃
  stable : ∀ a s s', Q a s → Γ.rely s s' → Q a s'
  turn : ∀ a s, Q a s → Γ.wp Q (M.body a) s

/-- **The rule of the loop.** -/
theorem wp_reach (hΓ : Fits M Γ Q) {c c' : Conf S O R α} (h : M.Reach c c')
    (hc : Γ.wp Q c.task c.state) : Γ.wp Q c'.task c'.state := by
  induction h with
  | refl => exact hc
  | tail _ hstep ih =>
    cases hstep with
    | op he => exact ((ih _ (hΓ.refl _)).2 _ _ (hΓ.exec _ _ _ _ he)).2
    | turn => exact hΓ.turn _ _ ih
    | env he => exact Spec.wp_stable hΓ.trans hΓ.stable ih (hΓ.env _ _ he)

theorem head_reach (hΓ : Fits M Γ Q) {s s' : S} {a a' : α} (h : M.Reach ⟨s, .ret a⟩ ⟨s', .ret a'⟩)
    (hs : Q a s) : Q a' s' := wp_reach hΓ h hs

/-- What the environment and the guarantee keep holds in every reachable state. -/
theorem guar_reach (hΓ : Fits M Γ Q) {I : S → Prop} (hrely : ∀ s s', Γ.rely s s' → I s → I s')
    (hguar : ∀ s s', Γ.guar s s' → I s → I s') {c c' : Conf S O R α} (h : M.Reach c c')
    (hc : Γ.wp Q c.task c.state) (hI : I c.state) : I c'.state := by
  induction h with
  | refl => exact hI
  | tail hreach hstep ih =>
    have hwp := wp_reach hΓ hreach hc
    cases hstep with
    | op he => exact hguar _ _ ((hwp _ (hΓ.refl _)).2 _ _ (hΓ.exec _ _ _ _ he)).1 ih
    | turn => exact ih
    | env he => exact hrely _ _ (hΓ.env _ _ he) ih

/-- The specification whose rely is exactly what the environment does, any number of times. -/
def spec (M : Solo S O R α) (guar : S → S → Prop) (pre : O → S → Prop) : Spec S O R where
  exec := M.exec
  rely := Relation.ReflTransGen M.env
  guar := guar
  pre := pre

theorem stable_spec {guar : S → S → Prop} {pre : O → S → Prop} {J : S → Prop}
    (h : ∀ s s', M.env s s' → J s → J s') : (M.spec guar pre).Stable J := by
  intro s s' hs hJ
  induction hs with
  | refl => exact hJ
  | tail _ he ih => exact h _ _ he ih

theorem fits_spec {guar : S → S → Prop} {pre : O → S → Prop}
    (hQ : ∀ a s s', M.env s s' → Q a s → Q a s')
    (hturn : ∀ a, (M.spec guar pre).Triple (Q a) (M.body a) Q) : Fits M (M.spec guar pre) Q where
  exec _ _ _ _ he := he
  env _ _ he := Relation.ReflTransGen.single he
  refl _ := Relation.ReflTransGen.refl
  trans _ _ _ := Relation.ReflTransGen.trans
  stable a s s' hq hs := stable_spec (hQ a) s s' hs hq
  turn a s hq := hturn a s hq

/-- What the environment keeps and every operation that the turns may make. -/
theorem inv_reach {P : O → Prop} {I : S → Prop} (hbody : ∀ a, (M.body a).All P)
    (hexec : ∀ o s r s', P o → M.exec o s r s' → I s → I s')
    (henv : ∀ s s', M.env s s' → I s → I s') {c c' : Conf S O R α} (h : M.Reach c c')
    (hc : c.task.All P) (hI : I c.state) : I c'.state ∧ c'.task.All P := by
  induction h with
  | refl => exact ⟨hI, hc⟩
  | tail _ hstep ih =>
    cases hstep with
    | op he => exact ⟨hexec _ _ _ _ ih.2.1 he ih.1, ih.2.2 _⟩
    | turn => exact ⟨ih.1, hbody _⟩
    | env he => exact ⟨henv _ _ he ih.1, ih.2⟩

end Solo

end ScoreboardCtrl.Lib
