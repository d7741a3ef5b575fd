import ScoreboardCtrl.Lib.Prog
import Mathlib.Logic.Function.Basic

/-!
# A pool of tasks

Any number of tasks, each its own program, over one shared state, together with an environment.
A task may enter at any time; where its program has returned it goes on with what `next` says, or
leaves the pool.

Each task is verified against a `Spec` of its own. `Pool.Fits` asks that what one task guarantees
is what the others rely on, and `wp_reach` is the rule of parallel composition: then every open
task keeps its specification in every reachable state, and the invariant `I` holds there.
-/

namespace ScoreboardCtrl.Lib

variable {ι O S α : Type} {R : O → Type}

structure Pool (ι S O : Type) (R : O → Type) (α : Type) where
  exec : ι → (o : O) → S → R o → S → Prop
  env : S → S → Prop
  /-- what becomes of the shared state when a task enters -/
  enter : ι → S → S → Prop
  start : ι → Prog O R α
  next : α → Option (Prog O R α)

/-- The shared state and what is left of each open task. -/
structure Pool.Conf (ι S O : Type) (R : O → Type) (α : Type) where
  state : S
  task : ι → Option (Prog O R α)

namespace Pool

variable [DecidableEq ι] (M : Pool ι S O R α)

inductive Step (c : Conf ι S O R α) : Conf ι S O R α → Prop
  | op {i : ι} {o : O} {k : R o → Prog O R α} {s' : S} {r : R o} :
      c.task i = some (.op o k) → M.exec i o c.state r s' →
      Step c ⟨s', Function.update c.task i (some (k r))⟩
  | next {i : ι} {a : α} : c.task i = some (.ret a) →
      Step c ⟨c.state, Function.update c.task i (M.next a)⟩
  | enter {i : ι} {s' : S} : c.task i = none → M.enter i c.state s' →
      Step c ⟨s', Function.update c.task i (some (M.start i))⟩
  | env {s' : S} : M.env c.state s' → Step c ⟨s', c.task⟩

/-- `c'` is reached from `c` by some interleaving. -/
def Reach : Conf ι S O R α → Conf ι S O R α → Prop := Relation.ReflTransGen M.Step

variable {M} {Γ : ι → Spec S O R} {Q : ι → α → S → Prop} {I : S → Prop}

/-- The tasks' specifications fit together, under the invariant `I`. -/
structure Fits (M : Pool ι S O R α) (I : S → Prop) (Γ : ι → Spec S O R) (Q : ι → α → S → Prop) :
    Prop where
  exec : ∀ i o s r s', M.exec i o s r s' → (Γ i).exec o s r s'
  refl : ∀ i s, (Γ i).rely s s
  trans : ∀ i s₁ s₂ s₃, (Γ i).rely s₁ s₂ → (Γ i).rely s₂ s₃ → (Γ i).rely s₁ s₃
  stable : ∀ i a s s', Q i a s → (Γ i).rely s s' → Q i a s'
  env : ∀ s s', I s → M.env s s' → I s' ∧ ∀ i, (Γ i).rely s s'
  guar : ∀ i s s', I s → (Γ i).guar s s' → I s' ∧ ∀ j, j ≠ i → (Γ j).rely s s'
  enter : ∀ i s s', I s → M.enter i s s' →
    I s' ∧ (∀ j, j ≠ i → (Γ j).rely s s') ∧ (Γ i).wp (Q i) (M.start i) s'
  next : ∀ i a t s, I s → Q i a s → M.next a = some t → (Γ i).wp (Q i) t s

/-- Every open task keeps its specification. -/
def Conf.Keeps (Γ : ι → Spec S O R) (Q : ι → α → S → Prop) (c : Conf ι S O R α) : Prop :=
  ∀ i t, c.task i = some t → (Γ i).wp (Q i) t c.state

/-- Replacing one task, the others having seen what they rely on. -/
theorem keeps_update (hΓ : Fits M I Γ Q) {c : Conf ι S O R α} (hc : c.Keeps Γ Q) {i : ι} {s' : S}
    {t' : Option (Prog O R α)} (hrely : ∀ j, j ≠ i → (Γ j).rely c.state s')
    (ht' : ∀ t, t' = some t → (Γ i).wp (Q i) t s') :
    Conf.Keeps Γ Q ⟨s', Function.update c.task i t'⟩ := by
  intro j t ht
  simp only at ht
  by_cases hj : j = i
  · subst hj
    rw [Function.update_self] at ht
    exact ht' t ht
  · rw [Function.update_of_ne hj] at ht
    exact Spec.wp_stable (hΓ.trans j) (hΓ.stable j) (hc j t ht) (hrely j hj)

/-- **The rule of parallel composition.** -/
theorem wp_reach (hΓ : Fits M I Γ Q) {c c' : Conf ι S O R α} (h : M.Reach c c') (hI : I c.state)
    (hc : c.Keeps Γ Q) : I c'.state ∧ c'.Keeps Γ Q := by
  induction h with
  | refl => exact ⟨hI, hc⟩
  | tail _ hstep ih =>
    obtain ⟨hI, hc⟩ := ih
    cases hstep with
    | @op i o k s' r ht he =>
      have hop := (hc i _ ht _ (hΓ.refl i _)).2 _ _ (hΓ.exec _ _ _ _ _ he)
      obtain ⟨hI', hrely⟩ := hΓ.guar i _ _ hI hop.1
      refine ⟨hI', keeps_update hΓ hc hrely ?_⟩
      rintro t ⟨⟩
      exact hop.2
    | @next i a ht =>
      refine ⟨hI, keeps_update hΓ hc (fun j _ => hΓ.refl j _) ?_⟩
      exact fun t hnext => hΓ.next i a t _ hI (hc i _ ht) hnext
    | @enter i s' _ he =>
      obtain ⟨hI', hrely, hstart⟩ := hΓ.enter i _ _ hI he
      refine ⟨hI', keeps_update hΓ hc hrely ?_⟩
      rintro t ⟨⟩
      exact hstart
    | @env s' he =>
      obtain ⟨hI', hrely⟩ := hΓ.env _ _ hI he
      refine ⟨hI', fun j t ht => ?_⟩
      exact Spec.wp_stable (hΓ.trans j) (hΓ.stable j) (hc j t ht) (hrely j)

theorem pre_reach (hΓ : Fits M I Γ Q) {c c' : Conf ι S O R α} (h : M.Reach c c') (hI : I c.state)
    (hc : c.Keeps Γ Q) {i : ι} {o : O} {k : R o → Prog O R α} (ht : c'.task i = some (.op o k)) :
    (Γ i).pre o c'.state :=
  ((wp_reach hΓ h hI hc).2 i _ ht _ (hΓ.refl i _)).1

theorem inv_reach (hΓ : Fits M I Γ Q) {c c' : Conf ι S O R α} (h : M.Reach c c') (hI : I c.state)
    (hc : c.Keeps Γ Q) : I c'.state := (wp_reach hΓ h hI hc).1

/-! ### Building a run -/

theorem Reach.op {c₀ c : Conf ι S O R α} (h : M.Reach c₀ c) {i : ι} (o : O) (r : R o)
    {k : R o → Prog O R α} {s' : S} (ht : c.task i = some (.op o k)) (he : M.exec i o c.state r s') :
    ∃ c', M.Reach c₀ c' ∧ c'.state = s' ∧ c'.task i = some (k r) :=
  ⟨_, h.tail (.op ht he), rfl, Function.update_self ..⟩

theorem Reach.next {c₀ c : Conf ι S O R α} (h : M.Reach c₀ c) {i : ι} {a : α}
    (ht : c.task i = some (.ret a)) :
    ∃ c', M.Reach c₀ c' ∧ c'.state = c.state ∧ c'.task i = M.next a :=
  ⟨_, h.tail (.next ht), rfl, Function.update_self ..⟩

theorem Reach.enter {c₀ c : Conf ι S O R α} (h : M.Reach c₀ c) {i : ι} {s' : S}
    (ht : c.task i = none) (he : M.enter i c.state s') :
    ∃ c', M.Reach c₀ c' ∧ c'.state = s' ∧ c'.task i = some (M.start i) :=
  ⟨_, h.tail (.enter ht he), rfl, Function.update_self ..⟩

end Pool

end ScoreboardCtrl.Lib
