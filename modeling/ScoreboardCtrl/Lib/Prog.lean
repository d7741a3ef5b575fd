import Mathlib.Data.Nat.Notation
import Mathlib.Logic.Relation

/-!
# Programs made of atomic operations

A task of a cooperative executor, seen from outside: a tree whose nodes are the atomic operations
the task performs and whose branches are the answers it can get. Between two operations anything
may happen to the shared state; what may happen is the *rely* of the task, what the task itself
does to the state is its *guarantee*.

* `Prog O R α` — programs over the operations `O`, the operation `o` answering with an `R o`;
* `Prog.All`, `Prog.Ends`, `Prog.AtMost` — what is known of the operations of a program, of its results and
  of the cost of its operations, whatever they answer;
* `Spec.wp` — the weakest precondition of a program under a rely, a guarantee and a condition
  asked of the state at every operation;
* `Spec.wp_bind`, `Spec.wp_mono`, `Spec.wp_stable` — sequencing, consequence and interference;
* `Spec.Triple` — pre- and postconditions, with one rule for each way of building a program, and one
  (`Triple.of_all`) for programs made of harmless operations.
-/

namespace ScoreboardCtrl.Lib

/-- A program over the operations `O`, the operation `o` answering with an `R o`. -/
inductive Prog (O : Type) (R : O → Type) (α : Type) where
  | ret (a : α) : Prog O R α
  | op (o : O) (k : R o → Prog O R α) : Prog O R α

variable {O S α β : Type} {R : O → Type}

namespace Prog

def bind : Prog O R α → (α → Prog O R β) → Prog O R β
  | .ret a, f => f a
  | .op o k, f => .op o fun r => (k r).bind f

instance : Monad (Prog O R) where
  pure := .ret
  bind := .bind

/-- The program of one operation. -/
def call (o : O) : Prog O R (R o) := .op o .ret

theorem bind_op (o : O) (k : R o → Prog O R α) (f : α → Prog O R β) :
    (Prog.op o k >>= f) = .op o fun r => k r >>= f := rfl

/-- Every operation of the program satisfies `P`. -/
def All (P : O → Prop) : Prog O R α → Prop
  | .ret _ => True
  | .op o k => P o ∧ ∀ r, (k r).All P

theorem All.bind {P : O → Prop} {t : Prog O R α} {f : α → Prog O R β} (ht : t.All P)
    (hf : ∀ a, (f a).All P) : (t >>= f).All P := by
  induction t with
  | ret a => exact hf a
  | op o k ih => exact ⟨ht.1, fun r => ih r (ht.2 r)⟩

theorem All.call {P : O → Prop} {o : O} (h : P o) : (call o : Prog O R (R o)).All P :=
  ⟨h, fun _ => trivial⟩

theorem All.of_forall {P : O → Prop} (h : ∀ o, P o) (t : Prog O R α) : t.All P := by
  induction t with
  | ret a => trivial
  | op o k ih => exact ⟨h o, ih⟩

/-- Every result of the program satisfies `Q`. -/
def Ends (Q : α → Prop) : Prog O R α → Prop
  | .ret a => Q a
  | .op _ k => ∀ r, (k r).Ends Q

theorem Ends.of_forall {Q : α → Prop} (h : ∀ a, Q a) (t : Prog O R α) : t.Ends Q := by
  induction t with
  | ret a => exact h a
  | op o k ih => exact ih

theorem Ends.bind {P : α → Prop} {Q : β → Prop} {t : Prog O R α} {f : α → Prog O R β}
    (ht : t.Ends P) (hf : ∀ a, P a → (f a).Ends Q) : (t >>= f).Ends Q := by
  induction t with
  | ret a => exact hf a ht
  | op o k ih => exact fun r => ih r (ht r)

/-- What comes last decides. -/
theorem Ends.after {Q : β → Prop} {f : α → Prog O R β} (t : Prog O R α) (hf : ∀ a, (f a).Ends Q) :
    (t >>= f).Ends Q :=
  bind (P := fun _ => True) (of_forall (fun _ => trivial) t) fun a _ => hf a

/-- The operations of the program cost `n` at most, whatever they answer. -/
def AtMost (cost : O → ℕ) : Prog O R α → ℕ → Prop
  | .ret _, _ => True
  | .op o k, n => ∃ m, cost o + m ≤ n ∧ ∀ r, (k r).AtMost cost m

theorem AtMost.mono {cost : O → ℕ} {t : Prog O R α} {m n : ℕ} (h : t.AtMost cost m) (hle : m ≤ n) :
    t.AtMost cost n := by
  cases t with
  | ret a => trivial
  | op o k =>
    obtain ⟨rest, hrest, hk⟩ := h
    exact ⟨rest, Nat.le_trans hrest hle, hk⟩

theorem AtMost.pure {cost : O → ℕ} {a : α} {n : ℕ} : (Pure.pure a : Prog O R α).AtMost cost n := trivial

theorem AtMost.call {cost : O → ℕ} {o : O} {n : ℕ} (h : cost o ≤ n) :
    (call o : Prog O R (R o)).AtMost cost n :=
  ⟨0, h, fun _ => trivial⟩

theorem AtMost.bind {cost : O → ℕ} {t : Prog O R α} {f : α → Prog O R β} {m n : ℕ}
    (ht : t.AtMost cost m) (hf : ∀ a, (f a).AtMost cost n) : (t >>= f).AtMost cost (m + n) := by
  induction t generalizing m with
  | ret a => exact (hf a).mono (Nat.le_add_left _ _)
  | op o k ih =>
    obtain ⟨rest, hrest, hk⟩ := ht
    exact ⟨rest + n, by omega, fun r => ih r (hk r)⟩

theorem AtMost.after {cost : O → ℕ} {t : Prog O R α} {f : α → Prog O R β} {n : ℕ}
    (ht : t.AtMost cost 0) (hf : ∀ a, (f a).AtMost cost n) : (t >>= f).AtMost cost n :=
  (ht.bind hf).mono (Nat.le_of_eq (Nat.zero_add n))

theorem AtMost.before {cost : O → ℕ} {t : Prog O R α} {f : α → Prog O R β} {n : ℕ}
    (ht : t.AtMost cost n) (hf : ∀ a, (f a).AtMost cost 0) : (t >>= f).AtMost cost n := ht.bind hf

end Prog

/-- What a program is verified against: the effect of its operations, what the others may do
between them, what each of them must do, and what must hold wherever one is about to be made. -/
structure Spec (S O : Type) (R : O → Type) where
  exec : (o : O) → S → R o → S → Prop
  rely : S → S → Prop
  guar : S → S → Prop
  pre : O → S → Prop

namespace Spec

variable (Γ : Spec S O R)

/-- The states from which the program keeps `Γ` and ends in `Q`. -/
def wp (Q : α → S → Prop) : Prog O R α → S → Prop
  | .ret a, s => Q a s
  | .op o k, s => ∀ s₁, Γ.rely s s₁ → Γ.pre o s₁ ∧
      ∀ r s₂, Γ.exec o s₁ r s₂ → Γ.guar s₁ s₂ ∧ wp Q (k r) s₂

variable {Γ} {Q Q' : α → S → Prop}

theorem wp_op {o : O} {k : R o → Prog O R α} {s : S} :
    Γ.wp Q (.op o k) s ↔ ∀ s₁, Γ.rely s s₁ → Γ.pre o s₁ ∧
      ∀ r s₂, Γ.exec o s₁ r s₂ → Γ.guar s₁ s₂ ∧ Γ.wp Q (k r) s₂ := Iff.rfl

/-- **Sequencing.** -/
theorem wp_bind {Q : β → S → Prop} {t : Prog O R α} {f : α → Prog O R β} {s : S} :
    Γ.wp Q (t >>= f) s ↔ Γ.wp (fun a s => Γ.wp Q (f a) s) t s := by
  induction t generalizing s with
  | ret a => exact Iff.rfl
  | op o k ih =>
    rw [Prog.bind_op, wp_op, wp_op]
    simp only [ih]

/-- **Consequence.** -/
theorem wp_mono {t : Prog O R α} {s : S} (hQ : ∀ a s, Q a s → Q' a s) (h : Γ.wp Q t s) :
    Γ.wp Q' t s := by
  induction t generalizing s with
  | ret a => exact hQ a s h
  | op o k ih =>
    intro s₁ hs
    obtain ⟨hpre, hk⟩ := h s₁ hs
    exact ⟨hpre, fun r s₂ he => ⟨(hk r s₂ he).1, ih r (hk r s₂ he).2⟩⟩

/-- **Interference.** What the others do leaves the precondition alone. -/
theorem wp_stable (htrans : ∀ s₁ s₂ s₃, Γ.rely s₁ s₂ → Γ.rely s₂ s₃ → Γ.rely s₁ s₃)
    (hQ : ∀ a s s', Q a s → Γ.rely s s' → Q a s') {t : Prog O R α} {s s' : S}
    (h : Γ.wp Q t s) (hs : Γ.rely s s') : Γ.wp Q t s' := by
  cases t with
  | ret a => exact hQ a s s' h hs
  | op o k => exact fun s₁ hs₁ => h s₁ (htrans _ _ _ hs hs₁)

/-- Nothing the others do falsifies `J`. -/
def Stable (Γ : Spec S O R) (J : S → Prop) : Prop := ∀ s s', Γ.rely s s' → J s → J s'

/-- The operation `o`, made where `J` holds, keeps the specification and answers as `Q` says. -/
def OpTriple (Γ : Spec S O R) (J : S → Prop) (o : O) (Q : R o → S → Prop) : Prop :=
  ∀ s, J s → Γ.pre o s ∧ ∀ r s', Γ.exec o s r s' → Γ.guar s s' ∧ Q r s'

/-- Started where `J` holds, the program keeps the specification and ends in `Q`. -/
def Triple (Γ : Spec S O R) (J : S → Prop) (t : Prog O R α) (Q : α → S → Prop) : Prop :=
  ∀ s, J s → Γ.wp Q t s

namespace Triple

variable {J J' : S → Prop} {t : Prog O R α}

theorem pure {a : α} (h : ∀ s, J s → Q a s) : Γ.Triple J (Pure.pure a : Prog O R α) Q := h

theorem call {o : O} {Q : R o → S → Prop} (hJ : Γ.Stable J) (h : Γ.OpTriple J o Q) :
    Γ.Triple J (Prog.call o) Q :=
  fun s hs s₁ hr => h s₁ (hJ s s₁ hr hs)

theorem bind {Q : β → S → Prop} {f : α → Prog O R β} {K : α → S → Prop} (ht : Γ.Triple J t K)
    (hf : ∀ a, Γ.Triple (K a) (f a) Q) : Γ.Triple J (t >>= f) Q :=
  fun s hs => wp_bind.2 (wp_mono (fun a s' ha => hf a s' ha) (ht s hs))

theorem mono (ht : Γ.Triple J t Q) (hJ : ∀ s, J' s → J s) (hQ : ∀ a s, Q a s → Q' a s) :
    Γ.Triple J' t Q' :=
  fun s hs => wp_mono hQ (ht s (hJ s hs))

/-- A program all operations of which keep `J`. -/
theorem of_all {P : O → Prop} (hJ : Γ.Stable J) (hP : ∀ o, P o → Γ.OpTriple J o fun _ => J)
    (ht : t.All P) : Γ.Triple J t fun _ => J := by
  induction t with
  | ret a => exact fun _ hs => hs
  | op o k ih =>
    intro s hs s₁ hr
    obtain ⟨hpre, hpost⟩ := hP o ht.1 s₁ (hJ s s₁ hr hs)
    refine ⟨hpre, fun r s₂ he => ?_⟩
    obtain ⟨hguar, hs₂⟩ := hpost r s₂ he
    exact ⟨hguar, ih r (ht.2 r) s₂ hs₂⟩

/-- What is known of the results whatever the state. -/
theorem ends {E : α → Prop} (h : Γ.Triple J t Q) (hE : t.Ends E) :
    Γ.Triple J t fun a s => E a ∧ Q a s := by
  suffices hwp : ∀ s, Γ.wp Q t s → Γ.wp (fun a s => E a ∧ Q a s) t s from fun s hs => hwp s (h s hs)
  clear h
  induction t with
  | ret a => exact fun _ hQ => ⟨hE, hQ⟩
  | op o k ih =>
    intro s hs s₁ hr
    obtain ⟨hpre, hpost⟩ := hs s₁ hr
    exact ⟨hpre, fun r s₂ he => ⟨(hpost r s₂ he).1, ih r (hE r) s₂ (hpost r s₂ he).2⟩⟩

theorem absurd (h : ∀ s, ¬ J s) : Γ.Triple J t Q := fun s hs => (h s hs).elim

/-- A fact about the state that does not depend on the state. -/
theorem of_fact {p : Prop} (h : p → Γ.Triple J t Q) : Γ.Triple (fun s => p ∧ J s) t Q :=
  fun s hs => h hs.1 s hs.2

end Triple

end Spec

end ScoreboardCtrl.Lib
