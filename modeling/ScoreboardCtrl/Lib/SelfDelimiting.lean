import Mathlib.Data.List.Basic
import Mathlib.Tactic.Common

/-!
# Self-delimiting codes

A code is self-delimiting when what follows an encoding never changes what it reads as.

* `SelfDelimiting.longest` — behind a list of encodings none is left where none starts the rest;
* `SelfDelimiting.unique` — a string splits into encodings, and a rest that starts with none, in one
  way only.
-/

namespace ScoreboardCtrl.Lib

variable {α β : Type} {enc : α → List β}

/-- Two strings that start with an encoding are equal only if the encodings are. -/
def SelfDelimiting (enc : α → List β) : Prop :=
  ∀ ⦃x y r s⦄, enc x ++ r = enc y ++ s → x = y ∧ r = s

/-- No encoding starts the string. -/
def NoneStarts (enc : α → List β) (r : List β) : Prop := ∀ x s, r ≠ enc x ++ s

theorem flatMap_cons_append (x : α) (xs : List α) (r : List β) :
    (x :: xs).flatMap enc ++ r = enc x ++ (xs.flatMap enc ++ r) := by
  rw [List.flatMap_cons, List.append_assoc]

namespace SelfDelimiting

variable (h : SelfDelimiting enc) {xs ys : List α} {r s : List β}

include h

theorem longest (hs : NoneStarts enc s) (heq : xs.flatMap enc ++ r = ys.flatMap enc ++ s) :
    xs <+: ys := by
  induction xs generalizing ys with
  | nil => exact ⟨ys, rfl⟩
  | cons x xs ih =>
    rw [flatMap_cons_append] at heq
    cases ys with
    | nil => exact absurd heq.symm (hs x _)
    | cons y ys =>
      rw [flatMap_cons_append] at heq
      obtain ⟨rfl, hrest⟩ := h heq
      obtain ⟨more, hmore⟩ := ih hrest
      exact ⟨more, by rw [List.cons_append, hmore]⟩

theorem unique (hr : NoneStarts enc r) (hs : NoneStarts enc s)
    (heq : xs.flatMap enc ++ r = ys.flatMap enc ++ s) : xs = ys ∧ r = s := by
  obtain ⟨more, rfl⟩ := h.longest hs heq
  -- what `ys` has more than `xs` would start the rest
  cases more with
  | nil =>
    rw [List.append_nil] at heq ⊢
    exact ⟨rfl, List.append_cancel_left heq⟩
  | cons y more =>
    rw [List.flatMap_append, List.append_assoc, flatMap_cons_append] at heq
    exact absurd (List.append_cancel_left heq) (hr y _)

end SelfDelimiting

end ScoreboardCtrl.Lib
