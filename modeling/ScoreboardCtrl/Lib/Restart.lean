import Mathlib.Data.List.Induction
import Mathlib.Tactic.Common

/-!
# A matcher that starts again

A matcher for a pattern that keeps one number: how much of the pattern it has seen. At a letter that
does not go on it starts again with that letter, or with the next one.

* `tells` — it has seen `j` letters exactly behind the first `j` letters of the pattern, unless
  their first one was taken for a later letter of the pattern (`Swallowed`);
* `hits_iff` — it finds the pattern exactly where an occurrence was not swallowed.
-/

namespace ScoreboardCtrl.Lib.Restart

variable {α : Type} [DecidableEq α] {pat : List α} {n : ℕ}

def step (pat : List α) (n : ℕ) (a : α) : ℕ :=
  if pat[n]? = some a then n + 1 else if pat[0]? = some a then 1 else 0

def run (pat : List α) (n : ℕ) (s : List α) : ℕ := s.foldl (step pat) n

/-- Somewhere in `s` the whole pattern was seen. -/
def Hits (pat : List α) (n : ℕ) (s : List α) : Prop :=
  ∃ t rest, s = t ++ rest ∧ run pat n t = pat.length

/-- A first letter behind `past` is taken for a later one: `past` ends with so much of the pattern
that the first letter goes on, and that was not swallowed itself. -/
def Swallowed (pat past : List α) : Prop :=
  ∃ j older, ∃ _ : 0 < j ∧ j < pat.length ∧ past = older ++ pat.take j,
    pat[j]? = pat[0]? ∧ ¬ Swallowed pat older
  termination_by past.length
  decreasing_by
    rename_i h
    rw [h.2.2, List.length_append, List.length_take]
    omega

theorem run_append (s u : List α) : run pat n (s ++ u) = run pat (run pat n s) u :=
  List.foldl_append

theorem run_concat (s : List α) (a : α) : run pat n (s ++ [a]) = step pat (run pat n s) a :=
  run_append s [a]

theorem step_le (hpat : 0 < pat.length) (a : α) :
    step pat n a ≤ pat.length := by
  unfold step
  split
  · rename_i h
    exact (List.getElem?_eq_some_iff.1 h).1
  · split <;> omega

theorem run_le (hn : n ≤ pat.length) (hpat : 0 < pat.length) (s : List α) :
    run pat n s ≤ pat.length := by
  induction s generalizing n with
  | nil => exact hn
  | cons a s ih => exact ih (step_le hpat a)

/-! ### What was seen -/

omit [DecidableEq α] in
theorem take_succ {j : ℕ} {a : α} (h : pat[j]? = some a) : pat.take (j + 1) = pat.take j ++ [a] := by
  rw [List.take_add_one, h]
  rfl

/-- What the number tells of a text: how much of the pattern it ends with, where the first letter of
that was not swallowed. -/
def Tells (pat t : List α) : Prop :=
  ∀ j, 0 < j → j ≤ pat.length →
    (run pat 0 t = j ↔ ∃ past, t = past ++ pat.take j ∧ ¬ Swallowed pat past)

namespace Tells

variable {t : List α}

theorem nil (pat : List α) : Tells pat [] := by
  intro j hj hle
  constructor
  · intro hrun
    exact absurd hrun (Nat.ne_of_lt hj)
  · rintro ⟨past, heq, -⟩
    have hlen := congrArg List.length heq
    rw [List.length_append, List.length_take, List.length_nil] at hlen
    omega

/-- A first letter is swallowed where the number is that of a first letter. -/
theorem swallowed_iff (h : Tells pat t) : Swallowed pat t ↔
    0 < run pat 0 t ∧ run pat 0 t < pat.length ∧ pat[run pat 0 t]? = pat[0]? := by
  rw [Swallowed]
  constructor
  · rintro ⟨j, older, ⟨hj, hlt, heq⟩, hfirst, hold⟩
    have hrun := (h j hj (Nat.le_of_lt hlt)).2 ⟨older, heq, hold⟩
    rw [hrun]
    exact ⟨hj, hlt, hfirst⟩
  · rintro ⟨hpos, hlt, hfirst⟩
    obtain ⟨older, heq, hold⟩ := (h _ hpos (Nat.le_of_lt hlt)).1 rfl
    exact ⟨_, older, ⟨hpos, hlt, heq⟩, hfirst, hold⟩

/-- The number of a first letter that is not swallowed. -/
theorem run_first (h : Tells pat t) {a : α} (ha : pat[0]? = some a) (hnot : ¬ Swallowed pat t) :
    run pat 0 (t ++ [a]) = 1 := by
  rw [run_concat, step]
  by_cases hgo : pat[run pat 0 t]? = some a
  · have hlt := (List.getElem?_eq_some_iff.1 hgo).1
    have hzero : run pat 0 t = 0 := by
      by_contra hne
      exact hnot (h.swallowed_iff.2 ⟨by omega, hlt, hgo.trans ha.symm⟩)
    rw [if_pos hgo, hzero]
  · rw [if_neg hgo, if_pos ha]

theorem concat (h : Tells pat t) (a : α) : Tells pat (t ++ [a]) := by
  intro j hj hle
  constructor
  · intro hrun
    rw [run_concat, step] at hrun
    by_cases hgo : pat[run pat 0 t]? = some a
    · rw [if_pos hgo] at hrun
      by_cases hzero : run pat 0 t = 0
      · rw [hzero] at hgo hrun
        refine ⟨t, by rw [← hrun, take_succ hgo]; rfl, ?_⟩
        rw [h.swallowed_iff]
        omega
      · obtain ⟨past, heq, hpast⟩ := (h (run pat 0 t) (by omega) (by omega)).1 rfl
        refine ⟨past, ?_, hpast⟩
        rw [← hrun, take_succ hgo, ← List.append_assoc, ← heq]
    · rw [if_neg hgo] at hrun
      by_cases hstart : pat[0]? = some a
      · rw [if_pos hstart] at hrun
        refine ⟨t, by rw [← hrun, take_succ hstart]; rfl, ?_⟩
        rw [h.swallowed_iff]
        rintro ⟨-, -, hsame⟩
        exact hgo (hsame.trans hstart)
      · rw [if_neg hstart] at hrun
        omega
  · rintro ⟨past, heq, hpast⟩
    obtain ⟨i, rfl⟩ : ∃ i, j = i + 1 := ⟨j - 1, by omega⟩
    have hlast : pat[i]? = some pat[i] := List.getElem?_eq_getElem (by omega)
    rw [take_succ hlast, ← List.append_assoc] at heq
    obtain ⟨rfl, ha⟩ := List.append_inj' heq rfl
    obtain rfl := (List.cons.inj ha).1
    by_cases hzero : i = 0
    · subst hzero
      rw [List.take_zero, List.append_nil] at h ⊢
      exact h.run_first hlast hpast
    · have hrun := (h i (by omega) (by omega)).2 ⟨past, rfl, hpast⟩
      rw [run_concat, hrun, step, if_pos hlast]

end Tells

/-- **The number tells of every text.** -/
theorem tells (pat t : List α) : Tells pat t := by
  induction t using List.reverseRecOn with
  | nil => exact .nil pat
  | append_singleton t a ih => exact ih.concat a

/-! ### Hits -/

theorem hits_nil : Hits pat n [] ↔ n = pat.length := by
  constructor
  · rintro ⟨t, rest, heq, hrun⟩
    obtain ⟨rfl, rfl⟩ := List.append_eq_nil_iff.1 heq.symm
    exact hrun
  · exact fun h => ⟨[], [], rfl, h⟩

theorem hits_cons {a : α} {s : List α} :
    Hits pat n (a :: s) ↔ n = pat.length ∨ Hits pat (step pat n a) s := by
  constructor
  · rintro ⟨t, rest, heq, hrun⟩
    rcases t with _ | ⟨b, t⟩
    · exact .inl hrun
    · obtain ⟨rfl, hs⟩ := List.cons.inj heq
      exact .inr ⟨t, rest, hs, hrun⟩
  · rintro (h | ⟨t, rest, rfl, hrun⟩)
    · exact ⟨[], a :: s, rfl, h⟩
    · exact ⟨a :: t, rest, rfl, hrun⟩

theorem hits_append {s u : List α} :
    Hits pat n (s ++ u) ↔ Hits pat n s ∨ Hits pat (run pat n s) u := by
  induction s generalizing n with
  | nil =>
    have hempty : n = pat.length → Hits pat n u := fun h => ⟨[], u, rfl, h⟩
    rw [hits_nil]
    exact ⟨.inr, fun h => h.elim hempty id⟩
  | cons a s ih =>
    rw [List.cons_append, hits_cons, hits_cons, ih, or_assoc]
    rfl

/-- **The pattern is found where it was not swallowed.** -/
theorem hits_iff (hpat : 0 < pat.length) {s : List α} :
    Hits pat 0 s ↔ ∃ past rest, s = past ++ pat ++ rest ∧ ¬ Swallowed pat past := by
  constructor
  · rintro ⟨t, rest, rfl, hrun⟩
    obtain ⟨past, rfl, hpast⟩ := (tells pat t _ hpat (Nat.le_refl _)).1 hrun
    rw [List.take_length]
    exact ⟨past, rest, rfl, hpast⟩
  · rintro ⟨past, rest, rfl, hpast⟩
    refine ⟨past ++ pat, rest, rfl, (tells pat _ _ hpat (Nat.le_refl _)).2 ⟨past, ?_, hpast⟩⟩
    rw [List.take_length]

end ScoreboardCtrl.Lib.Restart
