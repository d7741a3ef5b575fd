import Mathlib.Tactic.Common

/-!
# Machines that read a stream

A machine that takes one input at a time, may fail on it, and hands out a list of outputs. `run`
feeds it a list of inputs.

* `run_append` — a stream may be cut anywhere;
* `run_history` — what every step keeps between inputs, state and outputs;
* `chunked`, `chunked_run` — reading in chunks is reading the concatenation;
* `Simulates` — a machine that cannot fail under an invariant, followed step by step by a total one;
  `Simulates.run` carries this to whole runs.
-/

namespace ScoreboardCtrl.Lib

/-- A machine with states `σ`, inputs `ι` and outputs `ω`; `none` is a failure. -/
structure Mealy (σ ι ω : Type) where
  step : ι → σ → Option (σ × List ω)

namespace Mealy

variable {σ τ ι ω : Type} (M : Mealy σ ι ω)

def run : List ι → σ → Option (σ × List ω)
  | [], s => some (s, [])
  | i :: is, s => (M.step i s).bind fun r => (run is r.1).map fun r' => (r'.1, r.2 ++ r'.2)

@[simp] theorem run_nil (s : σ) : M.run [] s = some (s, []) := rfl

theorem run_cons (i : ι) (is : List ι) (s : σ) : M.run (i :: is) s =
    (M.step i s).bind fun r => (M.run is r.1).map fun r' => (r'.1, r.2 ++ r'.2) := rfl

theorem run_append (xs ys : List ι) (s : σ) : M.run (xs ++ ys) s =
    (M.run xs s).bind fun r => (M.run ys r.1).map fun r' => (r'.1, r.2 ++ r'.2) := by
  induction xs generalizing s with
  | nil => simp
  | cons i xs ih =>
    simp only [List.cons_append, run_cons, ih]
    cases M.step i s with
    | none => rfl
    | some r =>
      cases h : M.run xs r.1 with
      | none => simp [h]
      | some r' => simp [h, Function.comp_def]

/-- **A relation between what was fed, the state and what was handed out**, kept by every step, which
therefore never fails: it is kept by whole runs. -/
theorem run_history {R : List ι → σ → List ω → Prop}
    (hstep : ∀ past s os i, R past s os → ∃ s' o, M.step i s = some (s', o) ∧ R (past ++ [i]) s' (os ++ o))
    (is : List ι) {past : List ι} {s : σ} {os : List ω} (h : R past s os) :
    ∃ s' o, M.run is s = some (s', o) ∧ R (past ++ is) s' (os ++ o) := by
  induction is generalizing past s os with
  | nil => exact ⟨s, [], rfl, by simpa using h⟩
  | cons i is ih =>
    obtain ⟨s₁, o₁, hi, h₁⟩ := hstep past s os i h
    obtain ⟨s₂, o₂, his, h₂⟩ := ih h₁
    refine ⟨s₂, o₁ ++ o₂, ?_, by simpa using h₂⟩
    rw [run_cons, hi, Option.bind_some, his]
    rfl

/-- The machine that is fed whole chunks. -/
def chunked : Mealy σ (List ι) ω := ⟨M.run⟩

/-- **How the stream is cut does not matter.** -/
theorem chunked_run (xss : List (List ι)) (s : σ) : M.chunked.run xss s = M.run xss.flatten s := by
  induction xss generalizing s with
  | nil => rfl
  | cons xs xss ih =>
    simp only [List.flatten_cons, run_append, run_cons, ih]
    rfl

/-! ### Total machines -/

/-- The run of a machine that cannot fail. -/
def total (step : ι → τ → τ × List ω) : List ι → τ → τ × List ω
  | [], t => (t, [])
  | i :: is, t => ((total step is (step i t).1).1, (step i t).2 ++ (total step is (step i t).1).2)

@[simp] theorem total_nil (step : ι → τ → τ × List ω) (t : τ) : total step [] t = (t, []) := rfl

theorem total_cons (step : ι → τ → τ × List ω) (i : ι) (is : List ι) (t : τ) :
    total step (i :: is) t =
      ((total step is (step i t).1).1, (step i t).2 ++ (total step is (step i t).1).2) := rfl

theorem total_append (step : ι → τ → τ × List ω) (xs ys : List ι) (t : τ) :
    total step (xs ++ ys) t =
      ((total step ys (total step xs t).1).1,
        (total step xs t).2 ++ (total step ys (total step xs t).1).2) := by
  induction xs generalizing t with
  | nil => simp
  | cons i xs ih => simp only [List.cons_append, total_cons, ih, List.append_assoc]

/-- Where `inv` holds `M` does not fail, keeps `inv`, and does what `step` does to what `view`
shows of its state. -/
def Simulates (inv : σ → Prop) (view : σ → τ) (step : ι → τ → τ × List ω) : Prop :=
  ∀ i s, inv s → ∃ s', M.step i s = some (s', (step i (view s)).2) ∧ inv s' ∧
    view s' = (step i (view s)).1

variable {M} {inv : σ → Prop} {view : σ → τ} {step : ι → τ → τ × List ω}

/-- **Whole runs do not fail either, and hand out what the total machine does.** -/
theorem Simulates.run (h : M.Simulates inv view step) (is : List ι) {s : σ} (hs : inv s) :
    ∃ s', M.run is s = some (s', (total step is (view s)).2) ∧ inv s' ∧
      view s' = (total step is (view s)).1 := by
  induction is generalizing s with
  | nil => exact ⟨s, rfl, hs, rfl⟩
  | cons i is ih =>
    obtain ⟨s₁, hstep, hinv, hview⟩ := h i s hs
    obtain ⟨s₂, hrun, hinv', hview'⟩ := ih hinv
    refine ⟨s₂, ?_, hinv', ?_⟩
    · rw [run_cons, hstep, Option.bind_some, hrun, hview]
      rfl
    · rw [hview', hview]
      rfl

end Mealy

end ScoreboardCtrl.Lib
