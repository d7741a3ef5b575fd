import Mathlib.Algebra.Group.Nat.Defs
import Mathlib.Data.List.Induction
import Mathlib.Tactic.Common

/-!
# The captive-portal window

`mark_ui_served` notes when a page of the UI was served, in milliseconds cut to 32 bits;
`apple_probe_done` compares that note with the time of a probe by a wrapping subtraction. So it knows the
age of the last page modulo `2^32` ms, about 49 days and 17 hours (`wrapped_age`), and
`probe_window_iff` says when that age shows the right side of the window.
-/

namespace ScoreboardCtrl.Http

/-! ### The statics -/

/-- `UI_CAPTIVE_MS` -/
abbrev uiCaptiveMs : UInt32 := 90000

/-- `SERVED_UI` and `LAST_UI_MS`. -/
structure Portal where
  servedUi : Bool
  lastUiMs : UInt32
  deriving DecidableEq, Repr

def Portal.init : Portal := ⟨false, 0⟩

/-- `mark_ui_served`, `now` milliseconds after power-on. -/
def markUiServed (now : ℕ) (_ : Portal) : Portal := ⟨true, UInt32.ofNat now⟩

/-- `apple_probe_done` -/
def appleProbeDone (now : ℕ) (s : Portal) : Bool :=
  if !s.servedUi then false
  else
    let last := s.lastUiMs
    let now := UInt32.ofNat now
    decide (now - last < uiCaptiveMs)

inductive ProbeReply where
  | redirect
  | appleDone
  deriving DecidableEq, Repr

/-- What `AppleProbe` answers. -/
def appleProbe (now : ℕ) (s : Portal) : ProbeReply :=
  if appleProbeDone now s then .appleDone else .redirect

/-! ### Runs -/

inductive PortalCall where
  | mark
  | probe
  deriving DecidableEq, Repr

def PortalCall.run (now : ℕ) (s : Portal) : PortalCall → Portal
  | .mark => markUiServed now s
  | .probe => s

/-- The statics after some calls, each with its time. -/
def portalRun (calls : List (ℕ × PortalCall)) (s : Portal) : Portal :=
  calls.foldl (fun s c => c.2.run c.1 s) s

/-- When pages of the UI were served. -/
def pages (calls : List (ℕ × PortalCall)) : List ℕ :=
  (calls.filter fun c => decide (c.2 = .mark)).map Prod.fst

/-- The statics hold the time of the last page. -/
def Portal.Notes (s : Portal) : Option ℕ → Prop
  | none => s.servedUi = false
  | some u => s = ⟨true, UInt32.ofNat u⟩

theorem portalRun_notes (calls : List (ℕ × PortalCall)) :
    (portalRun calls .init).Notes (pages calls).getLast? := by
  induction calls using List.reverseRecOn with
  | nil => rfl
  | append_singleton calls c ih =>
    obtain ⟨t, call⟩ := c
    rw [portalRun, List.foldl_append]
    cases call with
    | mark =>
      have hlast : (pages (calls ++ [(t, .mark)])).getLast? = some t := by simp [pages]
      rw [hlast]
      rfl
    | probe =>
      have hlast : pages (calls ++ [(t, .probe)]) = pages calls := by simp [pages]
      rw [hlast]
      exact ih

/-- The calls stand in the order of their times, none after `t`. -/
def CallsUpTo (t : ℕ) (calls : List (ℕ × PortalCall)) : Prop :=
  (calls.map Prod.fst).Pairwise (· ≤ ·) ∧ ∀ c ∈ calls, c.1 ≤ t

instance (t : ℕ) (calls : List (ℕ × PortalCall)) : Decidable (CallsUpTo t calls) :=
  inferInstanceAs (Decidable ((calls.map Prod.fst).Pairwise (· ≤ ·) ∧ ∀ c ∈ calls, c.1 ≤ t))

theorem pages_le_last {t u : ℕ} {calls : List (ℕ × PortalCall)} (h : CallsUpTo t calls)
    (hu : (pages calls).getLast? = some u) : u ≤ t ∧ ∀ v ∈ pages calls, v ≤ u := by
  obtain ⟨hsorted, hle⟩ := h
  have hpages : (pages calls).Pairwise (· ≤ ·) :=
    hsorted.sublist (List.filter_sublist.map Prod.fst)
  obtain ⟨front, hfront⟩ := List.getLast?_eq_some_iff.1 hu
  refine ⟨?_, fun v hv => ?_⟩
  · have hmem : u ∈ pages calls := by
      rw [hfront]
      simp
    obtain ⟨c, hc, rfl⟩ := List.mem_map.1 hmem
    exact hle c ((List.mem_filter.1 hc).1)
  · rw [hfront] at hv hpages
    rcases List.mem_append.1 hv with hv | hv
    · exact (List.pairwise_append.1 hpages).2.2 v hv u (by simp)
    · exact Nat.le_of_eq (List.mem_singleton.1 hv)

/-! ### The window -/

theorem wrapped_age {u t : ℕ} (h : u ≤ t) :
    (UInt32.ofNat t - UInt32.ofNat u).toNat = (t - u) % 2 ^ 32 := by
  have hu := Nat.mod_lt u (show 0 < 2 ^ 32 by decide)
  rw [UInt32.toNat_sub, UInt32.toNat_ofNat', UInt32.toNat_ofNat']
  omega

theorem appleProbeDone_noted {u t : ℕ} (h : u ≤ t) {s : Portal} (hs : s.Notes (some u)) :
    appleProbeDone t s = true ↔ (t - u) % 2 ^ 32 < 90000 := by
  obtain rfl : s = ⟨true, UInt32.ofNat u⟩ := hs
  show decide (UInt32.ofNat t - UInt32.ofNat u < uiCaptiveMs) = true ↔ _
  rw [decide_eq_true_eq, UInt32.lt_iff_toNat_lt, wrapped_age h]
  rfl

/-- **When the window is exact.** After any calls in the order of their times, a probe at `t` is taken as
done exactly if a page was served less than 90 s ago, if and only if the age of the last page is below
`2^32` ms or is one that does not wrap into the window. -/
theorem probe_window_iff {t : ℕ} {calls : List (ℕ × PortalCall)} (h : CallsUpTo t calls) :
    (appleProbeDone t (portalRun calls .init) = true ↔
        ∃ u ∈ pages calls, u ≤ t ∧ t - u < 90000) ↔
      ∀ u, (pages calls).getLast? = some u → t - u < 2 ^ 32 ∨ 90000 ≤ (t - u) % 2 ^ 32 := by
  have hnotes := portalRun_notes calls
  cases hlast : (pages calls).getLast? with
  | none =>
    rw [hlast] at hnotes
    have hempty : pages calls = [] := List.getLast?_eq_none_iff.1 hlast
    have hdone : appleProbeDone t (portalRun calls .init) = false := by
      have hserved : (portalRun calls .init).servedUi = false := hnotes
      rw [appleProbeDone, hserved]
      rfl
    simp [hempty, hdone]
  | some u =>
    rw [hlast] at hnotes
    obtain ⟨hle, hnewest⟩ := pages_le_last h hlast
    have hmem : u ∈ pages calls := List.mem_of_getLast? hlast
    have hrecent : (∃ v ∈ pages calls, v ≤ t ∧ t - v < 90000) ↔ t - u < 90000 := by
      constructor
      · rintro ⟨v, hv, -, hage⟩
        have hvu := hnewest v hv
        omega
      · exact fun hage => ⟨u, hmem, hle, hage⟩
    rw [appleProbeDone_noted hle hnotes, hrecent]
    simp only [Option.some.injEq, forall_eq']
    omega

/-- A page, and probes inside the window and behind it. -/
theorem probe_window_iff_once :
    appleProbeDone 95000 (portalRun [(5000, .mark), (94999, .probe)] .init) = true ↔
      ∃ u ∈ pages [(5000, .mark), (94999, .probe)], u ≤ 95000 ∧ 95000 - u < 90000 := by
  refine (probe_window_iff (by decide)).2 ?_
  rintro u ⟨⟩
  exact .inl (by decide)

/-- 49 days and 17 hours after the only page, a probe counts as done again. -/
theorem probe_done_after_wrap :
    CallsUpTo (2 ^ 32 + 5000) [(5000, .mark)] ∧
      appleProbe (2 ^ 32 + 5000) (portalRun [(5000, .mark)] .init) = .appleDone ∧
      ¬ ∃ u ∈ pages [(5000, .mark)], u ≤ 2 ^ 32 + 5000 ∧ 2 ^ 32 + 5000 - u < 90000 := by
  decide

end ScoreboardCtrl.Http
