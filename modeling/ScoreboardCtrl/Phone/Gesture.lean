import ScoreboardCtrl.Lib.Lts
import Mathlib.Data.List.Induction
import Mathlib.Data.Rat.Defs
import Mathlib.Algebra.Order.Ring.Rat

/-!
# Taps (`onTap` in `src/index.html`)

A button calls its function for a press that ends near where it began, and not again for 280 ms. The
handlers of `pointerdown` and `pointerup` run between other events of the browser; a timer runs when it is
due or later. The `click` handler does nothing but stop the event, and capturing the pointer and stopping
the event are left out here too.

* `onTap_taps` — which `pointerup` calls the function, in every run;
* `onTap_apart` — how far apart the calls are, and that each has its own `pointerdown`.
-/

namespace ScoreboardCtrl

/-- A pointer event; not every browser gives a `button`. Coordinates are exact. -/
structure Pointer where
  button : Option ℤ
  clientX : ℚ
  clientY : ℚ
  deriving DecidableEq, Repr

namespace Pointer

/-- `e.button == null || e.button === 0` -/
def primary (e : Pointer) : Bool := e.button = none ∨ e.button = some 0

/-- `dx * dx + dy * dy > 100` -/
def far (e : Pointer) (startX startY : ℚ) : Bool :=
  let dx := e.clientX - startX
  let dy := e.clientY - startY
  dx * dx + dy * dy > 100

end Pointer

/-- Times are milliseconds. -/
structure OnTap where
  now : ℕ
  locked : Bool
  startX : ℚ
  startY : ℚ
  tracking : Bool
  /-- when the timers that unlock are due -/
  timers : List ℕ
  /-- when the function was called, newest first -/
  taps : List ℕ
  deriving DecidableEq, Repr

/-- How long a tap locks the button. -/
abbrev lockMs : ℕ := 280

namespace OnTap

def load (now : ℕ) : OnTap := ⟨now, false, 0, 0, false, [], []⟩

def pointerdown (e : Pointer) (s : OnTap) : OnTap :=
  if !e.primary then s
  else { s with tracking := true, startX := e.clientX, startY := e.clientY }

def pointerup (e : Pointer) (s : OnTap) : OnTap :=
  if !s.tracking then s
  else
    let s := { s with tracking := false }
    if e.far s.startX s.startY then s
    else if !e.primary then s
    else if s.locked then s
    else { s with locked := true, timers := s.timers ++ [s.now + lockMs], taps := s.now :: s.taps }

end OnTap

inductive TapEvent where
  | elapse (ms : ℕ)
  | down (e : Pointer)
  | up (e : Pointer)
  /-- the `k`-th timer fires -/
  | due (k : ℕ)
  deriving DecidableEq, Repr

def TapEvent.apply : TapEvent → OnTap → Option OnTap
  | .elapse ms, s => some { s with now := s.now + ms }
  | .down e, s => some (s.pointerdown e)
  | .up e, s => some (s.pointerup e)
  | .due k, s =>
    match s.timers[k]? with
    | some t =>
      if t ≤ s.now then some { s with timers := s.timers.eraseIdx k, locked := false } else none
    | none => none

def onTap : Lib.Lts OnTap TapEvent := ⟨TapEvent.apply⟩

/-! ### Presses -/

/-- The press that goes on after an event. -/
def TapEvent.press (going : Option Pointer) : TapEvent → Option Pointer
  | .down e => if e.primary then some e else going
  | .up _ => none
  | .elapse _ | .due _ => going

/-- The press that goes on after some events. -/
def pressOf (es : List TapEvent) : Option Pointer := es.foldl TapEvent.press none

/-- The event begins a press. -/
def TapEvent.begins : TapEvent → Bool
  | .down e => e.primary
  | _ => false

/-- The `pointerup` ends a press, and within 10 px of where it began. -/
def Clean (es : List TapEvent) (e : Pointer) : Prop :=
  e.primary = true ∧ ∃ p ∈ pressOf es, e.far p.clientX p.clientY = false

/-- The timers fire no more than `wait` late. -/
def Unlocks (wait : ℕ) (e : TapEvent) (s : OnTap) : Prop :=
  match e with
  | .elapse ms => ∀ t ∈ s.timers, s.now + ms ≤ t + wait
  | _ => True

instance (wait : ℕ) : (e : TapEvent) → (s : OnTap) → Decidable (Unlocks wait e s)
  | .elapse ms, s => inferInstanceAs (Decidable (∀ t ∈ s.timers, s.now + ms ≤ t + wait))
  | .down _, _ | .up _, _ | .due _, _ => .isTrue trivial

namespace OnTap

variable {es : List TapEvent} {s s' : OnTap} {start wait : ℕ}

theorem pressOf_append (e : TapEvent) : pressOf (es ++ [e]) = e.press (pressOf es) := by
  rw [pressOf, List.foldl_append]
  rfl

theorem countP_begins_append (e : TapEvent) :
    (es ++ [e]).countP TapEvent.begins = es.countP TapEvent.begins + if e.begins then 1 else 0 := by
  rw [List.countP_append, List.countP_singleton]

/-! ### The lock -/

/-- The calls are 280 ms apart, none before `start` or after `now`. -/
structure Apart (start now : ℕ) (taps : List ℕ) : Prop where
  spaced : taps.Pairwise fun later earlier => earlier + lockMs ≤ later
  within : ∀ t ∈ taps, start ≤ t ∧ t ≤ now

/-- So there are not many. -/
theorem Apart.rate {now : ℕ} {taps : List ℕ} (h : Apart start now taps) (hle : start ≤ now) :
    lockMs * taps.length ≤ (now - start) + lockMs := by
  induction taps generalizing now with
  | nil => simp
  | cons t past ih =>
    obtain ⟨hfirst, hpast⟩ := List.pairwise_cons.1 h.spaced
    obtain ⟨hstart, hnow⟩ := h.within t List.mem_cons_self
    rw [List.length_cons]
    cases past with
    | nil => simp
    | cons u past =>
      have hu := hfirst u List.mem_cons_self
      obtain ⟨hu', -⟩ := h.within u (by simp)
      have hrest : Apart start (t - lockMs) (u :: past) := by
        refine ⟨hpast, fun v hv => ⟨(h.within v (List.mem_cons_of_mem _ hv)).1, ?_⟩⟩
        have hv := hfirst v hv
        omega
      have hcount := ih hrest (by omega)
      rw [Nat.mul_succ]
      omega

/-- The state after the events `es` of a page loaded at `start`. -/
structure Sound (start : ℕ) (es : List TapEvent) (s : OnTap) : Prop where
  /-- `tracking` says whether a press goes on, and the rest where it began -/
  press : (pressOf es).map (fun p => (p.clientX, p.clientY)) =
    if s.tracking then some (s.startX, s.startY) else none
  /-- the timer of a locked button is due 280 ms after the last call -/
  timer : s.locked = true → ∃ t, s.timers = [t + lockMs] ∧ s.taps.head? = some t
  free : s.locked = false → s.timers = [] ∧ ∀ t ∈ s.taps, t + lockMs ≤ s.now
  apart : Apart start s.now s.taps
  start : start ≤ s.now
  /-- each call has its own `pointerdown` -/
  count : s.taps.length + (if s.tracking then 1 else 0) ≤ es.countP TapEvent.begins

theorem load_sound (start : ℕ) : Sound start [] (load start) where
  press := rfl
  timer := by rintro ⟨⟩
  free _ := ⟨rfl, by simp [load]⟩
  apart := ⟨.nil, by simp [load]⟩
  start := Nat.le_refl _
  count := Nat.le_refl _

theorem Sound.clean_iff (h : Sound start es s) (e : Pointer) :
    Clean es e ↔ e.primary = true ∧ s.tracking = true ∧ e.far s.startX s.startY = false := by
  have hpress := h.press
  cases htrack : s.tracking with
  | false =>
    rw [htrack] at hpress
    have hnone : pressOf es = none := by simpa using hpress
    simp [Clean, hnone]
  | true =>
    rw [htrack, if_pos rfl] at hpress
    obtain ⟨p, hp, hstart⟩ := Option.map_eq_some_iff.1 hpress
    obtain ⟨hx, hy⟩ := Prod.mk.inj hstart
    simp [Clean, hp, hx, hy]

/-- The timer has run, so the last call is 280 ms ago, and so are the others. -/
theorem Sound.free_of_due (h : Sound start es s) {t : ℕ} (ht : s.taps.head? = some t)
    (hdue : t + lockMs ≤ s.now) : ∀ u ∈ s.taps, u + lockMs ≤ s.now := by
  obtain ⟨past, hpast⟩ := List.head?_eq_some_iff.1 ht
  have hspaced := h.apart.spaced
  rw [hpast] at hspaced ⊢
  intro u hu
  rcases List.mem_cons.1 hu with rfl | hu
  · exact hdue
  · have hle := (List.pairwise_cons.1 hspaced).1 u hu
    omega

/-- What a `pointerup` can do: the function is called, or only the press is over. -/
theorem pointerup_cases (e : Pointer) (s : OnTap) :
    ((e.primary = true ∧ s.tracking = true ∧ e.far s.startX s.startY = false) ∧ s.locked = false ∧
      s.pointerup e = { s with
        tracking := false
        locked := true
        timers := s.timers ++ [s.now + lockMs]
        taps := s.now :: s.taps }) ∨
    ((¬ (e.primary = true ∧ s.tracking = true ∧ e.far s.startX s.startY = false) ∨ s.locked = true) ∧
      s.pointerup e = { s with tracking := false }) := by
  obtain ⟨now, locked, startX, startY, tracking, timers, taps⟩ := s
  cases tracking with
  | false => exact .inr ⟨.inl (by simp), rfl⟩
  | true =>
    cases hfar : e.far startX startY with
    | true => exact .inr ⟨.inl (by simp), by simp [pointerup, hfar]⟩
    | false =>
      cases hprimary : e.primary with
      | false => exact .inr ⟨.inl (by simp), by simp [pointerup, hfar, hprimary]⟩
      | true =>
        cases locked with
        | true => exact .inr ⟨.inr rfl, by simp [pointerup, hfar, hprimary]⟩
        | false => exact .inl ⟨⟨rfl, rfl, rfl⟩, rfl, by simp [pointerup, hfar, hprimary]⟩

theorem Sound.release (h : Sound start es s) (e : Pointer) :
    Sound start (es ++ [.up e]) { s with tracking := false } where
  press := by
    rw [pressOf_append]
    rfl
  timer := h.timer
  free := h.free
  apart := h.apart
  start := h.start
  count := by
    rw [countP_begins_append]
    exact Nat.le_trans (Nat.le_add_right _ _) h.count

theorem Sound.pointerup (h : Sound start es s) (e : Pointer) :
    Sound start (es ++ [.up e]) (s.pointerup e) := by
  rcases pointerup_cases e s with ⟨⟨-, htrack, -⟩, hfree, hup⟩ | ⟨-, hup⟩
  · rw [hup]
    obtain ⟨htimers, hold⟩ := h.free hfree
    have hcount := h.count
    rw [htrack] at hcount
    have hrelease := h.release e
    refine ⟨hrelease.press, fun _ => ⟨s.now, by simp [htimers], rfl⟩, by rintro ⟨⟩, ⟨?_, ?_⟩, h.start, ?_⟩
    · exact List.pairwise_cons.2 ⟨hold, h.apart.spaced⟩
    · exact List.forall_mem_cons.2 ⟨⟨h.start, Nat.le_refl _⟩, h.apart.within⟩
    · rw [countP_begins_append]
      exact hcount
  · rw [hup]
    exact h.release e

theorem Sound.pointerdown (h : Sound start es s) (e : Pointer) :
    Sound start (es ++ [.down e]) (s.pointerdown e) := by
  unfold OnTap.pointerdown
  cases hprimary : e.primary with
  | false =>
    refine ⟨?_, h.timer, h.free, h.apart, h.start, ?_⟩
    · rw [pressOf_append, TapEvent.press, hprimary]
      exact h.press
    · rw [countP_begins_append]
      exact Nat.le_trans h.count (Nat.le_add_right _ _)
  | true =>
    refine ⟨?_, h.timer, h.free, h.apart, h.start, ?_⟩
    · rw [pressOf_append, TapEvent.press, hprimary]
      rfl
    · rw [countP_begins_append, TapEvent.begins, hprimary]
      exact Nat.add_le_add_right (Nat.le_trans (Nat.le_add_right _ _) h.count) 1

theorem Sound.elapse (h : Sound start es s) (ms : ℕ) :
    Sound start (es ++ [.elapse ms]) { s with now := s.now + ms } where
  press := by
    rw [pressOf_append]
    exact h.press
  timer := h.timer
  free hfree := ⟨(h.free hfree).1, fun t ht => Nat.le_trans ((h.free hfree).2 t ht) (Nat.le_add_right _ _)⟩
  apart := ⟨h.apart.spaced, fun t ht =>
    ⟨(h.apart.within t ht).1, Nat.le_trans (h.apart.within t ht).2 (Nat.le_add_right _ _)⟩⟩
  start := Nat.le_trans h.start (Nat.le_add_right _ _)
  count := by
    rw [countP_begins_append]
    exact h.count

/-- The one timer fires, and the button is free. -/
theorem Sound.due (h : Sound start es s) {k t : ℕ} (ht : s.timers[k]? = some t) (hdue : t ≤ s.now) :
    Sound start (es ++ [.due k]) { s with timers := s.timers.eraseIdx k, locked := false } := by
  have hlocked : s.locked = true := by
    by_contra hfree
    rw [(h.free (by simpa using hfree)).1] at ht
    cases ht
  obtain ⟨u, htimers, hlast⟩ := h.timer hlocked
  rw [htimers] at ht
  obtain rfl : k = 0 := by
    cases k with
    | zero => rfl
    | succ k => cases ht
  obtain rfl : u + lockMs = t := Option.some.inj ht
  refine ⟨?_, by rintro ⟨⟩, fun _ => ⟨by rw [htimers]; rfl, h.free_of_due hlast hdue⟩, h.apart, h.start, ?_⟩
  · rw [pressOf_append]
    exact h.press
  · rw [countP_begins_append]
    exact h.count

theorem Sound.step {e : TapEvent} (h : Sound start es s) (hstep : onTap.step e s = some s') :
    Sound start (es ++ [e]) s' := by
  cases e with
  | elapse ms =>
    cases hstep
    exact h.elapse ms
  | down e =>
    cases hstep
    exact h.pointerdown e
  | up e =>
    cases hstep
    exact h.pointerup e
  | due k =>
    simp only [onTap, TapEvent.apply] at hstep
    split at hstep
    · rename_i t ht
      split at hstep
      · rename_i hdue
        cases hstep
        exact h.due ht hdue
      · cases hstep
    · cases hstep

theorem sound_run (hrun : onTap.run es (load start) = some s) : Sound start es s := by
  induction es using List.reverseRecOn generalizing s with
  | nil =>
    cases hrun
    exact load_sound start
  | append_singleton es e ih =>
    rw [Lib.Lts.run_append] at hrun
    obtain ⟨s₁, hfirst, hlast⟩ := Option.bind_eq_some_iff.1 hrun
    obtain ⟨s₂, hstep, hnil⟩ := Option.bind_eq_some_iff.1 hlast
    cases hnil
    exact (ih hfirst).step hstep

/-! ### Late timers -/

/-- No timer is more than `wait` late. -/
def Timely (wait : ℕ) (s : OnTap) : Prop := ∀ t ∈ s.timers, s.now ≤ t + wait

theorem timely_step (e : TapEvent) (s s' : OnTap) (h : Timely wait s) (hfine : Unlocks wait e s)
    (hstep : onTap.step e s = some s') : Timely wait s' := by
  cases e with
  | elapse ms =>
    cases hstep
    exact hfine
  | down e =>
    cases hstep
    unfold OnTap.pointerdown
    split
    · exact h
    · exact h
  | up e =>
    cases hstep
    rcases pointerup_cases e s with ⟨-, -, hup⟩ | ⟨-, hup⟩
    · rw [hup]
      intro t ht
      rcases List.mem_append.1 ht with ht | ht
      · exact h t ht
      · have hnew := List.mem_singleton.1 ht
        show s.now ≤ t + wait
        omega
    · rw [hup]
      exact h
  | due k =>
    simp only [onTap, TapEvent.apply] at hstep
    split at hstep
    · split at hstep
      · cases hstep
        intro t ht
        exact h t (List.mem_of_mem_eraseIdx ht)
      · cases hstep
    · cases hstep

theorem timely_run (hfine : onTap.Guarded (Unlocks wait) es (load start))
    (hrun : onTap.run es (load start) = some s) : Timely wait s :=
  Lib.Lts.inv_run timely_step (by simp [Timely, load]) hfine hrun

end OnTap

open OnTap

variable {es : List TapEvent} {s : OnTap} {start wait : ℕ}

/-- **Which presses count.** A `pointerup` that ends a press near where it began calls the function when the
last call is 280 ms ago, and the timer that unlocks has had `wait` more to run; no other `pointerup` calls it,
nor any within 280 ms of a call. -/
theorem onTap_taps (hfine : onTap.Guarded (Unlocks wait) es (load start))
    (hrun : onTap.run es (load start) = some s) (e : Pointer) :
    ((s.pointerup e).taps = s.now :: s.taps ∨ (s.pointerup e).taps = s.taps) ∧
    ((s.pointerup e).taps = s.now :: s.taps → Clean es e ∧ ∀ t ∈ s.taps, t + lockMs ≤ s.now) ∧
    (Clean es e → (∀ t ∈ s.taps, t + lockMs + wait < s.now) → (s.pointerup e).taps = s.now :: s.taps) := by
  have hsound := sound_run hrun
  rcases pointerup_cases e s with ⟨hclean, hfree, hup⟩ | ⟨hnot, hup⟩
  · have htaps : (s.pointerup e).taps = s.now :: s.taps := by rw [hup]
    exact ⟨.inl htaps, fun _ => ⟨(hsound.clean_iff e).2 hclean, (hsound.free hfree).2⟩, fun _ _ => htaps⟩
  · have htaps : (s.pointerup e).taps = s.taps := by rw [hup]
    refine ⟨.inr htaps, fun hcall => ?_, fun hclean hold => ?_⟩
    · exact absurd (hcall.symm.trans htaps) (List.cons_ne_self _ _)
    · -- a locked button has its timer pending, which is not that late
      rcases hnot with hnot | hlocked
      · exact absurd ((hsound.clean_iff e).1 hclean) hnot
      · obtain ⟨t, htimers, hlast⟩ := hsound.timer hlocked
        have hlate := timely_run hfine hrun (t + lockMs) (by simp [htimers])
        have hago := hold t (List.mem_of_head? hlast)
        omega

/-- **How often.** In every run the calls are 280 ms apart, and each has a `pointerdown` of its own. -/
theorem onTap_apart (hrun : onTap.run es (load start) = some s) :
    s.taps.Pairwise (fun later earlier => earlier + lockMs ≤ later) ∧
    s.taps.length ≤ es.countP TapEvent.begins ∧
    lockMs * s.taps.length ≤ (s.now - start) + lockMs := by
  have hsound := sound_run hrun
  exact ⟨hsound.apart.spaced, Nat.le_trans (Nat.le_add_right _ _) hsound.count,
    hsound.apart.rate hsound.start⟩

/-- A tap, one 100 ms later, and one when the timer was 20 ms late. -/
def tapTwice : List TapEvent :=
  let p : Pointer := ⟨some 0, 40, 60⟩
  [.elapse 50, .down p, .up p, .elapse 60, .down p, .elapse 40, .up p, .elapse 200, .due 0, .down p,
    .elapse 5]

theorem onTap_taps_double : ∃ s, onTap.run tapTwice (load 1000) = some s ∧
    (s.pointerup ⟨none, 44, 60⟩).taps = [1355, 1050] := by
  obtain ⟨s, hrun, hnow, htaps⟩ : ∃ s, onTap.run tapTwice (load 1000) = some s ∧ s.now = 1355 ∧
      s.taps = [1050] := onTap.run_any (by decide +kernel)
  have hfine : onTap.Guarded (Unlocks 20) tapTwice (load 1000) := by decide +kernel
  have hclean : Clean tapTwice ⟨none, 44, 60⟩ := ⟨rfl, ⟨some 0, 40, 60⟩, rfl, by decide +kernel⟩
  have hcall := (onTap_taps hfine hrun ⟨none, 44, 60⟩).2.2 hclean (by simp [htaps, hnow, lockMs])
  exact ⟨s, hrun, by rw [hcall, hnow, htaps]⟩

theorem onTap_apart_double : ∃ s, onTap.run tapTwice (load 1000) = some s ∧
    lockMs * s.taps.length ≤ (s.now - 1000) + lockMs := by
  obtain ⟨s, hrun, -⟩ : ∃ s, onTap.run tapTwice (load 1000) = some s ∧ s.now = 1355 :=
    onTap.run_any (by decide +kernel)
  exact ⟨s, hrun, (onTap_apart hrun).2.2⟩

end ScoreboardCtrl
