import ScoreboardCtrl.Lib.Lts

/-!
# Stream or polling (`src/index.html`)

The page is kept up to date by its event stream, and polls `/api/status` while the stream is not open.
`startFallback`, its `tick`, `stopFallback` and the handlers of `connectEvents` share `fallbackOn` and
`fallbackTimer`, and run between the events of the browser: a stream that opens, speaks, drops or is
refused, a poll that settles, a timer that is due. What a status does to the page is left out.

A `tick` that is due, and a poll that settles, go on only while `fallbackOn`: each is one loop.
-/

namespace ScoreboardCtrl

/-- `EventSource.readyState` -/
inductive ReadyState where
  | connecting
  | opened
  | closed
  deriving DecidableEq, Repr

/-- What `setTimeout(tick, 350)` has armed. -/
structure Timeout where
  handle : ℕ
  due : ℕ
  deriving DecidableEq, Repr

/-- Times are milliseconds. -/
structure Fallback where
  now : ℕ
  /-- of `events` -/
  readyState : ReadyState
  fallbackOn : Bool
  fallbackTimer : Option ℕ
  timers : List Timeout
  /-- the handle of the next timer -/
  handles : ℕ
  /-- the polls under way, by the time they were sent -/
  fetches : List ℕ
  /-- every poll sent, newest first, with the state of the stream then -/
  polled : List (ℕ × ReadyState)
  deriving DecidableEq, Repr

/-- How long `tick` waits between two polls. -/
abbrev pollMs : ℕ := 350

namespace Fallback

/-- `updateStatus()` -/
def updateStatus (s : Fallback) : Fallback :=
  { s with fetches := s.now :: s.fetches, polled := (s.now, s.readyState) :: s.polled }

def tick (s : Fallback) : Fallback :=
  if !s.fallbackOn then s
  else if s.readyState = .opened then { s with fallbackOn := false }
  else s.updateStatus

def startFallback (s : Fallback) : Fallback :=
  if s.fallbackOn then s else tick { s with fallbackOn := true }

/-- `fallbackTimer = setTimeout(tick, 350)` -/
def setTimeout (s : Fallback) : Fallback :=
  { s with
    fallbackTimer := some s.handles
    timers := s.timers ++ [⟨s.handles, s.now + pollMs⟩]
    handles := s.handles + 1 }

/-- `.finally(() => ..)` of `updateStatus()` -/
def finally' (s : Fallback) : Fallback :=
  if !s.fallbackOn then s
  else if s.readyState ≠ .opened then s.setTimeout
  else { s with fallbackOn := false }

/-- `clearTimeout(fallbackTimer)`, if there is one -/
def clearTimeout (s : Fallback) : Fallback :=
  match s.fallbackTimer with
  | some handle =>
    { s with timers := s.timers.filter (·.handle ≠ handle), fallbackTimer := none }
  | none => s

def stopFallback (s : Fallback) : Fallback := clearTimeout { s with fallbackOn := false }

/-- `events.onerror` -/
def onerror (s : Fallback) : Fallback := if s.readyState = .opened then s else s.startFallback

/-- The script has run: `connectEvents(); startFallback();` -/
def load (now : ℕ) : Fallback := startFallback ⟨now, .connecting, false, none, [], 0, [], []⟩

end Fallback

inductive FallbackEvent where
  | elapse (ms : ℕ)
  /-- the stream is accepted -/
  | opened
  /-- an event on the open stream; its data may fail to parse -/
  | status (parses : Bool)
  /-- the stream drops or cannot be reached, and the browser tries again -/
  | lost
  /-- the stream is refused, as with a 503, and the browser gives up -/
  | refused
  /-- the `k`-th timer fires -/
  | due (k : ℕ)
  /-- the `k`-th poll under way settles, one way or the other -/
  | settled (k : ℕ)
  deriving DecidableEq, Repr

def FallbackEvent.apply : FallbackEvent → Fallback → Option Fallback
  | .elapse ms, s => some { s with now := s.now + ms }
  | .opened, s => if s.readyState = .connecting then some { s with readyState := .opened } else none
  | .status parses, s =>
    if s.readyState = .opened then some (if parses then s.stopFallback else s) else none
  | .lost, s =>
    if s.readyState = .closed then none else some (Fallback.onerror { s with readyState := .connecting })
  | .refused, s =>
    if s.readyState = .closed then none else some (Fallback.onerror { s with readyState := .closed })
  | .due k, s =>
    match s.timers[k]? with
    | some t => if t.due ≤ s.now then some (Fallback.tick { s with timers := s.timers.eraseIdx k }) else none
    | none => none
  | .settled k, s =>
    if k < s.fetches.length then some (Fallback.finally' { s with fetches := s.fetches.eraseIdx k })
    else none

def fallback : Lib.Lts Fallback FallbackEvent := ⟨FallbackEvent.apply⟩

namespace Fallback

variable {s s' : Fallback}

/-- What an event can do. -/
inductive Stepped (s : Fallback) : FallbackEvent → Fallback → Prop
  | elapse (ms : ℕ) : Stepped s (.elapse ms) { s with now := s.now + ms }
  | opened : s.readyState = .connecting → Stepped s .opened { s with readyState := .opened }
  | garbled : s.readyState = .opened → Stepped s (.status false) s
  | status : s.readyState = .opened → Stepped s (.status true) s.stopFallback
  | dropped {e : FallbackEvent} {ready : ReadyState} : e = .lost ∨ e = .refused → ready ≠ .opened →
      Stepped s e (onerror { s with readyState := ready })
  | due {k : ℕ} {t : Timeout} : s.timers[k]? = some t → t.due ≤ s.now →
      Stepped s (.due k) (tick { s with timers := s.timers.eraseIdx k })
  | settled {k : ℕ} : k < s.fetches.length →
      Stepped s (.settled k) (finally' { s with fetches := s.fetches.eraseIdx k })

theorem stepped {e : FallbackEvent} (h : fallback.step e s = some s') : Stepped s e s' := by
  have happly : e.apply s = some s' := h
  cases e with
  | elapse ms =>
    cases happly
    exact .elapse ms
  | opened =>
    obtain ⟨hready, heq⟩ := Option.ite_none_right_eq_some.1 happly
    cases heq
    exact .opened hready
  | status parses =>
    obtain ⟨hready, heq⟩ := Option.ite_none_right_eq_some.1 happly
    cases heq
    cases parses with
    | false => exact .garbled hready
    | true => exact .status hready
  | lost =>
    obtain ⟨-, heq⟩ := Option.ite_none_left_eq_some.1 happly
    cases heq
    exact .dropped (.inl rfl) (by simp)
  | refused =>
    obtain ⟨-, heq⟩ := Option.ite_none_left_eq_some.1 happly
    cases heq
    exact .dropped (.inr rfl) (by simp)
  | due k =>
    rw [FallbackEvent.apply] at happly
    split at happly
    · rename_i t ht
      obtain ⟨hdue, heq⟩ := Option.ite_none_right_eq_some.1 happly
      cases heq
      exact .due ht hdue
    · cases happly
  | settled k =>
    obtain ⟨hk, heq⟩ := Option.ite_none_right_eq_some.1 happly
    cases heq
    exact .settled hk

/-! ### Polling goes on while the stream is not open -/

/-- Timers are due within the wait, and no poll was sent while the stream was open. -/
structure Sound (s : Fallback) : Prop where
  due : ∀ t ∈ s.timers, t.due ≤ s.now + pollMs
  quiet : ∀ p ∈ s.polled, p.2 ≠ .opened

/-- While the stream is not open the fallback is on, and it has a loop. -/
structure Alive (s : Fallback) : Prop extends Sound s where
  on : s.readyState ≠ .opened → s.fallbackOn = true
  loop : s.fallbackOn = true → s.fetches ≠ [] ∨ s.timers ≠ []

theorem Sound.updateStatus (h : s.Sound) (hopen : s.readyState ≠ .opened) : s.updateStatus.Sound where
  due := h.due
  quiet := by
    intro p hp
    rcases List.mem_cons.1 hp with rfl | hp
    · exact hopen
    · exact h.quiet p hp

theorem Sound.setTimeout (h : s.Sound) : s.setTimeout.Sound where
  due := by
    intro t ht
    rcases List.mem_append.1 ht with ht | ht
    · exact h.due t ht
    · rw [List.mem_singleton.1 ht]
      exact Nat.le_refl _
  quiet := h.quiet

/-- A `tick` polls, or turns the fallback off because the stream is open. -/
theorem Sound.tick (h : s.Sound) (hon : s.readyState ≠ .opened → s.fallbackOn = true) :
    s.tick.Alive := by
  unfold Fallback.tick
  by_cases hoff : s.fallbackOn = true
  · rw [if_neg (by simp [hoff])]
    by_cases hopen : s.readyState = .opened
    · rw [if_pos hopen]
      exact ⟨⟨h.due, h.quiet⟩, fun hne => absurd hopen hne, fun h => by cases h⟩
    · rw [if_neg hopen]
      exact ⟨h.updateStatus hopen, fun _ => hoff, fun _ => .inl (List.cons_ne_nil _ _)⟩
  · rw [if_pos (by simp [hoff])]
    exact ⟨h, hon, fun h => absurd h hoff⟩

theorem Sound.finally' (h : s.Sound) (hon : s.readyState ≠ .opened → s.fallbackOn = true) :
    s.finally'.Alive := by
  unfold Fallback.finally'
  by_cases hoff : s.fallbackOn = true
  · rw [if_neg (by simp [hoff])]
    by_cases hopen : s.readyState = .opened
    · rw [if_neg (not_not.2 hopen)]
      exact ⟨⟨h.due, h.quiet⟩, fun hne => absurd hopen hne, fun h => by cases h⟩
    · rw [if_pos hopen]
      exact ⟨h.setTimeout, fun _ => hoff, fun _ => .inr (by simp [Fallback.setTimeout])⟩
  · rw [if_pos (by simp [hoff])]
    exact ⟨h, hon, fun h => absurd h hoff⟩

theorem Sound.clearTimeout (h : s.Sound) : s.clearTimeout.Sound := by
  unfold Fallback.clearTimeout
  split
  · exact ⟨fun t ht => h.due t (List.mem_filter.1 ht).1, h.quiet⟩
  · exact h

theorem clearTimeout_same (s : Fallback) : s.clearTimeout.readyState = s.readyState ∧
    s.clearTimeout.fallbackOn = s.fallbackOn ∧ s.clearTimeout.fetches = s.fetches := by
  unfold Fallback.clearTimeout
  split <;> exact ⟨rfl, rfl, rfl⟩

/-- The stream has dropped, so a loop that is off starts again. -/
theorem Sound.onerror (h : s.Sound) (hopen : s.readyState ≠ .opened)
    (hloop : s.fallbackOn = true → s.fetches ≠ [] ∨ s.timers ≠ []) : s.onerror.Alive := by
  rw [Fallback.onerror, if_neg hopen, Fallback.startFallback]
  by_cases hoff : s.fallbackOn = true
  · rw [if_pos hoff]
    exact ⟨h, fun _ => hoff, hloop⟩
  · rw [if_neg hoff]
    exact Sound.tick ⟨h.due, h.quiet⟩ fun _ => rfl

theorem load_alive (now : ℕ) : (load now).Alive := by
  have hscript : Sound ⟨now, .connecting, true, none, [], 0, [], []⟩ := ⟨by simp, by simp⟩
  exact hscript.tick fun _ => rfl

theorem Alive.step {e : FallbackEvent} (h : s.Alive) (hstep : fallback.step e s = some s') :
    s'.Alive := by
  cases stepped hstep with
  | elapse ms =>
    have hdue : ∀ t ∈ s.timers, t.due ≤ s.now + ms + pollMs := by
      intro t ht
      have := h.due t ht
      omega
    exact ⟨⟨hdue, h.quiet⟩, h.on, h.loop⟩
  | opened _ => exact ⟨⟨h.due, h.quiet⟩, fun hne => absurd rfl hne, h.loop⟩
  | garbled _ => exact h
  | status hopen =>
    have hoff : Sound { s with fallbackOn := false } := ⟨h.due, h.quiet⟩
    obtain ⟨hready, hflag, -⟩ := clearTimeout_same { s with fallbackOn := false }
    refine ⟨hoff.clearTimeout, fun hne => absurd (hready.trans hopen) hne, fun hon => ?_⟩
    cases hflag.symm.trans hon
  | dropped _ hready => exact Sound.onerror ⟨h.due, h.quiet⟩ hready h.loop
  | due ht _ => exact Sound.tick ⟨fun t ht => h.due t (List.mem_of_mem_eraseIdx ht), h.quiet⟩ h.on
  | settled _ => exact Sound.finally' ⟨h.due, h.quiet⟩ h.on

/-! ### How often it polls -/

/-- Every poll under way was sent no longer than `wait` ago, every timer is still to fire, and both go
back to a poll. -/
structure Timely (wait : ℕ) (s : Fallback) : Prop where
  fetches : ∀ f ∈ s.fetches, s.now ≤ f + wait ∧ ∃ ready, (f, ready) ∈ s.polled
  timers : ∀ t ∈ s.timers, s.now ≤ t.due ∧ ∃ p ∈ s.polled, t.due ≤ p.1 + wait + pollMs

/-- Time passes only as far as the next timer and as a poll settles within `wait`. -/
def Prompt (wait : ℕ) (e : FallbackEvent) (s : Fallback) : Prop :=
  match e with
  | .elapse ms => (∀ f ∈ s.fetches, s.now + ms ≤ f + wait) ∧ ∀ t ∈ s.timers, s.now + ms ≤ t.due
  | _ => True

instance (wait : ℕ) : (e : FallbackEvent) → (s : Fallback) → Decidable (Prompt wait e s)
  | .elapse _, _ => inferInstanceAs (Decidable (_ ∧ _))
  | .opened, _ | .status _, _ | .lost, _ | .refused, _ | .due _, _ | .settled _, _ => .isTrue trivial

section Timely

variable {wait : ℕ}

theorem Timely.updateStatus (h : s.Timely wait) : s.updateStatus.Timely wait where
  fetches := by
    intro f hf
    rcases List.mem_cons.1 hf with rfl | hf
    · exact ⟨Nat.le_add_right _ _, _, List.mem_cons_self⟩
    · obtain ⟨hle, ready, hmem⟩ := h.fetches f hf
      exact ⟨hle, ready, List.mem_cons_of_mem _ hmem⟩
  timers := by
    intro t ht
    obtain ⟨hle, p, hp, hdue⟩ := h.timers t ht
    exact ⟨hle, p, List.mem_cons_of_mem _ hp, hdue⟩

theorem Timely.tick (h : s.Timely wait) : s.tick.Timely wait := by
  unfold Fallback.tick
  split
  · exact h
  · split
    · exact ⟨h.fetches, h.timers⟩
    · exact h.updateStatus

theorem Timely.onerror (h : s.Timely wait) : s.onerror.Timely wait := by
  unfold Fallback.onerror Fallback.startFallback
  split
  · exact h
  · split
    · exact h
    · exact Timely.tick ⟨h.fetches, h.timers⟩

/-- The poll that settled was sent no longer than `wait` ago. -/
theorem Timely.finally' (h : s.Timely wait) {p : ℕ × ReadyState} (hp : p ∈ s.polled)
    (hle : s.now ≤ p.1 + wait) : s.finally'.Timely wait := by
  unfold Fallback.finally'
  split
  · exact h
  · split
    · refine ⟨h.fetches, fun t ht => ?_⟩
      rcases List.mem_append.1 ht with ht | ht
      · exact h.timers t ht
      · rw [List.mem_singleton.1 ht]
        exact ⟨Nat.le_add_right _ _, p, hp, Nat.add_le_add_right hle _⟩
    · exact ⟨h.fetches, h.timers⟩

theorem load_timely (now : ℕ) : (load now).Timely wait := by
  have hscript : Timely wait ⟨now, .connecting, true, none, [], 0, [], []⟩ := ⟨by simp, by simp⟩
  exact hscript.tick

theorem Timely.step {e : FallbackEvent} (h : s.Timely wait) (hprompt : Prompt wait e s)
    (hstep : fallback.step e s = some s') : s'.Timely wait := by
  cases stepped hstep with
  | elapse ms =>
    obtain ⟨hfetches, htimers⟩ := hprompt
    exact ⟨fun f hf => ⟨hfetches f hf, (h.fetches f hf).2⟩, fun t ht => ⟨htimers t ht, (h.timers t ht).2⟩⟩
  | opened _ => exact ⟨h.fetches, h.timers⟩
  | garbled _ => exact h
  | status _ =>
    unfold stopFallback clearTimeout
    split
    · exact ⟨h.fetches, fun t ht => h.timers t (List.mem_filter.1 ht).1⟩
    · exact ⟨h.fetches, h.timers⟩
  | dropped _ _ => exact Timely.onerror ⟨h.fetches, h.timers⟩
  | due _ _ => exact Timely.tick ⟨h.fetches, fun t ht => h.timers t (List.mem_of_mem_eraseIdx ht)⟩
  | @settled k hk =>
    obtain ⟨hle, ready, hmem⟩ := h.fetches _ (List.getElem_mem hk)
    have hrest : Timely wait { s with fetches := s.fetches.eraseIdx k } :=
      ⟨fun f hf => h.fetches f (List.mem_of_mem_eraseIdx hf), h.timers⟩
    exact hrest.finally' hmem hle

end Timely

/-! ### How many loops there are -/

/-- The polls under way and the timers armed: each goes on to the other. -/
def loops (s : Fallback) : ℕ := s.fetches.length + s.timers.length

/-- A status event that comes while a poll is under way: `stopFallback` cannot call the poll back. -/
def lateBy (e : FallbackEvent) (s : Fallback) : ℕ := if e = .status true ∧ s.fetches ≠ [] then 1 else 0

def late : List FallbackEvent → Fallback → ℕ
  | [], _ => 0
  | e :: es, s => lateBy e s + ((fallback.step e s).map (late es)).getD 0

/-- At most `n` loops apart from the one of a fallback that is on; between two polls, `fallbackTimer` is one
of the timers. -/
structure Spare (n : ℕ) (s : Fallback) : Prop where
  loops : s.loops ≤ n + s.fallbackOn.toNat
  handle : s.fallbackOn = true → s.fetches = [] → ∃ t ∈ s.timers, s.fallbackTimer = some t.handle

variable {n : ℕ}

theorem Spare.tick (h : s.loops ≤ n) : s.tick.Spare n := by
  unfold Fallback.tick
  cases hon : s.fallbackOn with
  | false =>
    rw [if_pos (by simp)]
    exact ⟨Nat.le_trans h (Nat.le_add_right _ _), fun h => by simp [hon] at h⟩
  | true =>
    rw [if_neg (by simp)]
    split
    · exact ⟨h, fun h => by cases h⟩
    · refine ⟨?_, fun _ h => by cases h⟩
      simp only [Fallback.loops, Fallback.updateStatus, List.length_cons, hon, Bool.toNat_true] at h ⊢
      omega

theorem Spare.finally' (h : s.loops ≤ n) : s.finally'.Spare n := by
  unfold Fallback.finally'
  cases hon : s.fallbackOn with
  | false =>
    rw [if_pos (by simp)]
    exact ⟨Nat.le_trans h (Nat.le_add_right _ _), fun h => by simp [hon] at h⟩
  | true =>
    rw [if_neg (by simp)]
    split
    · refine ⟨?_, fun _ _ => ⟨⟨s.handles, s.now + pollMs⟩, by simp [Fallback.setTimeout], rfl⟩⟩
      simp only [Fallback.loops, Fallback.setTimeout, List.length_append, List.length_singleton, hon,
        Bool.toNat_true] at h ⊢
      omega
    · exact ⟨h, fun h => by cases h⟩

theorem Spare.onerror (h : s.Spare n) : s.onerror.Spare n := by
  unfold Fallback.onerror Fallback.startFallback
  split
  · exact h
  · cases hon : s.fallbackOn with
    | true =>
      rw [if_pos rfl]
      exact h
    | false =>
      rw [if_neg (by simp)]
      have hloops := h.loops
      rw [hon] at hloops
      exact Spare.tick hloops

theorem clearTimeout_loops (s : Fallback) : s.clearTimeout.loops ≤ s.loops := by
  unfold Fallback.clearTimeout Fallback.loops
  split
  · exact Nat.add_le_add_left (List.length_filter_le ..) _
  · exact Nat.le_refl _

theorem clearTimeout_armed {t : Timeout} (ht : t ∈ s.timers) (hhandle : s.fallbackTimer = some t.handle) :
    s.clearTimeout.loops < s.loops := by
  unfold Fallback.clearTimeout Fallback.loops
  rw [hhandle]
  refine Nat.add_lt_add_left (List.length_filter_lt_length_iff_exists.2 ⟨t, ht, ?_⟩) _
  simp

/-- Between two polls the loop is called off by its timer. -/
theorem Spare.stopFallback (h : s.Spare n) :
    s.stopFallback.Spare (n + if s.fetches ≠ [] then 1 else 0) := by
  obtain ⟨-, hflag, -⟩ := clearTimeout_same { s with fallbackOn := false }
  refine ⟨?_, fun hon => by cases hflag.symm.trans hon⟩
  have hclear := clearTimeout_loops { s with fallbackOn := false }
  have hsame : ({ s with fallbackOn := false } : Fallback).loops = s.loops := rfl
  have hloops := h.loops
  rw [hsame] at hclear
  show (Fallback.clearTimeout _).loops ≤ _
  cases hon : s.fallbackOn with
  | false =>
    rw [hon, Bool.toNat_false] at hloops
    omega
  | true =>
    rw [hon, Bool.toNat_true] at hloops
    by_cases hidle : s.fetches = []
    · obtain ⟨t, ht, hhandle⟩ := h.handle hon hidle
      have harmed := @clearTimeout_armed { s with fallbackOn := false } t ht hhandle
      rw [hsame] at harmed
      omega
    · rw [if_pos hidle]
      omega

theorem load_spare (now : ℕ) : (load now).Spare 0 :=
  @Spare.tick ⟨now, .connecting, true, none, [], 0, [], []⟩ 0 (Nat.le_refl _)

theorem Spare.step {e : FallbackEvent} (h : s.Spare n) (hstep : fallback.step e s = some s') :
    s'.Spare (n + lateBy e s) := by
  cases stepped hstep with
  | elapse ms => exact ⟨h.loops, h.handle⟩
  | opened _ => exact ⟨h.loops, h.handle⟩
  | garbled _ => simpa [lateBy] using h
  | status _ => simpa [lateBy] using h.stopFallback
  | dropped he _ =>
    have hzero : lateBy e s = 0 := by rcases he with rfl | rfl <;> rfl
    rw [hzero]
    exact Spare.onerror ⟨h.loops, h.handle⟩
  | @due k t ht _ =>
    refine Spare.tick ?_
    have hk := (List.getElem?_eq_some_iff.1 ht).1
    have hloops := h.loops
    have := Bool.toNat_le s.fallbackOn
    simp only [Fallback.loops, List.length_eraseIdx_of_lt hk] at hloops ⊢
    omega
  | @settled k hk =>
    refine Spare.finally' ?_
    have hloops := h.loops
    have := Bool.toNat_le s.fallbackOn
    simp only [Fallback.loops, List.length_eraseIdx_of_lt hk] at hloops ⊢
    omega

/-! ### Runs -/

/-- **Polling goes on whenever the stream is not open.** In every run since the page was loaded: while
the stream is connecting or closed the fallback is on, and a poll is under way or a timer will send the next
within 350 ms; and no poll is sent while the stream is open. -/
theorem fallback_alive (now : ℕ) {as : List FallbackEvent} {s : Fallback}
    (hrun : fallback.run as (load now) = some s) :
    (s.readyState ≠ .opened → s.fallbackOn = true ∧
      (s.fetches ≠ [] ∨ ∃ t ∈ s.timers, t.due ≤ s.now + pollMs)) ∧
      ∀ p ∈ s.polled, p.2 ≠ .opened := by
  have h : s.Alive := Lib.Lts.inv_run (fun _ _ _ hs _ hstep => hs.step hstep) (load_alive now)
    (Lib.Lts.guarded_true as (load now)) hrun
  refine ⟨fun hopen => ⟨h.on hopen, ?_⟩, h.quiet⟩
  rcases h.loop (h.on hopen) with hfetch | htimer
  · exact .inl hfetch
  · obtain ⟨t, ht⟩ := List.exists_mem_of_ne_nil _ htimer
    exact .inr ⟨t, ht, h.due t ht⟩

theorem fallback_alive_dropped : ∃ s, fallback.run [.settled 0, .elapse 350, .due 0, .opened, .lost]
    (load 0) = some s ∧ s.fallbackOn = true ∧
      (s.fetches ≠ [] ∨ ∃ t ∈ s.timers, t.due ≤ s.now + pollMs) := by
  have hend : (fallback.run [.settled 0, .elapse 350, .due 0, .opened, .lost] (load 0)).any
      fun s => decide (s.readyState = .connecting) := by decide
  obtain ⟨s, hrun, hready⟩ := Lib.Lts.run_any hend
  exact ⟨s, hrun, (fallback_alive 0 hrun).1 (by rw [hready]; simp)⟩

/-- **The page is not out of date for long.** If polls settle within `wait` and timers fire in time, then while
the stream is not open the last poll was sent no longer than `wait` and 350 ms ago. -/
theorem fallback_fresh (now wait : ℕ) {as : List FallbackEvent} {s : Fallback}
    (hprompt : fallback.Guarded (Prompt wait) as (load now))
    (hrun : fallback.run as (load now) = some s) (hopen : s.readyState ≠ .opened) :
    ∃ p ∈ s.polled, s.now ≤ p.1 + wait + pollMs := by
  have hstep (e : FallbackEvent) (s s' : Fallback) (hs : s.Alive ∧ s.Timely wait)
      (hprompt : Prompt wait e s) (hstep : fallback.step e s = some s') : s'.Alive ∧ s'.Timely wait :=
    ⟨hs.1.step hstep, hs.2.step hprompt hstep⟩
  obtain ⟨halive, htimely⟩ :=
    Lib.Lts.inv_run hstep ⟨load_alive now, load_timely now⟩ hprompt hrun
  rcases halive.loop (halive.on hopen) with hfetch | htimer
  · obtain ⟨f, hf⟩ := List.exists_mem_of_ne_nil _ hfetch
    obtain ⟨hle, ready, hmem⟩ := htimely.fetches f hf
    exact ⟨_, hmem, Nat.le_trans hle (Nat.le_add_right _ _)⟩
  · obtain ⟨t, ht⟩ := List.exists_mem_of_ne_nil _ htimer
    obtain ⟨hle, p, hp, hdue⟩ := htimely.timers t ht
    exact ⟨p, hp, Nat.le_trans hle hdue⟩

theorem fallback_fresh_second : ∃ s,
    fallback.run [.elapse 80, .settled 0, .elapse 350, .due 0, .elapse 70] (load 0) = some s ∧
      ∃ p ∈ s.polled, s.now ≤ p.1 + 100 + pollMs := by
  have hend : (fallback.run [.elapse 80, .settled 0, .elapse 350, .due 0, .elapse 70] (load 0)).any
      fun s => decide (s.readyState = .connecting) := by decide
  obtain ⟨s, hrun, hready⟩ := Lib.Lts.run_any hend
  refine ⟨s, hrun, fallback_fresh 0 100 ?_ hrun (by rw [hready]; simp)⟩
  decide

theorem late_cons {e : FallbackEvent} {es : List FallbackEvent} (h : fallback.step e s = some s') :
    late (e :: es) s = lateBy e s + late es s' := by
  rw [late, h]
  rfl

theorem spare_run {as : List FallbackEvent} (h : s.Spare n) (hrun : fallback.run as s = some s') :
    s'.Spare (n + late as s) := by
  induction as generalizing s n with
  | nil =>
    cases hrun
    exact h
  | cons e as ih =>
    obtain ⟨s₁, hstep, hrest⟩ := Option.bind_eq_some_iff.1 hrun
    have hspare := ih (h.step hstep) hrest
    rwa [Nat.add_assoc, ← late_cons hstep] at hspare

/-- **Loops do not pile up.** In every run a fallback that is on has a loop, and there are no more loops than
that one and one for each status event that came while a poll was under way. -/
theorem fallback_loops (now : ℕ) {as : List FallbackEvent} {s : Fallback}
    (hrun : fallback.run as (load now) = some s) :
    (s.fallbackOn = true → 0 < s.loops) ∧ s.loops ≤ late as (load now) + s.fallbackOn.toNat := by
  have halive : s.Alive := Lib.Lts.inv_run (fun _ _ _ hs _ hstep => hs.step hstep) (load_alive now)
    (Lib.Lts.guarded_true as (load now)) hrun
  refine ⟨fun hon => ?_, by simpa using (spare_run (load_spare now) hrun).loops⟩
  rcases halive.loop hon with hfetch | htimer
  · exact Nat.add_pos_left (List.length_pos_iff.2 hfetch) _
  · exact Nat.add_pos_right _ (List.length_pos_iff.2 htimer)

/-- A status event that comes amid a poll, and a stream that drops before the poll has settled: two
loops. -/
def twoLoops : List FallbackEvent :=
  [.elapse 40, .settled 0, .elapse 350, .due 0, .opened, .status true, .lost]

theorem fallback_loops_two : ∃ s, fallback.run twoLoops (load 0) = some s ∧ s.loops = 2 ∧
    s.loops ≤ late twoLoops (load 0) + s.fallbackOn.toNat := by
  have hend : (fallback.run twoLoops (load 0)).any fun s => decide (s.loops = 2) := by decide
  obtain ⟨s, hrun, hloops⟩ := Lib.Lts.run_any hend
  exact ⟨s, hrun, hloops, (fallback_loops 0 hrun).2⟩

end Fallback

end ScoreboardCtrl
