import ScoreboardCtrl.Events.Publish
import ScoreboardCtrl.Events.Status
import ScoreboardCtrl.Lib.Pool

/-!
# The event streams (`StatusEvents` in `src/main.rs`)

Each open `GET /api/events` runs `write_events`: `writeEvents` up to its loop, then `streamTurn`
again and again; a failed write ends it. `EVENTS` is a watch: it counts the messages sent, and each
receiver remembers up to where it has seen them.

* `StreamOp.exec` — what the operations of one stream do; where two arms of `select3` are ready
  the first of them is taken, and dropping the pending `changed()` consumes nothing;
* `streamPool` — any number of streams among the critical sections of all other tasks;
* `no_update_lost` — a stream that waits with nothing unseen has written what is visible.
-/

namespace ScoreboardCtrl

open Lib

/-! ### The program -/

inductive Either3 where
  | first
  | second
  | third
  deriving DecidableEq, Repr

inductive StreamOp where
  /-- `self.rx.try_changed()` -/
  | tryChanged
  /-- the critical section of `write_snapshot`, with `status_of` -/
  | snapshot
  /-- `writer.write_event("status", Json(body)).await` -/
  | writeEvent (body : StatusJson)
  /-- `writer.flush().await` -/
  | flush
  /-- `writer.write_keepalive().await` -/
  | writeKeepalive
  /-- the critical section of `stop_wait` -/
  | stopWait
  /-- the critical section of the third arm -/
  | refresh
  /-- `select3(self.rx.changed(), Timer::after_secs(10), Timer::after(stop_in))`, in ms -/
  | select3 (stopIn : ℕ)

/-- What an operation answers; of a write, whether it was `Ok`. -/
def StreamOp.Ret : StreamOp → Type
  | .tryChanged | .writeEvent _ | .flush | .writeKeepalive => Bool
  | .snapshot => StatusJson
  | .stopWait => Bool × ℕ
  | .refresh => Unit
  | .select3 _ => Either3

abbrev StreamProg (α : Type) : Type := Prog StreamOp StreamOp.Ret α

namespace StreamProg

def tryChanged : StreamProg Bool := Prog.call (R := StreamOp.Ret) .tryChanged
def snapshot : StreamProg StatusJson := Prog.call (R := StreamOp.Ret) .snapshot
def writeEvent (body : StatusJson) : StreamProg Bool :=
  Prog.call (R := StreamOp.Ret) (.writeEvent body)
def flush : StreamProg Bool := Prog.call (R := StreamOp.Ret) .flush
def writeKeepalive : StreamProg Bool := Prog.call (R := StreamOp.Ret) .writeKeepalive
def lockStopWait : StreamProg (Bool × ℕ) := Prog.call (R := StreamOp.Ret) .stopWait
def refresh : StreamProg Unit := Prog.call (R := StreamOp.Ret) .refresh
def select3 (stopIn : ℕ) : StreamProg Either3 := Prog.call (R := StreamOp.Ret) (.select3 stopIn)

end StreamProg

open StreamProg

/-- `write_snapshot`; the answer tells whether it was `Ok`. -/
def writeSnapshot : StreamProg Bool := do
  let body ← snapshot
  let ok ← writeEvent body
  if ok then flush else pure false

/-- Milliseconds until an unchanged clock should flip to stopped. -/
def stopWait : StreamProg ℕ := do
  let r ← lockStopWait
  if !r.1 then pure 30000
  else if r.2 ≥ stoppedAfterMs then pure 1
  else pure (stoppedAfterMs - r.2)

/-- `write_events` up to its loop: drop old signals, then write a live snapshot. -/
def writeEvents : StreamProg Bool := do
  let _ ← tryChanged
  writeSnapshot

/-- One turn of the loop of `write_events`. -/
def streamTurn : StreamProg Bool := do
  let stopIn ← stopWait
  let arm ← select3 stopIn
  match arm with
  | .first => writeSnapshot
  | .second => writeKeepalive
  | .third => do
    refresh
    let changed ← tryChanged
    if changed then writeSnapshot else pure true

/-! ### The system -/

inductive Output where
  | status (body : StatusJson)
  | keepalive
  deriving DecidableEq, Repr

/-- The shared state of the streams `ι`. -/
structure Streams (ι : Type) where
  now : ℕ
  shared : Shared
  /-- up to which message of `EVENTS` a receiver has seen -/
  seen : ι → ℕ
  /-- when a stream made its last operation -/
  since : ι → ℕ
  /-- what was written to the connection of a stream, newest first -/
  wrote : ι → List Output

variable {ι : Type}

/-- A message was sent that the receiver of `i` has not seen. -/
def Streams.unseen (s : Streams ι) (i : ι) : Prop := s.seen i < s.shared.sent

instance (s : Streams ι) (i : ι) : Decidable (s.unseen i) := inferInstanceAs (Decidable (_ < _))

/-- Power-on: no stream is open. -/
def streamBoot : Pool.Conf ι (Streams ι) StreamOp StreamOp.Ret Bool where
  state := ⟨0, Shared.boot, fun _ => 0, fun _ => 0, fun _ => []⟩
  task _ := none

/-! ### What the streams rely on -/

/-- The newest snapshot among the writes. -/
def lastStatus : List Output → Option StatusJson
  | [] => none
  | .status body :: _ => some body
  | .keepalive :: rest => lastStatus rest

/-- Everything visible was announced, and no receiver is ahead of the messages. -/
structure StreamInv (s : Streams ι) : Prop where
  announced : Announced s.shared
  seen : ∀ i, s.seen i ≤ s.shared.sent

/-- What the other tasks do, as seen by stream `i`. -/
structure Apart (i : ι) (s s' : Streams ι) : Prop where
  seen : s'.seen i = s.seen i
  wrote : s'.wrote i = s.wrote i
  follows : Follows s.shared s'.shared

theorem Apart.refl (i : ι) (s : Streams ι) : Apart i s s := ⟨rfl, rfl, .refl _⟩

theorem Apart.trans {i : ι} {s₁ s₂ s₃ : Streams ι} (h₁ : Apart i s₁ s₂) (h₂ : Apart i s₂ s₃) :
    Apart i s₁ s₃ :=
  ⟨h₂.seen.trans h₁.seen, h₂.wrote.trans h₁.wrote, h₁.follows.trans h₂.follows⟩

/-- With nothing unseen, `v` is what is visible. -/
def UpToDate (i : ι) (v : Visible) (s : Streams ι) : Prop :=
  ¬ s.unseen i → s.shared.board.visible = v

/-- With nothing unseen, the newest snapshot written shows what is visible. -/
def Fresh (i : ι) (s : Streams ι) : Prop :=
  StreamInv s ∧ ∃ body, lastStatus (s.wrote i) = some body ∧ UpToDate i body.visible s

/-- The snapshot `body` is about to be written. -/
def Writing (i : ι) (body : StatusJson) (s : Streams ι) : Prop :=
  StreamInv s ∧ UpToDate i body.visible s

theorem UpToDate.apart {i : ι} {v : Visible} {s s' : Streams ι} (h : UpToDate i v s)
    (hs : StreamInv s) (hap : Apart i s s') : UpToDate i v s' := by
  intro hseen
  have hle := hs.seen i
  have hsent := hap.follows.sent
  unfold Streams.unseen at hseen
  rw [hap.seen] at hseen
  rw [hap.follows.visible (by omega)]
  exact h (by unfold Streams.unseen; omega)

/-- A stream whose own operation others see as `Apart` stays fresh by it. -/
theorem Fresh.apart {s s' : Streams ι} (h : Fresh i s) (hinv : StreamInv s')
    (hap : Apart i s s') : Fresh i s' :=
  ⟨hinv, h.2.imp fun _ hb => ⟨by rw [hap.wrote]; exact hb.1, hb.2.apart h.1 hap⟩⟩

theorem streamBoot_inv : StreamInv (streamBoot (ι := ι)).state :=
  ⟨Shared.boot_announced, fun _ => Nat.le_refl 0⟩

/-! ### The operations -/

variable [DecidableEq ι]

namespace Streams

/-- Stream `i` did something now. -/
def act (s : Streams ι) (i : ι) : Streams ι :=
  { s with since := Function.update s.since i s.now }

/-- The receiver of `i` takes the latest message. -/
def consume (s : Streams ι) (i : ι) : Streams ι :=
  { s.act i with seen := Function.update s.seen i s.shared.sent }

/-- A complete write on the connection of `i`. -/
def output (s : Streams ι) (i : ι) (o : Output) : Streams ι :=
  { s.act i with wrote := Function.update s.wrote i (o :: s.wrote i) }

/-- A critical section of `i`. -/
def enterSection (s : Streams ι) (i : ι) (sec : Section) : Streams ι :=
  { s.act i with shared := (sec.run s.now s.shared).2 }

end Streams

def StreamOp.exec (rel : Release) (i : ι) : (o : StreamOp) → Streams ι → o.Ret → Streams ι → Prop
  | .tryChanged, s, r, s' => (r = true ↔ s.unseen i) ∧ s' = s.consume i
  | .snapshot, s, r, s' =>
    r = statusOf rel (Section.status.run s.now s.shared).1 s.now ∧ s' = s.enterSection i .status
  | .writeEvent body, s, r, s' => s' = bif r then s.output i (.status body) else s.act i
  | .flush, s, _, s' => s' = s.act i
  | .writeKeepalive, s, r, s' => s' = bif r then s.output i .keepalive else s.act i
  | .stopWait, s, r, s' =>
    r = (Section.stopWait.run s.now s.shared).1 ∧ s' = s.enterSection i .stopWait
  | .refresh, s, _, s' => s' = s.enterSection i .refresh
  | .select3 stopIn, s, r, s' =>
    match r with
    | .first => s.unseen i ∧ s' = s.consume i
    | .second => ¬ s.unseen i ∧ s.since i + 10 * 1000000 ≤ s.now ∧ s' = s.act i
    | .third => ¬ s.unseen i ∧ s.now < s.since i + 10 * 1000000 ∧
        s.since i + stopIn * 1000 ≤ s.now ∧ s' = s.act i

/-- Time passes, or another task enters a critical section. -/
def streamEnv (s s' : Streams ι) : Prop :=
  (∃ us, s' = { s with now := s.now + us }) ∨
    ∃ sec : Section, sec.inRange ∧ s' = { s with shared := (sec.run s.now s.shared).2 }

/-- `EVENTS.receiver()`: a new receiver, which may find messages from before. -/
def streamEnter (i : ι) (s s' : Streams ι) : Prop :=
  ∃ n ≤ s.shared.sent, s' = { s.act i with
    seen := Function.update s.seen i n
    wrote := Function.update s.wrote i [] }

def streamPool (rel : Release) : Pool ι (Streams ι) StreamOp StreamOp.Ret Bool where
  exec := StreamOp.exec rel
  env := streamEnv
  enter := streamEnter
  start _ := writeEvents
  next ok := if ok then some streamTurn else none

/-! ### The specification of a stream -/

/-- The specification of stream `i`: where it waits, it is fresh. -/
def streamSpec (rel : Release) (i : ι) : Spec (Streams ι) StreamOp StreamOp.Ret where
  exec := StreamOp.exec rel i
  rely s s' := (StreamInv s → StreamInv s') ∧ Apart i s s'
  guar s s' := StreamInv s' ∧ ∀ j, j ≠ i → Apart j s s'
  pre o s :=
    match o with
    | .select3 _ => Fresh i s
    | _ => True

/-! ### Frames -/

theorem act_apart (s : Streams ι) (i j : ι) : Apart j s (s.act i) := ⟨rfl, rfl, .refl _⟩

theorem consume_apart (s : Streams ι) {i j : ι} (h : j ≠ i) : Apart j s (s.consume i) :=
  ⟨Function.update_of_ne h _ _, rfl, .refl _⟩

theorem output_apart (s : Streams ι) (o : Output) {i j : ι} (h : j ≠ i) :
    Apart j s (s.output i o) := ⟨rfl, Function.update_of_ne h _ _, .refl _⟩

theorem section_apart {s : Streams ι} (hs : StreamInv s) (sec : Section) (hsec : sec.inRange)
    (i j : ι) : Apart j s (s.enterSection i sec) :=
  ⟨rfl, rfl, (Section.run_announces hsec hs.announced s.now).2⟩

theorem act_inv {s : Streams ι} (hs : StreamInv s) (i : ι) : StreamInv (s.act i) :=
  ⟨hs.announced, hs.seen⟩

theorem output_inv {s : Streams ι} (hs : StreamInv s) (i : ι) (o : Output) :
    StreamInv (s.output i o) := ⟨hs.announced, hs.seen⟩

theorem consume_inv {s : Streams ι} (hs : StreamInv s) (i : ι) : StreamInv (s.consume i) := by
  refine ⟨hs.announced, fun j => ?_⟩
  by_cases hj : j = i
  · subst hj
    have hself : (s.consume j).seen j = s.shared.sent := Function.update_self ..
    exact Nat.le_of_eq hself
  · have hother : (s.consume i).seen j = s.seen j := Function.update_of_ne hj ..
    exact Nat.le_trans (Nat.le_of_eq hother) (hs.seen j)

theorem section_inv {s : Streams ι} (hs : StreamInv s) (sec : Section) (hsec : sec.inRange)
    (i : ι) : StreamInv (s.enterSection i sec) := by
  have hrun := Section.run_announces hsec hs.announced s.now
  exact ⟨hrun.1, fun j => Nat.le_trans (hs.seen j) hrun.2.sent⟩

/-! ### The operations of a stream -/

variable {rel : Release} {i : ι}

theorem fresh_stable : (streamSpec rel i).Stable (Fresh i) := by
  rintro s s' ⟨hinv, hap⟩ ⟨hs, body, hbody, hup⟩
  exact ⟨hinv hs, body, by rw [hap.wrote]; exact hbody, hup.apart hs hap⟩

theorem writing_stable (body : StatusJson) : (streamSpec rel i).Stable (Writing i body) := by
  rintro s s' ⟨hinv, hap⟩ ⟨hs, hup⟩
  exact ⟨hinv hs, hup.apart hs hap⟩

theorem inv_stable : (streamSpec rel i).Stable StreamInv := fun _ _ h hs => h.1 hs

open Spec

theorem writeSnapshot_triple :
    (streamSpec rel i).Triple StreamInv writeSnapshot
      fun ok s => StreamInv s ∧ (ok = true → Fresh i s) := by
  have hsnapshot : (streamSpec rel i).Triple StreamInv snapshot fun body => Writing i body := by
    refine Triple.call inv_stable fun s hs => ⟨trivial, ?_⟩
    rintro body s' ⟨rfl, rfl⟩
    have hinv := section_inv hs .status trivial i
    refine ⟨⟨hinv, fun j _ => section_apart hs .status trivial i j⟩, hinv, fun _ => ?_⟩
    exact (statusOf_visible hinv.announced.minutes hinv.announced.seconds).symm
  have hwrite : ∀ body, (streamSpec rel i).Triple (Writing i body) (writeEvent body)
      fun ok s => StreamInv s ∧ (ok = true → Fresh i s) := by
    refine fun body => Triple.call (writing_stable body) fun s hs => ⟨trivial, ?_⟩
    intro ok s' he
    cases ok with
    | false =>
      have he : s' = s.act i := he
      subst he
      exact ⟨⟨act_inv hs.1 i, fun j _ => act_apart s i j⟩, act_inv hs.1 i, by simp⟩
    | true =>
      have he : s' = s.output i (.status body) := he
      subst he
      refine ⟨⟨output_inv hs.1 i _, fun j hj => output_apart s _ hj⟩, output_inv hs.1 i _,
        fun _ => ⟨output_inv hs.1 i _, body, ?_, hs.2⟩⟩
      show lastStatus (Function.update s.wrote i _ i) = some body
      rw [Function.update_self]
      rfl
  have hflush : (streamSpec rel i).Triple (Fresh i) flush
      fun ok s => StreamInv s ∧ (ok = true → Fresh i s) := by
    refine Triple.call fresh_stable fun s hs => ⟨trivial, ?_⟩
    rintro ok s' rfl
    have hfresh := hs.apart (act_inv hs.1 i) (act_apart s i i)
    exact ⟨⟨hfresh.1, fun j _ => act_apart s i j⟩, hfresh.1, fun _ => hfresh⟩
  refine .bind hsnapshot fun body => .bind (hwrite body) ?_
  intro ok
  cases ok with
  | true => exact hflush.mono (fun s hs => hs.2 rfl) fun _ _ h => h
  | false => exact .pure fun s hs => ⟨hs.1, by simp⟩

theorem tryChanged_triple :
    (streamSpec rel i).Triple (Fresh i) tryChanged
      fun changed s => StreamInv s ∧ (changed = false → Fresh i s) := by
  refine Triple.call fresh_stable fun s hs => ⟨trivial, ?_⟩
  rintro changed s' ⟨hchanged, rfl⟩
  have hinv := consume_inv hs.1 i
  refine ⟨⟨hinv, fun j hj => consume_apart s hj⟩, hinv, fun hno => ?_⟩
  -- nothing was unseen, so consuming moved nothing
  have hnone : ¬ s.unseen i := by simp [← hchanged, hno]
  have hsame : (s.consume i).seen i = s.seen i := by
    have hle := hs.1.seen i
    unfold Streams.unseen at hnone
    show Function.update s.seen i s.shared.sent i = s.seen i
    rw [Function.update_self]
    omega
  exact hs.apart hinv ⟨hsame, rfl, .refl _⟩

theorem stopWait_triple :
    (streamSpec rel i).Triple (Fresh i) stopWait fun _ => Fresh i := by
  have hlock : (streamSpec rel i).Triple (Fresh i) lockStopWait fun _ => Fresh i := by
    refine Triple.call fresh_stable fun s hs => ⟨trivial, ?_⟩
    rintro r s' ⟨-, rfl⟩
    have hinv := section_inv hs.1 .stopWait trivial i
    exact ⟨⟨hinv, fun j _ => section_apart hs.1 .stopWait trivial i j⟩,
      hs.apart hinv (section_apart hs.1 .stopWait trivial i i)⟩
  refine .bind hlock ?_
  intro r
  split_ifs
  · exact .pure fun _ hs => hs
  · exact .pure fun _ hs => hs
  · exact .pure fun _ hs => hs

/-- Only the first arm consumes something. -/
theorem select3_triple (stopIn : ℕ) :
    (streamSpec rel i).Triple (Fresh i) (select3 stopIn)
      fun arm s => StreamInv s ∧ (arm ≠ .first → Fresh i s) := by
  refine Triple.call fresh_stable fun s hs => ⟨hs, fun arm s' he => ?_⟩
  have hfresh := hs.apart (act_inv hs.1 i) (act_apart s i i)
  have hguar : StreamInv (s.act i) ∧ ∀ j, j ≠ i → Apart j s (s.act i) :=
    ⟨hfresh.1, fun j _ => act_apart s i j⟩
  cases arm with
  | first =>
    obtain ⟨-, rfl⟩ := he
    have hinv := consume_inv hs.1 i
    exact ⟨⟨hinv, fun j hj => consume_apart s hj⟩, hinv, fun h => absurd rfl h⟩
  | second =>
    obtain ⟨-, -, rfl⟩ := he
    exact ⟨hguar, hfresh.1, fun _ => hfresh⟩
  | third =>
    obtain ⟨-, -, -, rfl⟩ := he
    exact ⟨hguar, hfresh.1, fun _ => hfresh⟩

theorem refresh_triple : (streamSpec rel i).Triple (Fresh i) refresh fun _ => Fresh i := by
  refine Triple.call fresh_stable fun s hs => ⟨trivial, ?_⟩
  rintro r s' rfl
  have hinv := section_inv hs.1 .refresh trivial i
  exact ⟨⟨hinv, fun j _ => section_apart hs.1 .refresh trivial i j⟩,
    hs.apart hinv (section_apart hs.1 .refresh trivial i i)⟩

theorem writeKeepalive_triple :
    (streamSpec rel i).Triple (Fresh i) writeKeepalive
      fun ok s => StreamInv s ∧ (ok = true → Fresh i s) := by
  refine Triple.call fresh_stable fun s hs => ⟨trivial, ?_⟩
  intro ok s' he
  cases ok with
  | false =>
    have he : s' = s.act i := he
    subst he
    exact ⟨⟨act_inv hs.1 i, fun j _ => act_apart s i j⟩, act_inv hs.1 i, by simp⟩
  | true =>
    have he : s' = s.output i .keepalive := he
    subst he
    obtain ⟨hinv, body, hbody, hup⟩ := hs
    refine ⟨⟨output_inv hinv i _, fun j hj => output_apart s _ hj⟩, output_inv hinv i _,
      fun _ => ⟨output_inv hinv i _, body, ?_, hup⟩⟩
    show lastStatus (Function.update s.wrote i _ i) = some body
    rw [Function.update_self]
    exact hbody

/-! ### The programs of a stream -/

theorem writeEvents_triple :
    (streamSpec rel i).Triple StreamInv writeEvents
      fun ok s => StreamInv s ∧ (ok = true → Fresh i s) := by
  have hdrop : (streamSpec rel i).Triple StreamInv tryChanged fun _ => StreamInv := by
    refine Triple.call inv_stable fun s hs => ⟨trivial, ?_⟩
    rintro changed s' ⟨-, rfl⟩
    have hinv := consume_inv hs i
    exact ⟨⟨hinv, fun j hj => consume_apart s hj⟩, hinv⟩
  exact .bind hdrop fun _ => writeSnapshot_triple

theorem streamTurn_triple :
    (streamSpec rel i).Triple (Fresh i) streamTurn
      fun ok s => StreamInv s ∧ (ok = true → Fresh i s) := by
  refine .bind stopWait_triple fun stopIn => .bind (select3_triple stopIn) ?_
  intro arm
  cases arm with
  | first => exact writeSnapshot_triple.mono (fun s hs => hs.1) fun _ _ h => h
  | second => exact writeKeepalive_triple.mono (fun s hs => hs.2 (by decide)) fun _ _ h => h
  | third =>
    have hrefresh : (streamSpec rel i).Triple
        (fun s => StreamInv s ∧ (Either3.third ≠ .first → Fresh i s)) refresh fun _ => Fresh i :=
      refresh_triple.mono (fun s hs => hs.2 (by decide)) fun _ _ h => h
    refine .bind hrefresh fun _ => .bind tryChanged_triple ?_
    intro changed
    cases changed with
    | true => exact writeSnapshot_triple.mono (fun s hs => hs.1) fun _ _ h => h
    | false => exact .pure fun s hs => ⟨hs.1, fun _ => hs.2 rfl⟩

/-! ### All streams together -/

theorem streamPool_fits : Pool.Fits (streamPool (ι := ι) rel) StreamInv (streamSpec rel)
    (fun i ok s => StreamInv s ∧ (ok = true → Fresh i s)) where
  exec _ _ _ _ _ he := he
  refl i s := ⟨id, .refl i s⟩
  trans i s₁ s₂ s₃ h₁ h₂ := ⟨h₂.1 ∘ h₁.1, h₁.2.trans h₂.2⟩
  stable i ok s s' hq hr := ⟨hr.1 hq.1, fun hok => fresh_stable s s' hr (hq.2 hok)⟩
  env := by
    rintro s s' hs (⟨us, rfl⟩ | ⟨sec, hsec, rfl⟩)
    · have hinv : StreamInv { s with now := s.now + us } := ⟨hs.announced, hs.seen⟩
      exact ⟨hinv, fun i => ⟨fun _ => hinv, rfl, rfl, .refl _⟩⟩
    · have hrun := Section.run_announces hsec hs.announced s.now
      have hinv : StreamInv { s with shared := (sec.run s.now s.shared).2 } :=
        ⟨hrun.1, fun j => Nat.le_trans (hs.seen j) hrun.2.sent⟩
      exact ⟨hinv, fun i => ⟨fun _ => hinv, rfl, rfl, hrun.2⟩⟩
  guar i s s' _ hg := ⟨hg.1, fun j hj => ⟨fun _ => hg.1, hg.2 j hj⟩⟩
  enter := by
    rintro i s s' hs ⟨n, hn, rfl⟩
    have hinv : StreamInv { s.act i with
        seen := Function.update s.seen i n
        wrote := Function.update s.wrote i [] } := by
      refine ⟨hs.announced, fun j => ?_⟩
      by_cases hj : j = i
      · subst hj
        exact Nat.le_trans (Nat.le_of_eq (Function.update_self j n s.seen)) hn
      · exact Nat.le_trans (Nat.le_of_eq (Function.update_of_ne hj _ s.seen)) (hs.seen j)
    refine ⟨hinv, fun j hj => ⟨fun _ => hinv, ?_, ?_, .refl _⟩, writeEvents_triple _ hinv⟩
    · exact Function.update_of_ne hj _ _
    · exact Function.update_of_ne hj _ _
  next := by
    intro i ok t s _ hq ht
    cases ok with
    | false => cases ht
    | true =>
      cases ht
      exact streamTurn_triple s (hq.2 rfl)

/-- **No update is lost on an event stream.** Whatever the interleaving, a stream that waits in its
`select3` with no unseen signal has written a snapshot, and the last one shows what is visible. -/
theorem no_update_lost {c : Pool.Conf ι (Streams ι) StreamOp StreamOp.Ret Bool}
    (h : (streamPool rel).Reach streamBoot c) {stopIn : ℕ} {k : Either3 → StreamProg Bool}
    (hi : c.task i = some (.op (.select3 stopIn) k)) (hseen : ¬ c.state.unseen i) :
    ∃ body, lastStatus (c.state.wrote i) = some body ∧
      body.visible = c.state.shared.board.visible := by
  have hpre : Fresh i c.state :=
    Pool.pre_reach streamPool_fits h streamBoot_inv (fun j t ht => by cases ht) hi
  obtain ⟨-, body, hbody, hup⟩ := hpre
  exact ⟨body, hbody, (hup hseen).symm⟩

/-! ### A stream that waits -/

/-- A phone connects to the board as it powers up, and its stream waits. -/
theorem first_stream_waits :
    ∃ (c : Pool.Conf Unit (Streams Unit) StreamOp StreamOp.Ret Bool)
      (k : Either3 → StreamProg Bool),
      (streamPool firstRelease).Reach streamBoot c ∧
        c.task () = some (.op (.select3 30000) k) ∧ ¬ c.state.unseen () := by
  have h₀ : (streamPool firstRelease).Reach (streamBoot (ι := Unit)) streamBoot := .refl
  obtain ⟨c₁, h₁, hs₁, ht₁⟩ := h₀.enter (i := ()) rfl ⟨0, Nat.le_refl 0, rfl⟩
  obtain ⟨c₂, h₂, hs₂, ht₂⟩ := h₁.op .tryChanged false ht₁
    ⟨by rw [hs₁]; exact ⟨nofun, fun h => absurd h (Nat.lt_irrefl 0)⟩, rfl⟩
  obtain ⟨c₃, h₃, hs₃, ht₃⟩ := h₂.op .snapshot _ ht₂ ⟨rfl, rfl⟩
  obtain ⟨c₄, h₄, hs₄, ht₄⟩ := h₃.op (.writeEvent _) true ht₃ rfl
  obtain ⟨c₅, h₅, hs₅, ht₅⟩ := h₄.op .flush true ht₄ rfl
  obtain ⟨c₆, h₆, hs₆, ht₆⟩ := h₅.next ht₅
  obtain ⟨c₇, h₇, hs₇, ht₇⟩ := h₆.op .stopWait _ ht₆ ⟨rfl, rfl⟩
  rw [hs₆, hs₅, hs₄, hs₃, hs₂, hs₁] at hs₇ ht₇
  refine ⟨c₇, _, h₇, ht₇, ?_⟩
  rw [hs₇]
  decide

theorem no_update_lost_first_stream :
    ∃ c : Pool.Conf Unit (Streams Unit) StreamOp StreamOp.Ret Bool,
      (streamPool firstRelease).Reach streamBoot c ∧
        ∃ body, lastStatus (c.state.wrote ()) = some body ∧
          body.visible = c.state.shared.board.visible := by
  obtain ⟨c, k, h, ht, hseen⟩ := first_stream_waits
  exact ⟨c, h, no_update_lost h ht hseen⟩

end ScoreboardCtrl
