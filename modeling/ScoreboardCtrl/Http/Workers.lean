import ScoreboardCtrl.Lib.Pool
import Mathlib.Data.Finset.Card
import Mathlib.Data.Fintype.Card
import Mathlib.Data.Fintype.Fin

/-!
# The HTTP workers (`web_task`, `EventsService`)

Twelve workers each accept a connection, serve the one request of it and start again. They share the
counter `HTTP_LIVE`, a `u8`, which they log, and the receivers of `EVENTS`, of which there are four: a worker that gets
one is held by its event stream until that ends.

`serve` is picoserve's, which reads a request and hands it to a route; here it is a choice of what the
request is, and only the route of `/api/events` is followed. `serving` and `streaming` are not in the source: they record which workers
are between the two changes of the counter, and which hold a receiver.
-/

namespace ScoreboardCtrl

open Lib

/-- `WEB_TASK_POOL_SIZE` -/
abbrev webTaskPoolSize : ℕ := 12

/-- `MAX_EVENT_STREAMS` -/
abbrev maxEventStreams : ℕ := 4

abbrev Worker : Type := Fin webTaskPoolSize

/-! ### The program -/

/-- What `serve` finds on a connection. -/
inductive Incoming where
  /-- `GET /api/events` -/
  | events
  /-- any other request -/
  | other
  /-- no request that can be read in time -/
  | nothing
  deriving DecidableEq, Repr

inductive WorkerOp where
  /-- `socket.accept(80).await` -/
  | accept
  /-- `HTTP_LIVE.fetch_add(1)` and the line of the log -/
  | arrive
  | request
  /-- the route of any other request -/
  | respond
  /-- `request.body_connection.finalize().await` -/
  | finalize
  /-- `EVENTS.receiver()`, and the line of the log if there is none -/
  | receiver
  /-- the answer 503 -/
  | busy
  /-- `EventStream(..).write_to(..)`, which ends with the stream -/
  | stream
  /-- the receiver is dropped -/
  | drop
  /-- `HTTP_LIVE.fetch_sub(1)` and the line of the log -/
  | leave
  deriving DecidableEq, Repr

/-- What an operation answers; `false` is an error. -/
def WorkerOp.Ret : WorkerOp → Type
  | .accept | .finalize | .receiver => Bool
  | .request => Incoming
  | .arrive | .respond | .busy | .stream | .drop | .leave => Unit

abbrev WorkerProg (α : Type) : Type := Prog WorkerOp WorkerOp.Ret α

def WorkerOp.run (o : WorkerOp) : WorkerProg o.Ret := Prog.call (R := WorkerOp.Ret) o

/-- `EventsService` -/
def eventsService : WorkerProg Unit := do
  let ok : Bool ← WorkerOp.finalize.run
  if ok then do
    let rx : Bool ← WorkerOp.receiver.run
    if rx then do
      let _ : Unit ← WorkerOp.stream.run
      WorkerOp.drop.run
    else WorkerOp.busy.run
  else pure ()

def serve : WorkerProg Unit := do
  let incoming : Incoming ← WorkerOp.request.run
  match incoming with
  | .events => eventsService
  | .other => WorkerOp.respond.run
  | .nothing => pure ()

/-- One turn of the `loop` of `web_task`. -/
def webTask : WorkerProg Unit := do
  let ok : Bool ← WorkerOp.accept.run
  if ok then do
    let _ : Unit ← WorkerOp.arrive.run
    serve
    WorkerOp.leave.run
  else pure ()

/-! ### The system -/

/-- A line of the log. -/
inductive TcpLine where
  | full (live : UInt8)
  | plus (live : UInt8)
  | minus (live : UInt8)
  | eventsBusy
  deriving DecidableEq, Repr

/-- A line, with how many workers served and streamed when it was written. -/
structure TcpRecord where
  line : TcpLine
  serving : ℕ
  streaming : ℕ
  deriving DecidableEq, Repr

structure Workers where
  /-- `HTTP_LIVE` -/
  live : UInt8
  /-- the receivers of `EVENTS` -/
  receivers : ℕ
  serving : Finset Worker
  streaming : Finset Worker
  log : List TcpRecord

/-- `u8::saturating_add(1)` and `u8::saturating_sub(1)` -/
def saturatingSuccU8 (x : UInt8) : UInt8 := if x = 255 then 255 else x + 1
def saturatingPredU8 (x : UInt8) : UInt8 := if x = 0 then 0 else x - 1

namespace Workers

def boot : Workers := ⟨0, 0, ∅, ∅, []⟩

def emit (line : TcpLine) (s : Workers) : Workers :=
  { s with log := ⟨line, s.serving.card, s.streaming.card⟩ :: s.log }

def arrive (i : Worker) (s : Workers) : Workers :=
  let live := saturatingSuccU8 s.live
  let line : TcpLine := if live ≥ UInt8.ofNat webTaskPoolSize then .full live else .plus live
  emit line { s with live := s.live + 1, serving := insert i s.serving }

def leave (i : Worker) (s : Workers) : Workers :=
  let live := saturatingPredU8 s.live
  emit (.minus live) { s with live := s.live - 1, serving := s.serving.erase i }

def addReceiver (i : Worker) (s : Workers) : Workers :=
  { s with receivers := s.receivers + 1, streaming := insert i s.streaming }

def dropReceiver (i : Worker) (s : Workers) : Workers :=
  { s with receivers := s.receivers - 1, streaming := s.streaming.erase i }

end Workers

def WorkerOp.exec (i : Worker) : (o : WorkerOp) → Workers → o.Ret → Workers → Prop
  | .receiver, s, r, s' =>
    match r with
    | true => s.receivers < maxEventStreams ∧ s' = s.addReceiver i
    | false => ¬ s.receivers < maxEventStreams ∧ s' = s.emit .eventsBusy
  | .arrive, s, _, s' => s' = s.arrive i
  | .leave, s, _, s' => s' = s.leave i
  | .drop, s, _, s' => s' = s.dropReceiver i
  | .accept, s, _, s' | .request, s, _, s' | .respond, s, _, s' | .finalize, s, _, s'
  | .busy, s, _, s' | .stream, s, _, s' => s' = s

/-- The workers; nothing else touches their counters. -/
def workerPool : Pool Worker Workers WorkerOp WorkerOp.Ret Unit where
  exec := WorkerOp.exec
  env _ _ := False
  enter _ _ _ := False
  start _ := webTask
  next _ := some webTask

/-- All twelve have been spawned. -/
def workerBoot : Pool.Conf Worker Workers WorkerOp WorkerOp.Ret Unit := ⟨.boot, fun _ => some webTask⟩

/-! ### What the counters count -/

/-- What a line says is so. -/
def TcpRecord.Ok (r : TcpRecord) : Prop :=
  match r.line with
  | .full live => live.toNat = r.serving ∧ r.serving = webTaskPoolSize
  | .plus live => live.toNat = r.serving ∧ r.serving < webTaskPoolSize
  | .minus live => live.toNat = r.serving
  | .eventsBusy => r.streaming = maxEventStreams

structure WorkersInv (s : Workers) : Prop where
  live : s.live.toNat = s.serving.card
  receivers : s.receivers = s.streaming.card
  room : s.receivers ≤ maxEventStreams
  log : ∀ r ∈ s.log, r.Ok

/-- The worker that is at this operation is between the two changes of `HTTP_LIVE`. -/
def WorkerOp.serving : WorkerOp → Bool
  | .accept | .arrive => false
  | .request | .respond | .finalize | .receiver | .busy | .stream | .drop | .leave => true

/-- It holds a receiver. -/
def WorkerOp.streaming : WorkerOp → Bool
  | .stream | .drop => true
  | .accept | .arrive | .request | .respond | .finalize | .receiver | .busy | .leave => false

/-- Whether worker `i` serves, and whether it streams. -/
def Place (i : Worker) (serving streaming : Bool) (s : Workers) : Prop :=
  (i ∈ s.serving ↔ serving = true) ∧ (i ∈ s.streaming ↔ streaming = true)

/-- What the other workers leave alone of worker `i`. -/
def SamePlace (i : Worker) (s s' : Workers) : Prop :=
  (i ∈ s'.serving ↔ i ∈ s.serving) ∧ (i ∈ s'.streaming ↔ i ∈ s.streaming)

/-- The specification of worker `i`: it is where its next operation says. -/
def workerSpec (i : Worker) : Spec Workers WorkerOp WorkerOp.Ret where
  exec := WorkerOp.exec i
  rely := SamePlace i
  guar s s' := (WorkersInv s → WorkersInv s') ∧ ∀ j, j ≠ i → SamePlace j s s'
  pre o := Place i o.serving o.streaming

theorem boot_workersInv : WorkersInv .boot := ⟨rfl, rfl, Nat.zero_le _, by simp [Workers.boot]⟩

theorem WorkersInv.emit {s : Workers} (h : WorkersInv s) {line : TcpLine}
    (hline : TcpRecord.Ok ⟨line, s.serving.card, s.streaming.card⟩) : WorkersInv (s.emit line) := by
  refine ⟨h.live, h.receivers, h.room, ?_⟩
  intro r hr
  rcases List.mem_cons.1 hr with rfl | hr
  · exact hline
  · exact h.log r hr

section Worker

variable {i : Worker} {s : Workers}

theorem card_le (x : Finset Worker) : x.card ≤ webTaskPoolSize := by
  have := x.card_le_univ
  rwa [Fintype.card_fin] at this

theorem WorkersInv.arrive (h : WorkersInv s) (hi : i ∉ s.serving) : WorkersInv (s.arrive i) := by
  have hcard := Finset.card_insert_of_notMem hi
  have hle : (insert i s.serving).card ≤ 12 := card_le _
  have hlive := h.live
  have hsucc : (s.live + 1).toNat = (insert i s.serving).card := by
    rw [UInt8.toNat_add, hcard, hlive]
    exact Nat.mod_eq_of_lt (by rw [hcard] at hle; simp; omega)
  have hsat : saturatingSuccU8 s.live = s.live + 1 := by
    refine if_neg fun h255 => ?_
    rw [h255] at hlive
    simp at hlive
    omega
  have hinv : WorkersInv { s with live := s.live + 1, serving := insert i s.serving } :=
    ⟨hsucc, h.receivers, h.room, h.log⟩
  refine hinv.emit ?_
  rw [hsat]
  by_cases hfull : s.live + 1 ≥ UInt8.ofNat webTaskPoolSize
  · rw [if_pos hfull]
    have hge : webTaskPoolSize ≤ (s.live + 1).toNat := UInt8.le_iff_toNat_le.1 hfull
    exact ⟨hsucc, Nat.le_antisymm hle (hsucc ▸ hge)⟩
  · rw [if_neg hfull]
    have hlt : (s.live + 1).toNat < webTaskPoolSize := UInt8.lt_iff_toNat_lt.1 (UInt8.not_le.1 hfull)
    exact ⟨hsucc, hsucc ▸ hlt⟩

theorem WorkersInv.leave (h : WorkersInv s) (hi : i ∈ s.serving) : WorkersInv (s.leave i) := by
  have hcard := Finset.card_erase_of_mem hi
  have hpos := Finset.card_pos.2 ⟨i, hi⟩
  have hlive := h.live
  have hone : (1 : UInt8) ≤ s.live := UInt8.le_iff_toNat_le.2 (by rw [hlive]; exact hpos)
  have hpred : (s.live - 1).toNat = (s.serving.erase i).card := by
    rw [UInt8.toNat_sub_of_le _ _ hone, hlive, hcard]
    rfl
  have hsat : saturatingPredU8 s.live = s.live - 1 := by
    refine if_neg fun hzero => ?_
    rw [hzero] at hlive
    simp at hlive
    omega
  have hinv : WorkersInv { s with live := s.live - 1, serving := s.serving.erase i } :=
    ⟨hpred, h.receivers, h.room, h.log⟩
  refine hinv.emit ?_
  rw [hsat]
  exact hpred

theorem WorkersInv.addReceiver (h : WorkersInv s) (hi : i ∉ s.streaming)
    (hroom : s.receivers < maxEventStreams) : WorkersInv (s.addReceiver i) := by
  refine ⟨h.live, ?_, hroom, h.log⟩
  show s.receivers + 1 = (insert i s.streaming).card
  rw [Finset.card_insert_of_notMem hi, h.receivers]

theorem WorkersInv.dropReceiver (h : WorkersInv s) (hi : i ∈ s.streaming) :
    WorkersInv (s.dropReceiver i) := by
  refine ⟨h.live, ?_, Nat.le_trans (Nat.sub_le _ _) h.room, h.log⟩
  show s.receivers - 1 = (s.streaming.erase i).card
  rw [Finset.card_erase_of_mem hi, h.receivers]

theorem WorkersInv.eventsBusy (h : WorkersInv s) (hfull : ¬ s.receivers < maxEventStreams) :
    WorkersInv (s.emit .eventsBusy) := by
  refine h.emit ?_
  show s.streaming.card = maxEventStreams
  have hroom := h.room
  rw [← h.receivers]
  omega

/-! ### Where a worker is -/

theorem place_stable (i : Worker) (serving streaming : Bool) :
    (workerSpec i).Stable (Place i serving streaming) :=
  fun _ _ hsame hplace => ⟨hsame.1.trans hplace.1, hsame.2.trans hplace.2⟩

theorem samePlace_refl (j : Worker) (s : Workers) : SamePlace j s s := ⟨Iff.rfl, Iff.rfl⟩

theorem samePlace_arrive {j : Worker} (hj : j ≠ i) (s : Workers) : SamePlace j s (s.arrive i) :=
  ⟨by simp [Workers.arrive, Workers.emit, hj], Iff.rfl⟩

theorem samePlace_leave {j : Worker} (hj : j ≠ i) (s : Workers) : SamePlace j s (s.leave i) :=
  ⟨by simp [Workers.leave, Workers.emit, hj], Iff.rfl⟩

theorem samePlace_addReceiver {j : Worker} (hj : j ≠ i) (s : Workers) :
    SamePlace j s (s.addReceiver i) :=
  ⟨Iff.rfl, by simp [Workers.addReceiver, hj]⟩

theorem samePlace_dropReceiver {j : Worker} (hj : j ≠ i) (s : Workers) :
    SamePlace j s (s.dropReceiver i) :=
  ⟨Iff.rfl, by simp [Workers.dropReceiver, hj]⟩

open Spec

/-- **An operation of worker `i`**: what leads from where it is made to the next place. -/
theorem run_triple {o : WorkerOp} {serving streaming : o.Ret → Bool}
    (h : ∀ s r s', Place i o.serving o.streaming s → o.exec i s r s' →
      ((WorkersInv s → WorkersInv s') ∧ ∀ j, j ≠ i → SamePlace j s s') ∧
        Place i (serving r) (streaming r) s') :
    (workerSpec i).Triple (Place i o.serving o.streaming) o.run
      fun r => Place i (serving r) (streaming r) :=
  Triple.call (place_stable i _ _) fun s hs => ⟨hs, fun r s' he => h s r s' hs he⟩

/-- The operation changes nothing that is shared. -/
def WorkerOp.apart : WorkerOp → Bool
  | .accept | .request | .respond | .finalize | .busy | .stream => true
  | .arrive | .receiver | .drop | .leave => false

theorem apart_triple {o : WorkerOp} (ho : o.apart = true) : (workerSpec i).Triple
    (Place i o.serving o.streaming) o.run fun _ => Place i o.serving o.streaming := by
  refine run_triple fun s r s' hs he => ?_
  obtain rfl : s' = s := by cases o <;> first | exact he | cases ho
  exact ⟨⟨id, fun j _ => samePlace_refl j _⟩, hs⟩

theorem arrive_triple : (workerSpec i).Triple (Place i false false) WorkerOp.arrive.run
    fun _ => Place i true false := by
  refine @run_triple i .arrive (fun _ => true) (fun _ => false) fun s r s' hs he => ?_
  obtain rfl : s' = s.arrive i := he
  have hout : i ∉ s.serving := by simp [hs.1, WorkerOp.serving]
  exact ⟨⟨fun h => h.arrive hout, fun j hj => samePlace_arrive hj s⟩,
    by simp [Workers.arrive, Workers.emit], hs.2⟩

theorem leave_triple : (workerSpec i).Triple (Place i true false) WorkerOp.leave.run
    fun _ => Place i false false := by
  refine @run_triple i .leave (fun _ => false) (fun _ => false) fun s r s' hs he => ?_
  obtain rfl : s' = s.leave i := he
  have hin : i ∈ s.serving := hs.1.2 rfl
  exact ⟨⟨fun h => h.leave hin, fun j hj => samePlace_leave hj s⟩,
    by simp [Workers.leave, Workers.emit], hs.2⟩

theorem receiver_triple : (workerSpec i).Triple (Place i true false) WorkerOp.receiver.run
    fun rx : Bool => Place i true rx := by
  refine @run_triple i .receiver (fun _ => true) id fun s (rx : Bool) s' hs he => ?_
  have hout : i ∉ s.streaming := by simp [hs.2, WorkerOp.streaming]
  cases rx with
  | true =>
    obtain ⟨hroom, rfl⟩ := he
    exact ⟨⟨fun h => h.addReceiver hout hroom, fun j hj => samePlace_addReceiver hj s⟩, hs.1,
      iff_of_true (Finset.mem_insert_self _ _) rfl⟩
  | false =>
    obtain ⟨hfull, rfl⟩ := he
    exact ⟨⟨fun h => h.eventsBusy hfull, fun j _ => samePlace_refl j s⟩, hs⟩

theorem drop_triple : (workerSpec i).Triple (Place i true true) WorkerOp.drop.run
    fun _ => Place i true false := by
  refine @run_triple i .drop (fun _ => true) (fun _ => false) fun s r s' hs he => ?_
  obtain rfl : s' = s.dropReceiver i := he
  have hin : i ∈ s.streaming := hs.2.2 rfl
  exact ⟨⟨fun h => h.dropReceiver hin, fun j hj => samePlace_dropReceiver hj s⟩, hs.1,
    by simp [Workers.dropReceiver]⟩

theorem eventsService_triple : (workerSpec i).Triple (Place i true false) eventsService
    fun _ => Place i true false := by
  refine .bind (apart_triple (o := .finalize) rfl) fun ok : Bool => ?_
  cases ok with
  | false => exact .pure fun _ hs => hs
  | true =>
    refine .bind receiver_triple fun rx : Bool => ?_
    cases rx with
    | true => exact .bind (apart_triple (o := .stream) rfl) fun _ => drop_triple
    | false => exact apart_triple (o := .busy) rfl

theorem serve_triple : (workerSpec i).Triple (Place i true false) serve
    fun _ => Place i true false := by
  refine .bind (apart_triple (o := .request) rfl) fun incoming : Incoming => ?_
  cases incoming with
  | events => exact eventsService_triple
  | other => exact apart_triple (o := .respond) rfl
  | nothing => exact .pure fun _ hs => hs

/-- **A turn of a worker.** -/
theorem webTask_triple : (workerSpec i).Triple (Place i false false) webTask
    fun _ => Place i false false := by
  refine .bind (apart_triple (o := .accept) rfl) fun ok : Bool => ?_
  cases ok with
  | false => exact .pure fun _ hs => hs
  | true => exact .bind arrive_triple fun _ => .bind serve_triple fun _ => leave_triple

end Worker

/-! ### Runs -/

theorem worker_fits : Pool.Fits workerPool WorkersInv workerSpec
    fun i _ => Place i false false where
  exec _ _ _ _ _ he := he
  refl i s := samePlace_refl i s
  trans _ _ _ _ h₁ h₂ := ⟨h₂.1.trans h₁.1, h₂.2.trans h₁.2⟩
  stable i _ s s' hs hsame := place_stable i _ _ s s' hsame hs
  env _ _ _ he := he.elim
  guar _ _ _ hI hguar := ⟨hguar.1 hI, hguar.2⟩
  enter _ _ _ _ he := he.elim
  next i _ _ s _ hs hnext := by
    cases hnext
    exact webTask_triple s hs

theorem workerBoot_keeps : workerBoot.Keeps workerSpec fun i _ => Place i false false := by
  intro i t ht
  cases ht
  exact webTask_triple _ ⟨by simp [workerBoot, Workers.boot], by simp [workerBoot, Workers.boot]⟩

/-- **The workers.** In every interleaving of the twelve: `HTTP_LIVE` is the number of workers that serve a
connection; at most four of them are held by event streams, so that eight are left for everything else;
every line of the log was true when it was written, so `tcp full` is logged if and only if all
twelve serve, and `/api/events` is refused only while four streams are open. -/
theorem web_workers {c : Pool.Conf Worker Workers WorkerOp WorkerOp.Ret Unit}
    (h : workerPool.Reach workerBoot c) :
    (∀ i o k, c.task i = some (.op o k) →
      (i ∈ c.state.serving ↔ o.serving = true) ∧ (i ∈ c.state.streaming ↔ o.streaming = true)) ∧
    c.state.live.toNat = c.state.serving.card ∧ c.state.receivers = c.state.streaming.card ∧
    c.state.streaming.card ≤ maxEventStreams ∧ 8 ≤ (c.state.streamingᶜ).card ∧
    ∀ r ∈ c.state.log, r.Ok := by
  have hinv : WorkersInv c.state := Pool.inv_reach worker_fits h boot_workersInv workerBoot_keeps
  have hle : c.state.streaming.card ≤ 4 := hinv.receivers ▸ hinv.room
  refine ⟨fun i o k ht => Pool.pre_reach worker_fits h boot_workersInv workerBoot_keeps ht, hinv.live,
    hinv.receivers, hle, ?_, hinv.log⟩
  rw [Finset.card_compl, Fintype.card_fin]
  exact Nat.sub_le_sub_left hle 12

/-- The first worker has opened a stream. -/
theorem web_workers_one : ∃ c, workerPool.Reach workerBoot c ∧ c.state.live = 1 ∧
    c.state.live.toNat = c.state.serving.card ∧ c.state.streaming.card ≤ maxEventStreams ∧
    8 ≤ (c.state.streamingᶜ).card := by
  have h₀ : workerPool.Reach workerBoot workerBoot := .refl
  obtain ⟨c₁, h₁, hs₁, ht₁⟩ := h₀.op (i := 0) .accept true rfl rfl
  obtain ⟨c₂, h₂, hs₂, ht₂⟩ := h₁.op .arrive () ht₁ rfl
  obtain ⟨c₃, h₃, hs₃, ht₃⟩ := h₂.op .request .events ht₂ rfl
  obtain ⟨c₄, h₄, hs₄, ht₄⟩ := h₃.op .finalize true ht₃ rfl
  obtain ⟨c₅, h₅, hs₅, ht₅⟩ :=
    h₄.op .receiver true ht₄ ⟨by rw [hs₄, hs₃, hs₂, hs₁]; decide, rfl⟩
  obtain ⟨-, hlive, -, hroom, hleft, -⟩ := web_workers h₅
  refine ⟨c₅, h₅, ?_, hlive, hroom, hleft⟩
  rw [hs₅, hs₄, hs₃, hs₂, hs₁]
  rfl

end ScoreboardCtrl
