import ScoreboardCtrl.Ota.Handler
import Mathlib.Data.List.Infix

/-!
# OTA is all or nothing

Any number of uploads, interleaved anywhere.

* `AllOrNothing` — the invariant: one upload at a time, in contiguous chunks, and STATE asks for
  the swap only where DFU starts with the whole image of the one request that marked it;
* `otaSpec` — what one request relies on and guarantees; an active request has the partitions to
  itself;
* `ota_all_or_nothing` — the invariant in every reachable state, and what one more step can touch.
-/

namespace ScoreboardCtrl

open Lib Lib.Spec

/-! ### What a request did -/

/-- `run_ota` is active: the lock was taken and not yet released. -/
def active : List OtaEvent → Bool
  | [] => false
  | .acquired :: _ => true
  | .released :: _ => false
  | _ :: log => active log

/-- Where the last chunk written ends. -/
def extent : List OtaEvent → ℕ
  | [] => 0
  | .wrote offset data :: _ => offset + data.length
  | _ :: log => extent log

/-- Each chunk written starts where the last one ended, at the start of a sector, and ends within
the first `len` bytes. -/
def Chunks (len : ℕ) : List OtaEvent → Prop
  | [] => True
  | .wrote offset data :: log => (offset = extent log ∧ offset % eraseSize = 0 ∧ data ≠ [] ∧
      offset + data.length ≤ len) ∧ Chunks len log
  | _ :: log => Chunks len log

/-- The DFU partition starts with the whole image of the request. -/
structure Image (q : OtaRequest) (p : Partitions) : Prop where
  pos : 0 < q.contentLength
  fits : q.contentLength ≤ activeCapacity
  stored : ∀ a < q.contentLength, q.body[a]? = some (p.dfu a)

variable {ι μ : Type}

/-- The request `i`, and no other, wrote its whole image and marked it. -/
structure Installed (req : ι → OtaRequest) (p : Partitions) (log : ι → List OtaEvent) (i : ι) :
    Prop where
  marked : .marked ∈ log i
  unique : ∀ j, .marked ∈ log j → j = i
  whole : extent (log i) = (req i).contentLength
  image : Image (req i) p

/-- STATE is as at boot and nobody marked, or asks for the swap to an image that is installed. -/
def Settled (req : ι → OtaRequest) (p : Partitions) (log : ι → List OtaEvent) : Prop :=
  (p.state = .boot ∧ ∀ i, .marked ∉ log i) ∨ (p.state = .swap ∧ ∃ i, Installed req p log i)

/-- The lock is taken exactly while a request is active, and that is one request. -/
structure Locked (busy : Bool) (log : ι → List OtaEvent) : Prop where
  busy_iff : busy = true ↔ ∃ i, active (log i) = true
  unique : ∀ i j, active (log i) = true → active (log j) = true → i = j

structure AllOrNothing (req : ι → OtaRequest) (s : Ota ι μ) : Prop where
  locked : Locked s.busy s.log
  chunks : ∀ i, Chunks (req i).contentLength (s.log i)
  settled : Settled req s.parts s.log
  /-- "OK" is the reply to the request that marked, and to no other -/
  replied : ∀ i reply, .replied reply ∈ s.log i → (reply = .ok ↔ .marked ∈ s.log i)
  reset : s.reset = true → s.parts.state = .swap

variable {req : ι → OtaRequest} {s s' : Ota ι μ} {log : ι → List OtaEvent} {p : Partitions}

theorem Settled.unmarked (h : Settled req p log) (hp : p.state = .boot) (i : ι) :
    .marked ∉ log i := by
  rcases h with ⟨-, hno⟩ | ⟨hswap, -⟩
  · exact hno i
  · rw [hp] at hswap
    exact absurd hswap (by decide)

/-- The partitions under a call of the updater that leaves STATE alone. -/
theorem Settled.write {U : Updater μ} (hU : U.Contract) (h : Settled req s.parts s.log) {offset : ℕ}
    {data : List UInt8} {ok : Bool} {p : Partitions} {m m' : μ}
    (hw : U.write s.parts m offset data ok p m') : Settled req p s.log := by
  rcases h with ⟨hboot, hno⟩ | ⟨hswap, hi⟩
  · exact .inl ⟨by rw [hU.write_state hw, hboot], hno⟩
  · obtain ⟨-, rfl⟩ := hU.write_refused hw (by rw [hswap]; decide)
    exact .inr ⟨hswap, hi⟩

section Events

variable [DecidableEq ι] {i j : ι} {e : OtaEvent}

theorem Locked.update {busy : Bool} (h : Locked busy log) (he : active (e :: log i) = active (log i)) :
    Locked busy (Function.update log i (e :: log i)) := by
  have hsame : ∀ j, active (Function.update log i (e :: log i) j) = active (log j) :=
    (Function.forall_update_iff log (p := fun j l => active l = active (log j))).2
      ⟨he, fun j _ => rfl⟩
  constructor
  · simp only [hsame]
    exact h.busy_iff
  · simp only [hsame]
    exact h.unique

theorem Locked.acquire (h : Locked false log) :
    Locked true (Function.update log i (.acquired :: log i)) := by
  have hfree : ∀ j, active (log j) = false := by
    intro j
    rw [Bool.eq_false_iff]
    exact fun hj => absurd (h.busy_iff.2 ⟨j, hj⟩) (by decide)
  have honly : ∀ j, active (Function.update log i (.acquired :: log i) j) = true → j = i := by
    intro j hj
    by_contra hne
    rw [Function.update_of_ne hne, hfree j] at hj
    exact absurd hj (by decide)
  refine ⟨⟨fun _ => ⟨i, by rw [Function.update_self]; rfl⟩, fun _ => rfl⟩, fun j k hj hk => ?_⟩
  rw [honly j hj, honly k hk]

theorem Locked.release {busy : Bool} (h : Locked busy log) (hi : active (log i) = true) :
    Locked false (Function.update log i (.released :: log i)) := by
  have hnone : ∀ j, active (Function.update log i (.released :: log i) j) = false := by
    refine (Function.forall_update_iff log (p := fun _ l => active l = false)).2 ⟨rfl, ?_⟩
    intro j hj
    rw [Bool.eq_false_iff]
    exact fun hact => hj (h.unique j i hact hi)
  constructor
  · simp [hnone]
  · intro j k hj
    rw [hnone j] at hj
    exact absurd hj (by decide)

/-- An event that is neither the mark nor a chunk. -/
theorem Settled.update (h : Settled req p log) (he : .marked ≠ e)
    (hext : extent (e :: log i) = extent (log i)) :
    Settled req p (Function.update log i (e :: log i)) := by
  have hmarked : ∀ j, .marked ∈ Function.update log i (e :: log i) j ↔ .marked ∈ log j :=
    (Function.forall_update_iff log (p := fun j l => .marked ∈ l ↔ .marked ∈ log j)).2
      ⟨by simp [he], fun j _ => Iff.rfl⟩
  have hextent : ∀ j, extent (Function.update log i (e :: log i) j) = extent (log j) :=
    (Function.forall_update_iff log (p := fun j l => extent l = extent (log j))).2
      ⟨hext, fun j _ => rfl⟩
  refine h.imp (fun h => ⟨h.1, ?_⟩) fun h => ⟨h.1, h.2.imp fun k hk => ⟨?_, ?_, ?_, hk.image⟩⟩
  · simpa only [hmarked] using h.2
  · rw [hmarked]
    exact hk.marked
  · simpa only [hmarked] using hk.unique
  · rw [hextent]
    exact hk.whole

/-- An event of `i`, where it is known what becomes of the lock and of the partitions. -/
theorem AllOrNothing.act (hs : AllOrNothing req s) (hlog : s'.log = Function.update s.log i (e :: s.log i))
    (hlocked : Locked s'.busy s'.log) (hchunks : Chunks (req i).contentLength (e :: s.log i))
    (hsettled : Settled req s'.parts s'.log)
    (hreplied : ∀ reply, .replied reply ∈ e :: s.log i → (reply = .ok ↔ .marked ∈ e :: s.log i))
    (hreset : s'.reset = true → s'.parts.state = .swap) : AllOrNothing req s' where
  locked := hlocked
  chunks := by
    rw [hlog]
    exact (Function.forall_update_iff s.log (p := fun j l => Chunks (req j).contentLength l)).2
      ⟨hchunks, fun j _ => hs.chunks j⟩
  settled := hsettled
  replied := by
    rw [hlog]
    exact (Function.forall_update_iff s.log (p := fun _ l => ∀ reply, .replied reply ∈ l →
      (reply = .ok ↔ .marked ∈ l))).2 ⟨hreplied, fun j _ => hs.replied j⟩
  reset := hreset

end Events

/-! ### The specification of a request -/

/-- What the other requests do, as seen by request `i`. -/
structure OtaApart (i : ι) (s s' : Ota ι μ) : Prop where
  log : s'.log i = s.log i
  left : s'.left i = s.left i
  parts : active (s.log i) = true → s'.parts = s.parts

theorem OtaApart.refl (i : ι) (s : Ota ι μ) : OtaApart i s s := ⟨rfl, rfl, fun _ => rfl⟩

theorem OtaApart.trans {i : ι} {s₁ s₂ s₃ : Ota ι μ} (h₁ : OtaApart i s₁ s₂) (h₂ : OtaApart i s₂ s₃) :
    OtaApart i s₁ s₃ where
  log := h₂.log.trans h₁.log
  left := h₂.left.trans h₁.left
  parts hi := (h₂.parts (by rw [h₁.log]; exact hi)).trans (h₁.parts hi)

/-- The operations of `run_ota`. -/
def OtaOp.ofRunOta : OtaOp → Bool
  | .read _ | .feed | .writeFirmware _ _ | .afterMillis _ | .markUpdated => true
  | _ => false

/-- Where request `i` is: whether it holds the lock and whether it marked its image. -/
structure Phase (req : ι → OtaRequest) (i : ι) (held marked : Bool) (s : Ota ι μ) : Prop where
  inv : AllOrNothing req s
  held : active (s.log i) = held
  marked : .marked ∈ s.log i ↔ marked = true
  silent : ∀ reply, .replied reply ∉ s.log i

/-- Request `i` has written the first `offset` bytes of its body. -/
structure Uploading (req : ι → OtaRequest) (i : ι) (offset : ℕ) (s : Ota ι μ) : Prop where
  phase : Phase req i true false s
  extent : extent (s.log i) = offset
  booted : 0 < offset → s.parts.state = .boot
  stored : ∀ a < offset, (req i).body[a]? = some (s.parts.dfu a)

/-- After those, `buf` was read; only at the start of a sector can there be anything more. -/
structure Filling (req : ι → OtaRequest) (i : ι) (offset : ℕ) (buf : List UInt8) (s : Ota ι μ) :
    Prop where
  uploading : Uploading req i offset s
  next : buf ++ s.left i <+: (req i).body.drop offset
  aligned : buf ++ s.left i ≠ [] → offset % eraseSize = 0

/-- What `read_exact_or_eof` leaves: `want` bytes, or the body is at its end. -/
def Filled (req : ι → OtaRequest) (i : ι) (offset want : ℕ) (buf : List UInt8) (s : Ota ι μ) :
    Prop :=
  Filling req i offset buf s ∧ buf.length ≤ want ∧ (s.left i ≠ [] → buf.length = want)

/-- At the head of the loop. -/
def AtHead (req : ι → OtaRequest) (i : ι) (offset : ℕ) (s : Ota ι μ) : Prop :=
  offset ≤ (req i).contentLength ∧ Uploading req i offset s ∧
    s.left i <+: (req i).body.drop offset ∧
    (offset < (req i).contentLength → s.left i ≠ [] → offset % eraseSize = 0)

/-- The specification of request `i`: what `run_ota` does is done under the lock, writes go to
the first `Content-Length` bytes, and the mark is set where STATE is still booted. -/
def otaSpec (U : Updater μ) (req : ι → OtaRequest) [DecidableEq ι] (i : ι) :
    Spec (Ota ι μ) OtaOp OtaOp.Ret where
  exec := OtaOp.exec U i
  rely s s' := (AllOrNothing req s → AllOrNothing req s') ∧ OtaApart i s s'
  guar s s' := AllOrNothing req s' ∧ ∀ j, j ≠ i → OtaApart j s s'
  pre o s := (o.ofRunOta = true → active (s.log i) = true) ∧
    match o with
    | .writeFirmware offset data => data ≠ [] ∧ offset + data.length ≤ (req i).contentLength
    | .markUpdated => s.parts.state = .boot
    | _ => True

/-! ### Interference -/

theorem Phase.apart {i : ι} {h m : Bool} (hs : Phase req i h m s) (hinv : AllOrNothing req s')
    (hap : OtaApart i s s') : Phase req i h m s' where
  inv := hinv
  held := by rw [hap.log]; exact hs.held
  marked := by rw [hap.log]; exact hs.marked
  silent := by rw [hap.log]; exact hs.silent

/-- Request `i` did `e`, which is no mark and no reply. -/
theorem Phase.act {i : ι} {h h' m : Bool} {e : OtaEvent} (hs : Phase req i h m s)
    (hinv : AllOrNothing req s') (hlog : s'.log i = e :: s.log i)
    (hheld : active (e :: s.log i) = h') (hmarked : .marked ≠ e)
    (hsilent : ∀ reply, .replied reply ≠ e) : Phase req i h' m s' where
  inv := hinv
  held := by rw [hlog]; exact hheld
  marked := by
    rw [hlog, List.mem_cons]
    simpa only [hmarked, false_or] using hs.marked
  silent reply := by
    rw [hlog, List.mem_cons]
    simpa only [hsilent reply, false_or] using hs.silent reply

theorem Uploading.apart {i : ι} {offset : ℕ} (hs : Uploading req i offset s)
    (hinv : AllOrNothing req s') (hap : OtaApart i s s') : Uploading req i offset s' where
  phase := hs.phase.apart hinv hap
  extent := by rw [hap.log]; exact hs.extent
  booted := by rw [hap.parts hs.phase.held]; exact hs.booted
  stored := by rw [hap.parts hs.phase.held]; exact hs.stored

theorem Filling.apart {i : ι} {offset : ℕ} {buf : List UInt8} (hs : Filling req i offset buf s)
    (hinv : AllOrNothing req s') (hap : OtaApart i s s') : Filling req i offset buf s' where
  uploading := hs.uploading.apart hinv hap
  next := by rw [hap.left]; exact hs.next
  aligned := by rw [hap.left]; exact hs.aligned

theorem Filled.apart {i : ι} {offset want : ℕ} {buf : List UInt8}
    (hs : Filled req i offset want buf s) (hinv : AllOrNothing req s') (hap : OtaApart i s s') :
    Filled req i offset want buf s' :=
  ⟨hs.1.apart hinv hap, hs.2.1, by rw [hap.left]; exact hs.2.2⟩

theorem AtHead.apart {i : ι} {offset : ℕ} (hs : AtHead req i offset s)
    (hinv : AllOrNothing req s') (hap : OtaApart i s s') : AtHead req i offset s' := by
  obtain ⟨hle, hup, hleft, halign⟩ := hs
  refine ⟨hle, hup.apart hinv hap, ?_, ?_⟩
  · rw [hap.left]
    exact hleft
  · rw [hap.left]
    exact halign

/-- The bytes of a chunk are those of the body. -/
theorem Filling.body {i : ι} {offset : ℕ} {buf : List UInt8} (hs : Filling req i offset buf s) {j : ℕ}
    (hj : j < buf.length) : (req i).body[offset + j]? = some buf[j] := by
  obtain ⟨rest, hrest⟩ := hs.next
  rw [← List.getElem?_drop, ← hrest, List.append_assoc, List.getElem?_append_left hj,
    List.getElem?_eq_getElem hj]

variable [DecidableEq ι] {U : Updater μ} {i : ι}

theorem phase_stable (h m : Bool) : (otaSpec U req i).Stable (Phase req i h m) :=
  fun _ _ hr hs => hs.apart (hr.1 hs.inv) hr.2

theorem uploading_stable (offset : ℕ) : (otaSpec U req i).Stable (Uploading req i offset) :=
  fun _ _ hr hs => hs.apart (hr.1 hs.phase.inv) hr.2

theorem filling_stable (offset : ℕ) (buf : List UInt8) :
    (otaSpec U req i).Stable (Filling req i offset buf) :=
  fun _ _ hr hs => hs.apart (hr.1 hs.uploading.phase.inv) hr.2

theorem filled_stable (offset want : ℕ) (buf : List UInt8) :
    (otaSpec U req i).Stable (Filled req i offset want buf) :=
  fun _ _ hr hs => hs.apart (hr.1 hs.1.uploading.phase.inv) hr.2

theorem atHead_stable (offset : ℕ) : (otaSpec U req i).Stable (AtHead req i offset) :=
  fun _ _ hr hs => hs.apart (hr.1 hs.2.1.phase.inv) hr.2

/-! ### Frames -/

theorem record_apart (s : Ota ι μ) (e : OtaEvent) {j : ι} (h : j ≠ i) :
    OtaApart j s (s.record i e) := ⟨Function.update_of_ne h _ _, rfl, fun _ => rfl⟩

theorem setLeft_apart (s : Ota ι μ) (rest : List UInt8) {j : ι} (h : j ≠ i) :
    OtaApart j s (s.setLeft i rest) := ⟨rfl, Function.update_of_ne h _ _, fun _ => rfl⟩

theorem setLeft_inv (hs : AllOrNothing req s) (rest : List UInt8) :
    AllOrNothing req (s.setLeft i rest) :=
  ⟨hs.locked, hs.chunks, hs.settled, hs.replied, hs.reset⟩

/-- A call of the updater is seen by nobody else: no other request is active. -/
theorem setParts_apart (hs : AllOrNothing req s) (hi : active (s.log i) = true) (p : Partitions)
    (m : μ) (ok : Bool) (e : OtaEvent) {j : ι} (h : j ≠ i) :
    OtaApart j s ((s.setParts i p m).recordIf ok i e) := by
  have hfree : active (s.log j) = true → ((s.setParts i p m).recordIf ok i e).parts = s.parts :=
    fun hj => absurd (hs.locked.unique j i hj hi) h
  cases ok with
  | false => exact ⟨rfl, rfl, hfree⟩
  | true => exact ⟨Function.update_of_ne h _ _, rfl, hfree⟩

/-! ### The operations of a request -/

open OtaProg

/-- Feeding the watchdog does nothing to the shared state, nor does waiting. -/
theorem feed_triple {J : Ota ι μ → Prop} (hJ : (otaSpec U req i).Stable J)
    (hphase : ∀ s, J s → Phase req i true false s) :
    (otaSpec U req i).Triple J feed fun _ => J := by
  refine Triple.call hJ fun s hs => ⟨⟨fun _ => (hphase s hs).held, trivial⟩, ?_⟩
  rintro r s' rfl
  exact ⟨⟨(hphase s' hs).inv, fun j _ => .refl j s'⟩, hs⟩

theorem afterMillis_triple {J : Ota ι μ → Prop} (hJ : (otaSpec U req i).Stable J)
    (hphase : ∀ s, J s → Phase req i true false s) (ms : ℕ) :
    (otaSpec U req i).Triple J (afterMillis ms) fun _ => J := by
  refine Triple.call hJ fun s hs => ⟨⟨fun _ => (hphase s hs).held, trivial⟩, ?_⟩
  rintro r s' rfl
  exact ⟨⟨(hphase s' hs).inv, fun j _ => .refl j s'⟩, hs⟩

theorem Uploading.setLeft {offset : ℕ} (hs : Uploading req i offset s) (rest : List UInt8) :
    Uploading req i offset (s.setLeft i rest) :=
  ⟨⟨setLeft_inv hs.phase.inv rest, hs.phase.held, hs.phase.marked, hs.phase.silent⟩, hs.extent,
    hs.booted, hs.stored⟩

@[simp] theorem Ota.setLeft_left (s : Ota ι μ) (i : ι) (rest : List UInt8) :
    (s.setLeft i rest).left i = rest := Function.update_self ..

/-- One read: more of the body, or the end of it, or an error. -/
theorem read_triple (offset len : ℕ) (buf : List UInt8) :
    (otaSpec U req i).Triple (Filling req i offset buf) (read len) fun r s =>
      match r with
      | .ok [] => Filling req i offset buf s ∧ s.left i = []
      | .ok (b :: bs) => Filling req i offset (buf ++ b :: bs) s ∧ (b :: bs).length ≤ len
      | .error _ => Phase req i true false s := by
  refine Triple.call (filling_stable offset buf) ?_
  intro s hs
  refine ⟨⟨fun _ => hs.uploading.phase.held, trivial⟩, fun r s' he => ?_⟩
  have hquiet : ∀ rest, AllOrNothing req (s.setLeft i rest) ∧
      ∀ j, j ≠ i → OtaApart j s (s.setLeft i rest) :=
    fun rest => ⟨setLeft_inv hs.uploading.phase.inv rest, fun j hj => setLeft_apart s rest hj⟩
  rcases r with e | (_ | ⟨b, bs⟩)
  · obtain rfl : s' = s := he
    exact ⟨⟨hs.uploading.phase.inv, fun j _ => .refl j s'⟩, hs.uploading.phase⟩
  · obtain rfl : s' = s.setLeft i [] := he
    refine ⟨hquiet [], ⟨hs.uploading.setLeft [], ?_, ?_⟩, s.setLeft_left i []⟩
    · rw [Ota.setLeft_left, List.append_nil]
      exact (List.prefix_append buf (s.left i)).trans hs.next
    · rw [Ota.setLeft_left, List.append_nil]
      exact fun hbuf => hs.aligned (by simp [hbuf])
  · obtain ⟨hlen, rest, hleft, rfl⟩ := he
    refine ⟨hquiet rest, ⟨hs.uploading.setLeft rest, ?_, ?_⟩, hlen⟩
    · rw [Ota.setLeft_left, List.append_assoc, ← hleft]
      exact hs.next
    · exact fun _ => hs.aligned (by simp [hleft])

theorem Settled.wrote (h : Settled req p log) (hp : p.state = .boot) (offset : ℕ)
    (data : List UInt8) :
    Settled req p (Function.update log i (.wrote offset data :: log i)) := by
  refine .inl ⟨hp, (Function.forall_update_iff log (p := fun _ l => .marked ∉ l)).2 ⟨?_, ?_⟩⟩
  · simp [h.unmarked hp i]
  · exact fun j _ => h.unmarked hp j

theorem writeFirmware_triple (hU : U.Contract) {offset : ℕ} {buf : List UInt8} (hbuf : buf ≠ [])
    (hoffset : offset < (req i).contentLength) :
    (otaSpec U req i).Triple
      (Filled req i offset (min eraseSize ((req i).contentLength - offset)) buf)
      (writeFirmware offset buf) fun ok s =>
        if ok then AtHead req i (offset + buf.length) s else Phase req i true false s := by
  refine Triple.call (filled_stable offset _ buf) ?_
  intro s hs
  obtain ⟨hs, hlen, hfull⟩ := hs
  have hup := hs.uploading
  have hend : offset + buf.length ≤ (req i).contentLength := by omega
  have haligned : offset % eraseSize = 0 := hs.aligned (by simp [hbuf])
  refine ⟨⟨fun _ => hup.phase.held, hbuf, hend⟩, ?_⟩
  rintro ok s' ⟨p, m, hw, rfl⟩
  have hap := fun j (hj : j ≠ i) =>
    setParts_apart hup.phase.inv hup.phase.held p m ok (.wrote offset buf) hj
  have hsettled := hup.phase.inv.settled.write hU hw
  have hreset : s.reset = true → p.state = .swap := by
    rw [hU.write_state hw]
    exact hup.phase.inv.reset
  cases ok with
  | false =>
    have hinv : AllOrNothing req (s.setParts i p m) :=
      ⟨hup.phase.inv.locked, hup.phase.inv.chunks, hsettled, hup.phase.inv.replied, hreset⟩
    exact ⟨⟨hinv, hap⟩, hinv, hup.phase.held, hup.phase.marked, hup.phase.silent⟩
  | true =>
    rw [Ota.recordIf_true] at hap ⊢
    obtain ⟨-, hboot', hdata, -⟩ := hU.write_ok hw
    have hlog : ((s.setParts i p m).record i (.wrote offset buf)).log i =
        .wrote offset buf :: s.log i := Function.update_self ..
    have hinv : AllOrNothing req ((s.setParts i p m).record i (.wrote offset buf)) := by
      refine hup.phase.inv.act (e := .wrote offset buf) rfl (hup.phase.inv.locked.update rfl) ?_
        (hsettled.wrote hboot' offset buf) ?_ hreset
      · exact ⟨⟨hup.extent.symm, haligned, hbuf, hend⟩, hup.phase.inv.chunks i⟩
      · simpa using hup.phase.inv.replied i
    have hphase : Phase req i true false ((s.setParts i p m).record i (.wrote offset buf)) :=
      hup.phase.act hinv hlog hup.phase.held nofun nofun
    refine ⟨⟨hinv, hap⟩, hend, ⟨hphase, ?_, fun _ => hboot', fun a ha => ?_⟩, ?_, ?_⟩
    · rw [hlog]
      rfl
    · by_cases hlt : a < offset
      · rw [hup.stored a hlt]
        exact congrArg some (hU.write_below hw haligned hlt).symm
      · obtain ⟨j, rfl⟩ := Nat.exists_eq_add_of_le (Nat.le_of_not_lt hlt)
        have hj : j < buf.length := by omega
        rw [hs.body hj]
        exact congrArg some (hdata j _ (List.getElem?_eq_getElem hj)).symm
    · have hnext := List.IsPrefix.drop hs.next buf.length
      rwa [List.drop_left, List.drop_drop] at hnext
    · intro hmore hleft
      have hwant := hfull hleft
      have hpage : buf.length = eraseSize := by omega
      rw [hpage]
      unfold eraseSize at haligned ⊢
      omega

/-- The whole image is marked, or nothing changes. -/
theorem markUpdated_triple (hU : U.Contract) (hpos : 0 < (req i).contentLength)
    (hfits : (req i).contentLength ≤ activeCapacity) :
    (otaSpec U req i).Triple (Uploading req i (req i).contentLength) markUpdated
      fun ok => Phase req i true ok := by
  refine Triple.call (uploading_stable _) ?_
  intro s hs
  refine ⟨⟨fun _ => hs.phase.held, hs.booted hpos⟩, ?_⟩
  rintro ok s' ⟨p, m, hm, rfl⟩
  have hap := fun j (hj : j ≠ i) =>
    setParts_apart hs.phase.inv hs.phase.held p m ok .marked hj
  have hunmarked := hs.phase.inv.settled.unmarked (hs.booted hpos)
  cases ok with
  | false =>
    obtain rfl := hU.mark_err hm
    have hinv : AllOrNothing req (s.setParts i s.parts m) :=
      ⟨hs.phase.inv.locked, hs.phase.inv.chunks, hs.phase.inv.settled, hs.phase.inv.replied,
        hs.phase.inv.reset⟩
    exact ⟨⟨hinv, hap⟩, hinv, hs.phase.held, hs.phase.marked, hs.phase.silent⟩
  | true =>
    rw [Ota.recordIf_true] at hap ⊢
    obtain ⟨hswap, hdfu⟩ := hU.mark_ok hm
    have hlog : ((s.setParts i p m).record i .marked).log i = .marked :: s.log i :=
      Function.update_self ..
    have hinstalled : Installed req p ((s.setParts i p m).record i .marked).log i := by
      refine ⟨by simp [hlog], fun j hj => ?_, by rw [hlog]; exact hs.extent, hpos, hfits, ?_⟩
      · by_contra hne
        refine hunmarked j ?_
        rwa [show ((s.setParts i p m).record i .marked).log j = s.log j from
          Function.update_of_ne hne ..] at hj
      · rw [hdfu]
        exact hs.stored
    have hinv : AllOrNothing req ((s.setParts i p m).record i .marked) := by
      refine hs.phase.inv.act (e := .marked) rfl (hs.phase.inv.locked.update rfl)
        (hs.phase.inv.chunks i) (.inr ⟨hswap, i, hinstalled⟩) ?_ fun _ => hswap
      simp [hs.phase.silent]
    refine ⟨⟨hinv, hap⟩, hinv, ?_, ?_, ?_⟩
    · rw [hlog]
      exact hs.phase.held
    · simp [hlog]
    · rw [hlog]
      simpa using hs.phase.silent

/-! ### The programs of a request -/

theorem readExactOrEof_triple {offset : ℕ} (want : ℕ) {fuel : ℕ} (buf : List UInt8)
    (hfuel : want - buf.length ≤ fuel) (hbuf : buf.length ≤ want) :
    (otaSpec U req i).Triple (Filling req i offset buf) (readExactOrEof want fuel buf) fun r s =>
      match r with
      | .ok data => Filled req i offset want data s
      | .error _ => Phase req i true false s := by
  induction fuel generalizing buf with
  | zero =>
    refine .pure fun s hs => ⟨hs, hbuf, fun _ => ?_⟩
    omega
  | succ fuel ih =>
    rw [readExactOrEof]
    split_ifs with hlt
    · refine .bind (read_triple offset (want - buf.length) buf) ?_
      intro r
      rcases r with e | (_ | ⟨b, bs⟩)
      · exact .pure fun s hs => hs
      · exact .pure fun s hs => ⟨hs.1, hbuf, fun hleft => absurd hs.2 hleft⟩
      · refine fun s hs => ih _ ?_ ?_ s hs.1
        · rw [List.length_append, List.length_cons]
          omega
        · have hlen := hs.2
          rw [List.length_append]
          omega
    · refine .pure fun s hs => ⟨hs, hbuf, fun _ => ?_⟩
      omega

theorem uploadLoop_triple (hU : U.Contract) (offset : ℕ) {fuel : ℕ}
    (hfuel : (req i).contentLength - offset ≤ fuel) :
    (otaSpec U req i).Triple (AtHead req i offset)
      (uploadLoop (req i).contentLength fuel offset) fun r s =>
        match r with
        | .ok offset => offset = (req i).contentLength ∧ Uploading req i offset s
        | .error _ => Phase req i true false s := by
  induction fuel generalizing offset with
  | zero =>
    refine .pure fun s hs => ⟨?_, hs.2.1⟩
    have hle := hs.1
    omega
  | succ fuel ih =>
    rw [uploadLoop]
    split_ifs with hlt
    · refine .bind ((readExactOrEof_triple (min eraseSize ((req i).contentLength - offset)) []
        (Nat.sub_le _ _) (Nat.zero_le _)).mono
          (fun s hs => ⟨hs.2.1, hs.2.2.1, hs.2.2.2 hlt⟩) fun _ _ h => h) fun r => ?_
      rcases r with e | (_ | ⟨b, bs⟩)
      · exact .pure fun s hs => hs
      · exact .pure fun s hs => hs.1.uploading.phase
      · refine .bind (feed_triple (filled_stable offset _ (b :: bs)) fun s hs => hs.1.uploading.phase) ?_
        intro _
        refine .bind (writeFirmware_triple hU (by simp) hlt) ?_
        intro ok
        cases ok with
        | false => exact .pure fun s hs => hs
        | true =>
          refine .bind (afterMillis_triple (atHead_stable _) (fun s hs => hs.2.1.phase) 1) ?_
          intro _
          refine ih _ ?_
          rw [List.length_cons]
          omega
    · refine .pure fun s hs => ⟨?_, hs.2.1⟩
      have hle := hs.1
      omega

theorem finishOta_triple (hU : U.Contract) (hpos : 0 < (req i).contentLength)
    (hfits : (req i).contentLength ≤ activeCapacity) :
    (otaSpec U req i).Triple (Uploading req i (req i).contentLength)
      (finishOta (req i).contentLength (req i).contentLength)
      fun r => Phase req i true (r matches .ok _) := by
  unfold finishOta
  rw [if_neg (by simp)]
  refine .bind (feed_triple (uploading_stable _) fun s hs => hs.phase) ?_
  intro _
  refine .bind (markUpdated_triple hU hpos hfits) ?_
  intro ok
  cases ok with
  | true => exact .pure fun s hs => hs
  | false => exact .pure fun s hs => hs

theorem runOta_triple (hU : U.Contract) :
    (otaSpec U req i).Triple
      (fun s => Phase req i true false s ∧ s.left i = (req i).body ∧ extent (s.log i) = 0)
      (runOta (req i).contentLength) fun r => Phase req i true (r matches .ok _) := by
  unfold runOta
  split_ifs with hzero hlarge
  · exact .pure fun s hs => hs.1
  · exact .pure fun s hs => hs.1
  · refine .bind ((uploadLoop_triple hU 0 (Nat.sub_le _ 0)).mono ?_ fun _ _ h => h) fun r => ?_
    · rintro s ⟨hphase, hleft, hextent⟩
      refine ⟨Nat.zero_le _, ⟨hphase, hextent, by simp, by simp⟩, by simp [hleft], ?_⟩
      exact fun _ _ => rfl
    · rcases r with e | offset
      · exact .pure fun s hs => hs
      · refine Triple.of_fact ?_
        intro hend
        subst hend
        exact finishOta_triple hU (by omega) (by omega)

theorem respond_triple {reply : OtaReply} {held marked : Bool}
    (hreply : reply = .ok ↔ marked = true) :
    (otaSpec U req i).Triple (Phase req i held marked) (respond reply)
      fun _ => AllOrNothing req := by
  have hfinalize : (otaSpec U req i).Triple (Phase req i held marked) finalize
      fun _ => Phase req i held marked := by
    refine Triple.call (phase_stable held marked) fun s hs => ⟨⟨nofun, trivial⟩, ?_⟩
    rintro r s' rfl
    exact ⟨⟨hs.inv, fun j _ => .refl j s'⟩, hs⟩
  have hwrite : (otaSpec U req i).Triple (Phase req i held marked) (writeTo reply)
      fun _ => AllOrNothing req := by
    refine Triple.call (phase_stable held marked) fun s hs => ⟨⟨nofun, trivial⟩, ?_⟩
    rintro r s' rfl
    have hinv : AllOrNothing req (s.record i (.replied reply)) := by
      refine hs.inv.act (e := .replied reply) rfl (hs.inv.locked.update rfl) (hs.inv.chunks i)
        (hs.inv.settled.update (by simp) rfl) ?_ hs.inv.reset
      simp [hs.silent, hs.marked, hreply]
    exact ⟨⟨hinv, fun j hj => record_apart s _ hj⟩, hinv⟩
  refine .bind hfinalize ?_
  intro ok
  cases ok with
  | true => exact hwrite
  | false => exact .pure fun s hs => hs.inv

theorem concludeOta_triple (result : Except OtaError Unit) :
    (otaSpec U req i).Triple (Phase req i true (result matches .ok _)) (concludeOta result)
      fun _ => AllOrNothing req := by
  have hrelease : ∀ marked, (otaSpec U req i).Triple (Phase req i true marked) (storeBusy false)
      fun _ => Phase req i false marked := by
    refine fun marked => Triple.call (phase_stable true marked) fun s hs => ⟨⟨nofun, trivial⟩, ?_⟩
    rintro r s' rfl
    have hlog : (({ s with busy := false }).record i .released).log i = .released :: s.log i :=
      Function.update_self ..
    have hinv : AllOrNothing req (({ s with busy := false }).record i .released) := by
      refine hs.inv.act (e := .released) rfl (hs.inv.locked.release hs.held) (hs.inv.chunks i)
        (hs.inv.settled.update (by simp) rfl) ?_ hs.inv.reset
      simpa using hs.inv.replied i
    exact ⟨⟨hinv, fun j hj => ⟨Function.update_of_ne hj _ _, rfl, fun _ => rfl⟩⟩,
      hs.act hinv hlog rfl nofun nofun⟩
  have hreset : (otaSpec U req i).Triple (Phase req i false true) (storeReset true)
      fun _ => Phase req i false true := by
    refine Triple.call (phase_stable false true) fun s hs => ⟨⟨nofun, trivial⟩, ?_⟩
    rintro r s' rfl
    -- the mark of `i` itself is why STATE asks for the swap
    have hswap : s.parts.state = .swap := by
      rcases hs.inv.settled with ⟨-, hno⟩ | ⟨hswap, -⟩
      · exact absurd (hs.marked.2 rfl) (hno i)
      · exact hswap
    have hinv : AllOrNothing req { s with reset := true } :=
      ⟨hs.inv.locked, hs.inv.chunks, hs.inv.settled, hs.inv.replied, fun _ => hswap⟩
    exact ⟨⟨hinv, fun j _ => ⟨rfl, rfl, fun _ => rfl⟩⟩, hinv, hs.held, hs.marked, hs.silent⟩
  cases result with
  | ok a =>
    refine .bind (hrelease true) fun _ => .bind hreset ?_
    intro _
    exact respond_triple (by simp [replyOf])
  | error e =>
    refine .bind (hrelease false) ?_
    intro _
    exact respond_triple (by cases e <;> simp [replyOf, OtaError.reply])

theorem callRequestHandlerService_triple (hU : U.Contract) :
    (otaSpec U req i).Triple
      (fun s => Phase req i false false s ∧ s.left i = (req i).body ∧ extent (s.log i) = 0)
      (callRequestHandlerService (req i).contentLength) fun _ => AllOrNothing req := by
  have hstable : (otaSpec U req i).Stable
      (fun s => Phase req i false false s ∧ s.left i = (req i).body ∧ extent (s.log i) = 0) := by
    rintro s s' hr ⟨hphase, hleft, hextent⟩
    refine ⟨phase_stable false false s s' hr hphase, ?_, ?_⟩
    · rw [hr.2.left]
      exact hleft
    · rw [hr.2.log]
      exact hextent
  have hlock : (otaSpec U req i).Triple
      (fun s => Phase req i false false s ∧ s.left i = (req i).body ∧ extent (s.log i) = 0)
      compareExchange fun ok s => Phase req i ok false s ∧
        (ok = true → s.left i = (req i).body ∧ extent (s.log i) = 0) := by
    refine Triple.call hstable fun s hs => ⟨⟨nofun, trivial⟩, ?_⟩
    obtain ⟨hs, hleft, hextent⟩ := hs
    rintro ok s' ⟨hok, rfl⟩
    cases ok with
    | false => exact ⟨⟨hs.inv, fun j _ => .refl j s⟩, hs, nofun⟩
    | true =>
      have hnot : (!s.busy) = true := hok.symm
      have hfree : s.busy = false := by simpa using hnot
      have hlog : (({ s with busy := true }).record i .acquired).log i = .acquired :: s.log i :=
        Function.update_self ..
      have hlocked := hs.inv.locked
      rw [hfree] at hlocked
      have hinv : AllOrNothing req (({ s with busy := true }).record i .acquired) := by
        refine hs.inv.act (e := .acquired) rfl hlocked.acquire (hs.inv.chunks i)
          (hs.inv.settled.update (by simp) rfl) ?_ hs.inv.reset
        simpa using hs.inv.replied i
      exact ⟨⟨hinv, fun j hj => ⟨Function.update_of_ne hj _ _, rfl, fun _ => rfl⟩⟩,
        hs.act hinv hlog rfl nofun nofun, fun _ => ⟨hleft, (congrArg extent hlog).trans hextent⟩⟩
  refine .bind hlock ?_
  intro ok
  cases ok with
  | false => exact (respond_triple (by simp)).mono (fun s hs => hs.1) fun _ _ h => h
  | true =>
    refine .bind ((runOta_triple hU).mono (fun s hs => ⟨hs.1, hs.2 rfl⟩) fun _ _ h => h) ?_
    exact concludeOta_triple

/-! ### All requests together -/

omit [DecidableEq ι] in
theorem otaBoot_inv (U : Updater μ) (req : ι → OtaRequest) (dfu : ℕ → UInt8) :
    AllOrNothing req (otaBoot U dfu).state where
  locked := ⟨⟨nofun, nofun⟩, nofun⟩
  chunks _ := trivial
  settled := .inl ⟨rfl, fun _ => List.not_mem_nil⟩
  replied := nofun
  reset := nofun

theorem otaPool_fits (hU : U.Contract) :
    Pool.Fits (otaPool U req) (AllOrNothing req) (otaSpec U req) fun _ _ => AllOrNothing req where
  exec _ _ _ _ _ he := he
  refl i s := ⟨id, .refl i s⟩
  trans i s₁ s₂ s₃ h₁ h₂ := ⟨h₂.1 ∘ h₁.1, h₁.2.trans h₂.2⟩
  stable i a s s' hs hr := hr.1 hs
  env _ _ _ he := he.elim
  guar i s s' _ hg := ⟨hg.1, fun j hj => ⟨fun _ => hg.1, hg.2 j hj⟩⟩
  enter := by
    rintro i s s' hs ⟨hempty, rfl⟩
    have hlog : ((s.setLeft i (req i).body).record i .received).log i = [.received] := by
      rw [← hempty]
      exact Function.update_self ..
    have hinv : AllOrNothing req ((s.setLeft i (req i).body).record i .received) := by
      refine hs.act (e := .received) rfl (hs.locked.update rfl) (hs.chunks i)
        (hs.settled.update nofun rfl) ?_ hs.reset
      simp [hempty]
    refine ⟨hinv, fun j hj => ⟨fun _ => hinv, ?_⟩, callRequestHandlerService_triple hU _ ?_⟩
    · exact ⟨Function.update_of_ne hj _ _, Function.update_of_ne hj _ _, fun _ => rfl⟩
    · refine ⟨⟨hinv, ?_, ?_, ?_⟩, Ota.setLeft_left .., ?_⟩
      · rw [hlog]
        rfl
      · simp [hlog]
      · simp [hlog]
      · rw [hlog]
        rfl
  next := nofun

/-- What `run_ota` is about to do is done under the lock, and as `otaSpec` says. -/
theorem ota_pre (hU : U.Contract) {dfu : ℕ → UInt8}
    {c : Pool.Conf ι (Ota ι μ) OtaOp OtaOp.Ret Bool} (h : (otaPool U req).Reach (otaBoot U dfu) c)
    {o : OtaOp} {k : o.Ret → OtaProg Bool} (hi : c.task i = some (.op o k)) :
    (otaSpec U req i).pre o c.state :=
  Pool.pre_reach (otaPool_fits hU) h (otaBoot_inv U req dfu) nofun hi

/-- What one more step can do to the partitions: an active request writes to the sectors of its
first `Content-Length` bytes, or moves STATE once its whole image is there. -/
inductive Touches (req : ι → OtaRequest) (s s' : Ota ι μ) : Prop
  | nothing : s'.parts = s.parts → Touches req s s'
  | write (i : ι) : active (s.log i) = true → s'.parts.state = s.parts.state →
      (∀ a, ¬ InSectors 0 (req i).contentLength a → s'.parts.dfu a = s.parts.dfu a) →
      Touches req s s'
  | mark (i : ι) : active (s.log i) = true → s.parts.state = .boot → s'.parts.state = .swap →
      s'.parts.dfu = s.parts.dfu → Installed req s'.parts s'.log i → Touches req s s'

/-- The sectors of a chunk are sectors of the first `len` bytes. -/
theorem InSectors.of_chunk {offset n len a : ℕ} (h : InSectors offset n a) (hn : offset + n ≤ len) :
    InSectors 0 len a := by
  obtain ⟨hpos, -, hhi⟩ := h
  refine ⟨by omega, by simp, Nat.le_trans hhi (Nat.div_le_div_right (by omega))⟩

omit [DecidableEq ι] in
theorem Settled.marked (h : Settled req p log) (hi : .marked ∈ log i) :
    p.state = .swap ∧ Installed req p log i := by
  rcases h with ⟨-, hno⟩ | ⟨hswap, j, hj⟩
  · exact absurd hi (hno i)
  · rw [hj.unique i hi]
    exact ⟨hswap, hj⟩

theorem exec_touches (hU : U.Contract) {o : OtaOp} {r : o.Ret} (he : OtaOp.exec U i o s r s')
    (hpre : (otaSpec U req i).pre o s) (hinv : AllOrNothing req s') : Touches req s s' := by
  cases o with
  | writeFirmware offset data =>
    obtain ⟨p, m, hw, rfl⟩ := he
    obtain ⟨hheld, -, hend⟩ := hpre
    have hparts : ((s.setParts i p m).recordIf r i (.wrote offset data)).parts = p := by
      cases r <;> rfl
    refine .write i (hheld rfl) ?_ fun a ha => ?_
    · rw [hparts]
      exact hU.write_state hw
    · rw [hparts]
      exact hU.write_frame hw fun hin => ha (hin.of_chunk hend)
  | markUpdated =>
    obtain ⟨p, m, hm, rfl⟩ := he
    cases r with
    | false =>
      obtain rfl := hU.mark_err hm
      exact .nothing rfl
    | true =>
      obtain ⟨hswap, hdfu⟩ := hU.mark_ok hm
      have hmarked : .marked ∈ ((s.setParts i p m).record i .marked).log i := by
        rw [show ((s.setParts i p m).record i .marked).log i = .marked :: s.log i from
          Function.update_self ..]
        exact List.mem_cons_self
      exact .mark i (hpre.1 rfl) hpre.2 hswap hdfu (hinv.settled.marked hmarked).2
  | compareExchange =>
    obtain ⟨-, rfl⟩ := he
    cases r <;> exact .nothing rfl
  | read len =>
    rcases r with e | (_ | ⟨b, bs⟩)
    · obtain rfl : s' = s := he
      exact .nothing rfl
    · obtain rfl : s' = s.setLeft i [] := he
      exact .nothing rfl
    · obtain ⟨-, rest, -, rfl⟩ := he
      exact .nothing rfl
  | storeBusy b =>
    obtain rfl := he
    cases b <;> exact .nothing rfl
  | feed | afterMillis ms | storeReset b | finalize | writeTo reply =>
    obtain rfl := he
    exact .nothing rfl

def oneByte : Unit → OtaRequest := fun _ => ⟨1, [0x42]⟩

theorem one_byte_written :
    ∃ c : Pool.Conf Unit (Ota Unit (Option ℕ)) OtaOp OtaOp.Ret Bool,
      (otaPool sectorUpdater oneByte).Reach (otaBoot sectorUpdater fun _ => 0) c ∧
        c.state.parts = ⟨.boot, writeSectors none (fun _ => 0) 0 [0x42]⟩ ∧
        c.task () = some (do
          afterMillis 1
          let r ← uploadLoop 1 0 1
          let result ← match r with
            | .ok offset => finishOta 1 offset
            | .error e => pure (.error e)
          concludeOta result) := by
  have h₀ : (otaPool sectorUpdater oneByte).Reach (otaBoot sectorUpdater fun _ => 0)
      (otaBoot sectorUpdater fun _ => 0) := .refl
  obtain ⟨c₁, h₁, hs₁, ht₁⟩ := h₀.enter (i := ()) rfl ⟨rfl, rfl⟩
  obtain ⟨c₂, h₂, hs₂, ht₂⟩ := h₁.op .compareExchange true ht₁ ⟨by rw [hs₁]; rfl, rfl⟩
  obtain ⟨c₃, h₃, hs₃, ht₃⟩ := h₂.op (.read 1) (.ok [0x42]) ht₂
    ⟨Nat.le_refl 1, [], by rw [hs₂, hs₁]; rfl, rfl⟩
  obtain ⟨c₄, h₄, hs₄, ht₄⟩ := h₃.op .feed () ht₃ rfl
  obtain ⟨c₅, h₅, hs₅, ht₅⟩ := h₄.op (.writeFirmware 0 [0x42]) true ht₄
    ⟨⟨.boot, writeSectors none (fun _ => 0) 0 [0x42]⟩, some 0, by rw [hs₄, hs₃, hs₂, hs₁]; exact ⟨rfl, rfl, rfl⟩, rfl⟩
  exact ⟨c₅, h₅, by rw [hs₅]; rfl, ht₅⟩

theorem one_byte_marked :
    ∃ c : Pool.Conf Unit (Ota Unit (Option ℕ)) OtaOp OtaOp.Ret Bool,
      (otaPool sectorUpdater oneByte).Reach (otaBoot sectorUpdater fun _ => 0) c ∧
        c.state.parts.state = .swap := by
  obtain ⟨c₅, h₅, -, ht₅⟩ := one_byte_written
  obtain ⟨c₆, h₆, -, ht₆⟩ := h₅.op (.afterMillis 1) () ht₅ rfl
  obtain ⟨c₇, h₇, -, ht₇⟩ := h₆.op .feed () ht₆ rfl
  obtain ⟨c₈, h₈, hs₈, -⟩ := h₇.op .markUpdated true ht₇ ⟨_, _, ⟨rfl, rfl, rfl⟩, rfl⟩
  exact ⟨c₈, h₈, by rw [hs₈]; rfl⟩

end ScoreboardCtrl
