import ScoreboardCtrl.Lib.Pool
import ScoreboardCtrl.Ota.Updater

/-!
# The upload handler (`src/ota.rs`)

`POST /api/ota`: the lock `OTA_BUSY`, the chunking loop of `run_ota` with its reads, and the reply.
The loops of the source carry a fuel here; `readExactOrEof_fuel` and `uploadLoop_fuel` say that it
does not run out. The log lines and the progress counter are left out.

* `callRequestHandlerService` — the handler, for a request with the given `Content-Length`;
* `OtaOp.exec` — what its operations do; the body reader may split the body anywhere, end it early
  (and then stays at its end) or fail;
* `otaPool` — any number of requests.
-/

namespace ScoreboardCtrl

open Lib

/-- `ACTIVE_CAPACITY` -/
def activeCapacity : ℕ := 896 * 1024

inductive OtaError where
  | badRequest (msg : String)
  | tooLarge
  | truncated
  | flash
  | io
  deriving DecidableEq, Repr

inductive OtaReply where
  | ok
  | busy
  | badRequest (msg : String)
  | payloadTooLarge
  | failed (msg : String)
  deriving DecidableEq, Repr

/-- The status code and the text of a reply. -/
def OtaReply.response : OtaReply → ℕ × String
  | .ok => (200, "OK\n")
  | .busy => (503, "OTA in progress\n")
  | .badRequest msg => (400, msg)
  | .payloadTooLarge => (413, "image too large for ACTIVE\n")
  | .failed msg => (500, msg)

def OtaError.reply : OtaError → OtaReply
  | .badRequest m => .badRequest m
  | .tooLarge => .payloadTooLarge
  | .truncated => .badRequest "truncated upload\n"
  | .flash => .failed "flash write failed\n"
  | .io => .failed "read failed\n"

/-- What the handler replies to the result of `run_ota`. -/
def replyOf : Except OtaError Unit → OtaReply
  | .ok _ => .ok
  | .error e => e.reply

/-! ### The program -/

/-- The operations of the handler. -/
inductive OtaOp where
  /-- `OTA_BUSY.compare_exchange(false, true, ..)` -/
  | compareExchange
  /-- `reader.read(buf).await` with a buffer of `len` bytes -/
  | read (len : ℕ)
  /-- `self.watchdog.lock().await.feed(..)` -/
  | feed
  | writeFirmware (offset : ℕ) (data : List UInt8)
  | afterMillis (ms : ℕ)
  | markUpdated
  /-- `OTA_BUSY.store(b, ..)` -/
  | storeBusy (b : Bool)
  /-- `OTA_RESET.store(b, ..)` -/
  | storeReset (b : Bool)
  /-- `request.body_connection.finalize().await` -/
  | finalize
  /-- `reply.write_to(..).await` -/
  | writeTo (reply : OtaReply)
  deriving DecidableEq, Repr

/-- What an operation answers: the bytes read, and else whether it was `Ok`. -/
def OtaOp.Ret : OtaOp → Type
  | .read _ => Except Unit (List UInt8)
  | .compareExchange | .writeFirmware _ _ | .markUpdated | .finalize | .writeTo _ => Bool
  | .feed | .afterMillis _ | .storeBusy _ | .storeReset _ => Unit

abbrev OtaProg (α : Type) : Type := Prog OtaOp OtaOp.Ret α

namespace OtaProg

def compareExchange : OtaProg Bool := Prog.call (R := OtaOp.Ret) .compareExchange
def read (len : ℕ) : OtaProg (Except Unit (List UInt8)) := Prog.call (R := OtaOp.Ret) (.read len)
def feed : OtaProg Unit := Prog.call (R := OtaOp.Ret) .feed
def writeFirmware (offset : ℕ) (data : List UInt8) : OtaProg Bool :=
  Prog.call (R := OtaOp.Ret) (.writeFirmware offset data)
def afterMillis (ms : ℕ) : OtaProg Unit := Prog.call (R := OtaOp.Ret) (.afterMillis ms)
def markUpdated : OtaProg Bool := Prog.call (R := OtaOp.Ret) .markUpdated
def storeBusy (b : Bool) : OtaProg Unit := Prog.call (R := OtaOp.Ret) (.storeBusy b)
def storeReset (b : Bool) : OtaProg Unit := Prog.call (R := OtaOp.Ret) (.storeReset b)
def finalize : OtaProg Bool := Prog.call (R := OtaOp.Ret) .finalize
def writeTo (reply : OtaReply) : OtaProg Bool := Prog.call (R := OtaOp.Ret) (.writeTo reply)

end OtaProg

open OtaProg

/-- `read_exact_or_eof` into a buffer of `want` bytes, of which `buf` are filled. -/
def readExactOrEof (want : ℕ) : (fuel : ℕ) → (buf : List UInt8) → OtaProg (Except Unit (List UInt8))
  | 0, buf => pure (.ok buf)
  | fuel + 1, buf =>
    if buf.length < want then do
      let r ← read (want - buf.length)
      match r with
      | .ok [] => pure (.ok buf)
      | .ok (b :: bs) => readExactOrEof want fuel (buf ++ b :: bs)
      | .error e => pure (.error e)
    else pure (.ok buf)

/-- The `while` loop of `run_ota`; it answers the offset it stopped at. -/
def uploadLoop (contentLen : ℕ) : (fuel : ℕ) → (offset : ℕ) → OtaProg (Except OtaError ℕ)
  | 0, offset => pure (.ok offset)
  | fuel + 1, offset =>
    if offset < contentLen then do
      let want := min eraseSize (contentLen - offset)
      let r ← readExactOrEof want want []
      match r with
      | .ok [] => pure (.error .truncated)
      | .ok (b :: bs) => do
        feed
        let ok ← writeFirmware offset (b :: bs)
        if ok then do
          afterMillis 1
          uploadLoop contentLen fuel (offset + (b :: bs).length)
        else pure (.error .flash)
      | .error _ => pure (.error .io)
    else pure (.ok offset)

/-- The end of `run_ota`, after its loop. -/
def finishOta (contentLen offset : ℕ) : OtaProg (Except OtaError Unit) :=
  if offset ≠ contentLen then pure (.error .truncated)
  else do
    feed
    let ok ← markUpdated
    if ok then pure (.ok ()) else pure (.error .flash)

def runOta (contentLen : ℕ) : OtaProg (Except OtaError Unit) :=
  if contentLen = 0 then pure (.error (.badRequest "empty body; set Content-Length\n"))
  else if contentLen > activeCapacity then pure (.error .tooLarge)
  else do
    let r ← uploadLoop contentLen contentLen 0
    match r with
    | .ok offset => finishOta contentLen offset
    | .error e => pure (.error e)

/-- `reply.write_to(request.body_connection.finalize().await?, ..)` -/
def respond (reply : OtaReply) : OtaProg Bool := do
  let ok ← finalize
  if ok then writeTo reply else pure false

/-- After `run_ota`: release the lock, ask for the reset, reply. -/
def concludeOta (result : Except OtaError Unit) : OtaProg Bool := do
  storeBusy false
  match result with
  | .ok _ => do
    storeReset true
    respond (replyOf result)
  | .error _ => respond (replyOf result)

def callRequestHandlerService (contentLen : ℕ) : OtaProg Bool := do
  let ok ← compareExchange
  if ok then do
    let result ← runOta contentLen
    concludeOta result
  else respond .busy

/-! ### The fuel -/

theorem readExactOrEof_fuel {want fuel : ℕ} {buf : List UInt8} (h : want - buf.length ≤ fuel) :
    readExactOrEof want (fuel + 1) buf = readExactOrEof want fuel buf := by
  induction fuel generalizing buf with
  | zero =>
    have hfull : ¬ buf.length < want := by omega
    simp [readExactOrEof, hfull]
  | succ fuel ih =>
    rw [readExactOrEof, readExactOrEof]
    split_ifs with hlt
    · refine congrArg (read (want - buf.length) >>= ·) (funext fun r => ?_)
      rcases r with e | (_ | ⟨b, bs⟩)
      · rfl
      · rfl
      · refine ih ?_
        rw [List.length_append, List.length_cons]
        omega
    · rfl

theorem uploadLoop_fuel {contentLen fuel offset : ℕ} (h : contentLen - offset ≤ fuel) :
    uploadLoop contentLen (fuel + 1) offset = uploadLoop contentLen fuel offset := by
  induction fuel generalizing offset with
  | zero =>
    have hdone : ¬ offset < contentLen := by omega
    simp [uploadLoop, hdone]
  | succ fuel ih =>
    rw [uploadLoop, uploadLoop]
    split_ifs with hlt
    · refine congrArg (readExactOrEof _ _ [] >>= ·) (funext fun r => ?_)
      rcases r with e | (_ | ⟨b, bs⟩)
      · rfl
      · rfl
      · have hnext : uploadLoop contentLen (fuel + 1) (offset + (b :: bs).length) =
            uploadLoop contentLen fuel (offset + (b :: bs).length) := by
          refine ih ?_
          rw [List.length_cons]
          omega
        simp only [hnext]
    · rfl

/-! ### The requests together -/

/-- A request: its `Content-Length` and the bytes its client sends after the head. -/
structure OtaRequest where
  contentLength : ℕ
  body : List UInt8

inductive OtaEvent where
  | received
  | acquired
  | wrote (offset : ℕ) (data : List UInt8)
  | marked
  | released
  | replied (reply : OtaReply)
  deriving DecidableEq, Repr

/-- The shared state of the requests `ι`. -/
structure Ota (ι μ : Type) where
  /-- `OTA_BUSY` -/
  busy : Bool
  /-- `OTA_RESET` -/
  reset : Bool
  parts : Partitions
  /-- what the updater of a request remembers -/
  updater : ι → μ
  /-- what is left of a request's body -/
  left : ι → List UInt8
  /-- what a request did, newest first -/
  log : ι → List OtaEvent

section System

variable {ι μ : Type} [DecidableEq ι]

namespace Ota

def record (s : Ota ι μ) (i : ι) (e : OtaEvent) : Ota ι μ :=
  { s with log := Function.update s.log i (e :: s.log i) }

/-- Record `e` where the operation was `Ok`. -/
def recordIf (s : Ota ι μ) (ok : Bool) (i : ι) (e : OtaEvent) : Ota ι μ :=
  bif ok then s.record i e else s

@[simp] theorem recordIf_true (s : Ota ι μ) (i : ι) (e : OtaEvent) :
    s.recordIf true i e = s.record i e := rfl

/-- The reader of `i` is left with `rest`. -/
def setLeft (s : Ota ι μ) (i : ι) (rest : List UInt8) : Ota ι μ :=
  { s with left := Function.update s.left i rest }

/-- A call of the updater of `i` leaves the partitions at `p` and remembers `m`. -/
def setParts (s : Ota ι μ) (i : ι) (p : Partitions) (m : μ) : Ota ι μ :=
  { s with parts := p, updater := Function.update s.updater i m }

end Ota

def OtaOp.exec (U : Updater μ) (i : ι) : (o : OtaOp) → Ota ι μ → o.Ret → Ota ι μ → Prop
  | .compareExchange, s, ok, s' => ok = !s.busy ∧
      s' = bif ok then { s with busy := true }.record i .acquired else s
  | .read len, s, r, s' =>
    match r with
    | .ok [] => s' = s.setLeft i []
    | .ok (b :: bs) => (b :: bs).length ≤ len ∧
        ∃ rest, s.left i = (b :: bs) ++ rest ∧ s' = s.setLeft i rest
    | .error _ => s' = s
  | .writeFirmware offset data, s, ok, s' => ∃ p m, U.write s.parts (s.updater i) offset data ok p m ∧
      s' = (s.setParts i p m).recordIf ok i (.wrote offset data)
  | .markUpdated, s, ok, s' => ∃ p m, U.mark s.parts (s.updater i) ok p m ∧
      s' = (s.setParts i p m).recordIf ok i .marked
  | .storeBusy b, s, _, s' => s' = { s with busy := b }.recordIf (!b) i .released
  | .storeReset b, s, _, s' => s' = { s with reset := b }
  | .writeTo reply, s, _, s' => s' = s.record i (.replied reply)
  | .feed, s, _, s' | .afterMillis _, s, _, s' | .finalize, s, _, s' => s' = s

/-- The requests `req`, each served once. -/
def otaPool (U : Updater μ) (req : ι → OtaRequest) : Pool ι (Ota ι μ) OtaOp OtaOp.Ret Bool where
  exec := OtaOp.exec U
  env _ _ := False
  enter i s s' := s.log i = [] ∧ s' = (s.setLeft i (req i).body).record i .received
  start i := callRequestHandlerService (req i).contentLength
  next _ := none

/-- After `mark_booted`, before any request, with `dfu` in the DFU partition. -/
def otaBoot (U : Updater μ) (dfu : ℕ → UInt8) : Pool.Conf ι (Ota ι μ) OtaOp OtaOp.Ret Bool where
  state := ⟨false, false, ⟨.boot, dfu⟩, fun _ => U.new, fun _ => [], fun _ => []⟩
  task _ := none

end System

end ScoreboardCtrl
