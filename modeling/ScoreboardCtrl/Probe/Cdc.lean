import ScoreboardCtrl.Lib.Lines
import ScoreboardCtrl.Probe.Console
import ScoreboardCtrl.Serial.Framer
import ScoreboardCtrl.Usb.BootCmd

/-!
# What the probe makes of the bytes of USB CDC

`CdcCmd::handle_data` (`examples/uart-test.rs`) looks for `ENTERBOOTLOADER` as the firmware does,
gathers lines of up to `LINE_MAX` bytes in a static buffer, and reads the first four lines that a
delivery ends as commands. What comes after a reset to the USB boot loader is not read any more.

* `takeBytes_lines` — the loop over a delivery gathers lines as the reader of `Lib/Lines.lean` does;
* `receive_cut` — the commands are those of the lines of the stream, of the first four that each delivery
  ends;
* `payload_enters` — the bursts that can be typed, and in how many bytes.
-/

namespace ScoreboardCtrl.Probe

open Lib (Rust)
open Lib.Lines (kept Open)
open Serial (Bytes isAsciiWhitespace unhex Respells)

/-! ### `handle_data` -/

/-- `LINE` -/
structure LineBuf where
  data : Vector UInt8 lineMax
  len : ℕ
  deriving DecidableEq, Repr

def LineBuf.empty : LineBuf := ⟨.replicate _ 0, 0⟩

def LineBuf.held (line : LineBuf) : Bytes := line.data.toList.take line.len

/-- How many lines of a delivery are read. -/
abbrev rawLines : ℕ := 4

/-- One byte, with the lines of this delivery before it. -/
def takeByte (b : UInt8) (line : LineBuf) (raw : List Bytes) : Rust (LineBuf × List Bytes) :=
  if b = 10 ∨ b = 13 then
    if line.len = 0 then return (line, raw)
    else do
      let raw ← if raw.length < rawLines then do
          let held ← Rust.slice line.data.toList 0 line.len
          pure (raw ++ [held])
        else pure raw
      return ({ line with len := 0 }, raw)
  else if h : line.len < lineMax then
    return (⟨line.data.set line.len b h, line.len + 1⟩, raw)
  else return ({ line with len := 0 }, raw)

def takeBytes : Bytes → LineBuf → List Bytes → Rust (LineBuf × List Bytes)
  | [], line, raw => return (line, raw)
  | b :: data, line, raw => do
    let (line, raw) ← takeByte b line raw
    takeBytes data line raw

/-- The commands of some lines. -/
def parseLines : List Bytes → Rust (List HostCmd)
  | [] => return []
  | line :: lines => do
    let cmd ← parseLine line
    let cmds ← parseLines lines
    return cmd.toList ++ cmds

/-- The statics, and whether the probe has been reset to the USB boot loader. -/
structure Cdc where
  bootN : ℕ
  line : LineBuf
  reset : Bool
  deriving DecidableEq, Repr

def Cdc.boot : Cdc := ⟨0, .empty, false⟩

/-- One delivery; returns the commands put into the channel. -/
def handleData (data : Bytes) (s : Cdc) : Rust (Cdc × List HostCmd) :=
  if s.reset then return (s, [])
  else
    let (hitBoot, bootN) := Usb.matchData Usb.bootCmd s.bootN data
    if hitBoot then return ({ s with bootN := bootN, reset := true }, [])
    else do
      let (line, raw) ← takeBytes data s.line []
      let cmds ← parseLines raw
      return ({ s with bootN := bootN, line := line }, cmds)

/-- All deliveries since boot. -/
def receive : List Bytes → Cdc → Rust (Cdc × List HostCmd)
  | [], s => return (s, [])
  | data :: chunks, s => do
    let (s, cmds) ← handleData data s
    let (s, more) ← receive chunks s
    return (s, cmds ++ more)

/-! ### Lines -/

def isEnd (b : UInt8) : Bool := b == 10 || b == 13

/-- The reader of lines that `LINE` is. -/
abbrev lineStep : UInt8 → Bytes → Bytes × List Bytes := Lib.Lines.step isEnd lineMax

structure LineBuf.Fits (line : LineBuf) : Prop where
  len_le : line.len ≤ lineMax

theorem LineBuf.length_held {line : LineBuf} (h : line.Fits) : line.held.length = line.len := by
  have := h.len_le
  rw [held, List.length_take, Vector.length_toList]
  omega

theorem takeByte_lines {line : LineBuf} (h : line.Fits) (b : UInt8) (raw : List Bytes) :
    ∃ line', takeByte b line raw =
        .ok (line', raw ++ (lineStep b line.held).2.take (rawLines - raw.length)) ∧
      line'.Fits ∧ line'.held = (lineStep b line.held).1 := by
  have hlen := LineBuf.length_held h
  have hle := h.len_le
  unfold takeByte
  by_cases hend : b = 10 ∨ b = 13
  · have hmark : isEnd b = true := by simpa [isEnd] using hend
    rw [if_pos hend, lineStep, Lib.Lines.step_end hmark]
    by_cases h0 : line.len = 0
    · have hnil : line.held = [] := List.length_eq_zero_iff.1 (hlen.trans h0)
      rw [if_pos h0, hnil]
      exact ⟨line, by simp [pure, Except.pure], h, hnil⟩
    · have hne : line.held.isEmpty = false := by
        rw [List.isEmpty_eq_false_iff, ← List.length_pos_iff]
        omega
      refine ⟨{ line with len := 0 }, ?_, ⟨Nat.zero_le _⟩, by simp [LineBuf.held]⟩
      rw [if_neg h0, hne, Rust.slice_ok (Nat.zero_le _) (by simpa using hle)]
      by_cases hroom : raw.length < rawLines
      · have htake : [line.held].take (rawLines - raw.length) = [line.held] :=
          List.take_of_length_le (by simp; omega)
        simp only [if_pos hroom, Bool.false_eq_true, if_false, htake]
        rfl
      · have htake : rawLines - raw.length = 0 := by omega
        simp only [if_neg hroom, Bool.false_eq_true, if_false, htake, List.take_zero, List.append_nil]
        rfl
  · have hmark : isEnd b = false := by simpa [isEnd] using hend
    rw [if_neg hend, lineStep, Lib.Lines.step_open hmark, hlen, List.take_nil, List.append_nil]
    by_cases hroom : line.len < lineMax
    · rw [dif_pos hroom, if_pos hroom]
      exact ⟨_, rfl, ⟨hroom⟩, take_set_succ _ _ _ hroom⟩
    · rw [dif_neg hroom, if_neg hroom]
      exact ⟨_, rfl, ⟨Nat.zero_le _⟩, by simp [LineBuf.held]⟩

/-- The lines that `bytes` end, after `held`, and what is held behind them. -/
def gather (bytes held : Bytes) : Bytes × List Bytes := Lib.Mealy.total lineStep bytes held

theorem gather_cons (b : UInt8) (bytes held : Bytes) : gather (b :: bytes) held =
    ((gather bytes (lineStep b held).1).1,
      (lineStep b held).2 ++ (gather bytes (lineStep b held).1).2) := rfl

/-- **A delivery gathers lines as the reader does**, and keeps the first four of them. -/
theorem takeBytes_lines (data : Bytes) : ∀ {line : LineBuf} (_ : line.Fits) (raw : List Bytes),
    ∃ line', takeBytes data line raw =
        .ok (line', raw ++ (gather data line.held).2.take (rawLines - raw.length)) ∧
      line'.Fits ∧ line'.held = (gather data line.held).1 := by
  induction data with
  | nil =>
    intro line h raw
    exact ⟨line, by simp [gather, takeBytes, pure, Except.pure], h, rfl⟩
  | cons b data ih =>
    intro line h raw
    obtain ⟨line₁, hb, h₁, hheld⟩ := takeByte_lines h b raw
    obtain ⟨line₂, hdata, h₂, hheld'⟩ :=
      ih h₁ (raw ++ (lineStep b line.held).2.take (rawLines - raw.length))
    rw [hheld] at hdata hheld'
    refine ⟨line₂, ?_, h₂, hheld'⟩
    rw [takeBytes, hb, Rust.ok_bind]
    dsimp only
    rw [hdata, gather_cons, List.take_append, List.append_assoc]
    have hroom : rawLines - (raw ++ (lineStep b line.held).2.take (rawLines - raw.length)).length =
        rawLines - raw.length - min (rawLines - raw.length) (lineStep b line.held).2.length := by
      rw [List.length_append, List.length_take]
      omega
    rw [hroom]
    by_cases hall : (lineStep b line.held).2.length ≤ rawLines - raw.length
    · rw [Nat.min_eq_right hall]
    · rw [Nat.min_eq_left (by omega), Nat.sub_self,
        Nat.sub_eq_zero_of_le (Nat.le_of_lt (Nat.lt_of_not_le hall))]

theorem parseLines_ok (lines : List Bytes) : ∃ cmds, parseLines lines = .ok cmds := by
  induction lines with
  | nil => exact ⟨[], rfl⟩
  | cons line lines ih =>
    obtain ⟨cmd, hcmd⟩ := parseLine_returns line
    obtain ⟨cmds, hcmds⟩ := ih
    exact ⟨_, by rw [parseLines, hcmd, Rust.ok_bind, hcmds]; rfl⟩

theorem parseLines_append {xs ys : List Bytes} {as bs : List HostCmd} (hx : parseLines xs = .ok as)
    (hy : parseLines ys = .ok bs) : parseLines (xs ++ ys) = .ok (as ++ bs) := by
  induction xs generalizing as with
  | nil =>
    cases hx
    exact hy
  | cons x xs ih =>
    obtain ⟨cmd, hcmd⟩ := parseLine_returns x
    obtain ⟨cmds, hcmds⟩ := parseLines_ok xs
    rw [parseLines, hcmd, Rust.ok_bind, hcmds] at hx
    cases hx
    rw [List.cons_append, parseLines, hcmd, Rust.ok_bind, ih hcmds, List.append_assoc]
    rfl

theorem length_gather (data held : Bytes) : (gather data held).2.length ≤ data.countP isEnd := by
  induction data generalizing held with
  | nil => exact Nat.le_refl _
  | cons b data ih =>
    have htail := ih (lineStep b held).1
    rw [gather_cons, List.length_append]
    cases hb : isEnd b with
    | true =>
      rw [List.countP_cons_of_pos hb]
      have hone : (lineStep b held).2.length ≤ 1 := by
        rw [lineStep, Lib.Lines.step_end hb]
        split <;> simp
      omega
    | false =>
      rw [List.countP_cons_of_neg (by simp [hb])]
      have hnone : (lineStep b held).2 = [] := by rw [lineStep, Lib.Lines.step_open hb]
      rw [hnone]
      simpa using htail

/-- No line is longer than the reader has room for. -/
theorem length_of_gather {data held : Bytes} (hheld : held.length ≤ lineMax) :
    ∀ line ∈ (gather data held).2, line.length ≤ lineMax := by
  induction data generalizing held with
  | nil => simp [gather]
  | cons b data ih =>
    rw [gather_cons]
    cases hb : isEnd b with
    | true =>
      rw [lineStep, Lib.Lines.step_end hb]
      intro line hline
      rcases List.mem_append.1 hline with hline | hline
      · split at hline
        · cases hline
        · rw [List.mem_singleton.1 hline]
          exact hheld
      · exact ih (Nat.zero_le _) line hline
    | false =>
      rw [lineStep, Lib.Lines.step_open hb, List.nil_append]
      refine ih ?_
      split
      · rename_i hroom
        rw [List.length_append]
        exact hroom
      · exact Nat.zero_le _

theorem mem_parseLines {lines : List Bytes} {cmds : List HostCmd} (h : parseLines lines = .ok cmds)
    {cmd : HostCmd} (hmem : cmd ∈ cmds) : ∃ line ∈ lines, parseLine line = .ok (some cmd) := by
  induction lines generalizing cmds with
  | nil =>
    cases h
    cases hmem
  | cons line lines ih =>
    obtain ⟨c, hc⟩ := parseLine_returns line
    obtain ⟨more, hmore⟩ := parseLines_ok lines
    rw [parseLines, hc, Rust.ok_bind, hmore] at h
    cases h
    rcases List.mem_append.1 hmem with hmem | hmem
    · obtain rfl := Option.mem_toList.1 hmem
      exact ⟨line, by simp, hc⟩
    · obtain ⟨l, hl, hread⟩ := ih hmore hmem
      exact ⟨l, by simp [hl], hread⟩

/-! ### All deliveries -/

/-- What a delivery can do. -/
inductive Delivered (data : Bytes) (s : Cdc) : Cdc → List HostCmd → Prop
  | off : s.reset = true → Delivered data s s []
  | boot {n : ℕ} : s.reset = false → Usb.matchData Usb.bootCmd s.bootN data = (true, n) →
      Delivered data s { s with bootN := n, reset := true } []
  | lines {n : ℕ} {line : LineBuf} {cmds : List HostCmd} : s.reset = false →
      Usb.matchData Usb.bootCmd s.bootN data = (false, n) → line.Fits →
      line.held = (gather data s.line.held).1 →
      parseLines ((gather data s.line.held).2.take rawLines) = .ok cmds →
      Delivered data s { s with bootN := n, line := line } cmds

theorem handleData_delivered (data : Bytes) {s : Cdc} (hline : s.line.Fits) :
    ∃ s' cmds, handleData data s = .ok (s', cmds) ∧ Delivered data s s' cmds := by
  cases hrun : s.reset with
  | true => exact ⟨s, [], by rw [handleData, if_pos hrun]; rfl, .off hrun⟩
  | false =>
    cases hboot : Usb.matchData Usb.bootCmd s.bootN data with
    | mk hitBoot n =>
    cases hitBoot with
    | true =>
      refine ⟨_, [], ?_, .boot hrun hboot⟩
      rw [handleData, hrun, if_neg Bool.false_ne_true, hboot]
      rfl
    | false =>
      obtain ⟨line, htake, hfits, hheld⟩ := takeBytes_lines data hline []
      obtain ⟨cmds, hcmds⟩ := parseLines_ok ((gather data s.line.held).2.take rawLines)
      refine ⟨_, cmds, ?_, .lines hrun hboot hfits hheld hcmds⟩
      rw [List.nil_append, List.length_nil, Nat.sub_zero] at htake
      rw [handleData, hrun, if_neg Bool.false_ne_true, hboot]
      dsimp only
      rw [if_neg Bool.false_ne_true, htake, Rust.ok_bind, hcmds]
      rfl

theorem Delivered.fits {data : Bytes} {s s' : Cdc} {cmds : List HostCmd} (h : Delivered data s s' cmds)
    (hline : s.line.Fits) : s'.line.Fits := by
  cases h with
  | off => exact hline
  | boot => exact hline
  | lines _ _ hfits => exact hfits

theorem receive_cons (data : Bytes) (chunks : List Bytes) {s s₁ : Cdc} {cmds : List HostCmd}
    (h : handleData data s = .ok (s₁, cmds)) : receive (data :: chunks) s =
      (receive chunks s₁).map fun r => (r.1, cmds ++ r.2) := by
  rw [receive, h, Rust.ok_bind]
  dsimp only
  cases receive chunks s₁ <;> rfl

theorem received_stays (chunks : List Bytes) (n : ℕ) :
    (chunks.foldl Usb.BootCmd.receive (true, n)).1 = true := by
  induction chunks generalizing n with
  | nil => rfl
  | cons data chunks ih => exact ih _

theorem receive_reset (chunks : List Bytes) {s : Cdc} (h : s.reset = true) :
    receive chunks s = .ok (s, []) := by
  induction chunks with
  | nil => rfl
  | cons data chunks ih =>
    have hoff : handleData data s = .ok (s, []) := by
      rw [handleData, if_pos h]
      rfl
    rw [receive_cons data chunks hoff, ih]
    rfl

/-- Every command is that of a line of `LINE_MAX` bytes at most. -/
theorem receive_from_line (chunks : List Bytes) {s s' : Cdc} {cmds : List HostCmd}
    (hline : s.line.Fits) (h : receive chunks s = .ok (s', cmds)) {cmd : HostCmd} (hmem : cmd ∈ cmds) :
    ∃ line : Bytes, line.length ≤ lineMax ∧ parseLine line = .ok (some cmd) := by
  induction chunks generalizing s s' cmds with
  | nil =>
    cases h
    cases hmem
  | cons data chunks ih =>
    obtain ⟨s₁, cmds₁, hdata, hdelivered⟩ := handleData_delivered data hline
    rw [receive_cons data chunks hdata] at h
    cases hrec : receive chunks s₁ with
    | error e =>
      rw [hrec] at h
      cases h
    | ok r =>
      rw [hrec] at h
      cases h
      rcases List.mem_append.1 hmem with hmem | hmem
      · cases hdelivered with
        | off => cases hmem
        | boot => cases hmem
        | lines _ _ _ _ hcmds =>
          obtain ⟨line, hin, hread⟩ := mem_parseLines hcmds hmem
          have hheld : s.line.held.length ≤ lineMax := by
            rw [LineBuf.length_held hline]
            exact hline.len_le
          exact ⟨line, length_of_gather hheld line (List.mem_of_mem_take hin), hread⟩
      · exact ih (hdelivered.fits hline) hrec hmem

/-- The deliveries up to the one with which the probe is reset; `n` is where the matcher stands. -/
def live (n : ℕ) : List Bytes → List Bytes
  | [] => []
  | data :: chunks =>
    let (hitBoot, n) := Usb.matchData Usb.bootCmd n data
    if hitBoot then [] else data :: live n chunks

/-- The lines that are read: of those that a delivery ends the first four. -/
def linesRead (held : Bytes) : List Bytes → List Bytes
  | [] => []
  | data :: chunks => (gather data held).2.take rawLines ++ linesRead (gather data held).1 chunks

theorem receive_gathered (chunks : List Bytes) {s : Cdc} (hline : s.line.Fits)
    (hrun : s.reset = false) : ∃ s' cmds, receive chunks s = .ok (s', cmds) ∧
      s'.reset = (chunks.foldl Usb.BootCmd.receive (false, s.bootN)).1 ∧
      s'.line.held = (gather (live s.bootN chunks).flatten s.line.held).1 ∧
      parseLines (linesRead s.line.held (live s.bootN chunks)) = .ok cmds := by
  induction chunks generalizing s with
  | nil => exact ⟨s, [], rfl, hrun, rfl, rfl⟩
  | cons data chunks ih =>
    have hfold : ((data :: chunks).foldl Usb.BootCmd.receive (false, s.bootN)) =
        chunks.foldl Usb.BootCmd.receive (Usb.matchData Usb.bootCmd s.bootN data) := rfl
    obtain ⟨s₁, cmds₁, hdata, hdelivered⟩ := handleData_delivered data hline
    rw [hfold, receive_cons data chunks hdata, live]
    cases hdelivered with
    | off hoff =>
      rw [hrun] at hoff
      cases hoff
    | boot _ hboot =>
      -- the probe is reset: the rest is not read
      rw [hboot, receive_reset chunks rfl]
      exact ⟨_, _, rfl, (received_stays _ _).symm, rfl, rfl⟩
    | @lines n line' cmds₁ _ hboot hfits hheld hcmds =>
      obtain ⟨s₂, cmds₂, hrec, hreset, hheld₂, hcmds₂⟩ :=
        @ih { s with bootN := n, line := line' } hfits hrun
      dsimp only at hheld₂ hcmds₂
      rw [hheld] at hheld₂ hcmds₂
      rw [hboot, hrec]
      refine ⟨s₂, cmds₁ ++ cmds₂, rfl, hreset, ?_, parseLines_append hcmds hcmds₂⟩
      dsimp only
      rw [hheld₂, if_neg Bool.false_ne_true, List.flatten_cons, gather, gather, gather,
        Lib.Mealy.total_append]

/-- Until it is reset the probe reads every delivery. -/
theorem live_eq {n : ℕ} {chunks : List Bytes} (h : (chunks.foldl Usb.BootCmd.receive (false, n)).1 = false) :
    live n chunks = chunks := by
  induction chunks generalizing n with
  | nil => rfl
  | cons data chunks ih =>
    have hfold : ((data :: chunks).foldl Usb.BootCmd.receive (false, n)) =
        chunks.foldl Usb.BootCmd.receive (Usb.matchData Usb.bootCmd n data) := rfl
    rw [hfold] at h
    rw [live]
    cases hboot : Usb.matchData Usb.bootCmd n data with
    | mk hitBoot n' =>
    rw [hboot] at h
    cases hitBoot with
    | true =>
      rw [received_stays] at h
      cases h
    | false =>
      dsimp only
      rw [if_neg Bool.false_ne_true, ih h]

/-- No line is missing where no delivery ends more than four. -/
theorem linesRead_eq {chunks : List Bytes} (h : ∀ data ∈ chunks, data.countP isEnd ≤ rawLines)
    (held : Bytes) : linesRead held chunks = (gather chunks.flatten held).2 := by
  induction chunks generalizing held with
  | nil => rfl
  | cons data chunks ih =>
    obtain ⟨hdata, hchunks⟩ := List.forall_mem_cons.1 h
    rw [linesRead, ih hchunks, List.take_of_length_le (Nat.le_trans (length_gather _ _) hdata),
      List.flatten_cons, gather, gather, gather, Lib.Mealy.total_append]

/-- The lines of all bytes since boot. -/
abbrev linesOf : Bytes → List Bytes := Lib.Lines.linesOf isEnd lineMax

/-- The text that is not ended yet. -/
abbrev restOf : Bytes → Bytes := Lib.Lines.restOf isEnd

theorem gather_boot (stream : Bytes) :
    gather stream Cdc.boot.line.held = (kept lineMax (restOf stream), linesOf stream) :=
  Lib.Lines.total_stream stream

/-- Of the lines of a stream those that are read: the first four that end in each delivery. `past` is
what was delivered before. -/
def accepted (past : Bytes) : List Bytes → List Bytes
  | [] => []
  | data :: chunks =>
    ((linesOf (past ++ data)).drop (linesOf past).length).take rawLines ++ accepted (past ++ data) chunks

theorem linesRead_boot (past : Bytes) (chunks : List Bytes) :
    linesRead (gather past Cdc.boot.line.held).1 chunks = accepted past chunks := by
  induction chunks generalizing past with
  | nil => rfl
  | cons data chunks ih =>
    have happend : gather (past ++ data) Cdc.boot.line.held =
        ((gather data (gather past Cdc.boot.line.held).1).1,
          (gather past Cdc.boot.line.held).2 ++ (gather data (gather past Cdc.boot.line.held).1).2) :=
      Lib.Mealy.total_append _ _ _ _
    have hlines : linesOf (past ++ data) =
        linesOf past ++ (gather data (gather past Cdc.boot.line.held).1).2 := by
      have hsnd := congrArg Prod.snd happend
      rw [gather_boot] at hsnd
      rw [gather_boot] at hsnd ⊢
      exact hsnd
    rw [linesRead, accepted, hlines, List.drop_left, ← ih, happend]

/-- **The commands depend on the bytes, not on the deliveries they come in**, but for the fifth line of
one and those behind it. After any deliveries since boot the probe has been reset exactly if the firmware
would have been. It holds what is kept behind the last end mark, and the commands are those of the
lines, of the first four that each delivery ends, up to the delivery that resets. -/
theorem receive_cut (chunks : List Bytes) : ∃ s cmds, receive chunks Cdc.boot = .ok (s, cmds) ∧
    s.reset = (Usb.BootCmd.received chunks).1 ∧
    s.line.held = kept lineMax (restOf (live 0 chunks).flatten) ∧
    parseLines (accepted [] (live 0 chunks)) = .ok cmds ∧
    (s.reset = false → live 0 chunks = chunks) := by
  obtain ⟨s, cmds, hrec, hreset, hheld, hcmds⟩ := @receive_gathered chunks Cdc.boot ⟨Nat.zero_le _⟩ rfl
  rw [gather_boot] at hheld
  have hread := linesRead_boot [] (live 0 chunks)
  refine ⟨s, cmds, hrec, hreset, hheld, ?_, fun h => live_eq (hreset.symm.trans h)⟩
  rw [← hread]
  exact hcmds

/-- Five lines in one delivery, and one more: the fifth is not read. -/
example : accepted [] [Rust.byteStr "a\nb\n\nc\r\nd\ne\nf", Rust.byteStr "g\n"] =
    [Rust.byteStr "a", Rust.byteStr "b", Rust.byteStr "c", Rust.byteStr "d", Rust.byteStr "fg"] := by
  decide +kernel

/-! ### Typing bytes -/

/-- The digits of some bytes, without spaces. -/
def dense (data : Bytes) : Bytes := data.flatMap Serial.hexByte

theorem digits_byte (b : UInt8) (s : Bytes) :
    digits (Serial.hexByte b ++ s) = (digits s).map fun ds => b >>> 4 :: (b &&& 0x0f) :: ds := by
  obtain ⟨⟨hspace, hhigh⟩, ⟨hspace', hlow⟩, -⟩ := Serial.unhex_hexByte b
  show digits (_ :: _ :: s) = _
  rw [digits_cons hspace, hhigh, digits_cons hspace', hlow]
  cases digits s <;> rfl

theorem hexValue_dense (data : Bytes) : hexValue (dense data) = some data := by
  induction data with
  | nil => rfl
  | cons b data ih =>
    obtain ⟨-, -, hbyte⟩ := Serial.unhex_hexByte b
    obtain ⟨ds, hds, hpairs⟩ := Option.bind_eq_some_iff.1 ih
    rw [hexValue, dense, List.flatMap_cons, digits_byte, ← dense, hds, Option.map_some,
      Option.bind_some, pairs, hpairs, hbyte]
    rfl

theorem length_dense (data : Bytes) : (dense data).length = 2 * data.length := by
  induction data with
  | nil => rfl
  | cons b data ih =>
    rw [dense, List.flatMap_cons, List.length_append, ← dense, ih]
    simp only [Serial.hexByte, List.length_cons, List.length_nil]
    omega

theorem dense_open (data : Bytes) : Open isEnd (dense data) := by
  have hbyte : ∀ b : UInt8, (Serial.hexByte b).all (fun c => !isEnd c) = true := by
    intro b
    refine Serial.byte_forall ?_ b
    decide +kernel
  intro c hc
  obtain ⟨b, -, hc⟩ := List.mem_flatMap.1 hc
  simpa using List.all_eq_true.1 (hbyte b) c hc

/-- Other white space and capital digits say the same. -/
theorem digits_respells {s t : Bytes} (h : Respells s t) : digits s = digits t := by
  induction h with
  | nil => rfl
  | space hc _ ih => rw [digits_space hc, ih]
  | @same c s t _ ih =>
    cases hc : isAsciiWhitespace c with
    | true => rw [digits_space hc, digits_space hc, ih]
    | false => rw [digits_cons hc, digits_cons hc, ih]
  | upper h97 h102 _ ih =>
    obtain ⟨hcapital, hsmall, heq⟩ := Serial.unhex_upper h97 h102
    rw [digits_cons hcapital, digits_cons hsmall, heq, ih]

theorem sends_sendCmd (blast : Bool) (b : TxBurst) :
    (sendCmd blast b).sends = some (blast, b.asSlice) := by
  cases blast <;> rfl

/-- The longest payload that fits into a line behind `tx` or `blast`. -/
def payloadMax (blast : Bool) : ℕ := if blast then 61 else 63

theorem receive_line {line : Bytes} {mark : UInt8} (hline : Open isEnd line) (hmark : isEnd mark = true)
    (hpos : line ≠ []) (hle : line.length ≤ lineMax) {cmd : HostCmd}
    (hread : parseLine line = .ok (some cmd)) {chunks : List Bytes}
    (hcut : chunks.flatten = line ++ [mark]) (hboot : (Usb.BootCmd.received chunks).1 = false) :
    ∃ s, receive chunks Cdc.boot = .ok (s, [cmd]) ∧ s.line.held = [] := by
  obtain ⟨s, cmds, hrec, -, hheld, hcmds⟩ := @receive_gathered chunks Cdc.boot ⟨Nat.zero_le _⟩ rfl
  have hsplit : (line ++ [mark]).splitOnP isEnd = [line, []] :=
    List.splitOnP_append_cons_of_forall_mem hline mark hmark []
  have hlines : linesOf (line ++ [mark]) = [line] := by
    simp [linesOf, Lib.Lines.linesOf, hsplit, Lib.Lines.kept_of_le hle, hpos]
  have hrest : restOf (line ++ [mark]) = [] := by
    rw [restOf, Lib.Lines.restOf, hsplit]
    rfl
  have hfew : ∀ data ∈ chunks, data.countP isEnd ≤ rawLines := by
    intro data hdata
    have hsub := (List.sublist_flatten_of_mem hdata).countP_le (p := isEnd)
    have hone : (line ++ [mark]).countP isEnd = 1 := by
      rw [List.countP_append, List.countP_eq_zero.2 fun b hb => by simp [hline b hb]]
      simp [hmark]
    rw [hcut, hone] at hsub
    exact Nat.le_trans hsub (by decide)
  have hlive : live Cdc.boot.bootN chunks = chunks := live_eq hboot
  rw [hlive, linesRead_eq hfew, hcut, gather_boot, hlines, parseLines, hread] at hcmds
  cases hcmds
  rw [hlive, hcut, gather_boot, hrest] at hheld
  exact ⟨s, hrec, hheld⟩

theorem received_false {chunks : List Bytes} (h : 78 ∉ chunks.flatten) :
    (Usb.BootCmd.received chunks).1 = false := by
  rw [Bool.eq_false_iff]
  intro hhit
  obtain ⟨before, after, heq, -⟩ :=
    (Lib.Restart.hits_iff (by decide +kernel)).1 ((Usb.received_hits chunks).1.1 hhit)
  have hmem : (78 : UInt8) ∈ Usb.bootCmd := by decide +kernel
  exact h (heq ▸ by simp [hmem])

theorem length_trim_le (s : Bytes) : (trim s).length ≤ s.length := by
  rw [trim, List.length_reverse]
  refine Nat.le_trans (List.dropWhile_sublist _).length_le ?_
  rw [List.length_reverse]
  exact (List.dropWhile_sublist _).length_le

/-- A line of `LINE_MAX` bytes sends no more than fits behind the name. -/
theorem parseLine_payload {line : Bytes} (hle : line.length ≤ lineMax) {cmd : HostCmd}
    (hread : parseLine line = .ok (some cmd)) {blast : Bool} {data : Bytes}
    (hsends : cmd.sends = some (blast, data)) : 0 < data.length ∧ data.length ≤ payloadMax blast := by
  have htrim := length_trim_le line
  have hmax : line.length ≤ 128 := hle
  rcases reads_of_parseLine hread with ⟨hmem, -⟩ | ⟨hname, hline, hhead, hd, hb⟩
  · simp only [words, List.mem_cons, Prod.mk.injEq, List.not_mem_nil, or_false] at hmem
    rcases hmem with ⟨-, rfl⟩ | ⟨-, rfl⟩ | ⟨-, rfl⟩ | ⟨-, rfl⟩ | ⟨-, rfl⟩ <;> cases hsends
  · rw [sends_sendCmd] at hsends
    obtain ⟨hdata, hpos, -⟩ := fromSlice_eq_some hb
    obtain ⟨rfl, rfl⟩ : _ = blast ∧ _ = data := by simpa using hsends
    have hlen := sameWord_length hhead
    have hdigits := (hexValue_some hd).2
    rw [hline, List.length_append] at htrim
    rw [hdata]
    refine ⟨hpos, ?_⟩
    have htx : (Rust.byteStr "tx").length = 2 := by decide +kernel
    have hblast : (Rust.byteStr "blast").length = 5 := by decide +kernel
    simp only [senders, List.mem_cons, Prod.mk.injEq, List.not_mem_nil, or_false] at hname
    rcases hname with ⟨rfl, rfl⟩ | ⟨rfl, rfl⟩
    · rw [htx] at hlen
      show _ ≤ 63
      omega
    · rw [hblast] at hlen
      show _ ≤ 61
      omega

/-- A text of digits on one line. -/
structure Typed (text data : Bytes) : Prop where
  spelt : Respells text (dense data)
  isOpen : Open isEnd text

theorem Typed.hexValue {text data : Bytes} (h : Typed text data) : hexValue text = some data := by
  rw [Probe.hexValue, digits_respells h.spelt]
  exact hexValue_dense data

theorem hexy_ne_upperN {c : UInt8} (h : Hexy c) : c ≠ 78 := by
  rintro rfl
  revert h
  decide

/-- The letters of the two names: no white space, no end mark and no `N`. -/
theorem sender_letters {name : Bytes} {blast : Bool} (h : (name, blast) ∈ senders) {head : Bytes}
    (hhead : sameWord head name = true) :
    (∀ c ∈ head, isAsciiWhitespace c = false ∧ isEnd c = false ∧ c ≠ 78) ∧
      head.length + 2 * payloadMax blast ≤ lineMax ∧ head ≠ [] := by
  have hlen := sameWord_length hhead
  have hletter : ∀ c ∈ head, Net.toAsciiLowercase c ∈ name.map Net.toAsciiLowercase := by
    intro c hc
    rw [← sameWord_iff.1 hhead]
    exact List.mem_map_of_mem hc
  have hnames : ∀ p ∈ senders, (∀ l ∈ p.1.map Net.toAsciiLowercase, 97 ≤ l ∧ l ≠ 110) ∧
      p.1.length + 2 * payloadMax p.2 ≤ lineMax ∧ 0 < p.1.length := by decide +kernel
  obtain ⟨hsmall, hfits, hpos⟩ := hnames _ h
  rw [← hlen] at hfits hpos
  refine ⟨?_, hfits, List.length_pos_iff.1 hpos⟩
  intro c hc
  have hc := hsmall _ (hletter c hc)
  revert hc
  refine Serial.byte_forall ?_ c
  decide +kernel

/-- A name and digits are read as the burst they say. -/
theorem parseLine_typed {name head text data : Bytes} {blast : Bool} {b : TxBurst}
    (hname : (name, blast) ∈ senders) (hhead : sameWord head name = true) (htext : Typed text data)
    (hb : TxBurst.fromSlice data = some b) :
    parseLine (head ++ text) = .ok (some (sendCmd blast b)) := by
  obtain ⟨hletters, -, hne⟩ := sender_letters hname hhead
  have htrim := trim_word hne (fun c hc => (hletters c hc).1) text
  have hvalue : hexValue (trimEnd text) = some data := (hexValue_trimEnd text).trans htext.hexValue
  have hsend : sendOf (trim (head ++ text)) = some (sendCmd blast b) :=
    sendOf_iff.2 ⟨name, head, trimEnd text, data, blast, b, hname, htrim, hhead, hvalue, hb, rfl⟩
  rw [parseLine_eq, hsend]
  cases hfirst : firstWord (trim (head ++ text)) with
  | none => rfl
  | some cmd =>
    obtain ⟨w, hmem, hend⟩ := firstWord_some hfirst
    rw [htrim] at hend
    exact absurd hend (word_not_send hname hhead hvalue (fromSlice_eq_some hb).2.1 hmem)

theorem typed_open {name head text data : Bytes} {blast : Bool} (hname : (name, blast) ∈ senders)
    (hhead : sameWord head name = true) (htext : Typed text data) : Open isEnd (head ++ text) := by
  intro c hc
  rcases List.mem_append.1 hc with hc | hc
  · exact ((sender_letters hname hhead).1 c hc).2.1
  · exact htext.isOpen c hc

theorem typed_not_boot {name head text data : Bytes} {blast : Bool} (hname : (name, blast) ∈ senders)
    (hhead : sameWord head name = true) (htext : Typed text data) {mark : UInt8}
    (hmark : isEnd mark = true) {chunks : List Bytes} (hcut : chunks.flatten = head ++ text ++ [mark]) :
    (Usb.BootCmd.received chunks).1 = false := by
  refine received_false ?_
  rw [hcut]
  intro hmem
  rcases List.mem_append.1 hmem with hmem | hmem
  · rcases List.mem_append.1 hmem with hmem | hmem
    · exact ((sender_letters hname hhead).1 _ hmem).2.2 rfl
    · exact hexy_ne_upperN ((hexValue_some htext.hexValue).1 _ hmem) rfl
  · rw [← List.mem_singleton.1 hmem] at hmark
    cases hmark

/-- **Typed bytes are sent as they are.** A name in any case, the digits of some bytes behind it in any
case and with any white space, as long as it fits on a line: in whatever deliveries it comes, one
command is put into the channel, and it sends those bytes. -/
theorem receive_typed {name head text data : Bytes} {blast : Bool} (hname : (name, blast) ∈ senders)
    (hhead : sameWord head name = true) (htext : Typed text data) (hpos : data ≠ [])
    (hle : head.length + text.length ≤ lineMax) {mark : UInt8} (hmark : isEnd mark = true)
    {chunks : List Bytes} (hcut : chunks.flatten = head ++ text ++ [mark]) :
    ∃ s cmd, receive chunks Cdc.boot = .ok (s, [cmd]) ∧ cmd.sends = some (blast, data) ∧
      s.line.held = [] := by
  have hne := (sender_letters hname hhead).2.2
  have hdigits := (hexValue_some htext.hexValue).2
  have hfits : data.length ≤ txMax := by
    have hlen : lineMax = 2 * txMax := rfl
    omega
  obtain ⟨b, hb, hslice⟩ := fromSlice_some (List.length_pos_iff.2 hpos) hfits
  obtain ⟨s, hrec, hheld⟩ := receive_line (typed_open hname hhead htext) hmark (by simp [hne])
    (by rw [List.length_append]; exact hle) (parseLine_typed hname hhead htext hb) hcut
    (typed_not_boot hname hhead htext hmark hcut)
  exact ⟨s, _, hrec, by rw [sends_sendCmd, hslice], hheld⟩

/-- Two bytes behind a capital `TX`, in two deliveries. -/
theorem receive_typed_two : ∃ s cmd,
    receive [Rust.byteStr "TX 60", Rust.byteStr " 7A \r"] Cdc.boot = .ok (s, [cmd]) ∧
      cmd.sends = some (false, [0x60, 0x7a]) ∧ s.line.held = [] :=
  @receive_typed (Rust.byteStr "tx") (Rust.byteStr "TX") [32, 54, 48, 32, 55, 65, 32] [0x60, 0x7a]
    false (by simp [senders])
    (by decide +kernel) ⟨.space rfl (.same (.same (.space rfl (.same (.upper (c := 97) (by decide)
      (by decide) (.space rfl .nil)))))), by decide +kernel⟩
    (by decide) (by decide +kernel) 13 rfl _ (by decide +kernel)

/-- **The bursts that can be typed** are those of one to 63 bytes behind `tx`, and to 61 behind `blast`:
a line never holds the 64 bytes that a burst has room for. -/
theorem payload_enters (blast : Bool) (data : Bytes) :
    (∃ chunks s cmds cmd, receive chunks Cdc.boot = .ok (s, cmds) ∧ cmd ∈ cmds ∧
      cmd.sends = some (blast, data)) ↔ 0 < data.length ∧ data.length ≤ payloadMax blast := by
  constructor
  · rintro ⟨chunks, s, cmds, cmd, hrec, hmem, hsends⟩
    obtain ⟨line, hle, hread⟩ := receive_from_line chunks ⟨Nat.zero_le _⟩ hrec hmem
    exact parseLine_payload hle hread hsends
  · rintro ⟨hpos, hle⟩
    have hne : data ≠ [] := List.length_pos_iff.1 hpos
    obtain ⟨name, hname⟩ : ∃ name, (name, blast) ∈ senders := by
      cases blast with
      | false => exact ⟨_, List.mem_cons_self⟩
      | true => exact ⟨_, List.mem_cons_of_mem _ List.mem_cons_self⟩
    obtain ⟨b, hb, hslice⟩ : ∃ b, TxBurst.fromSlice data = some b ∧ b.asSlice = data := by
      refine fromSlice_some hpos (Nat.le_trans hle ?_)
      cases blast <;> decide
    have htext : Typed (dense data) data := ⟨.refl _, dense_open data⟩
    have hsame : sameWord name name = true := sameWord_iff.2 rfl
    obtain ⟨-, hroom, hname'⟩ := sender_letters hname hsame
    have hmark : isEnd 10 = true := rfl
    have hcut : [name ++ dense data ++ [10]].flatten = name ++ dense data ++ [10] := by simp
    obtain ⟨s, hrec, -⟩ := receive_line (typed_open hname hsame htext) hmark (by simp [hname'])
      (by rw [List.length_append, length_dense]; omega) (parseLine_typed hname hsame htext hb) hcut
      (typed_not_boot hname hsame htext hmark hcut)
    exact ⟨_, s, _, _, hrec, List.mem_singleton_self _, by rw [sends_sendCmd, hslice]⟩

end ScoreboardCtrl.Probe
