import ScoreboardCtrl.Board.UartOnly
import ScoreboardCtrl.Phone.Clock
import ScoreboardCtrl.Serial.Stream

/-!
# What the scoreboard sends is what the phone shows

From the bytes on the UART to the time on the page, in the hardware build: the framing loop of `read_serial`
hands the times of the valid frames to `set_clock`, whatever else the tasks do the clock holds the last of
them, and a status shows it.
-/

namespace ScoreboardCtrl

/-- The time of the last valid frame that the scoreboard has sent; `07:30` before the first. -/
def lastSent (items : List Item) : ℕ × ℕ :=
  ((items.filterMap fun i => i.frame.shown).getLast?.map fun v => (v.1.toNat, v.2.toNat)).getD
    (periodMin, periodSec)

theorem lastSent_le (items : List Item) : (lastSent items).1 ≤ 99 ∧ (lastSent items).2 ≤ 59 := by
  unfold lastSent
  cases hlast : (items.filterMap fun i => i.frame.shown).getLast? with
  | none => decide
  | some v =>
    obtain ⟨i, -, hi⟩ := List.mem_filterMap.1 (List.mem_of_getLast? hlast)
    rw [Frame.shown] at hi
    split at hi
    · rename_i hframe
      cases hi
      have hvalid : i.frame.minutes ≤ 99 ∧ i.frame.seconds ≤ 59 := by simpa [Frame.valid] using hframe
      exact ⟨UInt8.le_iff_toNat_le.1 hvalid.1, UInt8.le_iff_toNat_le.1 hvalid.2⟩
    · cases hi

theorem latest_reports {rs : List Report} {calls : List (UInt8 × UInt8)}
    (h : rs.map (fun r => (r.minutes, r.seconds)) = (calls.map fun v => (v.1.toNat, v.2.toNat)).reverse) :
    latest rs = (calls.getLast?.map fun v => (v.1.toNat, v.2.toNat)).getD (periodMin, periodSec) := by
  rcases List.eq_nil_or_concat calls with rfl | ⟨calls, v, rfl⟩
  · cases rs with
    | nil => rfl
    | cons r rs => cases h
  · rw [List.concat_eq_append, List.map_append, List.reverse_append] at h
    cases rs with
    | nil => cases h
    | cons r rs =>
      have hnew := (List.cons.inj h).1
      simpa [latest] using hnew

theorem readLoop_sent {items : List Item} {reads : List (List UInt8)} {s : Framer}
    {calls : List (UInt8 × UInt8)} (hreads : reads.flatten = items.flatMap Item.bytes)
    (hread : readLoop.run (reads.map .ok) Framer.init = some (s, calls)) :
    calls = items.filterMap fun i => i.frame.shown := by
  obtain ⟨s', hrun, -, -⟩ := framer_simulates.run reads.flatten Framer.init_inRange
  have hheld : Framer.init.held = [] := (Framer.held_eq_nil Framer.init_inRange).2 rfl
  rw [readLoop_ok, hrun, hheld, hreads, held_items] at hread
  cases hread
  rfl

/-- **What the scoreboard sends is what the phone shows.** Let the bytes on the UART be frames in noise, cut
into reads in any way, and let the tasks run in any way in which `read_serial` passes on what it makes of
them. Then every status shows the time of the last valid frame, to the page as to a reader, and whether that
time has moved in the last two seconds. -/
theorem sent_time_shown {allow : Command → Prop} {w : World} {k : BoardProg Pending}
    (h : (boardSystem false allow).Reach ⟨World.boot, .ret .zero⟩ ⟨w, k⟩) {items : List Item}
    {reads : List (List UInt8)} (hreads : reads.flatten = items.flatMap Item.bytes) {s : Framer}
    {calls : List (UInt8 × UInt8)} (hread : readLoop.run (reads.map .ok) Framer.init = some (s, calls))
    (hreports : (reports w.hist).map (fun r => (r.minutes, r.seconds)) =
      (calls.map fun v => (v.1.toNat, v.2.toNat)).reverse) (rel : Release) (now : ℕ) :
    let sent := lastSent items
    let data := statusOf rel (Section.run .status now w.shared).1 now
    data.time.text = fmt sent.1 sent.2 ∧ clockOf data.time.text = ((sent.1 : ℤ), (sent.2 : ℤ)) ∧
      (data.running = true ↔
        sent ≠ (0, 0) ∧ ∃ t, lastMove (reports w.hist) = some t ∧ now < t + 2000 * 1000) := by
  intro sent data
  obtain ⟨hmin, hsec⟩ : sent.1 ≤ 99 ∧ sent.2 ≤ 59 := lastSent_le items
  have hlatest : latest (reports w.hist) = sent := by
    rw [latest_reports hreports, readLoop_sent hreads hread]
    rfl
  have hrecorded := recorded_reach h World.boot_recorded
  have hshared : w.shared = replay Shared.boot w.hist := hrecorded.replayed
  have huart : w.shared.board.uart = ⟨sent.1, sent.2, lastMove (reports w.hist)⟩ := by
    have hboot : uartAfter Shared.boot.board.uart (reports w.hist) = _ := uartAfter_boot (reports w.hist)
    rw [hshared, replay_uart hrecorded.hardware, hboot, hlatest]
  have hserved : (Section.run .status now w.shared).2.board.uart = w.shared.board.uart :=
    Shared.refreshRunning_uart now _
  have hshown := hserved.trans huart
  have htime : data.time = .fromParts sent.1 sent.2 :=
    congrArg₂ TimeStr.fromParts (congrArg Uart.minutes hshown) (congrArg Uart.seconds hshown)
  have htext : data.time.text = fmt sent.1 sent.2 := by
    rw [htime, text_fromParts, Nat.min_eq_left hmin, Nat.min_eq_left hsec]
  refine ⟨htext, by rw [htext, clockOf_fmt], ?_⟩
  have hrunning : data.running = w.shared.board.uart.running now := Section.refreshRunning_running now _
  rw [hrunning, huart, Uart.running_iff]

theorem quiet_twoBytes : packetSof ∉ ([1, 2] : List UInt8) := by decide

/-- `07:29` at 1 s behind two bytes of noise, read in two parts; a tap on the home score meanwhile. -/
def oneFrame : List Item :=
  [⟨[1, 2], quiet_twoBytes, ⟨#v[0x60, 5, 0, 7, 29, 0], .refl packetSof⟩⟩]

def oneFrameRun : List (Option Action) :=
  [some (.elapse 1000000), some (.send .homeInc), none, some (.visit (.setClock 7 29)), none, none]

def oneFrameConf : BoardConf := (play false oneFrameRun ⟨World.boot, .ret .zero⟩).get rfl

theorem sent_time_shown_oneFrame :
    let data := statusOf firstRelease (Section.run .status 2000000 oneFrameConf.state.shared).1 2000000
    data.time.text = fmt 7 29 ∧ clockOf data.time.text = (7, 29) ∧
      (data.running = true ↔ ((7, 29) : ℕ × ℕ) ≠ (0, 0) ∧
        ∃ t, lastMove (reports oneFrameConf.state.hist) = some t ∧ 2000000 < t + 2000 * 1000) := by
  have hrun : (boardSystem false fun _ => True).Reach ⟨World.boot, .ret .zero⟩ oneFrameConf :=
    play_reach (fun _ _ a _ => by cases a <;> trivial) (Option.some_get _).symm
  have hread : ∃ s, readLoop.run (([[1, 2, 0x60, 5], [0, 7, 29, 0]] : List (List UInt8)).map .ok)
      Framer.init = some (s, [(7, 29)]) := ⟨_, rfl⟩
  obtain ⟨s, hread⟩ := hread
  exact @sent_time_shown _ _ _ hrun oneFrame _ rfl _ _ hread rfl firstRelease 2000000

end ScoreboardCtrl
