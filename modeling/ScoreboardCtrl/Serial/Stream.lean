import ScoreboardCtrl.Serial.Framer
import Mathlib.Data.List.DropRight
import Mathlib.Data.List.TakeWhile

/-!
# Streams of frames

What `read_serial` hands to `set_clock` on two kinds of stream.

* `readLoop_items` — frames separated by noise without a `60` byte: from a frame boundary the valid
  frames come out, each once and in order, however the stream is cut into reads;
* `repeated_frame_iff` — one frame repeated for ever, from any state of the loop. The framing never
  rescans, so a `60` inside the frame can be taken for its start; the loop then hands out the
  rotated frame for ever. The theorem says exactly when that shows a wrong time.
-/

namespace ScoreboardCtrl

open Lib

/-- Six bytes that start with the SOF byte. -/
structure Frame where
  bytes : Vector UInt8 packetLen
  sof : bytes[0] = packetSof

namespace Frame

def minutes (f : Frame) : UInt8 := f.bytes[3]
def seconds (f : Frame) : UInt8 := f.bytes[4]

/-- Does the frame show a time the board can show? -/
def valid (f : Frame) : Bool := decide (f.minutes ≤ 99) && decide (f.seconds ≤ 59)

/-- The time a valid frame shows. -/
def shown (f : Frame) : Option (UInt8 × UInt8) :=
  if f.valid then some (f.minutes, f.seconds) else none

/-- The parser reads a frame as what it shows. -/
theorem parse_eq_shown (f : Frame) : parseClockPacket f.bytes = f.shown := by
  have hiff : f.valid = true ↔ ¬ (f.minutes > maxMinutes ∨ f.seconds > maxSeconds) := by
    simp [valid, not_or, UInt8.not_lt]
  rw [parseClockPacket, if_neg (not_not.2 f.sof), shown]
  by_cases hv : f.valid = true
  · rw [if_pos hv]
    exact if_neg (hiff.1 hv)
  · rw [if_neg hv]
    exact if_pos (not_not.1 fun h => hv (hiff.2 h))

theorem toList_eq (f : Frame) : f.bytes.toList = packetSof :: f.bytes.toList.tail := by
  have hlen : 0 < f.bytes.toList.length := by simp
  have hhead : f.bytes.toList[0] = packetSof := by simpa using f.sof
  rw [← hhead, List.getElem_zero, List.cons_head_tail]

end Frame

/-! ### Runs of held bytes -/

/-- Between frames everything up to the next SOF byte is dropped. -/
theorem held_noise {noise : List UInt8} (h : packetSof ∉ noise) :
    Mealy.total heldStep noise [] = ([], []) := by
  induction noise with
  | nil => rfl
  | cons b noise ih =>
    have hb : b ≠ packetSof := fun hc => h (hc ▸ List.mem_cons_self)
    rw [Mealy.total_cons, heldStep_skip hb, ih fun hc => h (List.mem_cons_of_mem _ hc)]
    rfl

/-- A frame fills without output as long as it is not full. -/
theorem held_fill {bytes held : List UInt8} (hne : held ≠ [])
    (h : held.length + bytes.length < packetLen) :
    Mealy.total heldStep bytes held = (held ++ bytes, []) := by
  induction bytes generalizing held with
  | nil => simp
  | cons b bytes ih =>
    rw [List.length_cons] at h
    rw [Mealy.total_cons, heldStep_more hne (by omega),
      ih (by simp) (by rw [List.length_append, List.length_singleton]; omega)]
    simp

/-- The byte that fills the frame hands it to the parser. -/
theorem held_complete {bytes held : List UInt8} (hne : held ≠ [])
    (h : held.length + bytes.length = packetLen) (hlt : held.length < packetLen) :
    Mealy.total heldStep bytes held = ([], (decodeBytes (held ++ bytes)).toList) := by
  obtain ⟨front, b, rfl⟩ : ∃ front b, bytes = front ++ [b] := by
    have hb : bytes ≠ [] := by rintro rfl; simp at h; omega
    exact ⟨_, _, (List.dropLast_concat_getLast hb).symm⟩
  rw [List.length_append, List.length_singleton] at h
  rw [Mealy.total_append, held_fill hne (by omega), Mealy.total_cons,
    heldStep_full (by rw [List.length_append]; omega)]
  simp

theorem held_frame (f : Frame) :
    Mealy.total heldStep f.bytes.toList [] = ([], f.shown.toList) := by
  have hlen : f.bytes.toList.tail.length = 5 := by simp
  rw [f.toList_eq, Mealy.total_cons, heldStep_start,
    held_complete (by simp) (by rw [hlen]; rfl) (by decide), List.singleton_append, ← f.toList_eq,
    decodeBytes_toList, f.parse_eq_shown]
  rfl

/-! ### Frames in noise -/

/-- A frame, and the noise before it. -/
structure Item where
  noise : List UInt8
  quiet : packetSof ∉ noise
  frame : Frame

def Item.bytes (i : Item) : List UInt8 := i.noise ++ i.frame.bytes.toList

theorem held_items (items : List Item) : Mealy.total heldStep (items.flatMap Item.bytes) [] =
    ([], items.filterMap fun i => i.frame.shown) := by
  induction items with
  | nil => rfl
  | cons i items ih =>
    have hi : Mealy.total heldStep i.bytes [] = ([], i.frame.shown.toList) := by
      rw [Item.bytes, Mealy.total_append, held_noise i.quiet, held_frame]
      rfl
    rw [List.flatMap_cons, Mealy.total_append, hi, ih]
    cases h : i.frame.shown <;> simp [h]

/-- **Decoding undoes encoding from a frame boundary.** Whatever was read before, if it left the
loop between frames, the calls of `set_clock` on a stream of frames in noise are the times of its
valid frames, in order, however the stream is cut into reads; no index goes out of range, and the
loop is between frames again. -/
theorem readLoop_items (past : List Read) :
    ∃ s out, readLoop.run past Framer.init = some (s, out) ∧ (s.bufIdx = 0 →
      ∀ (items : List Item) (reads : List (List UInt8)),
        reads.flatten = items.flatMap Item.bytes →
        ∃ s', readLoop.run (reads.map .ok) s =
            some (s', (items.filter fun i => i.frame.valid).map fun i =>
              (i.frame.minutes, i.frame.seconds)) ∧
          s'.bufIdx = 0) := by
  obtain ⟨s, out, hpast, hs, -⟩ := readLoop_sound past Framer.init_inRange
  refine ⟨s, out, hpast, fun h0 items reads hreads => ?_⟩
  obtain ⟨s', hrun, hs', hheld⟩ := framer_simulates.run reads.flatten hs
  rw [hreads, (Framer.held_eq_nil hs).2 h0, held_items] at hrun hheld
  have hshown : (items.filterMap fun i => i.frame.shown) =
      (items.filter fun i => i.frame.valid).map fun i => (i.frame.minutes, i.frame.seconds) := by
    rw [← List.filterMap_eq_map, List.filterMap_filter]
    rfl
  refine ⟨s', ?_, (Framer.held_eq_nil hs').1 hheld⟩
  rw [readLoop_ok, hreads, hrun, hshown]

/-- `07:30` with a checksum that is the SOF byte. -/
def sofChecksumFrame : Frame := ⟨#v[0x60, 0x60, 0, 7, 30, 0], .refl packetSof⟩

/-- Two such frames in noise, read 32 bytes at a time; the first read ends inside the first frame. -/
theorem readLoop_items_cut : ∃ s, readLoop.run
    [.ok (List.replicate 29 1 ++ [0x60, 0x60, 0]),
      .ok ([7, 30, 0] ++ List.replicate 23 1 ++ [0x60, 0x60, 0, 7, 30, 0])] Framer.init =
      some (s, [(7, 30), (7, 30)]) ∧ s.bufIdx = 0 := by
  obtain ⟨s, out, hpast, h⟩ := readLoop_items []
  cases hpast
  exact h rfl [⟨List.replicate 29 1, by decide, sofChecksumFrame⟩,
    ⟨List.replicate 23 1, by decide, sofChecksumFrame⟩]
    [List.replicate 29 1 ++ [0x60, 0x60, 0],
      [7, 30, 0] ++ List.replicate 23 1 ++ [0x60, 0x60, 0, 7, 30, 0]] rfl

/-! ### One frame for ever -/

/-- What is held once a whole `f` was read after `held`: `f` from the first SOF byte on that follows
the frame in progress. -/
def lockTail (f : Frame) (held : List UInt8) : List UInt8 :=
  (f.bytes.toList.drop (packetLen - held.length)).dropWhile (· != packetSof)

/-- The six bytes taken for a frame from then on: `f` rotated to the SOF byte it was entered at. -/
def lockedBytes (f : Frame) (held : List UInt8) : List UInt8 :=
  lockTail f held ++ f.bytes.toList.take (packetLen - (lockTail f held).length)

theorem lockTail_suffix (f : Frame) (held : List UInt8) : lockTail f held <:+ f.bytes.toList :=
  (List.dropWhile_suffix _).trans (List.drop_suffix _ _)

theorem lockTail_length (f : Frame) {held : List UInt8} (h : held.length < packetLen) :
    (lockTail f held).length < packetLen := by
  have hle : (lockTail f held).length ≤ (f.bytes.toList.drop (packetLen - held.length)).length :=
    (List.dropWhile_suffix _).length_le
  simp only [List.length_drop, Vector.length_toList] at hle
  omega

/-- From a frame boundary, bytes too few for a frame leave what follows the first SOF byte. -/
theorem held_scan {bytes : List UInt8} (h : bytes.length < packetLen) :
    Mealy.total heldStep bytes [] = (bytes.dropWhile (· != packetSof), []) := by
  induction bytes with
  | nil => rfl
  | cons b bytes ih =>
    rw [List.length_cons] at h
    by_cases hb : b = packetSof
    · subst hb
      rw [Mealy.total_cons, heldStep_start, held_fill (by simp) (by simpa [Nat.add_comm] using h)]
      simp
    · rw [Mealy.total_cons, heldStep_skip hb, ih (by omega),
        List.dropWhile_cons_of_pos (by simpa using hb)]
      rfl

/-- One frame read from any state leaves its tail held. -/
theorem held_lock (f : Frame) {held : List UInt8} (h : held.length < packetLen) :
    (Mealy.total heldStep f.bytes.toList held).1 = lockTail f held := by
  by_cases hne : held = []
  · subst hne
    rw [held_frame]
    simp [lockTail, List.drop_of_length_le]
  · rw [← List.take_append_drop (packetLen - held.length) f.bytes.toList, Mealy.total_append,
      held_complete hne ?_ h, held_scan ?_]
    · simp [lockTail]
    · have hpos : 0 < held.length := List.length_pos_iff.2 hne
      simp only [List.length_drop, Vector.length_toList]
      omega
    · simp only [List.length_take, Vector.length_toList]
      omega

/-- Once locked, each further frame hands the rotated bytes to the parser. -/
theorem held_locked (f : Frame) {held : List UInt8} (h : held.length < packetLen) :
    Mealy.total heldStep f.bytes.toList (lockTail f held) =
      (lockTail f held, (decodeBytes (lockedBytes f held)).toList) := by
  have hlen := lockTail_length f h
  have hlock : ∀ t, lockTail f held = t → lockedBytes f held =
      t ++ f.bytes.toList.take (packetLen - t.length) := by
    rintro t rfl
    rfl
  by_cases hne : lockTail f held = []
  · have hall : lockedBytes f held = f.bytes.toList := by
      rw [hlock _ hne, List.nil_append, List.take_of_length_le (by simp)]
    rw [hne, held_frame, hall, decodeBytes_toList, f.parse_eq_shown]
  · have hrest : f.bytes.toList.drop (packetLen - (lockTail f held).length) = lockTail f held := by
      have := List.suffix_iff_eq_drop.1 (lockTail_suffix f held)
      rw [Vector.length_toList] at this
      exact this.symm
    have hscan : Mealy.total heldStep (lockTail f held) [] = (lockTail f held, []) := by
      rw [held_scan hlen, lockTail, List.dropWhile_idempotent]
    have hsplit : Mealy.total heldStep
        (f.bytes.toList.take (packetLen - (lockTail f held).length) ++ lockTail f held)
        (lockTail f held) = (lockTail f held, (decodeBytes (lockedBytes f held)).toList) := by
      rw [Mealy.total_append, held_complete hne ?_ hlen, hscan]
      · simp [lockedBytes]
      · simp only [List.length_take, Vector.length_toList]
        omega
    conv_lhs => rw [← List.take_append_drop (packetLen - (lockTail f held).length) f.bytes.toList]
    rw [hrest, hsplit]

/-- `n` times the frame. -/
def Frame.repeated (f : Frame) (n : ℕ) : List UInt8 := (List.replicate n f.bytes.toList).flatten

theorem Frame.repeated_succ (f : Frame) (n : ℕ) :
    f.repeated (n + 1) = f.bytes.toList ++ f.repeated n := by
  simp [repeated, List.replicate_succ]

theorem held_repeated (f : Frame) {held : List UInt8} (h : held.length < packetLen) (n : ℕ) :
    Mealy.total heldStep (f.repeated n) (lockTail f held) =
      (lockTail f held,
        (List.replicate n (decodeBytes (lockedBytes f held)).toList).flatten) := by
  induction n with
  | zero => rfl
  | succ n ih =>
    rw [f.repeated_succ, Mealy.total_append, held_locked f h, ih, List.replicate_succ,
      List.flatten_cons]

/-- After two frames `f` read from `s`, only the time of `f` is handed to `set_clock`, however often
`f` is repeated. -/
def Synchronises (f : Frame) (s : Framer) : Prop :=
  ∀ n, ∃ s₂ early s₃ late, framer.run (f.repeated 2) s = some (s₂, early) ∧
    framer.run (f.repeated n) s₂ = some (s₃, late) ∧ ∀ v ∈ late, v = (f.minutes, f.seconds)

theorem synchronises_iff (f : Frame) {s : Framer} (hs : s.InRange) :
    Synchronises f s ↔
      ∀ v, decodeBytes (lockedBytes f s.held) = some v → v = (f.minutes, f.seconds) := by
  have hlen : s.held.length < packetLen := by
    rw [Framer.held_length hs]
    exact hs.bufIdx
  obtain ⟨s₂, htwo, hs₂, hheld⟩ := framer_simulates.run (f.repeated 2) hs
  -- after two frames the loop is locked
  have htwice : f.repeated 2 = f.bytes.toList ++ f.repeated 1 := f.repeated_succ 1
  rw [htwice, Mealy.total_append, held_lock f hlen, held_repeated f hlen] at hheld
  have hmore : ∀ n, ∃ s₃, framer.run (f.repeated n) s₂ =
      some (s₃, (List.replicate n (decodeBytes (lockedBytes f s.held)).toList).flatten) := by
    intro n
    obtain ⟨s₃, hrun, -, -⟩ := framer_simulates.run (f.repeated n) hs₂
    rw [hheld, held_repeated f hlen] at hrun
    exact ⟨s₃, hrun⟩
  constructor
  · intro h v hv
    obtain ⟨s₂', early, s₃, late, htwo', hone, hlate⟩ := h 1
    rw [htwo] at htwo'
    cases htwo'
    obtain ⟨s₃', hone'⟩ := hmore 1
    rw [hone'] at hone
    cases hone
    exact hlate v (by simp [hv])
  · intro h n
    obtain ⟨s₃, hrun⟩ := hmore n
    refine ⟨s₂, _, s₃, _, htwo, hrun, fun v hv => h v ?_⟩
    obtain ⟨out, hout, hmem⟩ := List.mem_flatten.1 hv
    rw [List.eq_of_mem_replicate hout] at hmem
    exact Option.mem_toList.1 hmem

/-- **When a repeated frame is shown right.** Whatever was read before, the time of the repeated
frame is the only one handed out after two frames iff the six bytes that the framing locks onto,
the frame rotated to the SOF byte it was entered at, are no valid frame or show the same time. -/
theorem repeated_frame_iff (past : List Read) :
    ∃ s out, readLoop.run past Framer.init = some (s, out) ∧ ∀ f : Frame,
      (Synchronises f s ↔ decodeBytes (lockedBytes f s.held) = none ∨
        decodeBytes (lockedBytes f s.held) = some (f.minutes, f.seconds)) := by
  obtain ⟨s, out, hpast, hs, -⟩ := readLoop_sound past Framer.init_inRange
  refine ⟨s, out, hpast, fun f => ?_⟩
  rw [synchronises_iff f hs]
  cases decodeBytes (lockedBytes f s.held) with
  | none => simp
  | some v => simp

/-- Power-on in the middle of such a frame, after noise, shows `30:00` for ever. -/
theorem repeated_frame_misread :
    ∃ s out, readLoop.run [.ok (List.replicate 27 1 ++ [0x60, 0, 7, 30, 0])] Framer.init =
        some (s, out) ∧
      sofChecksumFrame.valid = true ∧ ¬ Synchronises sofChecksumFrame s := by
  refine ⟨⟨#v[0x60, 0, 7, 30, 0, 0], 5, .replicate _ 1, 11⟩, [], by decide, by decide, ?_⟩
  rw [synchronises_iff _ ⟨by decide, by decide⟩]
  intro h
  have := h (30, 0) (by decide)
  exact absurd this (by decide)

end ScoreboardCtrl
