import ScoreboardCtrl.Net.ApLog

/-!
# The names in the network trace

What `format_qname` (`src/ap_log.rs`) writes of a name that is there: its labels with dots between them,
cut off where the buffer ends, and after ten labels and pointers. `Text` is the buffer behind what is
written; `formatRound_label` is the round that writes a label.
-/

namespace ScoreboardCtrl.Net

open Lib (Rust)
open Lib.Dns

/-- The labels, each with a dot before it. -/
def trail (ls : Name) : Bytes := ls.flatMap fun l => 46 :: l

/-- The name as it is written, with dots between its labels. -/
def dotted : Name → Bytes
  | [] => []
  | l :: ls => l ++ trail ls

/-- What is to be written behind `text`. -/
def toWrite (text : Bytes) (ls : Name) : Bytes := if text = [] then dotted ls else trail ls

/-- A label behind `text`. -/
def piece (text l : Bytes) : Bytes := if text = [] then l else 46 :: l

theorem toWrite_cons (text l : Bytes) (ls : Name) : toWrite text (l :: ls) = piece text l ++ trail ls := by
  by_cases h : text = []
  · simp [toWrite, piece, dotted, h]
  · simp [toWrite, piece, trail, h]

theorem toWrite_nil (text : Bytes) : toWrite text [] = [] := by
  by_cases h : text = []
  · simp [toWrite, dotted, h]
  · simp [toWrite, trail, h]

/-- `text`, with the dot before the next label. -/
def withDot (text : Bytes) : Bytes := if text = [] then [] else text ++ [46]

/-- `text` is written and `rest` is what is left of the buffer. -/
def Format.at (i hops : ℕ) (text rest : Bytes) : Format := ⟨i, text.length, hops, text ++ rest⟩

/-! ### Rounds -/

section Rounds

variable {pkt text rest l : Bytes} {i t hops : ℕ}

/-- After ten rounds, or where the buffer is full. -/
theorem formatRound_stop (h : 10 ≤ hops ∨ rest = []) :
    formatRound pkt (Format.at i hops text rest) = .ok (.inr (text.length, text ++ rest)) := by
  have hstop : 10 < min (hops + 1) 255 ∨ pkt.length ≤ i ∨ (text ++ rest).length ≤ text.length := by
    rcases h with h | h
    · exact .inl (by omega)
    · exact .inr (.inr (by simp [h]))
  rw [Format.at, formatRound, if_pos hstop]
  rfl

theorem formatRound_go (h : hops < 10) (hrest : rest ≠ []) {b : UInt8} (hb : pkt[i]? = some b) :
    min (hops + 1) 255 = hops + 1 ∧
      ¬ (10 < hops + 1 ∨ pkt.length ≤ i ∨ (text ++ rest).length ≤ text.length) := by
  have hlt := (List.getElem?_eq_some_iff.1 hb).1
  have hpos := List.length_pos_of_ne_nil hrest
  rw [List.length_append]
  omega

theorem formatRound_root (h : hops < 10) (hrest : rest ≠ []) (hb : pkt[i]? = some 0) :
    formatRound pkt (Format.at i hops text rest) = .ok (.inr (text.length, text ++ rest)) := by
  obtain ⟨hmin, hgo⟩ := @formatRound_go pkt text rest i hops h hrest 0 hb
  rw [Format.at]
  simp only [formatRound, hmin]
  rw [if_neg hgo, Rust.index_ok hb, Rust.ok_bind]
  rfl

theorem formatRound_pointer (hpkt : Rust.Sized pkt) (h : hops < 10) (hrest : rest ≠ [])
    (hp : PointerAt pkt i t) :
    formatRound pkt (Format.at i hops text rest) = .ok (.inl (Format.at t (hops + 1) text rest)) := by
  have hsize : pkt.length < 2 ^ 31 := hpkt
  obtain ⟨b, c, hb, h192, hc, rfl⟩ := hp
  obtain ⟨hmin, hgo⟩ := @formatRound_go pkt text rest i hops h hrest b hb
  have hnext := (List.getElem?_eq_some_iff.1 hc).1
  rw [Format.at]
  simp only [formatRound, hmin]
  rw [if_neg hgo, Rust.index_ok hb, Rust.ok_bind, if_neg (by omega),
    if_pos ((pointer_bits b.toNat_lt).2 h192), Rust.add_ok (by omega), Rust.ok_bind,
    if_neg (Nat.not_le.2 hnext), Rust.index_ok hc, Rust.ok_bind,
    pointer_target h192 b.toNat_lt c.toNat_lt, Rust.pure_eq]
  rfl

theorem putDot_text (hsize : (text ++ rest).length < 2 ^ 31) (hrest : rest ≠ []) :
    putDot text.length (text ++ rest) =
      .ok ((withDot text).length, withDot text ++ rest.drop ((withDot text).length - text.length)) := by
  cases rest with
  | nil => exact absurd rfl hrest
  | cons x rest =>
    by_cases h : text = []
    · simp [putDot, withDot, h]
    · rw [List.length_append, List.length_cons] at hsize
      have hpos := List.length_pos_of_ne_nil h
      have hset : (text ++ x :: rest).set text.length 46 = text ++ 46 :: rest := by
        rw [List.set_append_right _ _ (Nat.le_refl _), Nat.sub_self, List.set_cons_zero]
      rw [putDot, if_pos hpos, Rust.write_ok (by simp), Rust.ok_bind, Rust.add_ok (by omega), Rust.ok_bind,
        hset]
      simp [withDot, h]

theorem copyLabel {pre rest : Bytes} (hl : LabelAt pkt i l) :
    Rust.slice pkt (i + 1) (i + 1 + min l.length rest.length) = .ok (l.take rest.length) ∧
      Rust.copyFrom (pre ++ rest) pre.length (pre.length + min l.length rest.length) (l.take rest.length) =
        .ok (pre ++ l.take rest.length ++ rest.drop l.length) := by
  have hfits := hl.le_length
  generalize hn : min l.length rest.length = n
  have htake : l.take rest.length = l.take n := by
    rw [← hn, List.take_eq_take_iff]
    omega
  have hdrop : rest.drop l.length = rest.drop n := by
    rw [← hn, List.drop_eq_drop_iff]
    omega
  rw [htake, hdrop]
  have hbody : (pkt.drop (i + 1)).take l.length = l := by
    rw [← Nat.add_sub_cancel_left (i + 1) l.length, ← List.drop_take]
    exact hl.body
  constructor
  · have hcut : l.take n = (pkt.drop (i + 1)).take n := by
      calc l.take n = ((pkt.drop (i + 1)).take l.length).take n := by rw [hbody]
        _ = (pkt.drop (i + 1)).take n := by rw [List.take_take, Nat.min_eq_left (by omega)]
    rw [Rust.slice_ok (by omega) (by omega), List.drop_take, Nat.add_sub_cancel_left, hcut]
  · refine Rust.copyFrom_block pre (rest.take n) (rest.drop n) ?_ rfl ?_ ?_
    · rw [List.append_assoc, List.take_append_drop]
    · rw [List.length_take]
      omega
    · rw [List.length_take, List.length_take]
      omega

/-- **The round of a label**: the dot, and what fits of the label; where only the dot fits, that is all. -/
theorem formatRound_label (hpkt : Rust.Sized pkt) (hsize : (text ++ rest).length < 2 ^ 31) (h : hops < 10)
    (hrest : rest ≠ []) (hl : LabelAt pkt i l) :
    let text' := text ++ (piece text l).take rest.length
    let rest' := rest.drop (piece text l).length
    formatRound pkt (Format.at i hops text rest) =
      .ok (if text ≠ [] ∧ rest.length = 1 then .inr (text'.length, text' ++ rest')
        else .inl (Format.at (i + 1 + l.length) (hops + 1) text' rest')) := by
  intro text' rest'
  have hsized : pkt.length < 2 ^ 31 := hpkt
  have hfits := hl.le_length
  have hpos := hl.pos
  have hle := hl.le
  have hlen := toNat_length hl.le
  obtain ⟨hmin, hgo⟩ := @formatRound_go pkt text rest i hops h hrest _ hl.head
  have hbits : ¬ l.length &&& 0xC0 = 0xC0 := by
    rw [pointer_bits (by omega)]
    omega
  rw [Format.at]
  simp only [formatRound, hmin]
  rw [if_neg hgo, Rust.index_ok hl.head, Rust.ok_bind, hlen, if_neg (by omega), if_neg hbits,
    Rust.add_ok (by omega), Rust.ok_bind, Rust.add_ok (by omega), Rust.ok_bind,
    if_neg (Nat.not_lt.2 hfits), putDot_text hsize hrest, Rust.ok_bind]
  -- the dot is written; `room` is left for the label
  generalize hroom : rest.drop ((withDot text).length - text.length) = room
  dsimp only
  obtain ⟨hslice, hcopy⟩ := @copyLabel pkt l i (withDot text) room hl
  -- where the label begins, and what is left for it
  have hstart : text' = withDot text ++ l.take room.length ∧ rest' = room.drop l.length ∧
      ((0 < text.length ∧ (withDot text ++ room).length ≤ (withDot text).length) ↔
        text ≠ [] ∧ rest.length = 1) ∧ (withDot text ++ room).length = (text ++ rest).length := by
    cases rest with
    | nil => exact absurd rfl hrest
    | cons x rest =>
      by_cases htext : text = []
      · simp [text', rest', ← hroom, withDot, piece, htext]
      · simp [text', rest', ← hroom, withDot, piece, htext, List.length_pos_iff]
  obtain ⟨htext, hrest', hfull, hroomed⟩ := hstart
  rw [htext, hrest']
  by_cases hdot : text ≠ [] ∧ rest.length = 1
  · have hnone : room = [] := by
      have hlen := (hfull.2 hdot).2
      rw [List.length_append] at hlen
      exact List.eq_nil_of_length_eq_zero (by omega)
    rw [if_pos (hfull.2 hdot), if_pos hdot, hnone]
    simp
  · rw [← hroomed, List.length_append] at hsize
    rw [if_neg (mt hfull.1 hdot), if_neg hdot, Rust.sub_ok (by simp), Rust.ok_bind]
    have hsub : (withDot text ++ room).length - (withDot text).length = room.length := by simp
    rw [hsub, Rust.add_ok (by omega), Rust.ok_bind, hslice, Rust.ok_bind, Rust.add_ok (by omega),
      Rust.ok_bind, hcopy, Rust.ok_bind, Rust.add_ok (by omega), Rust.ok_bind, Rust.add_ok (by omega),
      Rust.ok_bind]
    simp only [Format.at, List.length_append, List.length_take, Nat.add_assoc, Nat.min_comm]
    rfl

end Rounds

/-! ### Names that are there -/

/-- `r` is written where `text` was, with `room` in the buffer, `ls` to come and `n` rounds to make. -/
structure Wrote (n room : ℕ) (text : Bytes) (ls : Name) (r : Bytes) : Prop where
  grows : text <+: r
  fits : r.length ≤ text.length + room
  reads : r <+: text ++ toWrite text ls
  whole : n ≤ 10 → r = (text ++ toWrite text ls).take (text.length + room)

section Names

variable {pkt text rest : Bytes} {i k hops bound : ℕ} {ls : Name}

/-- Nothing is written after ten rounds, or where the buffer is full. -/
theorem Wrote.stop {n room : ℕ} (h : 10 < n ∨ room = 0) : Wrote n room text ls text where
  grows := List.prefix_rfl
  fits := by omega
  reads := List.prefix_append _ _
  whole := by
    intro hn
    have hroom : room = 0 := by omega
    simp [hroom]

theorem Wrote.root {n room : ℕ} : Wrote n room text [] text where
  grows := List.prefix_rfl
  fits := by omega
  reads := List.prefix_append _ _
  whole := by
    intro _
    rw [toWrite_nil, List.append_nil, List.take_of_length_le (Nat.le_add_right _ _)]

/-- A label, and what is written behind it. -/
theorem Wrote.label {n room : ℕ} {l r : Bytes} (hl : l ≠ []) (hroom : room ≠ 0)
    (h : Wrote n (room - (piece text l).length) (text ++ (piece text l).take room) ls r) :
    Wrote n room text (l :: ls) r := by
  generalize hp : piece text l = p at h
  have hne : p ≠ [] := by
    rw [← hp, piece]
    split
    · exact hl
    · simp
  have htext : text ++ p.take room ≠ [] := by simp [hne, hroom]
  have hrest : toWrite (text ++ p.take room) ls = trail ls := if_neg htext
  have hall : toWrite text (l :: ls) = p ++ trail ls := hp ▸ toWrite_cons text l ls
  have hgrows : text <+: r := (List.prefix_append _ _).trans h.grows
  have hfits := h.fits
  rw [List.length_append, List.length_take] at hfits
  rcases Nat.lt_or_ge room p.length with hlt | hle
  · -- the buffer is full
    have hr : text ++ p.take room = r := by
      refine h.grows.eq_of_length_le ?_
      rw [List.length_append, List.length_take]
      omega
    have hcut : (text ++ toWrite text (l :: ls)).take (text.length + room) = r := by
      rw [List.take_length_add_append, hall, List.take_append_of_le_length (Nat.le_of_lt hlt), hr]
    refine ⟨hgrows, by omega, ?_, fun _ => hcut.symm⟩
    rw [← hcut]
    exact List.take_prefix _ _
  · -- all of it fits
    have htake : p.take room = p := List.take_of_length_le hle
    have hsame : text ++ p.take room ++ toWrite (text ++ p.take room) ls = text ++ toWrite text (l :: ls) := by
      rw [hrest, hall, htake, List.append_assoc]
    refine ⟨hgrows, by omega, hsame ▸ h.reads, fun hn => ?_⟩
    rw [h.whole hn, hsame, htake, List.length_append, Nat.add_assoc, Nat.add_sub_cancel' hle]

theorem drop_written (text rest p : Bytes) (n : ℕ) :
    (text ++ rest).drop ((text ++ p.take rest.length).length + n) = (rest.drop p.length).drop n := by
  have hdrop : rest.drop (min rest.length p.length + n) = rest.drop (p.length + n) := by
    rw [List.drop_eq_drop_iff]
    omega
  rw [List.length_append, List.length_take, Nat.add_assoc, List.drop_length_add_append, hdrop, List.drop_drop]

theorem formatLoop_stop (h : 10 ≤ hops ∨ rest = []) (ls : Name) (k bound : ℕ) :
    ∃ r, Rust.loop (formatRound pkt) (bound + 1) (Format.at i hops text rest) =
        .ok (r.length, r ++ (text ++ rest).drop r.length) ∧
      Wrote (hops + (k + 1)) rest.length text ls r := by
  refine ⟨text, ?_, .stop ?_⟩
  · rw [Rust.loop_inr (formatRound_stop h) bound, List.drop_left]
  · rcases h with h | h
    · exact .inl (by omega)
    · exact .inr (by simp [h])

/-- **The loop** on a name that is there. -/
theorem formatLoop_name (hpkt : Rust.Sized pkt) (h : NameAt pkt i k ls)
    (hsize : (text ++ rest).length < 2 ^ 31) (hbound : 10 - hops < bound) :
    ∃ r, Rust.loop (formatRound pkt) bound (Format.at i hops text rest) =
        .ok (r.length, r ++ (text ++ rest).drop r.length) ∧
      Wrote (hops + k) rest.length text ls r := by
  obtain ⟨bound, rfl⟩ : ∃ n, bound = n + 1 := ⟨bound - 1, by omega⟩
  induction h generalizing hops text rest bound with
  | @root i hb =>
    have hround : formatRound pkt (Format.at i hops text rest) = .ok (.inr (text.length, text ++ rest)) := by
      by_cases hstop : 10 ≤ hops ∨ rest = []
      · exact formatRound_stop hstop
      · rw [not_or] at hstop
        exact formatRound_root (by omega) hstop.2 hb
    refine ⟨text, ?_, .root⟩
    rw [Rust.loop_inr hround bound, List.drop_left]
  | @label i k l ls hl _ ih =>
    by_cases hstop : 10 ≤ hops ∨ rest = []
    · exact formatLoop_stop hstop _ _ _
    rw [not_or] at hstop
    obtain ⟨hops10, hrest⟩ := hstop
    have hne : l ≠ [] := List.ne_nil_of_length_pos hl.pos
    have hroom : rest.length ≠ 0 := by simpa using hrest
    have hround := formatRound_label hpkt hsize (Nat.lt_of_not_le hops10) hrest hl
    dsimp only at hround
    have hdrop := drop_written text rest (piece text l)
    have hmore : hops + 1 + k = hops + (k + 1) := by omega
    by_cases hdot : text ≠ [] ∧ rest.length = 1
    · -- only the dot fits
      have hpos : 1 ≤ (piece text l).length := by simp [piece, hdot.1]
      rw [if_pos hdot] at hround
      refine ⟨_, (Rust.loop_inr hround bound).trans ?_, .label hne hroom (.stop (.inr ?_))⟩
      · rw [← Nat.add_zero (List.length _), hdrop]
        rfl
      · omega
    · rw [if_neg hdot] at hround
      obtain ⟨bound, rfl⟩ : ∃ n, bound = n + 1 := ⟨bound - 1, by omega⟩
      have hsize' : (text ++ (piece text l).take rest.length ++ rest.drop (piece text l).length).length <
          2 ^ 31 := by
        simp only [List.length_append, List.length_take, List.length_drop] at hsize ⊢
        omega
      obtain ⟨r, hr, hwrote⟩ := ih hsize' bound (by omega : 10 - (hops + 1) < bound + 1)
      rw [List.length_drop, hmore] at hwrote
      refine ⟨r, ?_, hwrote.label hne hroom⟩
      obtain ⟨more, rfl⟩ := hwrote.grows
      have hlen : (text ++ (piece text l).take rest.length ++ more).length =
          (text ++ (piece text l).take rest.length).length + more.length := List.length_append
      rw [Rust.loop_inl hround, hr, hlen, hdrop, List.drop_length_add_append]
  | @pointer i k t ls hp _ ih =>
    by_cases hstop : 10 ≤ hops ∨ rest = []
    · exact formatLoop_stop hstop _ _ _
    rw [not_or] at hstop
    obtain ⟨bound, rfl⟩ : ∃ n, bound = n + 1 := ⟨bound - 1, by omega⟩
    rw [Rust.loop_inl (formatRound_pointer hpkt (by omega) hstop.2 hp), ← Nat.add_assoc,
      Nat.add_right_comm]
    exact ih hsize bound (by omega)

end Names

/-- **The trace shows the name.** Where a name is there, in place or compressed, `format_qname` writes its
labels with dots between them, or a beginning of that; all that the buffer holds of it, if there are ten
labels and pointers at most. The rest of the buffer is as it was. -/
theorem formatQname_name {pkt out : Bytes} (hpkt : Rust.Sized pkt) (hout : Rust.Sized out) {k : ℕ} {ls : Name}
    (h : NameAt pkt 12 k ls) : ∃ text, formatQname pkt out = .ok (text.length, text ++ out.drop text.length) ∧
      text.length ≤ out.length ∧ text <+: dotted ls ∧ (k ≤ 10 → text = (dotted ls).take out.length) := by
  obtain ⟨text, hloop, hwrote⟩ := @formatLoop_name pkt [] out 12 k 0 256 ls hpkt h hout (by decide)
  refine ⟨text, hloop, ?_, hwrote.reads, fun hk => ?_⟩
  · simpa using hwrote.fits
  · simpa [toWrite] using hwrote.whole (by omega)

/-- `a.sb`, its second label and the root behind a pointer. -/
def pointedQuery : Bytes :=
  [0, 7, 1, 0, 0, 1, 0, 0, 0, 0, 0, 0, 1, 97, 192, 20, 0, 1, 0, 1, 2, 115, 98, 0]

theorem formatQname_name_pointed :
    ∃ text, formatQname pointedQuery [9, 9, 9] = .ok (text.length, text ++ [9, 9, 9].drop text.length) ∧
      text.length ≤ 3 ∧ text <+: dotted [[97], [115, 98]] ∧
      (3 ≤ 10 → text = (dotted [[97], [115, 98]]).take 3) := by
  have hsecond : NameAt pointedQuery 20 1 [[115, 98]] :=
    .label ⟨by decide, by decide, rfl, rfl⟩ (.root rfl)
  have hname : NameAt pointedQuery 12 3 [[97], [115, 98]] :=
    .label ⟨by decide, by decide, rfl, rfl⟩ (.pointer ⟨192, 20, rfl, by decide, rfl, rfl⟩ hsecond)
  exact formatQname_name (by decide) (by decide) hname

end ScoreboardCtrl.Net
