import ScoreboardCtrl.Net.Hijack

/-!
# The counts of a DNS reply

* `Honest` — a message has as many questions and records as its header says, and nothing behind them;
* `reply_counts_honest_iff` — a reply is honest exactly when the query had one question: the count of
  questions is the one count that is copied.
-/

namespace ScoreboardCtrl.Net

open Lib (Rust)
open Lib.Dns

/-! ### Reading a message -/

/-- A question from `i` to `j`: a name, the type and the class. -/
def QuestionAt (q : Bytes) (i j : ℕ) : Prop := ∃ e, Skips q i e ∧ j = e + 4 ∧ j ≤ q.length

/-- A record from `i` to `j`: a name, ten bytes, and the data, whose length is in the last two of
them. -/
def RecordAt (q : Bytes) (i j : ℕ) : Prop :=
  ∃ e len, Skips q i e ∧ be16 q (e + 8) = some len ∧ j = e + 10 + len ∧ j ≤ q.length

/-- So many items one after the other. -/
inductive Times (item : ℕ → ℕ → Prop) : ℕ → ℕ → ℕ → Prop
  | none {i : ℕ} : Times item 0 i i
  | more {n i j k : ℕ} : item i j → Times item n j k → Times item (n + 1) i k

/-- Behind the header are as many questions and records as it says, and nothing more. -/
def Honest (r : Bytes) : Prop :=
  ∃ qd an ns ar i j k, be16 r 4 = some qd ∧ be16 r 6 = some an ∧ be16 r 8 = some ns ∧
    be16 r 10 = some ar ∧ Times (QuestionAt r) qd 12 i ∧ Times (RecordAt r) an i j ∧
    Times (RecordAt r) ns j k ∧ Times (RecordAt r) ar k r.length

section Times

variable {item : ℕ → ℕ → Prop} {n i k : ℕ}

@[simp] theorem times_zero_iff : Times item 0 i k ↔ i = k := by
  constructor
  · intro h
    cases h
    rfl
  · rintro rfl
    exact .none

@[simp] theorem times_succ_iff :
    Times item (n + 1) i k ↔ ∃ j, item i j ∧ Times item n j k := by
  constructor
  · intro h
    cases h with
    | more hitem hrest => exact ⟨_, hitem, hrest⟩
  · rintro ⟨j, hitem, hrest⟩
    exact .more hitem hrest

end Times

theorem Skips.unique {q : Bytes} {i e e' : ℕ} (h : Skips q i e) (h' : Skips q i e') : e = e' := by
  induction h with
  | root hb =>
    rcases (skips_iff hb).1 h' with ⟨-, he⟩ | ⟨h192, -⟩ | ⟨h1, -⟩
    · exact he.symm
    · exact absurd h192 (by decide)
    · exact absurd h1 (by decide)
  | pointer hb h192 _ =>
    rcases (skips_iff hb).1 h' with ⟨h0, -⟩ | ⟨-, -, he⟩ | ⟨-, hlt, -⟩
    · omega
    · exact he.symm
    · omega
  | label hb h1 h192 _ _ ih =>
    rcases (skips_iff hb).1 h' with ⟨h0, -⟩ | ⟨hge, -⟩ | ⟨-, -, -, hrest⟩
    · omega
    · omega
    · exact ih hrest

section Items

variable {q : Bytes} {i e j len : ℕ}

theorem questionAt_iff (h : Skips q i e) : QuestionAt q i j ↔ j = e + 4 ∧ j ≤ q.length := by
  constructor
  · rintro ⟨e', he', hj⟩
    rw [h.unique he']
    exact hj
  · intro hj
    exact ⟨e, h, hj⟩

theorem recordAt_iff (h : Skips q i e) (hlen : be16 q (e + 8) = some len) :
    RecordAt q i j ↔ j = e + 10 + len ∧ j ≤ q.length := by
  constructor
  · rintro ⟨e', len', he', hlen', hj⟩
    obtain rfl := h.unique he'
    obtain rfl := Option.some.inj (hlen.symm.trans hlen')
    exact hj
  · intro hj
    exact ⟨e, len, h, hlen, hj⟩

theorem not_questionAt (h : ∀ e, ¬ Skips q i e) : ¬ QuestionAt q i j := by
  rintro ⟨e, he, -⟩
  exact h e he

theorem not_recordAt (h : ∀ e, ¬ Skips q i e) : ¬ RecordAt q i j := by
  rintro ⟨e, -, he, -⟩
  exact h e he

end Items

/-- Where the last two counts are zero. -/
theorem honest_iff {r : Bytes} {qd an : ℕ} (hqd : be16 r 4 = some qd) (han : be16 r 6 = some an)
    (hns : be16 r 8 = some 0) (har : be16 r 10 = some 0) :
    Honest r ↔ ∃ i, Times (QuestionAt r) qd 12 i ∧ Times (RecordAt r) an i r.length := by
  constructor
  · rintro ⟨qd', an', ns, ar, i, j, k, hqd', han', hns', har', hq, ha, hn, hr⟩
    obtain rfl := Option.some.inj (hqd.symm.trans hqd')
    obtain rfl := Option.some.inj (han.symm.trans han')
    obtain rfl := Option.some.inj (hns.symm.trans hns')
    obtain rfl := Option.some.inj (har.symm.trans har')
    obtain rfl := times_zero_iff.1 hn
    obtain rfl := times_zero_iff.1 hr
    exact ⟨i, hq, ha⟩
  · rintro ⟨i, hq, ha⟩
    exact ⟨qd, an, 0, 0, i, _, _, hqd, han, hns, har, hq, ha, .none, .none⟩

/-! ### The reply -/

theorem be16_replyHeader {q : Bytes} (h : 12 ≤ q.length) (an : UInt8) (rest : Bytes) :
    be16 (replyHeader q an ++ rest) 4 = be16 q 4 ∧
      be16 (replyHeader q an ++ rest) 6 = some an.toNat ∧
      be16 (replyHeader q an ++ rest) 8 = some 0 ∧ be16 (replyHeader q an ++ rest) 10 = some 0 := by
  obtain ⟨b₀, b₁, b₂, b₃, b₄, b₅, b₆, b₇, b₈, b₉, b₁₀, b₁₁, t, rfl⟩ := exists_header h
  simp [replyHeader, cut, be16]

theorem exists_be16 {q : Bytes} {i : ℕ} (h : i + 2 ≤ q.length) : ∃ x, be16 q i = some x :=
  ⟨_, be16_some (List.getElem?_eq_getElem (by omega)) (List.getElem?_eq_getElem (by omega))⟩

theorem be16_take {q : Bytes} {i n : ℕ} (h : i + 2 ≤ n) : be16 (q.take n) i = be16 q i := by
  rw [be16, be16, List.getElem?_take_of_lt (by omega), List.getElem?_take_of_lt (by omega)]

section Reply

variable {q : Bytes} {e : ℕ}

theorem skips_reply (h : Asks q e) (an : UInt8) (tail : Bytes) :
    Skips (replyHeader q an ++ cut q 12 (e + 4) ++ tail) 12 e :=
  h.name.congr fun _ hj hje => getElem?_reply h an tail hj (by omega)

theorem length_question (h : Asks q e) (an : UInt8) :
    (replyHeader q an ++ cut q 12 (e + 4)).length = e + 4 := by
  have hlt := h.lt
  have hle := h.le
  rw [List.length_append, length_replyHeader (by omega), length_cut hle]
  omega

/-- Without an answer the reply ends with its first question. -/
theorem honest_question_iff (h : Asks q e) :
    Honest (replyHeader q 0 ++ cut q 12 (e + 4)) ↔ be16 q 4 = some 1 := by
  have hlt := h.lt
  have hle := h.le
  have hname := skips_reply h 0 []
  have hlen := length_question h 0
  obtain ⟨hqd, han, hns, har⟩ :=
    be16_replyHeader (show 12 ≤ q.length by omega) 0 (cut q 12 (e + 4))
  rw [List.append_nil] at hname
  generalize replyHeader q 0 ++ cut q 12 (e + 4) = r at *
  obtain ⟨qd, hqd'⟩ := exists_be16 (show 4 + 2 ≤ q.length by omega)
  have hend : ∀ e', ¬ Skips r (e + 4) e' := fun e' => not_skips (by omega)
  rw [hqd'] at hqd ⊢
  rw [honest_iff hqd han hns har, Option.some.injEq]
  match qd with
  | 0 =>
    have hne : ¬ 12 = r.length := by omega
    simpa using hne
  | 1 => simp [questionAt_iff hname, hlen]
  | qd + 2 => simp [questionAt_iff hname, hlen, not_questionAt hend]

/-- With an answer it ends with that record, and no other count fits the bytes. -/
theorem honest_answer_iff (h : Asks q e) :
    Honest (replyHeader q 1 ++ cut q 12 (e + 4) ++ aRecord) ↔ be16 q 4 = some 1 := by
  have hlt := h.lt
  have hle := h.le
  have hname := skips_reply h 1 aRecord
  have hpre := length_question h 1
  obtain ⟨hqd, han, hns, har⟩ :=
    be16_replyHeader (show 12 ≤ q.length by omega) 1 (cut q 12 (e + 4) ++ aRecord)
  rw [← List.append_assoc] at hqd han hns har
  have hbyte (k : ℕ) :
      (replyHeader q 1 ++ cut q 12 (e + 4) ++ aRecord)[e + 4 + k]? = aRecord[k]? := by
    have hindex := getElem?_length_add (replyHeader q 1 ++ cut q 12 (e + 4)) aRecord k
    rw [hpre] at hindex
    exact hindex
  have hlen : (replyHeader q 1 ++ cut q 12 (e + 4) ++ aRecord).length = e + 20 := by
    rw [List.length_append, hpre]
    rfl
  generalize replyHeader q 1 ++ cut q 12 (e + 4) ++ aRecord = r at *
  obtain ⟨qd, hqd'⟩ := exists_be16 (show 4 + 2 ≤ q.length by omega)
  rw [hqd'] at hqd ⊢
  rw [honest_iff hqd han hns har, Option.some.injEq, hlen]
  -- the record read from its start, from byte 6 and from byte 11
  have hrecord : Skips r (e + 4) (e + 6) := .pointer (hbyte 0) (by decide) (by omega)
  have hroot : Skips r (e + 10) (e + 11) := .root (hbyte 6)
  have hlabel : ∀ e', ¬ Skips r (e + 15) e' := by
    intro e' he'
    rcases (skips_iff (hbyte 11)).1 he' with ⟨h0, -⟩ | ⟨h192, -⟩ | ⟨-, -, -, hrest⟩
    · exact absurd h0 (by decide)
    · exact absurd h192 (by decide)
    · exact not_skips (show r.length ≤ e + 4 + 11 + 1 + 4 by omega) hrest
  match qd with
  | 0 =>
    have hshort : be16 r (e + 8) = some 1 := be16_some (hbyte 4) (hbyte 5)
    simp [recordAt_iff hname hshort]
  | 1 =>
    have hrdlength : be16 r (e + 6 + 8) = some 4 := be16_some (hbyte 10) (hbyte 11)
    simp [questionAt_iff hname, recordAt_iff hrecord hrdlength, hlen]
  | 2 =>
    have hcut : ∀ j, ¬ RecordAt r (e + 10) j := by
      rintro j ⟨e', len, he', hrdlength, -⟩
      obtain rfl := hroot.unique he'
      have hnone : r[e + 11 + 8 + 1]? = none := List.getElem?_eq_none (by omega)
      rw [be16, hnone] at hrdlength
      cases hlast : r[e + 11 + 8]? with
      | none => simp [hlast] at hrdlength
      | some b => simp [hlast] at hrdlength
    simp [questionAt_iff hname, questionAt_iff hrecord, hcut]
  | 3 =>
    simp [questionAt_iff hname, questionAt_iff hrecord, questionAt_iff hroot, not_recordAt hlabel]
  | qd + 4 =>
    simp [questionAt_iff hname, questionAt_iff hrecord, questionAt_iff hroot, not_questionAt hlabel]

end Reply

theorem replyBytes_honest_iff {q : Bytes} {e : ℕ} (h : Asks q e) (room : ℕ) :
    Honest (replyBytes q e room) ↔ be16 q 4 = some 1 := by
  unfold replyBytes
  split
  · exact honest_answer_iff h
  · exact honest_question_iff h

/-- **The counts of a reply are honest** exactly when the query says that it has one question. -/
theorem reply_counts_honest_iff {query out out' : Bytes} {n len : ℕ} (hquery : Rust.Sized query)
    (hout : Rust.Sized out) (h : buildDnsReply query n out = .ok (some len, out')) :
    Honest (out'.take len) ↔ be16 query 4 = some 1 := by
  obtain ⟨-, hreply⟩ := (buildDnsReply_returns hquery hout).post h
  obtain ⟨e, hn, hasks, -, -, htake⟩ := hreply len rfl
  have hlt := hasks.lt
  have hle := hasks.le
  rw [List.length_take] at hle
  rw [htake, replyBytes_honest_iff hasks, be16_take (by omega)]

/-- A query with two questions, for the root. -/
def twiceForRoot : Bytes := [0, 1, 1, 0, 0, 2, 0, 0, 0, 0, 0, 0, 0, 0, 1, 0, 1, 0, 0, 28, 0, 1]

/-- The reply says two questions and has one. -/
theorem second_question_is_counted :
    ∃ out', buildDnsReply twiceForRoot 22 (List.replicate 512 0) = .ok (some 33, out') ∧
      ¬ Honest (out'.take 33) := by
  have hasks : Asks twiceForRoot 13 := ⟨.root rfl, by decide⟩
  have hreply : (replyBytes twiceForRoot 13 512).length = 33 := by decide +kernel
  obtain ⟨out', hbuild, -, htake⟩ := buildDnsReply_of_asks (show Rust.Sized twiceForRoot by decide)
    (show Rust.Sized (List.replicate 512 0) by decide +kernel) (show 22 ≤ twiceForRoot.length by decide)
    hasks (by decide +kernel)
  rw [show twiceForRoot.take 22 = twiceForRoot from rfl, List.length_replicate, hreply] at hbuild htake
  refine ⟨out', hbuild, ?_⟩
  rw [htake, replyBytes_honest_iff hasks]
  decide

/-- A query with one question. -/
theorem reply_counts_honest_iff_one :
    ∃ out', buildDnsReply (twiceForRoot.set 5 1) 17 (List.replicate 512 0) = .ok (some 33, out') ∧
      Honest (out'.take 33) := by
  have hbuild : buildDnsReply (twiceForRoot.set 5 1) 17 (List.replicate 512 0) =
      .ok (some 33, replyBytes (twiceForRoot.set 5 1) 13 512 ++ List.replicate 479 0) := by
    decide +kernel
  exact ⟨_, hbuild, (reply_counts_honest_iff (by decide) (by decide +kernel) hbuild).2 (by decide)⟩

end ScoreboardCtrl.Net
