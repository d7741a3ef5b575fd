import ScoreboardCtrl.Lib.SelfDelimiting
import ScoreboardCtrl.Net.Name

/-!
# What `skip_name` accepts

The names that `skip_name` (`src/net_proto.rs`) walks over, as bytes (`SkippedName`).

* `skips_iff_encode` — it stops behind such a name, and nowhere else;
* `skippedName_unique` — no two of them start the same bytes;
* `skip_name_exact` — `skip_name` returns, finds the end of the name, and does not look behind it.
-/

namespace ScoreboardCtrl.Net

open Lib (Rust SelfDelimiting NoneStarts)
open Lib.Dns

/-- A label as `skip_name` takes it: at most one of the top bits of its length is set. -/
structure SkippedLabel where
  len : UInt8
  data : Bytes
  ne_zero : len ≠ 0
  not_pointer : len.toNat &&& 0xC0 ≠ 0xC0
  complete : data.length = len.toNat

/-- The root, or a pointer. -/
inductive NameEnd where
  | root
  | pointer (b c : UInt8) (bits : b.toNat &&& 0xC0 = 0xC0)

/-- Complete labels, ended by a zero byte or by a pointer of two bytes. -/
structure SkippedName where
  labels : List SkippedLabel
  stop : NameEnd

def SkippedLabel.encode (l : SkippedLabel) : Bytes := l.len :: l.data

def NameEnd.encode : NameEnd → Bytes
  | .root => [0]
  | .pointer b c _ => [b, c]

def SkippedName.encode (name : SkippedName) : Bytes :=
  name.labels.flatMap SkippedLabel.encode ++ name.stop.encode

/-! ### One name only -/

theorem SkippedLabel.length_encode (l : SkippedLabel) : l.encode.length = 1 + l.len.toNat := by
  rw [SkippedLabel.encode, List.length_cons, l.complete, Nat.add_comm]

theorem SkippedLabel.selfDelimiting : SelfDelimiting SkippedLabel.encode := by
  intro x y r s h
  obtain ⟨len, data, h0, hbits, hcomplete⟩ := x
  obtain ⟨len', data', h0', hbits', hcomplete'⟩ := y
  obtain ⟨rfl, hdata⟩ : len = len' ∧ data ++ r = data' ++ s := List.cons.inj h
  obtain ⟨rfl, rfl⟩ := List.append_inj hdata (hcomplete.trans hcomplete'.symm)
  exact ⟨rfl, rfl⟩

/-- No label starts at the end of a name. -/
theorem NameEnd.noneStarts (e : NameEnd) (r : Bytes) :
    NoneStarts SkippedLabel.encode (e.encode ++ r) := by
  intro x s h
  cases e with
  | root => exact x.ne_zero (List.cons.inj h).1.symm
  | pointer b c hbits =>
    obtain ⟨rfl, -⟩ : b = x.len ∧ c :: r = x.data ++ s := List.cons.inj h
    exact x.not_pointer hbits

theorem NameEnd.encode_unique {e e' : NameEnd} {r s : Bytes}
    (h : e.encode ++ r = e'.encode ++ s) : e = e' ∧ r = s := by
  have hroot : (0 : UInt8).toNat &&& 0xC0 ≠ 0xC0 := by decide
  cases e with
  | root =>
    cases e' with
    | root => exact ⟨rfl, (List.cons.inj h).2⟩
    | pointer b c hbits =>
      obtain rfl : 0 = b := (List.cons.inj h).1
      exact absurd hbits hroot
  | pointer b c hbits =>
    cases e' with
    | root =>
      obtain rfl : b = 0 := (List.cons.inj h).1
      exact absurd hbits hroot
    | pointer b' c' hbits' =>
      obtain ⟨rfl, hrest⟩ : b = b' ∧ c :: r = c' :: s := List.cons.inj h
      obtain ⟨rfl, rfl⟩ := List.cons.inj hrest
      exact ⟨rfl, rfl⟩

/-- **At most one name starts a string.** -/
theorem skippedName_unique {name name' : SkippedName} {r s : Bytes}
    (h : name.encode ++ r = name'.encode ++ s) : name = name' ∧ r = s := by
  obtain ⟨labels, stop⟩ := name
  obtain ⟨labels', stop'⟩ := name'
  simp only [SkippedName.encode, List.append_assoc] at h
  obtain ⟨rfl, hstop⟩ :=
    SkippedLabel.selfDelimiting.unique (stop.noneStarts r) (stop'.noneStarts s) h
  obtain ⟨rfl, rfl⟩ := NameEnd.encode_unique hstop
  exact ⟨rfl, rfl⟩

/-! ### Where a name is skipped -/

theorem skips_of_drop {q rest : Bytes} {i : ℕ} {name : SkippedName}
    (h : q.drop i = name.encode ++ rest) : Skips q i (i + name.encode.length) := by
  obtain ⟨labels, stop⟩ := name
  induction labels generalizing i with
  | nil =>
    cases stop with
    | root => exact .root (getElem?_of_drop h)
    | pointer b c hbits =>
      have hnext : q[i + 1]? = some c := getElem?_of_drop (drop_of_drop (l := [b]) h)
      exact .pointer (getElem?_of_drop h) ((pointer_bits b.toNat_lt).1 hbits)
        (List.getElem?_eq_some_iff.1 hnext).1
  | cons l labels ih =>
    have hcons : (SkippedName.mk (l :: labels) stop).encode =
        l.encode ++ (SkippedName.mk labels stop).encode := Lib.flatMap_cons_append l labels _
    rw [hcons, List.append_assoc] at h
    have hrest := ih (drop_of_drop h)
    rw [l.length_encode, ← Nat.add_assoc] at hrest
    have hpos : 1 ≤ l.len.toNat := by
      have hne := mt UInt8.toNat_inj.1 l.ne_zero
      rw [UInt8.toNat_zero] at hne
      omega
    have hlt : l.len.toNat < 192 := by
      have hbits := mt (pointer_bits l.len.toNat_lt).2 l.not_pointer
      omega
    rw [hcons, List.length_append, l.length_encode, ← Nat.add_assoc, ← Nat.add_assoc]
    exact .label (getElem?_of_drop h) hpos hlt (Nat.le_of_lt hrest.lt_length) hrest

theorem Skips.exists_name {q : Bytes} {i e : ℕ} (h : Skips q i e) :
    ∃ name : SkippedName, q.drop i = name.encode ++ q.drop e := by
  induction h with
  | @root i hb =>
    refine ⟨⟨[], .root⟩, ?_⟩
    obtain ⟨hlt, hget⟩ := List.getElem?_eq_some_iff.1 hb
    rw [List.drop_eq_getElem_cons hlt, hget]
    rfl
  | @pointer i b hb h192 hlt =>
    obtain ⟨hi, hget⟩ := List.getElem?_eq_some_iff.1 hb
    refine ⟨⟨[], .pointer b q[i + 1] ((pointer_bits b.toNat_lt).2 h192)⟩, ?_⟩
    rw [List.drop_eq_getElem_cons hi, List.drop_eq_getElem_cons hlt, hget]
    rfl
  | @label i e b hb h1 h192 hle hrest ih =>
    obtain ⟨⟨labels, stop⟩, hname⟩ := ih
    obtain ⟨hi, hget⟩ := List.getElem?_eq_some_iff.1 hb
    have hzero : b ≠ 0 := by
      rintro rfl
      rw [UInt8.toNat_zero] at h1
      omega
    have hbits : b.toNat &&& 0xC0 ≠ 0xC0 := mt (pointer_bits b.toNat_lt).1 (Nat.not_le.2 h192)
    have hlen : (cut q (i + 1) (i + 1 + b.toNat)).length = b.toNat := by
      rw [length_cut hle]
      omega
    refine ⟨⟨⟨b, _, hzero, hbits, hlen⟩ :: labels, stop⟩, ?_⟩
    rw [List.drop_eq_getElem_cons hi, hget, drop_eq_cut_append q (Nat.le_add_right (i + 1) b.toNat),
      hname]
    simp [SkippedName.encode, SkippedLabel.encode]

/-- **`Skips` as bytes.** -/
theorem skips_iff_encode {q : Bytes} {i j : ℕ} :
    Skips q i j ↔ i < j ∧ j ≤ q.length ∧ ∃ name : SkippedName, cut q i j = name.encode := by
  constructor
  · intro h
    obtain ⟨hij, hj⟩ := h.bounds
    obtain ⟨name, hname⟩ := h.exists_name
    refine ⟨hij, hj, name, ?_⟩
    rw [drop_eq_cut_append q (Nat.le_of_lt hij)] at hname
    exact List.append_cancel_right hname
  · rintro ⟨hij, hj, name, hname⟩
    have hlen : (cut q i j).length = j - i := length_cut hj
    have hskips := skips_of_drop (hname ▸ drop_eq_cut_append q (Nat.le_of_lt hij))
    rw [← hname, hlen, Nat.add_sub_cancel' (Nat.le_of_lt hij)] at hskips
    exact hskips

theorem skips_take {q : Bytes} {n i j : ℕ} : Skips (q.take n) i j ↔ Skips q i j ∧ j ≤ n := by
  constructor
  · intro h
    have hbounds := h.bounds
    rw [List.length_take] at hbounds
    refine ⟨h.congr fun k _ hk => ?_, by omega⟩
    rw [List.getElem?_take_of_lt (by omega)]
  · rintro ⟨h, hj⟩
    refine h.congr ?_
    intro k _ hk
    rw [List.getElem?_take_of_lt (by omega)]

/-- **`skip_name` accepts the names in place**: it returns, with the end of the name that starts at
`i` if there is one; that name is the only one, and of the first `n` bytes the answer is the same
as long as the name ends there. -/
theorem skip_name_exact {q : Bytes} (hq : Rust.Sized q) (i : ℕ) :
    (∃ r, skipName q i = .ok r) ∧
    (∀ j, skipName q i = .ok (some j) ↔
      i < j ∧ j ≤ q.length ∧ ∃ name : SkippedName, cut q i j = name.encode) ∧
    (∀ (j j' : ℕ) (name name' : SkippedName), i < j ∧ j ≤ q.length ∧ cut q i j = name.encode →
      i < j' ∧ j' ≤ q.length ∧ cut q i j' = name'.encode → name = name' ∧ j = j') ∧
    ∀ n j, skipName (q.take n) i = .ok (some j) ↔ skipName q i = .ok (some j) ∧ j ≤ n := by
  obtain ⟨r, hr, -⟩ : (skipName q i).Returns _ := skipName_returns hq i
  refine ⟨⟨r, hr⟩, fun j => ?_, ?_, fun n j => ?_⟩
  · rw [skipName_iff hq, skips_iff_encode]
  · rintro j j' name name' ⟨hij, hj, hname⟩ ⟨hij', hj', hname'⟩
    have hsplit : name.encode ++ q.drop j = name'.encode ++ q.drop j' := by
      rw [← hname, ← hname', ← drop_eq_cut_append q (Nat.le_of_lt hij),
        ← drop_eq_cut_append q (Nat.le_of_lt hij')]
    obtain ⟨heq, hrest⟩ := skippedName_unique hsplit
    have hlen := congrArg List.length hrest
    rw [List.length_drop, List.length_drop] at hlen
    exact ⟨heq, by omega⟩
  · have htake : Rust.Sized (q.take n) := by
      have hsize : q.length < 2 ^ 31 := hq
      rw [Rust.Sized, List.length_take]
      omega
    rw [skipName_iff htake, skipName_iff hq, skips_take]

/-- The name of a question, with bytes behind it. -/
theorem skip_name_exact_question :
    skipName [2, 115, 98, 0, 0, 1, 0, 1] 0 = .ok (some 4) :=
  (((skip_name_exact (by decide) 0).2.1 4).2 ⟨by decide, by decide,
    ⟨[⟨2, [115, 98], by decide, by decide, rfl⟩], .root⟩, rfl⟩)

end ScoreboardCtrl.Net
