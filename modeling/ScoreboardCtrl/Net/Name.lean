import ScoreboardCtrl.Lib.Dns
import ScoreboardCtrl.Lib.Rust

/-!
# Names in DNS packets

`skip_name` (`src/net_proto.rs`) walks over a name in place, `qname_matches` (`src/net_services.rs`)
compares a name with labels and follows pointers on the way, for eight hops.

* `skipName_returns` — `skipName` returns on every slice, and finds `e` exactly when `Skips`;
* `qnameMatches_returns` — `qnameMatches` returns on every slice, and says yes exactly when the
  labels are spelt (`Spells`) within eight hops.

`skip_name` takes a label of up to 191 bytes, so `Skips` is wider than `InPlace`; `Spells` allows no
pointer before the root, so it is narrower than `NameAt`.
-/

namespace ScoreboardCtrl.Net

open Lib (Rust)
open Lib.Dns

/-! ### `skip_name` -/

def skipRound (q : Bytes) (i : ℕ) : Rust (ℕ ⊕ Option ℕ) :=
  if q.length ≤ i then pure (.inr none)
  else do
    let len := (← Rust.index q i).toNat
    if len = 0 then return .inr (some (← Rust.add i 1))
    else if len &&& 0xC0 = 0xC0 then
      if (← Rust.add i 1) < q.length then return .inr (some (← Rust.add i 2))
      else return .inr none
    else
      match Rust.checkedAdd i (← Rust.add 1 len) with
      | none => return .inr none
      | some i => if q.length < i then return .inr none else return .inl i

def skipName (q : Bytes) (i : ℕ) : Rust (Option ℕ) := Rust.loop (skipRound q) (q.length + 1) i

/-- From `i` on `q` has labels of up to 191 bytes, and a root or a pointer that ends before `e`. -/
inductive Skips (q : Bytes) : ℕ → ℕ → Prop
  | root {i : ℕ} : q[i]? = some 0 → Skips q i (i + 1)
  | pointer {i : ℕ} {b : UInt8} : q[i]? = some b → 192 ≤ b.toNat → i + 1 < q.length →
      Skips q i (i + 2)
  | label {i e : ℕ} {b : UInt8} : q[i]? = some b → 1 ≤ b.toNat → b.toNat < 192 →
      i + 1 + b.toNat ≤ q.length → Skips q (i + 1 + b.toNat) e → Skips q i e

/-! ### `qname_matches` -/

def toAsciiLowercase (b : UInt8) : UInt8 := if 65 ≤ b ∧ b ≤ 90 then b + 32 else b

def eqIgnoreAsciiCase (x y : UInt8) : Bool := toAsciiLowercase x == toAsciiLowercase y

def eqLabel (a b : Bytes) : Bool :=
  a.length == b.length && (a.zip b).all fun (x, y) => eqIgnoreAsciiCase x y

/-- The locals of `qname_matches`; `hops` is a `u8`. -/
structure Walk where
  hops : ℕ
  i : ℕ
  deriving DecidableEq, Repr

/-- The inner `loop`; it leaves with `none` where the source returns `false`. -/
def matchRound (q lab : Bytes) (w : Walk) : Rust (Walk ⊕ Option Walk) :=
  let hops := min (w.hops + 1) 255
  if 8 < hops ∨ q.length ≤ w.i then pure (.inr none)
  else do
    let len := (← Rust.index q w.i).toNat
    if len &&& 0xC0 = 0xC0 then
      let next ← Rust.add w.i 1
      if q.length ≤ next then return .inr none
      else
        let c ← Rust.index q next
        return .inl ⟨hops, (len &&& 0x3F) <<< 8 ||| c.toNat⟩
    else if len = 0 ∨ len ≠ lab.length then return .inr none
    else
      let next ← Rust.add w.i 1
      let stop ← Rust.add next len
      if q.length < stop then return .inr none
      else if eqLabel (← Rust.slice q next stop) lab then
        return .inr (some ⟨hops, ← Rust.add w.i (← Rust.add 1 len)⟩)
      else return .inr none

/-- The `for` over the labels, and the test for the root after it. -/
def matchLabels (q : Bytes) : List Bytes → Walk → Rust Bool
  | [], w => if w.i < q.length then return (← Rust.index q w.i) == 0 else pure false
  | lab :: labels, w => do
    match ← Rust.loop (matchRound q lab) 256 w with
    | none => return false
    | some w => matchLabels q labels w

def qnameMatches (q : Bytes) (i : ℕ) (labels : List Bytes) : Rust Bool := matchLabels q labels ⟨0, i⟩

/-- At `i` the name `labels` is spelt up to ASCII case, over `k` labels and pointers and with no
pointer before the root. -/
inductive Spells (q : Bytes) : ℕ → ℕ → Name → Prop
  | root {i : ℕ} : q[i]? = some 0 → Spells q i 0 []
  | label {i k : ℕ} {l lab : Bytes} {labels : Name} : LabelAt q i l → eqLabel l lab = true →
      Spells q (i + 1 + l.length) k labels → Spells q i (k + 1) (lab :: labels)
  | pointer {i k t : ℕ} {labels : Name} : labels ≠ [] → PointerAt q i t → Spells q t k labels →
      Spells q i (k + 1) labels

/-! ### Bits of a length byte -/

theorem pointer_bits {n : ℕ} (h : n < 256) : n &&& 0xC0 = 0xC0 ↔ 192 ≤ n := by
  have hall : ∀ m : Fin 256, m.val &&& 0xC0 = 0xC0 ↔ 192 ≤ m.val := by decide +kernel
  exact hall ⟨n, h⟩

theorem pointer_target {n c : ℕ} (h : 192 ≤ n) (hn : n < 256) (hc : c < 256) :
    (n &&& 0x3F) <<< 8 ||| c = (n - 192) * 256 + c := by
  have hand : n &&& 0x3F = n - 192 := by
    rw [Nat.and_two_pow_sub_one_eq_mod n 6]
    omega
  rw [hand, ← Nat.shiftLeft_add_eq_or_of_lt (show c < 2 ^ 8 from hc), Nat.shiftLeft_eq]

/-! ### What `skip_name` finds -/

theorem skips_iff {q : Bytes} {i e : ℕ} {b : UInt8} (hb : q[i]? = some b) :
    Skips q i e ↔ (b.toNat = 0 ∧ e = i + 1) ∨ (192 ≤ b.toNat ∧ i + 1 < q.length ∧ e = i + 2) ∨
      (1 ≤ b.toNat ∧ b.toNat < 192 ∧ i + 1 + b.toNat ≤ q.length ∧ Skips q (i + 1 + b.toNat) e) := by
  constructor
  · intro h
    cases h with
    | root h0 =>
      obtain rfl := Option.some.inj (hb.symm.trans h0)
      exact .inl ⟨rfl, rfl⟩
    | pointer h0 h192 hlt =>
      obtain rfl := Option.some.inj (hb.symm.trans h0)
      exact .inr (.inl ⟨h192, hlt, rfl⟩)
    | label h0 h1 h192 hle hrest =>
      obtain rfl := Option.some.inj (hb.symm.trans h0)
      exact .inr (.inr ⟨h1, h192, hle, hrest⟩)
  · rintro (⟨h0, rfl⟩ | ⟨h192, hlt, rfl⟩ | ⟨h1, h192, hle, hrest⟩)
    · exact .root (hb.trans (congrArg some (UInt8.toNat_inj.1 h0)))
    · exact .pointer hb h192 hlt
    · exact .label hb h1 h192 hle hrest

theorem not_skips {q : Bytes} {i e : ℕ} (h : q.length ≤ i) : ¬ Skips q i e := by
  have hnone : q[i]? = none := List.getElem?_eq_none h
  rintro (h0 | ⟨h0, -, -⟩ | ⟨h0, -, -, -, -⟩) <;> cases hnone.symm.trans h0

theorem Skips.bounds {q : Bytes} {i e : ℕ} (h : Skips q i e) : i < e ∧ e ≤ q.length := by
  induction h with
  | root hb =>
    have := (List.getElem?_eq_some_iff.1 hb).1
    omega
  | pointer _ _ hlt => omega
  | label _ _ _ hle _ ih => omega

/-- A name encoded in place is one that `skip_name` walks over. -/
theorem Skips.of_inPlace {q : Bytes} {i e : ℕ} (h : InPlace q i e) : Skips q i e := by
  induction h with
  | root hb => exact .root hb
  | @label i e l hl _ ih =>
    have hnat := toNat_length hl.le
    have hpos := hl.pos
    have hle := hl.le
    refine .label hl.head (by omega) (by omega) ?_ ?_
    · rw [hnat]
      exact hl.le_length
    · rw [hnat]
      exact ih
  | pointer hp =>
    obtain ⟨b, c, hb, h192, hc, -⟩ := hp
    exact .pointer hb h192 (List.getElem?_eq_some_iff.1 hc).1

theorem Skips.lt_length {q : Bytes} {i e : ℕ} (h : Skips q i e) : i < q.length := by
  by_contra hi
  exact not_skips (by omega) h

/-- Only the bytes of the name decide where it ends. -/
theorem Skips.congr {q q' : Bytes} {i e : ℕ} (h : Skips q i e)
    (hsame : ∀ j, i ≤ j → j < e → q'[j]? = q[j]?) : Skips q' i e := by
  induction h with
  | root hb =>
    refine .root ?_
    rw [hsame _ (Nat.le_refl _) (by omega), hb]
  | @pointer i b hb h192 hlt =>
    refine .pointer (b := b) ?_ h192 ?_
    · rw [hsame _ (Nat.le_refl _) (by omega), hb]
    · have hnext := hsame (i + 1) (by omega) (by omega)
      rw [List.getElem?_eq_getElem hlt] at hnext
      exact (List.getElem?_eq_some_iff.1 hnext).1
  | @label i e b hb h1 h192 hle hrest ih =>
    have hbounds := hrest.bounds
    have hnext := hsame (i + 1 + b.toNat) (by omega) (by omega)
    rw [List.getElem?_eq_getElem hrest.lt_length] at hnext
    refine .label (b := b) ?_ h1 h192 (Nat.le_of_lt (List.getElem?_eq_some_iff.1 hnext).1) ?_
    · rw [hsame _ (Nat.le_refl _) (by omega), hb]
    · exact ih fun j hj hje => hsame j (by omega) hje

/-- **`skip_name` returns**, and finds the end of the name in place if there is one. -/
theorem skipName_returns {q : Bytes} (hq : Rust.Sized q) (i : ℕ) :
    (skipName q i).Returns fun r => ∀ e, r = some e ↔ Skips q i e := by
  have hsize : q.length < 2 ^ 31 := hq
  refine Rust.Returns.loop (I := fun _ => True) (μ := fun i => q.length - i)
    (Q := fun i r => ∀ e, r = some e ↔ Skips q i e) (fun i _ => ?_) trivial (by omega)
  unfold skipRound
  by_cases hi : q.length ≤ i
  · rw [if_pos hi]
    exact .pure fun e => by simp [not_skips hi]
  rw [if_neg hi]
  refine .bind (.index (by omega)) ?_
  intro b hb
  have hlt := b.toNat_lt
  dsimp only
  by_cases h0 : b.toNat = 0
  · rw [if_pos h0]
    refine .bind (.add (by omega)) fun c hc => .pure ?_
    intro e
    rw [skips_iff hb]
    constructor
    · intro h
      cases h
      exact .inl ⟨h0, hc⟩
    · rintro (⟨-, rfl⟩ | ⟨h192, -⟩ | ⟨h1, -⟩)
      · rw [hc]
      all_goals omega
  rw [if_neg h0]
  by_cases h192 : 192 ≤ b.toNat
  · rw [if_pos ((pointer_bits hlt).2 h192)]
    refine .bind (.add (by omega)) ?_
    intro c hc
    rw [hc]
    by_cases hnext : i + 1 < q.length
    · rw [if_pos hnext]
      refine .bind (.add (by omega)) fun c hc => .pure ?_
      intro e
      rw [skips_iff hb, hc, Option.some.injEq]
      omega
    · rw [if_neg hnext]
      refine .pure ?_
      intro e
      rw [skips_iff hb]
      simp
      omega
  · rw [if_neg (mt (pointer_bits hlt).1 h192)]
    refine .bind (.add (by omega)) ?_
    intro c hc
    rw [hc, Rust.checkedAdd_some (by omega), ← Nat.add_assoc]
    dsimp only
    by_cases hend : q.length < i + 1 + b.toNat
    · rw [if_pos hend]
      refine .pure ?_
      intro e
      rw [skips_iff hb]
      simp
      omega
    · rw [if_neg hend]
      refine .pure ⟨trivial, by omega, fun r hr e => ?_⟩
      rw [hr e, skips_iff hb]
      constructor
      · exact fun h => .inr (.inr ⟨by omega, by omega, by omega, h⟩)
      · rintro (⟨h, -⟩ | ⟨h, -⟩ | ⟨-, -, -, h⟩)
        · omega
        · omega
        · exact h

theorem skipName_iff {q : Bytes} (hq : Rust.Sized q) {i e : ℕ} :
    skipName q i = .ok (some e) ↔ Skips q i e := by
  obtain ⟨r, hr, hiff⟩ := skipName_returns hq i
  rw [hr, Except.ok.injEq]
  exact hiff e

/-! ### What `qname_matches` finds -/

theorem eqLabel_length {a b : Bytes} (h : eqLabel a b = true) : a.length = b.length := by
  rw [eqLabel, Bool.and_eq_true, beq_iff_eq] at h
  exact h.1

namespace Spells

variable {q lab : Bytes} {i k : ℕ} {labels : Name} {b : UInt8}

theorem lt_length (h : Spells q i k labels) : i < q.length := by
  cases h with
  | root hb => exact (List.getElem?_eq_some_iff.1 hb).1
  | label hl => exact (List.getElem?_eq_some_iff.1 hl.head).1
  | pointer _ hp =>
    obtain ⟨b, c, hb, -⟩ := hp
    exact (List.getElem?_eq_some_iff.1 hb).1

theorem pos (h : Spells q i k (lab :: labels)) : 1 ≤ k := by
  cases h with
  | label => omega
  | pointer => omega

theorem of_pointer (h : Spells q i k (lab :: labels)) (hb : q[i]? = some b) (h192 : 192 ≤ b.toNat) :
    ∃ c k', q[i + 1]? = some c ∧ k = k' + 1 ∧
      Spells q ((b.toNat - 192) * 256 + c.toNat) k' (lab :: labels) := by
  cases h with
  | label hl =>
    have := hl.toNat_head hb
    have := hl.le
    omega
  | @pointer _ k' _ _ _ hp hrest =>
    obtain ⟨b', c, hb', -, hc, rfl⟩ := hp
    obtain rfl := Option.some.inj (hb.symm.trans hb')
    exact ⟨c, k', hc, rfl, hrest⟩

theorem of_label (h : Spells q i k (lab :: labels)) (hb : q[i]? = some b) (h192 : b.toNat < 192) :
    ∃ l k', LabelAt q i l ∧ b.toNat = l.length ∧ eqLabel l lab = true ∧ k = k' + 1 ∧
      Spells q (i + 1 + l.length) k' labels := by
  cases h with
  | @label _ k' l _ _ hl heq hrest => exact ⟨l, k', hl, hl.toNat_head hb, heq, rfl, hrest⟩
  | pointer _ hp =>
    obtain ⟨b', c, hb', h', -⟩ := hp
    obtain rfl := Option.some.inj (hb.symm.trans hb')
    omega

end Spells

/-- The labels are spelt from here, within the hops that are left. -/
def Within (q : Bytes) (labels : Name) (w : Walk) : Prop :=
  ∃ k, Spells q w.i k labels ∧ w.hops + k ≤ 8

theorem within_pointer_iff {q lab : Bytes} {labels : Name} {hops i : ℕ} {b : UInt8}
    (hb : q[i]? = some b) (h192 : 192 ≤ b.toNat) :
    Within q (lab :: labels) ⟨hops, i⟩ ↔ ∃ c, q[i + 1]? = some c ∧
      Within q (lab :: labels) ⟨hops + 1, (b.toNat - 192) * 256 + c.toNat⟩ := by
  constructor
  · rintro ⟨k, hk, h8⟩
    obtain ⟨c, k', hc, rfl, hk'⟩ := hk.of_pointer hb h192
    exact ⟨c, hc, k', hk', by dsimp only at h8 ⊢; omega⟩
  · rintro ⟨c, hc, k, hk, h8⟩
    exact ⟨k + 1, .pointer (by simp) ⟨b, c, hb, h192, hc, rfl⟩ hk, by dsimp only at h8 ⊢; omega⟩

theorem within_label_iff {q lab : Bytes} {labels : Name} {hops i : ℕ} {b : UInt8}
    (hb : q[i]? = some b) (h192 : b.toNat < 192) :
    Within q (lab :: labels) ⟨hops, i⟩ ↔ ∃ l, LabelAt q i l ∧ b.toNat = l.length ∧
      eqLabel l lab = true ∧ Within q labels ⟨hops + 1, i + 1 + l.length⟩ := by
  constructor
  · rintro ⟨k, hk, h8⟩
    obtain ⟨l, k', hl, hbl, heq, rfl, hk'⟩ := hk.of_label hb h192
    exact ⟨l, hl, hbl, heq, k', hk', by dsimp only at h8 ⊢; omega⟩
  · rintro ⟨l, hl, -, heq, k, hk, h8⟩
    exact ⟨k + 1, .label hl heq hk, by dsimp only at h8 ⊢; omega⟩

/-- What a round of the inner loop says of the names that start with `lab`. -/
def RoundSays (q lab : Bytes) (w : Walk) : Walk ⊕ Option Walk → Prop
  | .inl w' => w'.hops = w.hops + 1 ∧ w'.hops ≤ 8 ∧
      ∀ labels, Within q (lab :: labels) w ↔ Within q (lab :: labels) w'
  | .inr r => (∀ w', r = some w' → w'.hops ≤ 8) ∧
      ∀ labels, Within q (lab :: labels) w ↔ ∃ w', r = some w' ∧ Within q labels w'

theorem roundSays_none {q lab : Bytes} {w : Walk} (h : ∀ labels, ¬ Within q (lab :: labels) w) :
    RoundSays q lab w (.inr none) := by
  refine ⟨by rintro w' ⟨⟩, fun labels => ⟨fun hin => absurd hin (h labels), ?_⟩⟩
  rintro ⟨w', ⟨⟩, -⟩

theorem labelAt_slice {q l : Bytes} {i : ℕ} {b : UInt8} (hb : q[i]? = some b) (h1 : 1 ≤ b.toNat)
    (h63 : b.toNat ≤ 63) (hle : i + 1 + b.toNat ≤ q.length)
    (hl : l = cut q (i + 1) (i + 1 + b.toNat)) : LabelAt q i l ∧ l.length = b.toNat := by
  have hlen : l.length = b.toNat := by
    rw [hl, length_cut hle]
    omega
  refine ⟨⟨by omega, by omega, ?_, ?_⟩, hlen⟩
  · rw [hb, hlen, UInt8.ofNat_toNat]
  · rw [hlen, ← hl]

theorem matchRound_returns {q lab : Bytes} (hq : Rust.Sized q) (hlab : lab.length ≤ 63) {w : Walk}
    (hw : w.hops ≤ 8) : (matchRound q lab w).Returns (RoundSays q lab w) := by
  have hsize : q.length < 2 ^ 31 := hq
  obtain ⟨hops, i⟩ := w
  have hle : hops ≤ 8 := hw
  have hmin : min (hops + 1) 255 = hops + 1 := by omega
  simp only [matchRound, hmin]
  by_cases hstop : 8 < hops + 1 ∨ q.length ≤ i
  · rw [if_pos hstop]
    refine .pure (roundSays_none ?_)
    rintro labels ⟨k, hk, h8⟩
    have hpos := hk.pos
    have hlt := hk.lt_length
    dsimp only at h8 hlt
    omega
  rw [if_neg hstop]
  refine .bind (.index (by omega)) ?_
  intro b hb
  have hlt := b.toNat_lt
  by_cases h192 : 192 ≤ b.toNat
  · -- a pointer
    rw [if_pos ((pointer_bits hlt).2 h192)]
    refine .bind (.add (by omega)) ?_
    intro next hnext
    rw [hnext]
    by_cases hend : q.length ≤ i + 1
    · rw [if_pos hend]
      refine .pure (roundSays_none fun labels hin => ?_)
      obtain ⟨c, hc, -⟩ := (within_pointer_iff hb h192).1 hin
      have hlt' : i + 1 < q.length := (List.getElem?_eq_some_iff.1 hc).1
      omega
    · rw [if_neg hend]
      refine .bind (.index (by omega)) ?_
      intro c hc
      rw [pointer_target h192 hlt c.toNat_lt]
      refine .pure ⟨rfl, by dsimp only; omega, fun labels => ?_⟩
      rw [within_pointer_iff hb h192]
      constructor
      · rintro ⟨c', hc', hin⟩
        obtain rfl := Option.some.inj (hc.symm.trans hc')
        exact hin
      · exact fun hin => ⟨c, hc, hin⟩
  · -- a label
    rw [if_neg (mt (pointer_bits hlt).1 h192)]
    have hlabel (labels : Name) : Within q (lab :: labels) ⟨hops, i⟩ ↔ _ :=
      within_label_iff hb (Nat.lt_of_not_le h192)
    by_cases hlen : b.toNat = 0 ∨ b.toNat ≠ lab.length
    · rw [if_pos hlen]
      refine .pure (roundSays_none fun labels hin => ?_)
      obtain ⟨l, hl, hbl, heq, -⟩ := (hlabel labels).1 hin
      have := eqLabel_length heq
      have := hl.pos
      omega
    rw [if_neg hlen]
    refine .bind (.add (by omega)) ?_
    intro next hnext
    rw [hnext]
    refine .bind (.add (by omega)) ?_
    intro stop hstop'
    rw [hstop']
    by_cases hend : q.length < i + 1 + b.toNat
    · rw [if_pos hend]
      refine .pure (roundSays_none fun labels hin => ?_)
      obtain ⟨l, hl, hbl, -⟩ := (hlabel labels).1 hin
      have hle' : i + 1 + l.length ≤ q.length := hl.le_length
      omega
    rw [if_neg hend]
    refine .bind (.slice (by omega) (by omega)) ?_
    intro l hl
    obtain ⟨hat, hlength⟩ := labelAt_slice hb (by omega) (by omega) (by omega) hl
    by_cases heq : eqLabel l lab = true
    · rw [if_pos heq]
      refine .bind (.add (by omega)) ?_
      intro d hd
      rw [hd]
      refine .bind (.add (by omega)) ?_
      intro d hd
      rw [hd, ← hlength, ← Nat.add_assoc]
      refine .pure ⟨?_, fun labels => ?_⟩
      · rintro w' ⟨⟩
        dsimp only
        omega
      · rw [hlabel labels]
        constructor
        · rintro ⟨l', hl', -, -, hin⟩
          obtain rfl := hat.unique hl'
          exact ⟨_, rfl, hin⟩
        · rintro ⟨w', ⟨⟩, hin⟩
          exact ⟨l, hat, hlength.symm, heq, hin⟩
    · rw [if_neg heq]
      refine .pure (roundSays_none fun labels hin => ?_)
      obtain ⟨l', hl', -, heq', -⟩ := (hlabel labels).1 hin
      rw [hat.unique hl'] at heq
      exact heq heq'

/-- The inner loop of `qname_matches` takes the first label off what is to be spelt. -/
theorem matchLabel_returns {q lab : Bytes} (hq : Rust.Sized q) (hlab : lab.length ≤ 63) {w : Walk}
    (hw : w.hops ≤ 8) :
    (Rust.loop (matchRound q lab) 256 w).Returns fun r =>
      (∀ w', r = some w' → w'.hops ≤ 8) ∧
      ∀ labels, Within q (lab :: labels) w ↔ ∃ w', r = some w' ∧ Within q labels w' := by
  refine Rust.Returns.loop (I := fun w => w.hops ≤ 8) (μ := fun w => 8 - w.hops)
    (Q := fun w r => (∀ w', r = some w' → w'.hops ≤ 8) ∧
      ∀ labels, Within q (lab :: labels) w ↔ ∃ w', r = some w' ∧ Within q labels w')
    (fun w hw => (matchRound_returns hq hlab hw).mono fun x hx => ?_) hw
    (show 8 - w.hops < 256 by omega)
  cases x with
  | inl w' =>
    obtain ⟨hhops, h8, hiff⟩ := hx
    exact ⟨h8, by omega, fun r hr => ⟨hr.1, fun labels => (hiff labels).trans (hr.2 labels)⟩⟩
  | inr r => exact hx

/-- **`qname_matches` returns**, and says whether the labels are spelt within eight hops. -/
theorem qnameMatches_returns {q : Bytes} (hq : Rust.Sized q) (i : ℕ) {labels : Name}
    (hlabels : ∀ l ∈ labels, l.length ≤ 63) :
    (qnameMatches q i labels).Returns fun r => r = true ↔ ∃ k ≤ 8, Spells q i k labels := by
  have hwalk : ∀ w : Walk, w.hops ≤ 8 →
      (matchLabels q labels w).Returns fun r => r = true ↔ Within q labels w := by
    induction labels with
    | nil =>
      intro w hw
      unfold matchLabels
      by_cases hi : w.i < q.length
      · rw [if_pos hi]
        refine .bind (.index hi) fun b hb => .pure ?_
        rw [beq_iff_eq]
        constructor
        · rintro rfl
          exact ⟨0, .root hb, hw⟩
        · rintro ⟨k, hk, -⟩
          cases hk with
          | root h0 => exact Option.some.inj (hb.symm.trans h0)
          | pointer hne => exact absurd rfl hne
      · rw [if_neg hi]
        refine .pure ⟨by simp, ?_⟩
        rintro ⟨k, hk, -⟩
        exact absurd hk.lt_length hi
    | cons lab labels ih =>
      intro w hw
      obtain ⟨hlab, hrest⟩ := List.forall_mem_cons.1 hlabels
      unfold matchLabels
      refine .bind (matchLabel_returns hq hlab hw) ?_
      intro r hr
      obtain ⟨h8, hiff⟩ := hr
      cases r with
      | none =>
        refine .pure ⟨by simp, fun h => ?_⟩
        obtain ⟨w', ⟨⟩, -⟩ := (hiff labels).1 h
      | some w' =>
        refine (ih hrest w' (h8 w' rfl)).mono ?_
        intro b hb
        rw [hb, hiff labels]
        exact ⟨fun h => ⟨w', rfl, h⟩, by rintro ⟨_, ⟨⟩, h⟩; exact h⟩
  refine (hwalk ⟨0, i⟩ (by simp)).mono fun r hr => hr.trans ?_
  constructor
  · rintro ⟨k, hk, h8⟩
    exact ⟨k, by simpa using h8, hk⟩
  · rintro ⟨k, h8, hk⟩
    exact ⟨k, hk, by simpa using h8⟩

end ScoreboardCtrl.Net
