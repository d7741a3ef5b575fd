import ScoreboardCtrl.Net.Mdns

/-!
# Compressed names and `qname_matches`

`qname_matches` (`src/net_services.rs`) follows pointers before every label, and none after the last
one: there it asks for the root's byte in place.

* `Leads`, `matchLabel_eq` — what the inner loop finds behind the pointers;
* `matchLabels_eq` — on a name that is there the walk compares labels, and wants the root in place;
* `qname_matches_iff` — it says whether the two labels are the name, unless the root of that name is
  compressed.
-/

namespace ScoreboardCtrl.Net

open Lib (Rust)
open Lib.Dns

/-- Behind `p` pointers from `i` on stands the root, or a label and what comes after it. -/
inductive Leads (q : Bytes) : ℕ → ℕ → Option (Bytes × ℕ) → Prop
  | root {i : ℕ} : q[i]? = some 0 → Leads q i 0 none
  | label {i : ℕ} {l : Bytes} : LabelAt q i l → Leads q i 0 (some (l, i + 1 + l.length))
  | pointer {i p t : ℕ} {r : Option (Bytes × ℕ)} : PointerAt q i t → Leads q t p r →
      Leads q i (p + 1) r

/-- The root of the name `ls` at `i` stands behind its last label, and is not pointed to. -/
inductive EndsInPlace (q : Bytes) : ℕ → Name → Prop
  | root {i : ℕ} : q[i]? = some 0 → EndsInPlace q i []
  | label {i : ℕ} {l : Bytes} {ls : Name} : LabelAt q i l →
      EndsInPlace q (i + 1 + l.length) ls → EndsInPlace q i (l :: ls)
  | pointer {i t : ℕ} {l : Bytes} {ls : Name} : PointerAt q i t → EndsInPlace q t (l :: ls) →
      EndsInPlace q i (l :: ls)

/-! ### The inner loop -/

section Rounds

variable {q lab l : Bytes} {hops i t : ℕ}

theorem matchRound_spent (h : 8 ≤ hops) : matchRound q lab ⟨hops, i⟩ = .ok (.inr none) := by
  have hstop : 8 < min (hops + 1) 255 ∨ q.length ≤ i := .inl (by omega)
  rw [matchRound, if_pos hstop]
  rfl

theorem matchRound_root (hb : q[i]? = some 0) : matchRound q lab ⟨hops, i⟩ = .ok (.inr none) := by
  by_cases hops8 : 8 ≤ hops
  · exact matchRound_spent hops8
  have hlt := (List.getElem?_eq_some_iff.1 hb).1
  have hgo : ¬ (8 < min (hops + 1) 255 ∨ q.length ≤ i) := by omega
  rw [matchRound, if_neg hgo, Rust.index_ok hb, Rust.ok_bind]
  rfl

theorem matchRound_pointer (hq : Rust.Sized q) (hp : PointerAt q i t) (h : hops < 8) :
    matchRound q lab ⟨hops, i⟩ = .ok (.inl ⟨hops + 1, t⟩) := by
  have hsize : q.length < 2 ^ 31 := hq
  obtain ⟨b, c, hb, h192, hc, rfl⟩ := hp
  have hnext := (List.getElem?_eq_some_iff.1 hc).1
  have hmin : min (hops + 1) 255 = hops + 1 := by omega
  have hgo : ¬ (8 < hops + 1 ∨ q.length ≤ i) := by omega
  simp only [matchRound, hmin]
  rw [if_neg hgo, Rust.index_ok hb, Rust.ok_bind, if_pos ((pointer_bits b.toNat_lt).2 h192),
    Rust.add_ok (by omega), Rust.ok_bind, if_neg (Nat.not_le.2 hnext), Rust.index_ok hc,
    Rust.ok_bind, pointer_target h192 b.toNat_lt c.toNat_lt, Rust.pure_eq]

theorem matchRound_label (hq : Rust.Sized q) (hl : LabelAt q i l) (h : hops < 8) :
    matchRound q lab ⟨hops, i⟩ =
      .ok (.inr (if eqLabel l lab = true then some ⟨hops + 1, i + 1 + l.length⟩ else none)) := by
  have hsize : q.length < 2 ^ 31 := hq
  have hfits := hl.le_length
  have hpos := hl.pos
  have hle := hl.le
  have hlen := toNat_length hl.le
  have hmin : min (hops + 1) 255 = hops + 1 := by omega
  have hgo : ¬ (8 < hops + 1 ∨ q.length ≤ i) := by omega
  have hbits : ¬ l.length &&& 0xC0 = 0xC0 := by
    rw [pointer_bits (by omega)]
    omega
  simp only [matchRound, hmin]
  rw [if_neg hgo, Rust.index_ok hl.head, Rust.ok_bind, hlen, if_neg hbits]
  by_cases hlab : l.length = 0 ∨ l.length ≠ lab.length
  · have hne : ¬ eqLabel l lab = true := fun heq => by
      have := eqLabel_length heq
      omega
    rw [if_pos hlab, if_neg hne]
    rfl
  · have hslice : Rust.slice q (i + 1) (i + 1 + l.length) = .ok l := by
      rw [Rust.slice_ok (by omega) hfits]
      exact congrArg _ hl.body
    rw [if_neg hlab, Rust.add_ok (by omega), Rust.ok_bind, Rust.add_ok (by omega), Rust.ok_bind,
      if_neg (Nat.not_lt.2 hfits), hslice, Rust.ok_bind]
    by_cases heq : eqLabel l lab = true
    · rw [if_pos heq, if_pos heq, Rust.add_ok (by omega), Rust.ok_bind, Rust.add_ok (by omega),
        Rust.ok_bind, Nat.add_assoc]
      rfl
    · rw [if_neg heq, if_neg heq]
      rfl

end Rounds

/-- **The inner loop** takes the label behind the pointers, if it is the one and the hops last. -/
theorem matchLabel_eq {q lab : Bytes} (hq : Rust.Sized q) {i p hops bound : ℕ}
    {r : Option (Bytes × ℕ)} (h : Leads q i p r) (hbound : 8 - hops < bound) :
    Rust.loop (matchRound q lab) bound ⟨hops, i⟩ = .ok (r.bind fun x =>
      if hops + p < 8 ∧ eqLabel x.1 lab = true then some ⟨hops + p + 1, x.2⟩ else none) := by
  obtain ⟨bound, rfl⟩ : ∃ n, bound = n + 1 := ⟨bound - 1, by omega⟩
  induction h generalizing hops bound with
  | root hb => exact Rust.loop_inr (matchRound_root hb) bound
  | label hl =>
    by_cases h8 : hops < 8
    · rw [Rust.loop_inr (matchRound_label hq hl h8) bound]
      simp [h8]
    · rw [Rust.loop_inr (matchRound_spent (by omega)) bound]
      simp [h8]
  | @pointer i p t r hp _ ih =>
    by_cases h8 : hops < 8
    · obtain ⟨bound, rfl⟩ : ∃ n, bound = n + 1 := ⟨bound - 1, by omega⟩
      have hsum : hops + 1 + p = hops + (p + 1) := by omega
      have hrest : Rust.loop (matchRound q lab) (bound + 1) ⟨hops + 1, t⟩ = _ :=
        ih bound (by omega)
      rw [hsum] at hrest
      rw [Rust.loop_inl (matchRound_pointer hq hp h8), hrest]
    · have hspent : ¬ hops + (p + 1) < 8 := by omega
      rw [Rust.loop_inr (matchRound_spent (by omega)) bound]
      cases r with
      | none => rfl
      | some x => simp [hspent]

/-! ### Names that are there -/

/-- A name is the root behind pointers, or a label behind pointers and a name after it. -/
theorem Leads.of_nameAt {q : Bytes} {i k : ℕ} {ls : Name} (h : NameAt q i k ls) :
    (∃ p, Leads q i p none ∧ ls = []) ∨
    ∃ p l e ls' k', Leads q i p (some (l, e)) ∧ ls = l :: ls' ∧ NameAt q e k' ls' ∧
      k = p + 1 + k' := by
  induction h with
  | root hb => exact .inl ⟨0, .root hb, rfl⟩
  | label hl hrest _ => exact .inr ⟨0, _, _, _, _, .label hl, rfl, hrest, by omega⟩
  | pointer hp _ ih =>
    obtain ⟨p, hleads, hls⟩ | ⟨p, l, e, ls', k', hleads, hls, hrest, hk⟩ := ih
    · exact .inl ⟨p + 1, .pointer hp hleads, hls⟩
    · exact .inr ⟨p + 1, l, e, ls', k', .pointer hp hleads, hls, hrest, by omega⟩

/-- Where the root of a name stands does not depend on what comes before its last label. -/
theorem Leads.endsInPlace_iff {q : Bytes} {i p e : ℕ} {l : Bytes} {ls : Name}
    (h : Leads q i p (some (l, e))) : EndsInPlace q i (l :: ls) ↔ EndsInPlace q e ls := by
  generalize hr : some (l, e) = r at h
  induction h with
  | root => cases hr
  | label hl =>
    cases hr
    constructor
    · intro h
      cases h with
      | label _ hrest => exact hrest
      | pointer hp => exact absurd hp hl.not_pointer
    · exact .label hl
  | pointer hp _ ih =>
    rw [← ih hr]
    constructor
    · intro h
      cases h with
      | label hl => exact absurd hp hl.not_pointer
      | pointer hp' hrest =>
        obtain rfl := hp.unique hp'
        exact hrest
    · exact .pointer hp

theorem lower_cons_iff {l lab : Bytes} {ls labs : Name} :
    lower (l :: ls) = lower (lab :: labs) ↔ eqLabel l lab = true ∧ lower ls = lower labs := by
  rw [eqLabel_iff, lower, lower, List.map_cons, List.map_cons, List.cons.injEq]
  rfl

theorem length_of_lower {ls labs : Name} (h : lower ls = lower labs) :
    labs.length = ls.length := by
  have hlen := congrArg List.length h
  rw [lower, lower, List.length_map, List.length_map] at hlen
  exact hlen.symm

/-- **The walk over a name**: within its hops it compares the labels, and then asks for the root in
place. -/
theorem matchLabels_eq {q : Bytes} (hq : Rust.Sized q) {i k hops : ℕ} {ls : Name} (labs : Name)
    (h : NameAt q i k ls) (hhops : labs.length = ls.length → hops + k ≤ 8) :
    ∃ r, matchLabels q labs ⟨hops, i⟩ = .ok r ∧
      (r = true ↔ lower ls = lower labs ∧ EndsInPlace q i ls) := by
  induction labs generalizing i k hops ls with
  | nil =>
    have hlt := h.lt_length
    have hb : q[i]? = some q[i] := List.getElem?_eq_getElem hlt
    refine ⟨q[i] == 0, ?_, ?_⟩
    · rw [matchLabels, if_pos hlt, Rust.index_ok hb, Rust.ok_bind, Rust.pure_eq]
    rw [beq_iff_eq]
    constructor
    · intro h0
      have hroot : NameAt q i 0 [] := .root (hb.trans (congrArg some h0))
      obtain ⟨-, rfl⟩ := h.unique hroot
      exact ⟨rfl, .root (hb.trans (congrArg some h0))⟩
    · rintro ⟨hlower, hends⟩
      obtain rfl : ls = [] := List.length_eq_zero_iff.1 (length_of_lower hlower).symm
      cases hends with
      | root h0 => exact Option.some.inj (hb.symm.trans h0)
  | cons lab labs ih =>
    rw [matchLabels]
    obtain ⟨p, hleads, rfl⟩ | ⟨p, l, e, ls', k', hleads, rfl, hrest, hk⟩ := Leads.of_nameAt h
    · refine ⟨false, ?_, by simp [lower]⟩
      rw [matchLabel_eq hq hleads (by omega)]
      rfl
    rw [matchLabel_eq hq hleads (by omega), lower_cons_iff, hleads.endsInPlace_iff]
    by_cases hmatch : hops + p < 8 ∧ eqLabel l lab = true
    · have hleft : labs.length = ls'.length → hops + p + 1 + k' ≤ 8 := by
        intro hlen
        have := hhops (by rw [List.length_cons, List.length_cons, hlen])
        omega
      obtain ⟨r, hr, hiff⟩ := ih hrest hleft
      refine ⟨r, ?_, ?_⟩
      · rw [Option.bind_some, if_pos hmatch, Rust.ok_bind]
        exact hr
      · rw [hiff]
        constructor
        · rintro ⟨hlower, hends⟩
          exact ⟨⟨hmatch.2, hlower⟩, hends⟩
        · rintro ⟨⟨-, hlower⟩, hends⟩
          exact ⟨hlower, hends⟩
    · refine ⟨false, ?_, by simp, ?_⟩
      · rw [Option.bind_some, if_neg hmatch]
        rfl
      rintro ⟨⟨heq, hlower⟩, -⟩
      -- a name as long as the labels is within the hops
      have hlen := length_of_lower hlower
      have := hhops (by rw [List.length_cons, List.length_cons, hlen])
      exact absurd ⟨by omega, heq⟩ hmatch

/-- **`qname_matches` and compression**: over a name with at most six pointers it says whether the
name is `a.b` up to case, exactly when the root of a name that is stands in place. -/
theorem qname_matches_iff {q : Bytes} (hq : Rust.Sized q) (a b : Bytes) {k : ℕ} {ls : Name}
    (h : NameAt q 12 k ls) (hk : k ≤ ls.length + 6) :
    (∃ r, qnameMatches q 12 [a, b] = .ok r ∧ (r = true ↔ lower ls = lower [a, b])) ↔
      (lower ls = lower [a, b] → EndsInPlace q 12 ls) := by
  have hhops : [a, b].length = ls.length → 0 + k ≤ 8 := by
    intro hlen
    rw [List.length_cons, List.length_singleton] at hlen
    omega
  obtain ⟨r, hr, hiff⟩ := matchLabels_eq hq [a, b] h hhops
  constructor
  · rintro ⟨r', hr', hiff'⟩ hlower
    obtain rfl : r = r' := Except.ok.inj (hr.symm.trans hr')
    exact (hiff.1 (hiff'.2 hlower)).2
  · intro hends
    refine ⟨r, hr, hiff.trans ⟨fun h => h.1, fun hlower => ⟨hlower, hends hlower⟩⟩⟩

/-- A name with a pointer between its labels. -/
theorem qname_matches_iff_pointer :
    ∃ r, qnameMatches (List.replicate 12 0 ++ [2, 115, 66, 0xC0, 17, 5, 108, 111, 99, 97, 108, 0]) 12
        [Rust.byteStr "sb", Rust.byteStr "local"] = .ok r ∧
      (r = true ↔ lower [[115, 66], [108, 111, 99, 97, 108]] =
        lower [Rust.byteStr "sb", Rust.byteStr "local"]) := by
  have hsb : LabelAt (List.replicate 12 0 ++ [2, 115, 66, 0xC0, 17, 5, 108, 111, 99, 97, 108, 0]) 12
      [115, 66] := ⟨by decide, by decide, rfl, rfl⟩
  have hlocal : LabelAt
      (List.replicate 12 0 ++ [2, 115, 66, 0xC0, 17, 5, 108, 111, 99, 97, 108, 0]) 17
      [108, 111, 99, 97, 108] := ⟨by decide, by decide, rfl, rfl⟩
  have hpointer : PointerAt
      (List.replicate 12 0 ++ [2, 115, 66, 0xC0, 17, 5, 108, 111, 99, 97, 108, 0]) 15 17 :=
    ⟨0xC0, 17, rfl, by decide, rfl, rfl⟩
  exact (qname_matches_iff (by decide) _ _
    (.label hsb (.pointer hpointer (.label hlocal (.root rfl)))) (by decide)).2
    fun _ => .label hsb (.pointer hpointer (.label hlocal (.root rfl)))

/-- A question for `sb.local` whose root is a pointer to a zero of the header. -/
def compressedRoot : Bytes :=
  [0, 0, 0, 0, 0, 1, 0, 0, 0, 0, 0, 0, 2, 115, 98, 5, 108, 111, 99, 97, 108, 0xC0, 11, 0, 1, 0, 1]

theorem nameAt_compressedRoot :
    NameAt compressedRoot 12 3 [Rust.byteStr "sb", Rust.byteStr "local"] := by
  have hsb : LabelAt compressedRoot 12 (Rust.byteStr "sb") :=
    ⟨by decide +kernel, by decide +kernel, by decide +kernel, by decide +kernel⟩
  have hlocal : LabelAt compressedRoot 15 (Rust.byteStr "local") :=
    ⟨by decide +kernel, by decide +kernel, by decide +kernel, by decide +kernel⟩
  exact .label hsb (.label hlocal (.pointer ⟨0xC0, 11, rfl, by decide, rfl, rfl⟩ (.root rfl)))

/-- The name with a compressed root is not found. -/
theorem compressed_root_missed :
    ∃ (q : Bytes) (k : ℕ) (ls : Name), Rust.Sized q ∧ NameAt q 12 k ls ∧ k ≤ ls.length + 6 ∧
      lower ls = lower [Rust.byteStr "sb", Rust.byteStr "local"] ∧
      qnameMatches q 12 [Rust.byteStr "sb", Rust.byteStr "local"] = .ok false :=
  ⟨compressedRoot, 3, _, by decide +kernel, nameAt_compressedRoot, by decide, rfl,
    by decide +kernel⟩

end ScoreboardCtrl.Net
