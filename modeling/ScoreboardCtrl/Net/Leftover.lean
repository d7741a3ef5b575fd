import ScoreboardCtrl.Lib.Holes
import ScoreboardCtrl.Net.Mdns

/-!
# What is left in the receive buffer

`mdns_task` walks over the whole buffer, so a name of the packet may run into the bytes an earlier
packet left behind it. `mdns_leftover_iff` says for which packets that shows: the walk from offset
12 leaves the packet after a beginning of a name of ours, and the rest of the name has room behind
the packet, within the hops that are left (`Escapes`).

For any packet there is a leftover that completes no name (`filler`): it starts with a byte that is
no length of a label of ours, and what a pointer on the border of the packet makes of it leads out
of the buffer, or back to the start of the name.
-/

namespace ScoreboardCtrl.Net

open Lib (Holes Rust)
open Lib.Dns

/-! ### What is in the packet -/

theorem toAsciiLowercase_idem (b : UInt8) :
    toAsciiLowercase (toAsciiLowercase b) = toAsciiLowercase b := by
  have hall : ∀ n : Fin 256, toAsciiLowercase (toAsciiLowercase (UInt8.ofNat n)) =
      toAsciiLowercase (UInt8.ofNat n) := by decide +kernel
  have hb := hall ⟨b.toNat, b.toNat_lt⟩
  rwa [UInt8.ofNat_toNat] at hb

/-- The first name of a message has nothing to point to, so it is spelt where it stands. -/
theorem spells_of_wireName {q : Bytes} {lim i e : ℕ} {ls : Name} (hlim : lim ≤ 12)
    (h : WireName q lim i ls e) : Spells q i ls.length (lower ls) := by
  induction h with
  | root hb => exact .root hb
  | label hl _ ih =>
    refine .label hl (eqLabel_iff.2 ?_) (ih hlim)
    rw [List.map_map]
    exact List.map_congr_left fun b _ => (toAsciiLowercase_idem b).symm
  | pointer _ h12 hlt => omega

theorem Spells.append {q : Bytes} {i k : ℕ} {labels : Name} (h : Spells q i k labels) (x : Bytes) :
    Spells (q ++ x) i k labels := by
  induction h with
  | root hb => exact .root (getElem?_append_of_some hb x)
  | label hl heq _ ih => exact .label (hl.append x) heq ih
  | pointer hne hp _ ih => exact .pointer hne (hp.append x) ih

/-- The header and the question are judged by the packet alone. -/
theorem asksAddress_append {p : Bytes} {e : ℕ} (x : Bytes) :
    AsksAddress (p ++ x) p.length e ↔ AsksAddress p p.length e := by
  have hget (j : ℕ) (hj : j < p.length) : (p ++ x)[j]? = p[j]? := List.getElem?_append_left hj
  have hsame (he : 12 < e) (hle : e + 4 ≤ p.length) : (p ++ x).getD 2 0 = p.getD 2 0 ∧
      qtypeAt (p ++ x) e = qtypeAt p e := by
    simp only [qtypeAt, List.getD_eq_getElem?_getD]
    rw [hget 2 (by omega), hget e (by omega), hget (e + 1) (by omega)]
    exact ⟨rfl, rfl⟩
  constructor
  · intro h
    have hle := h.le
    have hflags' := h.query
    have hqtype' := h.qtype
    obtain ⟨hflags, hqtype⟩ := hsame h.lt hle
    rw [hflags] at hflags'
    rw [hqtype] at hqtype'
    refine ⟨hflags', h.name.congr fun j _ hj => ?_, hle, hqtype'⟩
    rw [hget j (by omega)]
  · intro h
    have hle := h.le
    have hflags' := h.query
    have hqtype' := h.qtype
    obtain ⟨hflags, hqtype⟩ := hsame h.lt hle
    rw [← hflags] at hflags'
    rw [← hqtype] at hqtype'
    refine ⟨hflags', h.name.congr fun j _ hj => ?_, hle, hqtype'⟩
    exact hget j (by omega)

/-! ### A leftover that completes no name -/

/-- `m + 1` bytes for the end of a buffer. -/
def filler (p : Bytes) (m : ℕ) : Bytes :=
  (if p[p.length - 1]? = some 0xC0 then 12 else 0xFF) :: List.replicate m 0xFF

/-- Neither the length nor a letter of the label is a byte of the filler. -/
def Plain (lab : Bytes) : Prop :=
  lab.length ≠ 12 ∧ ∀ x ∈ lab.map toAsciiLowercase, x ≠ 12 ∧ x ≠ 0xFF

instance (lab : Bytes) : Decidable (Plain lab) :=
  inferInstanceAs (Decidable (lab.length ≠ 12 ∧ ∀ x ∈ lab.map toAsciiLowercase, x ≠ 12 ∧ x ≠ 0xFF))

theorem valid_ourNames : ∀ labels ∈ ourNames, Name.Valid labels := by decide +kernel

theorem plain_ourNames : ∀ labels ∈ ourNames, ∀ lab ∈ labels, Plain lab := by decide +kernel

section Filler

variable {p : Bytes} {m : ℕ}

theorem getElem?_filler {i : ℕ} {x : UInt8} (h : (p ++ filler p m)[i]? = some x) :
    (i < p.length ∧ p[i]? = some x) ∨
    (i = p.length ∧ x = if p[p.length - 1]? = some 0xC0 then 12 else 0xFF) ∨
    (p.length < i ∧ i < p.length + 1 + m ∧ x = 0xFF) := by
  rcases Nat.lt_trichotomy i p.length with hi | rfl | hi
  · rw [List.getElem?_append_left hi] at h
    exact .inl ⟨hi, h⟩
  · rw [filler, getElem?_length_append] at h
    exact .inr (.inl ⟨rfl, (Option.some.inj h).symm⟩)
  · obtain ⟨j, rfl⟩ := Nat.exists_eq_add_of_lt hi
    rw [Nat.add_assoc, getElem?_length_add, filler, List.getElem?_cons_succ,
      List.getElem?_replicate] at h
    split at h
    · exact .inr (.inr ⟨hi, by omega, (Option.some.inj h).symm⟩)
    · cases h

theorem mem_filler {i : ℕ} {x : UInt8} (hi : p.length ≤ i) (h : (p ++ filler p m)[i]? = some x) :
    x = 12 ∨ x = 0xFF := by
  rcases getElem?_filler h with ⟨hlt, -⟩ | ⟨-, rfl⟩ | ⟨-, -, rfl⟩
  · omega
  · split
    · exact .inl rfl
    · exact .inr rfl
  · exact .inr rfl

/-- A plain label is in the packet whole. -/
theorem labelAt_of_filler {i : ℕ} {l lab : Bytes} (h : LabelAt (p ++ filler p m) i l)
    (heq : eqLabel l lab = true) (hplain : Plain lab) : LabelAt p i l := by
  obtain ⟨hlen, hletters⟩ := hplain
  have hlen' := eqLabel_length heq
  have hin : i + 1 + l.length ≤ p.length := by
    by_contra hout
    by_cases hi : p.length ≤ i
    · -- the length byte is of the filler
      have hnat := toNat_length h.le
      have hle := h.le
      rcases mem_filler hi h.head with h12 | h255
      · rw [h12] at hnat
        simp at hnat
        omega
      · rw [h255] at hnat
        simp at hnat
        omega
    · -- a letter is of the filler
      obtain ⟨j, hj⟩ := Nat.exists_eq_add_of_le (show i + 1 ≤ p.length by omega)
      have hjlen : j < l.length := by omega
      have hx : (p ++ filler p m)[p.length]? = l[j]? := by
        have hbody := congrArg (fun s => s[j]?) h.body
        simp only [getElem?_cut (show i + 1 + j < i + 1 + l.length by omega)] at hbody
        rw [hj, hbody]
      rw [List.getElem?_eq_getElem hjlen] at hx
      have hmem : toAsciiLowercase l[j] ∈ lab.map toAsciiLowercase := by
        rw [← eqLabel_iff.1 heq]
        exact List.mem_map_of_mem (List.getElem_mem hjlen)
      obtain ⟨h12, h255⟩ := hletters _ hmem
      rcases mem_filler (Nat.le_refl _) hx with hc | hc
      · rw [hc] at h12
        exact h12 (by decide)
      · rw [hc] at h255
        exact h255 (by decide)
  exact h.of_append hin

/-- A pointer that is not in the packet whole leads back to the start, to the last byte or out. -/
theorem pointerAt_of_filler {i t : ℕ} (h : PointerAt (p ++ filler p m) i t) :
    PointerAt p i t ∨ t = 12 ∨ 511 ≤ t := by
  obtain ⟨x, y, hx, h192, hy, rfl⟩ := h
  by_cases hi : i + 1 < p.length
  · rw [List.getElem?_append_left (by omega)] at hx
    rw [List.getElem?_append_left hi] at hy
    exact .inl ⟨x, y, hx, h192, hy, rfl⟩
  refine .inr ?_
  rcases getElem?_filler hy with ⟨hlt, -⟩ | ⟨heq, hy'⟩ | ⟨hlt, -, hy'⟩
  · omega
  · -- the pointer stands on the border
    rw [List.getElem?_append_left (by omega), show i = p.length - 1 by omega] at hx
    rw [hx] at hy'
    by_cases hc0 : x = 0xC0
    · rw [if_pos (by rw [hc0])] at hy'
      left
      rw [hc0, hy']
      rfl
    · rw [if_neg fun h => hc0 (Option.some.inj h)] at hy'
      right
      have hne : x.toNat ≠ 192 := fun h => hc0 (UInt8.toNat_inj.1 h)
      have hy255 : y.toNat = 255 := by rw [hy']; rfl
      omega
  · -- the pointer is of the filler
    right
    rcases mem_filler (show p.length ≤ i by omega) hx with h12 | h255
    · rw [h12] at h192
      exact absurd h192 (by decide)
    · have hx255 : x.toNat = 255 := by rw [h255]; rfl
      omega

/-- What the packet and its filler spell the packet spells, unless the name comes back to its
start. -/
theorem Spells.of_filler (hlen : p.length + 1 + m = 512) {i k : ℕ} {labels : Name}
    (h : Spells (p ++ filler p m) i k labels) (hplain : ∀ lab ∈ labels, Plain lab) :
    Spells p i k labels ∨ ∃ k' labels', k' < k ∧ Spells (p ++ filler p m) 12 k' labels' := by
  have htotal : (p ++ filler p m).length = 512 := by
    rw [List.length_append, filler, List.length_cons, List.length_replicate]
    omega
  induction h with
  | @root i hb =>
    left
    refine .root ?_
    by_cases hi : p.length ≤ i
    · rcases mem_filler hi hb with h | h <;> exact absurd h (by decide)
    · rw [← List.getElem?_append_left (show i < p.length by omega), hb]
  | label hl heq _ ih =>
    obtain ⟨hlab, hlabels⟩ := List.forall_mem_cons.1 hplain
    rcases ih hlabels with hrest | ⟨k', labels', hlt, hback⟩
    · exact .inl (.label (labelAt_of_filler hl heq hlab) heq hrest)
    · exact .inr ⟨k', labels', by omega, hback⟩
  | @pointer i k t labels hne hp hrest ih =>
    rcases pointerAt_of_filler hp with hp' | rfl | hfar
    · rcases ih hplain with hrest' | ⟨k', labels', hlt, hback⟩
      · exact .inl (.pointer hne hp' hrest')
      · exact .inr ⟨k', labels', by omega, hback⟩
    · exact .inr ⟨k, labels, by omega, hrest⟩
    · -- at the last byte there is neither a label nor a whole pointer
      exfalso
      have hlt := hrest.lt_length
      obtain ⟨lab, labels, rfl⟩ := List.exists_cons_of_ne_nil hne
      have hlast : (p ++ filler p m)[t]? = some (p ++ filler p m)[t] := List.getElem?_eq_getElem hlt
      by_cases h192 : 192 ≤ (p ++ filler p m)[t].toNat
      · obtain ⟨c, -, hc, -⟩ := hrest.of_pointer hlast h192
        have := (List.getElem?_eq_some_iff.1 hc).1
        omega
      · obtain ⟨l, -, hl, -⟩ := hrest.of_label hlast (by omega)
        have := hl.le_length
        have := hl.pos
        omega

/-- Our name is spelt behind the filler only if the packet spells it. -/
theorem SpeltFirst.of_filler (hlen : p.length + 1 + m = 512) {labels : Name}
    (hours : labels ∈ ourNames) (h : SpeltFirst (p ++ filler p m) labels) :
    SpeltFirst p labels := by
  obtain ⟨k, hle, hk⟩ := h
  rcases hk.of_filler hlen (plain_ourNames labels hours) with hin | ⟨k', labels', hlt, hback⟩
  · exact ⟨k, hle, hin⟩
  · have := (hk.unique hback).1
    omega

end Filler

/-! ### Names that leave the packet -/

/-- What stands at `i` is not in the packet, or its label or pointer is cut off by the end. -/
def CutOff (p : Bytes) (i : ℕ) : Prop :=
  ∀ b, p[i]? = some b → p.length < i + 1 + if 192 ≤ b.toNat then 1 else b.toNat

/-- `labels` can be written at `i`, over `k` labels and pointers, into the places of `b` that are not
settled. A place that is settled must hold what the name has there, up to the case of a letter. -/
inductive Fits : Holes UInt8 → ℕ → ℕ → Name → Prop
  | root {b b' : Holes UInt8} {i : ℕ} : b.write i 0 = some b' → Fits b i 0 []
  | label {b b' : Holes UInt8} {i k : ℕ} {l lab : Bytes} {labels : Name} :
      1 ≤ l.length → l.length ≤ 63 → eqLabel l lab = true →
      b.writeAll i (UInt8.ofNat l.length :: l) = some b' → Fits b' (i + 1 + l.length) k labels →
      Fits b i (k + 1) (lab :: labels)
  | pointer {b b' : Holes UInt8} {i k : ℕ} {x y : UInt8} {labels : Name} :
      labels ≠ [] → 192 ≤ x.toNat → b.writeAll i [x, y] = some b' →
      Fits b' ((x.toNat - 192) * 256 + y.toNat) k labels → Fits b i (k + 1) labels

/-- The walk from `i` over the labels and pointers of the packet leaves it after a beginning of
`labels`, and the rest fits behind the packet. It takes `k` steps in all. -/
inductive Escapes (p : Bytes) : ℕ → ℕ → Name → Prop
  | leaves {i k : ℕ} {labels : Name} : CutOff p i → Fits (.behind p (512 - p.length)) i k labels →
      Escapes p i k labels
  | label {i k : ℕ} {l lab : Bytes} {labels : Name} : LabelAt p i l → eqLabel l lab = true →
      Escapes p (i + 1 + l.length) k labels → Escapes p i (k + 1) (lab :: labels)
  | pointer {i k t : ℕ} {labels : Name} : labels ≠ [] → PointerAt p i t → Escapes p t k labels →
      Escapes p i (k + 1) labels

theorem labelAt_iff_drop {q l : Bytes} {i : ℕ} :
    LabelAt q i l ↔ 1 ≤ l.length ∧ l.length ≤ 63 ∧ UInt8.ofNat l.length :: l <+: q.drop i := by
  rw [Holes.cons_prefix_drop]
  constructor
  · intro h
    refine ⟨h.pos, h.le, h.head, ?_⟩
    rw [drop_eq_cut_append q (Nat.le_add_right (i + 1) l.length), h.body]
    exact List.prefix_append _ _
  · rintro ⟨h1, h63, hhead, rest, hrest⟩
    exact ⟨h1, h63, hhead, cut_of_drop hrest.symm⟩

theorem pointerAt_iff_drop {q : Bytes} {i t : ℕ} :
    PointerAt q i t ↔ ∃ x y : UInt8, 192 ≤ x.toNat ∧ [x, y] <+: q.drop i ∧
      t = (x.toNat - 192) * 256 + y.toNat := by
  simp only [PointerAt, Holes.cons_prefix_drop, List.nil_prefix, and_true]
  grind

/-- A name fits if some buffer with these places spells it. -/
theorem fits_iff {b : Holes UInt8} {i k : ℕ} {labels : Name} :
    Fits b i k labels ↔ ∃ q, Holes.Fills q b ∧ Spells q i k labels := by
  constructor
  · intro h
    induction h with
    | @root _ b' _ hw =>
      obtain ⟨q, hq⟩ := Holes.exists_fills b'
      obtain ⟨hq, hzero⟩ := (Holes.fills_of_write hw).1 hq
      exact ⟨q, hq, .root hzero⟩
    | label h1 h63 heq hw _ ih =>
      obtain ⟨q, hq, hrest⟩ := ih
      obtain ⟨hq, hpre⟩ := (Holes.fills_of_writeAll hw).1 hq
      exact ⟨q, hq, .label (labelAt_iff_drop.2 ⟨h1, h63, hpre⟩) heq hrest⟩
    | pointer hne h192 hw _ ih =>
      obtain ⟨q, hq, hrest⟩ := ih
      obtain ⟨hq, hpre⟩ := (Holes.fills_of_writeAll hw).1 hq
      exact ⟨q, hq, .pointer hne (pointerAt_iff_drop.2 ⟨_, _, h192, hpre, rfl⟩) hrest⟩
  · rintro ⟨q, hq, h⟩
    induction h generalizing b with
    | root hzero =>
      obtain ⟨b', hw⟩ := Holes.exists_write hq hzero
      exact .root hw
    | label hl heq _ ih =>
      obtain ⟨h1, h63, hpre⟩ := labelAt_iff_drop.1 hl
      obtain ⟨b', hw, hq'⟩ := Holes.exists_writeAll hq hpre
      exact .label h1 h63 heq hw (ih hq')
    | pointer hne hp _ ih =>
      obtain ⟨x, y, h192, hpre, rfl⟩ := pointerAt_iff_drop.1 hp
      obtain ⟨b', hw, hq'⟩ := Holes.exists_writeAll hq hpre
      exact .pointer hne h192 hw (ih hq')

theorem fits_behind_iff {p : Bytes} (hp : p.length ≤ 512) {i k : ℕ} {labels : Name} :
    Fits (.behind p (512 - p.length)) i k labels ↔
      ∃ x : Bytes, (p ++ x).length = 512 ∧ Spells (p ++ x) i k labels := by
  rw [fits_iff]
  constructor
  · rintro ⟨q, hq, hspelt⟩
    obtain ⟨x, hx, rfl⟩ := Holes.fills_behind.1 hq
    exact ⟨x, by rw [List.length_append]; omega, hspelt⟩
  · rintro ⟨x, hx, hspelt⟩
    rw [List.length_append] at hx
    exact ⟨_, Holes.fills_behind.2 ⟨x, by omega, rfl⟩, hspelt⟩

/-- Far enough behind the packet there is room for any name. -/
theorem Fits.of_room {p : Bytes} {i : ℕ} {labels : Name} (hlabels : labels ∈ ourNames)
    (hi : p.length ≤ i) (hroom : i + (encodeName labels).length ≤ 512) :
    Fits (.behind p (512 - p.length)) i labels.length labels := by
  have hlen : (p ++ List.replicate (i - p.length) 0).length = i := by
    rw [List.length_append, List.length_replicate]
    omega
  have hwire := wireName_encode (valid_ourNames labels hlabels) 0
    (p ++ List.replicate (i - p.length) 0)
    (List.replicate (512 - (i + (encodeName labels).length)) 0)
  have hspelt := spells_of_wireName (Nat.zero_le _) hwire
  rw [lower_ourNames labels hlabels, hlen, List.append_assoc, List.append_assoc] at hspelt
  refine (fits_behind_iff (by omega)).2 ⟨_, ?_, hspelt⟩
  simp only [List.length_append, List.length_replicate]
  omega

namespace Escapes

variable {p : Bytes} {i k : ℕ} {labels : Name}

theorem exists_leftover (hp : p.length ≤ 512) (h : Escapes p i k labels) :
    ∃ x : Bytes, (p ++ x).length = 512 ∧ Spells (p ++ x) i k labels := by
  induction h with
  | leaves _ hfits => exact (fits_behind_iff hp).1 hfits
  | label hl heq _ ih =>
    obtain ⟨x, hx, hrest⟩ := ih
    exact ⟨x, hx, .label (hl.append x) heq hrest⟩
  | pointer hne hp' _ ih =>
    obtain ⟨x, hx, hrest⟩ := ih
    exact ⟨x, hx, .pointer hne (hp'.append x) hrest⟩

end Escapes

namespace CutOff

variable {p l : Bytes} {i t : ℕ}

theorem not_root (h : CutOff p i) : p[i]? ≠ some 0 := by
  intro hb
  have hi := (List.getElem?_eq_some_iff.1 hb).1
  have hcut := h 0 hb
  simp at hcut
  omega

theorem not_label (h : CutOff p i) : ¬ LabelAt p i l := by
  intro hl
  have hcut := h _ hl.head
  have hnat := toNat_length hl.le
  have hle := hl.le
  have hin := hl.le_length
  rw [hnat, if_neg (by omega)] at hcut
  omega

theorem not_pointer (h : CutOff p i) : ¬ PointerAt p i t := by
  rintro ⟨b, c, hb, h192, hc, -⟩
  have hcut := h b hb
  have hin := (List.getElem?_eq_some_iff.1 hc).1
  rw [if_pos h192] at hcut
  omega

theorem not_spells (h : CutOff p i) {k : ℕ} {labels : Name} : ¬ Spells p i k labels := by
  intro hs
  cases hs with
  | root hb => exact h.not_root hb
  | label hl => exact h.not_label hl
  | pointer _ hp => exact h.not_pointer hp

end CutOff

/-- A name that leaves the packet is spelt in the packet under no reading. -/
theorem Escapes.not_spells {p : Bytes} {i k : ℕ} {labels : Name} (h : Escapes p i k labels)
    {k' : ℕ} {labels' : Name} : ¬ Spells p i k' labels' := by
  induction h generalizing k' labels' with
  | leaves hcut => exact hcut.not_spells
  | label hl _ _ ih =>
    intro hs
    cases hs with
    | root hb => exact hl.not_root hb
    | label hl' _ hrest =>
      rw [hl'.unique hl] at hrest
      exact ih hrest
    | pointer _ hp => exact hl.not_pointer hp
  | pointer _ hp _ ih =>
    intro hs
    cases hs with
    | root hb => exact hp.not_root hb
    | label hl => exact hl.not_pointer hp
    | pointer _ hp' hrest =>
      rw [hp'.unique hp] at hrest
      exact ih hrest

/-- In the packet a label stands whole, or it is cut off. -/
theorem labelAt_or_cutOff {p x l : Bytes} {i : ℕ} (h : LabelAt (p ++ x) i l) :
    LabelAt p i l ∨ CutOff p i := by
  by_cases hin : i + 1 + l.length ≤ p.length
  · exact .inl (h.of_append hin)
  · refine .inr fun b hb => ?_
    have hnat := h.toNat_head (getElem?_append_of_some hb x)
    have hle := h.le
    rw [if_neg (by omega)]
    omega

theorem pointerAt_or_cutOff {p x : Bytes} {i t : ℕ} (h : PointerAt (p ++ x) i t) :
    PointerAt p i t ∨ CutOff p i := by
  obtain ⟨b, c, hb, h192, hc, rfl⟩ := h
  by_cases hi : i + 1 < p.length
  · rw [List.getElem?_append_left (by omega)] at hb
    rw [List.getElem?_append_left hi] at hc
    exact .inl ⟨b, c, hb, h192, hc, rfl⟩
  · refine .inr fun b' hb' => ?_
    obtain rfl := Option.some.inj ((getElem?_append_of_some hb' x).symm.trans hb)
    rw [if_pos h192]
    omega

/-- What a packet spells with a leftover it spells alone, or the name leaves it. -/
theorem Spells.of_append {p x : Bytes} (hx : (p ++ x).length = 512) {i k : ℕ} {labels : Name}
    (h : Spells (p ++ x) i k labels) : Spells p i k labels ∨ Escapes p i k labels := by
  have hp : p.length ≤ 512 := by
    rw [List.length_append] at hx
    omega
  have hleaves {i k : ℕ} {labels : Name} (hcut : CutOff p i) (h : Spells (p ++ x) i k labels) :
      Escapes p i k labels := .leaves hcut ((fits_behind_iff hp).2 ⟨x, hx, h⟩)
  induction h with
  | @root i hb =>
    by_cases hi : i < p.length
    · rw [List.getElem?_append_left hi] at hb
      exact .inl (.root hb)
    · refine .inr (hleaves (fun b hb' => ?_) (.root hb))
      exact absurd (List.getElem?_eq_some_iff.1 hb').1 hi
  | label hl heq hrest ih =>
    rcases labelAt_or_cutOff hl with hl' | hcut
    · rcases ih with hin | hout
      · exact .inl (.label hl' heq hin)
      · exact .inr (.label hl' heq hout)
    · exact .inr (hleaves hcut (.label hl heq hrest))
  | pointer hne hp' hrest ih =>
    rcases pointerAt_or_cutOff hp' with hp'' | hcut
    · rcases ih with hin | hout
      · exact .inl (.pointer hne hp'' hin)
      · exact .inr (.pointer hne hp'' hout)
    · exact .inr (hleaves hcut (.pointer hne hp' hrest))

/-! ### When the leftover shows -/

/-- **The leftover shows** exactly for a packet that asks for an address, and from which the walk
over the name leaves with a name of ours that fits behind the packet, in eight hops. -/
theorem mdns_leftover_iff {p : Bytes} (hp : p.length ≤ 512) :
    (∀ x y : Bytes, (p ++ x).length = 512 → (p ++ y).length = 512 →
      ∀ reply, Sends (p ++ x) p.length reply ↔ Sends (p ++ y) p.length reply) ↔
    ¬ ((∃ e, p.getD 2 0 &&& 0x80 = 0 ∧ skipName p 12 = .ok (some e) ∧ e + 4 ≤ p.length ∧
        (qtypeAt p e = 1 ∨ qtypeAt p e = 255)) ∧
      ∃ labels ∈ ourNames, ∃ k ≤ 8, Escapes p 12 k labels) := by
  have hsized : Rust.Sized p := by
    rw [Rust.Sized]
    omega
  have hbuf (x : Bytes) (hx : (p ++ x).length = 512) : Rust.Sized (p ++ x) := by
    rw [Rust.Sized, hx]
    decide
  have hle (x : Bytes) : p.length ≤ (p ++ x).length := by
    rw [List.length_append]
    exact Nat.le_add_right _ _
  have hasks : (∃ e, p.getD 2 0 &&& 0x80 = 0 ∧ skipName p 12 = .ok (some e) ∧ e + 4 ≤ p.length ∧
      (qtypeAt p e = 1 ∨ qtypeAt p e = 255)) ↔ ∃ e, AsksAddress p p.length e := by
    constructor
    · rintro ⟨e, hquery, hname, hend, hqtype⟩
      exact ⟨e, hquery, (skipName_iff hsized).1 hname, hend, hqtype⟩
    · rintro ⟨e, hquery, hname, hend, hqtype⟩
      exact ⟨e, hquery, (skipName_iff hsized).2 hname, hend, hqtype⟩
  have hsends (x : Bytes) (hx : (p ++ x).length = 512) (reply : Bytes) :
      Sends (p ++ x) p.length reply ↔ ∃ e labels, AsksAddress p p.length e ∧ labels ∈ ourNames ∧
        SpeltFirst (p ++ x) labels ∧ reply = mdnsReply labels := by
    simp only [sends_iff (hbuf x hx) (hle x) reply, asksAddress_append]
  rw [hasks]
  constructor
  · rintro hsame ⟨⟨e, he⟩, labels, hmem, k, hk, hescapes⟩
    obtain ⟨x, hx, hspelt⟩ := hescapes.exists_leftover hp
    have hreply := (hsends x hx _).2 ⟨e, labels, he, hmem, ⟨k, hk, hspelt⟩, rfl⟩
    rcases Nat.lt_or_ge p.length 512 with hlt | hge
    · obtain ⟨m, hm⟩ := Nat.exists_eq_add_of_lt hlt
      have hfill : (p ++ filler p m).length = 512 := by
        rw [List.length_append, filler, List.length_cons, List.length_replicate]
        omega
      obtain ⟨-, labels', -, hmem', hspelt', -⟩ :=
        (hsends _ hfill _).1 ((hsame x _ hx hfill _).1 hreply)
      obtain ⟨k', -, hin⟩ := hspelt'.of_filler (by omega) hmem'
      exact hescapes.not_spells hin
    · obtain rfl : x = [] := by
        rw [List.length_append] at hx
        exact List.eq_nil_of_length_eq_zero (by omega)
      rw [List.append_nil] at hspelt
      exact hescapes.not_spells hspelt
  · intro hstays
    have hone (x y : Bytes) (hx : (p ++ x).length = 512) (hy : (p ++ y).length = 512)
        (reply : Bytes) (h : Sends (p ++ x) p.length reply) : Sends (p ++ y) p.length reply := by
      obtain ⟨e, labels, he, hmem, ⟨k, hk, hspelt⟩, rfl⟩ := (hsends x hx reply).1 h
      rcases hspelt.of_append hx with hin | hescapes
      · exact (hsends y hy _).2 ⟨e, labels, he, hmem, ⟨k, hk, hin.append y⟩, rfl⟩
      · exact absurd ⟨⟨e, he⟩, labels, hmem, k, hk, hescapes⟩ hstays
    exact fun x y hx hy reply => ⟨hone x y hx hy reply, hone y x hy hx reply⟩

/-- A query for the address of a name that is at offset 100, behind its 18 bytes. -/
def danglingQuery : Bytes := [0, 0, 0, 0, 0, 1, 0, 0, 0, 0, 0, 0, 0xC0, 100, 0, 1, 0, 1]

theorem danglingQuery_escapes : Escapes danglingQuery 12 3 scoreboardLocal := by
  refine .pointer (by simp [scoreboardLocal]) (t := 100) ⟨0xC0, 100, rfl, by simp, rfl, rfl⟩ ?_
  have hroom : Fits (.behind danglingQuery (512 - danglingQuery.length)) 100 scoreboardLocal.length
      scoreboardLocal := .of_room (by simp [ourNames]) (by simp [danglingQuery]) (by decide +kernel)
  exact .leaves (fun b hb => by simp [danglingQuery] at hb) hroom

theorem mdns_leftover_iff_dangling :
    ¬ ∀ x y : Bytes, (danglingQuery ++ x).length = 512 → (danglingQuery ++ y).length = 512 →
      ∀ reply, Sends (danglingQuery ++ x) danglingQuery.length reply ↔
        Sends (danglingQuery ++ y) danglingQuery.length reply := by
  rw [mdns_leftover_iff (by decide)]
  exact not_not_intro ⟨⟨14, by decide +kernel⟩, scoreboardLocal, by simp [ourNames], 3, by omega,
    danglingQuery_escapes⟩

/-- It is answered where an earlier packet left our name there, and not in a clear buffer. -/
theorem mdns_leftover_shows :
    ¬ ∀ p x y : Bytes, (p ++ x).length = 512 → (p ++ y).length = 512 →
      ∀ reply, Sends (p ++ x) p.length reply ↔ Sends (p ++ y) p.length reply := by
  intro h
  have hreply := (h danglingQuery (List.replicate 82 0 ++ longName ++ List.replicate 394 0)
    (List.replicate 494 0) (by decide +kernel) (by decide +kernel) (mdnsReply scoreboardLocal)).1
    ⟨⟨"A", "scoreboard.local", _⟩, by decide +kernel, rfl⟩
  obtain ⟨answer, hturn, -⟩ := hreply
  have hquiet : mdnsTurn (danglingQuery ++ List.replicate 494 0) danglingQuery.length = .ok none := by
    decide +kernel
  rw [hquiet] at hturn
  cases hturn

end ScoreboardCtrl.Net
