import Mathlib.Data.List.Basic
import Mathlib.Tactic.Common

/-!
# Buffers with holes

A buffer of which some places are not settled yet. Writing settles a place, and fails where another
value is settled already.

* `fills_of_write`, `fills_of_writeAll` — what a write says about the buffers that it leaves;
* `exists_writeAll` — what is in some of these buffers can be written.
-/

namespace ScoreboardCtrl.Lib

/-- Places of a buffer, `none` where nothing is settled. -/
abbrev Holes (α : Type*) : Type _ := List (Option α)

namespace Holes

variable {α : Type*}

/-- `q` is one of the buffers that `b` may become. -/
structure Fills (q : List α) (b : Holes α) : Prop where
  length : q.length = b.length
  settled : ∀ {i : ℕ} {x : α}, b[i]? = some (some x) → q[i]? = some x

/-- The values `p`, and `m` places behind them. -/
def behind (p : List α) (m : ℕ) : Holes α := p.map some ++ List.replicate m none

theorem cons_prefix_drop {q xs : List α} {i : ℕ} {x : α} :
    x :: xs <+: q.drop i ↔ q[i]? = some x ∧ xs <+: q.drop (i + 1) := by
  rcases Nat.lt_or_ge i q.length with hi | hi
  · rw [List.drop_eq_getElem_cons hi, List.cons_prefix_cons, List.getElem?_eq_getElem hi,
      Option.some.injEq, eq_comm]
  · rw [List.drop_eq_nil_of_le hi, List.getElem?_eq_none hi]
    simp

section Write

variable [DecidableEq α]

def write (b : Holes α) (i : ℕ) (x : α) : Option (Holes α) :=
  match b[i]? with
  | none => none
  | some none => some (b.set i (some x))
  | some (some y) => if y = x then some b else none

def writeAll (b : Holes α) : ℕ → List α → Option (Holes α)
  | _, [] => some b
  | i, x :: xs => (write b i x).bind fun b => writeAll b (i + 1) xs

variable {b b' : Holes α} {q : List α} {i : ℕ} {x : α} {xs : List α}

theorem fills_of_write (h : write b i x = some b') : Fills q b' ↔ Fills q b ∧ q[i]? = some x := by
  unfold write at h
  split at h
  case h_1 => cases h
  case h_2 hfree =>
    obtain rfl := Option.some.inj h
    have hi := (List.getElem?_eq_some_iff.1 hfree).1
    constructor
    · intro hq
      refine ⟨⟨hq.length.trans (List.length_set ..), fun {j y} hj => hq.settled ?_⟩, hq.settled ?_⟩
      · rw [List.getElem?_set_ne, hj]
        rintro rfl
        cases hfree.symm.trans hj
      · rw [List.getElem?_set_self hi]
    · rintro ⟨hq, hx⟩
      refine ⟨hq.length.trans (List.length_set ..).symm, fun {j y} hj => ?_⟩
      by_cases hij : i = j
      · subst hij
        rw [List.getElem?_set_self hi] at hj
        rw [hx, Option.some.inj hj]
      · rw [List.getElem?_set_ne hij] at hj
        exact hq.settled hj
  case h_3 y hy =>
    split at h
    case isTrue heq =>
      obtain rfl := Option.some.inj h
      rw [heq] at hy
      exact ⟨fun hq => ⟨hq, hq.settled hy⟩, And.left⟩
    case isFalse => cases h

theorem exists_write (hq : Fills q b) (hx : q[i]? = some x) : ∃ b', write b i x = some b' := by
  have hi : i < b.length := hq.length ▸ (List.getElem?_eq_some_iff.1 hx).1
  unfold write
  rw [List.getElem?_eq_getElem hi]
  cases hb : b[i] with
  | none => exact ⟨_, rfl⟩
  | some y =>
    have hy : q[i]? = some y := hq.settled (by rw [List.getElem?_eq_getElem hi, hb])
    obtain rfl := Option.some.inj (hy.symm.trans hx)
    exact ⟨b, if_pos rfl⟩

theorem fills_of_writeAll (h : writeAll b i xs = some b') :
    Fills q b' ↔ Fills q b ∧ xs <+: q.drop i := by
  induction xs generalizing b i with
  | nil =>
    obtain rfl := Option.some.inj h
    simp
  | cons x xs ih =>
    obtain ⟨b₁, hb₁, hrest⟩ := Option.bind_eq_some_iff.1 h
    rw [ih hrest, fills_of_write hb₁, cons_prefix_drop, and_assoc]

theorem exists_writeAll (hq : Fills q b) (hxs : xs <+: q.drop i) :
    ∃ b', writeAll b i xs = some b' ∧ Fills q b' := by
  induction xs generalizing b i with
  | nil => exact ⟨b, rfl, hq⟩
  | cons x xs ih =>
    obtain ⟨hx, hrest⟩ := cons_prefix_drop.1 hxs
    obtain ⟨b₁, hb₁⟩ := exists_write hq hx
    obtain ⟨b', hb', hq'⟩ := ih ((fills_of_write hb₁).2 ⟨hq, hx⟩) hrest
    exact ⟨b', Option.bind_eq_some_iff.2 ⟨b₁, hb₁, hb'⟩, hq'⟩

end Write

theorem exists_fills [Inhabited α] (b : Holes α) : ∃ q, Fills q b := by
  refine ⟨b.map fun o => o.getD default, by simp, fun {i x} hx => ?_⟩
  rw [List.getElem?_map, hx]
  rfl

theorem fills_behind {p q : List α} {m : ℕ} :
    Fills q (behind p m) ↔ ∃ x : List α, x.length = m ∧ q = p ++ x := by
  constructor
  · intro hq
    have hlen := hq.length
    rw [behind, List.length_append, List.length_map, List.length_replicate] at hlen
    have hp : p <+: q := by
      rw [List.prefix_iff_getElem?]
      intro i hi
      refine hq.settled ?_
      rw [behind, List.getElem?_append_left (by simpa using hi)]
      simp [hi]
    obtain ⟨x, rfl⟩ := hp
    rw [List.length_append] at hlen
    exact ⟨x, by omega, rfl⟩
  · rintro ⟨x, rfl, rfl⟩
    refine ⟨by simp [behind], fun {i y} hy => ?_⟩
    rw [behind, List.getElem?_append] at hy
    split at hy
    case isTrue hi =>
      rw [List.length_map] at hi
      rw [List.getElem?_append_left hi]
      rw [List.getElem?_map, List.getElem?_eq_getElem hi] at hy
      rw [List.getElem?_eq_getElem hi, ← Option.some.inj (Option.some.inj hy)]
    case isFalse =>
      rw [List.getElem?_replicate] at hy
      split at hy
      all_goals cases hy

end Holes

end ScoreboardCtrl.Lib
