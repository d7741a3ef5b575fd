import Mathlib.Data.List.Pairwise
import Mathlib.Tactic.Common

/-!
# Memory written piece by piece

A piece says what stands at some addresses; pieces are written one over the other.

* `says_overlay` — at an address that a piece speaks of stands what a piece says;
* `intact_overlay_iff` — what every piece says stays exactly where no two pieces disagree.
-/

namespace ScoreboardCtrl.Lib.Overlay

variable {α β : Type} {ps qs : List (α → Option β)} {a : α} {x : β}

/-- One of the pieces says `x` of `a`. -/
def Says (ps : List (α → Option β)) (a : α) (x : β) : Prop := ∃ p ∈ ps, p a = some x

/-- The pieces do not disagree on what they say. -/
def Agree (ps : List (α → Option β)) : Prop := ∀ a x y, Says ps a x → Says ps a y → x = y

/-- The memory holds what the pieces say. -/
def Intact (mem : α → β) (ps : List (α → Option β)) : Prop := ∀ a x, Says ps a x → mem a = x

def write (mem : α → β) (p : α → Option β) : α → β := fun a => (p a).getD (mem a)

/-- The pieces are written in order. -/
def overlay (mem : α → β) (ps : List (α → Option β)) : α → β := ps.foldl write mem

theorem says_cons {p : α → Option β} : Says (p :: ps) a x ↔ p a = some x ∨ Says ps a x := by
  simp [Says]

theorem says_append : Says (ps ++ qs) a x ↔ Says ps a x ∨ Says qs a x := by
  simp only [Says, List.mem_append, or_and_right, exists_or]

theorem says_overlay (mem : α → β) (h : Says ps a x) : Says ps a (overlay mem ps a) := by
  have hall (mem : α → β) : Says ps a (overlay mem ps a) ∨
      (∀ x, ¬ Says ps a x) ∧ overlay mem ps a = mem a := by
    clear h
    induction ps generalizing mem with
    | nil => exact .inr ⟨fun x ⟨p, hp, _⟩ => (List.not_mem_nil hp).elim, rfl⟩
    | cons p ps ih =>
      have hcons : overlay mem (p :: ps) = overlay (write mem p) ps := rfl
      simp only [says_cons, hcons]
      obtain h | ⟨hnone, hsame⟩ := ih (write mem p)
      · exact .inl (.inr h)
      · rw [hsame, write]
        cases hp : p a with
        | none => exact .inr ⟨fun x h => h.elim (by rintro ⟨⟩) (hnone x), rfl⟩
        | some y => exact .inl (.inl rfl)
  obtain h' | ⟨hnone, -⟩ := hall mem
  · exact h'
  · exact absurd h (hnone x)

/-- **What is written last decides**: all pieces stay exactly if they agree. -/
theorem intact_overlay_iff (mem : α → β) : Intact (overlay mem ps) ps ↔ Agree ps := by
  constructor
  · intro h a x y hx hy
    exact (h a x hx).symm.trans (h a y hy)
  · intro h a x hx
    exact h a _ _ (says_overlay mem hx) hx

/-- Only what the pieces say counts. -/
theorem intact_congr (h : ∀ a x, Says ps a x ↔ Says qs a x) (mem : α → β) :
    Intact mem ps ↔ Intact mem qs := by
  simp only [Intact, h]

theorem agree_congr (h : ∀ a x, Says ps a x ↔ Says qs a x) : Agree ps ↔ Agree qs := by
  simp only [Agree, h]

/-- Two pieces do not disagree. -/
def Agreeing (p q : α → Option β) : Prop := ∀ a x y, p a = some x → q a = some y → x = y

/-- Pieces that agree two by two agree. -/
theorem agree_of_pairwise (h : ps.Pairwise Agreeing) : Agree ps := by
  have : Std.Symm (@Agreeing α β) := ⟨fun p q hpq a x y hx hy => (hpq a y x hy hx).symm⟩
  have hself (p : α → Option β) : Agreeing p p := fun a x y hx hy => Option.some.inj (hx.symm.trans hy)
  rintro a x y ⟨p, hp, hx⟩ ⟨q, hq, hy⟩
  exact h.forall_of_forall (fun p _ => hself p) hp hq a x y hx hy

/-! ### Pieces of bytes -/

/-- The bytes from `base` on. -/
def piece (base : ℕ) (bytes : List β) : ℕ → Option β :=
  fun a => if base ≤ a then bytes[a - base]? else none

theorem piece_bounds {base a : ℕ} {bytes : List β} {x : β} (h : piece base bytes a = some x) :
    base ≤ a ∧ a < base + bytes.length := by
  unfold piece at h
  split at h
  · have := (List.getElem?_eq_some_iff.1 h).1
    omega
  · cases h

theorem piece_append {base a : ℕ} {x : β} (xs ys : List β) : piece base (xs ++ ys) a = some x ↔
    piece base xs a = some x ∨ piece (base + xs.length) ys a = some x := by
  unfold piece
  by_cases hbase : base ≤ a
  · rw [if_pos hbase, if_pos hbase]
    by_cases hfirst : a - base < xs.length
    · rw [List.getElem?_append_left hfirst, if_neg (by omega)]
      simp
    · have hnone : xs[a - base]? = none := List.getElem?_eq_none (Nat.le_of_not_lt hfirst)
      rw [List.getElem?_append_right (Nat.le_of_not_lt hfirst), if_pos (by omega), hnone,
        Nat.sub_sub]
      simp
  · rw [if_neg hbase, if_neg hbase, if_neg (by omega)]
    simp

end ScoreboardCtrl.Lib.Overlay
