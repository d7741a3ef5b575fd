import Mathlib.Algebra.Group.Nat.Defs
import Mathlib.Data.List.Basic
import Mathlib.Tactic.Common

/-!
# Computations that may panic

Rust code over slices: every index, slice and copy is checked, arithmetic on `usize` may overflow,
a loop may go on for ever. Such a computation returns a value or a `Fault`.

* `index`, `slice`, `write`, `copyFrom`, `fill`, `add`, `sub` — the checked operations, each with the
  condition under which it returns;
* `loop` — a `loop` with a bound on its rounds, and `hang` where the bound is reached;
* `Returns` — the computation returns a value with a property; `Returns.loop` is the rule of total
  correctness for loops: a variant that decreases below the bound, and what the rest of the loop
  does is what the loop does.

A `usize` has 32 bits, and a slice at most `isize::MAX` elements (`Sized`).
-/

namespace ScoreboardCtrl.Lib

/-- What ends a computation other than with a value. -/
inductive Fault where
  /-- an index or a slice out of range, a copy between different lengths -/
  | range
  | overflow
  /-- a `str` cut inside a character -/
  | boundary
  /-- a loop that does not end -/
  | hang
  deriving DecidableEq, Repr

abbrev Rust (α : Type) : Type := Except Fault α

namespace Rust

/-- The bytes of a literal. -/
def byteStr (s : String) : List UInt8 := s.toUTF8.data.toList

variable {α β σ ρ : Type}

/-! ### Operations -/

/-- `a[i]` -/
def index (a : List α) (i : ℕ) : Rust α :=
  match a[i]? with
  | some x => .ok x
  | none => .error .range

/-- `&a[lo..hi]` -/
def slice (a : List α) (lo hi : ℕ) : Rust (List α) :=
  if lo ≤ hi ∧ hi ≤ a.length then .ok ((a.take hi).drop lo) else .error .range

/-- `a[i] = x` -/
def write (a : List α) (i : ℕ) (x : α) : Rust (List α) :=
  if i < a.length then .ok (a.set i x) else .error .range

/-- `a` with `src` from `lo` on. -/
def splice (a : List α) (lo : ℕ) (src : List α) : List α :=
  a.take lo ++ src ++ a.drop (lo + src.length)

/-- `a[lo..hi].copy_from_slice(src)` -/
def copyFrom (a : List α) (lo hi : ℕ) (src : List α) : Rust (List α) :=
  if lo ≤ hi ∧ hi ≤ a.length ∧ src.length = hi - lo then .ok (splice a lo src)
  else .error .range

/-- `a[lo..hi].fill(x)` -/
def fill (a : List α) (lo hi : ℕ) (x : α) : Rust (List α) :=
  copyFrom a lo hi (List.replicate (hi - lo) x)

/-- `a + b` on `usize` -/
def add (a b : ℕ) : Rust ℕ := if a + b < 2 ^ 32 then .ok (a + b) else .error .overflow

/-- `a - b` on `usize` -/
def sub (a b : ℕ) : Rust ℕ := if b ≤ a then .ok (a - b) else .error .overflow

/-- `a[i₀] = x₀; a[i₁] = x₁; …` -/
def writeEach (a : List α) : List (ℕ × α) → Rust (List α)
  | [] => .ok a
  | (i, x) :: rest => do
    let a ← write a i x
    writeEach a rest

/-- `a[lo + k] = x₀; a[lo + (k + 1)] = x₁; …` -/
def writeFrom (a : List α) (lo k : ℕ) : List α → Rust (List α)
  | [] => .ok a
  | x :: xs => do
    let a ← write a (← add lo k) x
    writeFrom a lo (k + 1) xs

/-- `a.checked_add(b)` on `usize` -/
def checkedAdd (a b : ℕ) : Option ℕ := if a + b < 2 ^ 32 then some (a + b) else none

/-- `a.saturating_add(b)` on `usize` -/
def saturatingAdd (a b : ℕ) : ℕ := min (a + b) (2 ^ 32 - 1)

/-- A `loop`: a round goes on with a new state or leaves with a result. -/
def loop (round : σ → Rust (σ ⊕ ρ)) : ℕ → σ → Rust ρ
  | 0, _ => .error .hang
  | bound + 1, s => do
    match ← round s with
    | .inl s' => loop round bound s'
    | .inr r => pure r

/-- No slice is longer than `isize::MAX`. -/
def Sized (a : List α) : Prop := a.length < 2 ^ 31

instance (a : List α) : Decidable (Sized a) := inferInstanceAs (Decidable (a.length < 2 ^ 31))

theorem Sized.of_length {a b : List α} (ha : Sized a) (h : b.length = a.length) : Sized b := by
  rw [Sized, h]
  exact ha

/-! ### When operations return -/

theorem index_ok {a : List α} {i : ℕ} {x : α} (h : a[i]? = some x) : index a i = .ok x := by
  rw [index, h]

theorem slice_ok {a : List α} {lo hi : ℕ} (hlo : lo ≤ hi) (hhi : hi ≤ a.length) :
    slice a lo hi = .ok ((a.take hi).drop lo) := if_pos ⟨hlo, hhi⟩

theorem write_ok {a : List α} {i : ℕ} (h : i < a.length) (x : α) :
    write a i x = .ok (a.set i x) := if_pos h

theorem copyFrom_ok {a src : List α} {lo hi : ℕ} (hlo : lo ≤ hi) (hhi : hi ≤ a.length)
    (hsrc : src.length = hi - lo) : copyFrom a lo hi src = .ok (splice a lo src) :=
  if_pos ⟨hlo, hhi, hsrc⟩

theorem fill_ok {a : List α} {lo hi : ℕ} (hlo : lo ≤ hi) (hhi : hi ≤ a.length) (x : α) :
    fill a lo hi x = .ok (splice a lo (List.replicate (hi - lo) x)) :=
  copyFrom_ok hlo hhi List.length_replicate

theorem add_ok {a b : ℕ} (h : a + b < 2 ^ 32) : add a b = .ok (a + b) := if_pos h

theorem sub_ok {a b : ℕ} (h : b ≤ a) : sub a b = .ok (a - b) := if_pos h

theorem checkedAdd_some {a b : ℕ} (h : a + b < 2 ^ 32) : checkedAdd a b = some (a + b) :=
  if_pos h

theorem saturatingAdd_eq {a b : ℕ} (h : a + b < 2 ^ 32) : saturatingAdd a b = a + b := by
  unfold saturatingAdd
  omega

@[simp] theorem ok_bind (a : α) (f : α → Rust β) : (Except.ok a >>= f : Rust β) = f a := rfl

@[simp] theorem pure_eq (a : α) : (pure a : Rust α) = .ok a := rfl

theorem loop_inl {round : σ → Rust (σ ⊕ ρ)} {s s' : σ} (h : round s = .ok (.inl s')) (bound : ℕ) :
    loop round (bound + 1) s = loop round bound s' := by
  rw [loop, h]
  rfl

theorem loop_inr {round : σ → Rust (σ ⊕ ρ)} {s : σ} {r : ρ} (h : round s = .ok (.inr r))
    (bound : ℕ) : loop round (bound + 1) s = .ok r := by
  rw [loop, h]
  rfl

/-! ### Splicing -/

theorem length_splice {a src : List α} {lo : ℕ} (h : lo + src.length ≤ a.length) :
    (splice a lo src).length = a.length := by
  simp only [splice, List.length_append, List.length_take, List.length_drop]
  omega

theorem splice_nil (a : List α) (lo : ℕ) : splice a lo [] = a := by
  rw [splice, List.append_nil]
  exact List.take_append_drop lo a

theorem take_splice {a src : List α} {lo : ℕ} (hlo : lo ≤ a.length) :
    (splice a lo src).take (lo + src.length) = a.take lo ++ src := by
  have hlen : (a.take lo ++ src).length = lo + src.length := by
    rw [List.length_append, List.length_take]
    omega
  rw [splice, List.take_append_of_le_length (Nat.le_of_eq hlen.symm), ← hlen, List.take_length]

/-- A block in the middle is replaced. -/
theorem splice_block {a : List α} (pre mid post : List α) {src : List α} {lo : ℕ}
    (ha : a = pre ++ mid ++ post) (hlo : pre.length = lo) (hsrc : src.length = mid.length) :
    splice a lo src = pre ++ src ++ post := by
  subst ha hlo
  have htake : (pre ++ mid ++ post).take pre.length = pre := by
    rw [List.append_assoc, List.take_left]
  have hdrop : (pre ++ mid ++ post).drop (pre.length + mid.length) = post := by
    rw [← List.length_append, List.drop_left]
  rw [splice, hsrc, htake, hdrop]

theorem copyFrom_block {a : List α} (pre mid post : List α) {src : List α} {lo hi : ℕ}
    (ha : a = pre ++ mid ++ post) (hlo : pre.length = lo) (hhi : lo + mid.length = hi)
    (hsrc : src.length = mid.length) :
    copyFrom a lo hi src = .ok (pre ++ src ++ post) := by
  have hlen := congrArg List.length ha
  rw [List.length_append, List.length_append] at hlen
  rw [copyFrom_ok (by omega) (by omega) (by omega), splice_block pre mid post ha hlo hsrc]

theorem drop_splice {a src : List α} {lo : ℕ} (hlo : lo ≤ a.length) (k : ℕ) :
    (splice a lo src).drop (lo + src.length + k) = a.drop (lo + src.length + k) := by
  have hlen : (a.take lo ++ src).length = lo + src.length := by
    rw [List.length_append, List.length_take]
    omega
  rw [splice, ← hlen, List.drop_length_add_append, List.drop_drop, hlen]

theorem splice_splice {a xs ys : List α} {lo : ℕ} (hlo : lo ≤ a.length) :
    splice (splice a lo xs) (lo + xs.length) ys = splice a lo (xs ++ ys) := by
  rw [splice, take_splice hlo, drop_splice hlo, splice, List.length_append]
  simp [Nat.add_assoc]

theorem splice_again {a xs ys : List α} {lo : ℕ} (hlo : lo ≤ a.length)
    (hlen : xs.length = ys.length) : splice (splice a lo xs) lo ys = splice a lo ys := by
  have htake : (splice a lo xs).take lo = a.take lo := by
    rw [splice, List.append_assoc, List.take_left' (List.length_take_of_le hlo)]
  have hdrop : (splice a lo xs).drop (lo + ys.length) = a.drop (lo + ys.length) := by
    rw [← hlen]
    exact drop_splice hlo 0
  rw [splice, htake, hdrop, splice]

theorem set_eq_splice {a : List α} {i : ℕ} (h : i < a.length) (x : α) :
    a.set i x = splice a i [x] := by
  rw [splice, List.set_eq_take_cons_drop x h]
  simp

theorem writeFrom_ok {a : List α} (ha : Sized a) {lo k : ℕ} {xs : List α}
    (h : lo + k + xs.length ≤ a.length) : writeFrom a lo k xs = .ok (splice a (lo + k) xs) := by
  have hsize : a.length < 2 ^ 31 := ha
  induction xs generalizing a k with
  | nil => simp [writeFrom, splice]
  | cons x xs ih =>
    rw [List.length_cons] at h
    have hset : (a.set (lo + k) x).length = a.length := List.length_set
    rw [writeFrom, add_ok (by omega), ok_bind, write_ok (by omega), ok_bind,
      ih (by rw [Sized, hset]; exact ha) (by omega) (by omega)]
    congr 1
    have htake : (a.set (lo + k) x).take (lo + (k + 1)) = a.take (lo + k) ++ [x] := by
      rw [← Nat.add_assoc, List.take_add_one, List.take_set_of_le (Nat.le_refl _),
        List.getElem?_set_self (by omega)]
      rfl
    have hdrop : (a.set (lo + k) x).drop (lo + (k + 1) + xs.length) =
        a.drop (lo + k + (x :: xs).length) := by
      rw [List.drop_set_of_lt (by omega), List.length_cons]
      congr 1
      omega
    rw [splice, splice, htake, hdrop]
    simp

/-! ### Returning -/

/-- The computation returns a value with `P`. -/
def Returns (m : Rust α) (P : α → Prop) : Prop := ∃ a, m = .ok a ∧ P a

namespace Returns

variable {P Q : α → Prop} {m : Rust α}

theorem pure {a : α} (h : P a) : Returns (Pure.pure a : Rust α) P := ⟨a, rfl, h⟩

theorem bind {P : β → Prop} {f : α → Rust β} (hm : m.Returns Q)
    (hf : ∀ a, Q a → (f a).Returns P) : Returns (m >>= f) P := by
  obtain ⟨a, rfl, ha⟩ := hm
  exact hf a ha

theorem mono (hm : m.Returns Q) (h : ∀ a, Q a → P a) : m.Returns P := by
  obtain ⟨a, rfl, ha⟩ := hm
  exact ⟨a, rfl, h a ha⟩

theorem of_ok {a : α} (hm : Returns (.ok a : Rust α) P) : P a := by
  obtain ⟨b, hb, h⟩ := hm
  cases hb
  exact h

theorem post (hm : m.Returns P) {a : α} (ha : m = .ok a) : P a := of_ok (ha ▸ hm)

theorem index {a : List α} {i : ℕ} (h : i < a.length) :
    (Rust.index a i).Returns fun x => a[i]? = some x :=
  ⟨a[i], index_ok (List.getElem?_eq_getElem h), List.getElem?_eq_getElem h⟩

theorem slice {a : List α} {lo hi : ℕ} (hlo : lo ≤ hi) (hhi : hi ≤ a.length) :
    (Rust.slice a lo hi).Returns fun s => s = (a.take hi).drop lo := ⟨_, slice_ok hlo hhi, rfl⟩

theorem add {a b : ℕ} (h : a + b < 2 ^ 32) : (Rust.add a b).Returns fun c => c = a + b :=
  ⟨_, add_ok h, rfl⟩

/-- **The rule of loops.** Every round keeps `I` and lowers the variant `μ`, or leaves with what
`Q` asks; what the rest of the loop returns is then what the loop returns. -/
theorem loop {round : σ → Rust (σ ⊕ ρ)} {I : σ → Prop} {μ : σ → ℕ} {Q : σ → ρ → Prop}
    (hround : ∀ s, I s → (round s).Returns fun x => match x with
      | .inl s' => I s' ∧ μ s' < μ s ∧ ∀ r, Q s' r → Q s r
      | .inr r => Q s r)
    {bound : ℕ} {s : σ} (hs : I s) (hbound : μ s < bound) :
    (Rust.loop round bound s).Returns (Q s) := by
  induction bound generalizing s with
  | zero => omega
  | succ bound ih =>
    refine .bind (hround s hs) ?_
    intro x hx
    cases x with
    | inl s' =>
      obtain ⟨hs', hlt, hQ⟩ := hx
      exact (ih hs' (by omega)).mono hQ
    | inr r => exact .pure hx

end Returns

end Rust

end ScoreboardCtrl.Lib
