import Mathlib.Data.List.Infix
import ScoreboardCtrl.Lib.Rust

/-!
# `str`

* `isCharBoundary_iff` — the boundaries of a string are the places where it comes apart in two;
* `sliceTo_returns_iff` — a slice returns if it ends there, and no other does.
-/

namespace ScoreboardCtrl.Lib.Rust

/-- `s.starts_with(t)` -/
def startsWith (s t : String) : Bool := (byteStr t).isPrefixOf (byteStr s)

/-- `s.contains(t)` -/
def contains (s t : String) : Bool := decide (byteStr t <:+: byteStr s)

/-- `s.is_char_boundary(n)` -/
def isCharBoundary (s : String) (n : ℕ) : Bool := String.Pos.Raw.isValid s ⟨n⟩

theorem isValidUTF8_of_isCharBoundary {s : String} {n : ℕ} (h : isCharBoundary s n = true) :
    (s.toByteArray.extract 0 n).IsValidUTF8 :=
  (String.Pos.Raw.isValid_eq_true_iff.1 h).isValidUTF8_extract_zero

/-- `&s[..n]` -/
def sliceTo (s : String) (n : ℕ) : Rust String :=
  if h : isCharBoundary s n = true then
    .ok (.ofByteArray (s.toByteArray.extract 0 n) (isValidUTF8_of_isCharBoundary h))
  else .error .boundary

theorem isCharBoundary_iff {s : String} {n : ℕ} :
    isCharBoundary s n = true ↔ ∃ pre post, s = pre ++ post ∧ pre.utf8ByteSize = n := by
  rw [isCharBoundary, String.Pos.Raw.isValid_eq_true_iff, String.Pos.Raw.isValid_iff_exists_append]
  constructor
  · rintro ⟨pre, post, rfl, hn⟩
    exact ⟨pre, post, rfl, (congrArg String.Pos.Raw.byteIdx hn).symm⟩
  · rintro ⟨pre, post, rfl, rfl⟩
    exact ⟨pre, post, rfl, rfl⟩

theorem sliceTo_returns_iff {s : String} {n : ℕ} :
    (∃ t, sliceTo s n = .ok t) ↔ ∃ pre post, s = pre ++ post ∧ pre.utf8ByteSize = n := by
  rw [← isCharBoundary_iff]
  by_cases h : isCharBoundary s n = true
  · exact iff_of_true ⟨_, dif_pos h⟩ h
  · refine iff_of_false ?_ h
    rintro ⟨t, ht⟩
    rw [sliceTo, dif_neg h] at ht
    cases ht

end ScoreboardCtrl.Lib.Rust
