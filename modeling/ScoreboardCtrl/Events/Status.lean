import ScoreboardCtrl.State

/-!
# The status snapshot (`TimeStr`, `StatusJson`, `status_of` in `src/main.rs`)

What `GET /api/status` answers and what an event stream writes. The snapshot shows all of the
visible tuple: `statusOf_visible` reads it back.
-/

namespace ScoreboardCtrl

/-- MM:SS as five ASCII bytes. -/
structure TimeStr where
  buf : Vector UInt8 5
  deriving DecidableEq, Repr

namespace TimeStr

/-- The ASCII digit of `n < 10`. -/
def digit (n : ℕ) : UInt8 := 48 + UInt8.ofNat n

def fromParts (min sec : ℕ) : TimeStr :=
  let min := Min.min min 99
  let sec := Min.min sec 59
  ⟨#v[digit (min / 10), digit (min % 10), 58, digit (sec / 10), digit (sec % 10)]⟩

def value (b : UInt8) : ℕ := (b - 48).toNat

/-- The minutes and seconds that the five bytes show. -/
def parts (t : TimeStr) : ℕ × ℕ :=
  (10 * value t.buf[0] + value t.buf[1], 10 * value t.buf[3] + value t.buf[4])

theorem value_digit {n : ℕ} (h : n < 10) : value (digit n) = n := by
  unfold value digit
  rw [UInt8.add_comm, UInt8.add_sub_cancel, UInt8.toNat_ofNat']
  exact Nat.mod_eq_of_lt (by omega)

theorem value_two_digits {n : ℕ} (h : n < 100) :
    10 * value (digit (n / 10)) + value (digit (n % 10)) = n := by
  rw [value_digit (by omega), value_digit (by omega)]
  omega

theorem parts_fromParts (min sec : ℕ) :
    (fromParts min sec).parts = (Min.min min 99, Min.min sec 59) := by
  have hmin := value_two_digits (n := Min.min min 99) (by omega)
  have hsec := value_two_digits (n := Min.min sec 59) (by omega)
  exact Prod.ext hmin hsec

end TimeStr

/-- What the build fixes: `cfg!(feature = "simulate")`, `VERSION`, `GIT_SHORT`, `GIT_DATE`. -/
structure Release where
  sim : Bool
  ver : String
  git : String
  date : String
  deriving DecidableEq, Repr

/-- A hardware build. -/
def firstRelease : Release := ⟨false, "0.1.0", "0000000", "2024-01-01"⟩

structure StatusJson where
  time : TimeStr
  running : Bool
  home : ℕ
  away : ℕ
  led : Bool
  sim : Bool
  ver : String
  git : String
  date : String
  ageMs : ℕ
  deriving DecidableEq, Repr

def statusOf (rel : Release) (s : ScoreboardState) (now : ℕ) : StatusJson where
  time := .fromParts s.minutes s.seconds
  running := s.running
  home := s.home
  away := s.away
  led := s.led
  sim := rel.sim
  ver := rel.ver
  git := rel.git
  date := rel.date
  ageMs := s.ageMs now

/-- The visible tuple that a phone reads off a snapshot. -/
def StatusJson.visible (body : StatusJson) : Visible :=
  ⟨body.time.parts.1, body.time.parts.2, body.running, body.home, body.away, body.led⟩

/-- A snapshot shows the visible tuple of a board whose MM:SS is in range. -/
theorem statusOf_visible {rel : Release} {s : ScoreboardState} {now : ℕ} (hmin : s.minutes ≤ 99)
    (hsec : s.seconds ≤ 59) : (statusOf rel s now).visible = s.visible := by
  unfold StatusJson.visible statusOf
  rw [TimeStr.parts_fromParts, Nat.min_eq_left hmin, Nat.min_eq_left hsec]
  rfl

end ScoreboardCtrl
