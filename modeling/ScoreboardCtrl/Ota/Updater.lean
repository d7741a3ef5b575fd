import Mathlib.Data.Nat.Notation
import Mathlib.Tactic.Common

/-!
# The firmware updater

What `src/ota.rs` uses of embassy-boot, which is not part of the repository: the STATE and DFU
partitions and the two calls of `BlockingFirmwareUpdater` that change them.

* `Updater` — the calls, as relations, over what one updater remembers between them;
* `Updater.Contract` — what the upload relies on;
* `sectorUpdater` — the updater of the crate where no flash call fails.
-/

namespace ScoreboardCtrl

/-- `ERASE_SIZE` of the RP2040 flash. -/
def eraseSize : ℕ := 4096

/-- What the bootloader finds in the STATE partition. -/
inductive BootState where
  | boot
  | swap
  | revert
  | dfuDetach
  deriving DecidableEq, Repr

structure Partitions where
  state : BootState
  /-- the DFU partition, by offset -/
  dfu : ℕ → UInt8

/-- The bytes `[offset, offset + len)`. -/
def InChunk (offset len a : ℕ) : Prop := offset ≤ a ∧ a < offset + len

instance (offset len a : ℕ) : Decidable (InChunk offset len a) :=
  inferInstanceAs (Decidable (_ ∧ _))

/-- The byte `a` lies in a sector of which `[offset, offset + len)` has a byte. -/
def InSectors (offset len a : ℕ) : Prop :=
  0 < len ∧ offset / eraseSize ≤ a / eraseSize ∧ a / eraseSize ≤ (offset + len - 1) / eraseSize

instance (offset len a : ℕ) : Decidable (InSectors offset len a) :=
  inferInstanceAs (Decidable (_ ∧ _ ∧ _))

/-- A firmware updater that remembers a `μ` from call to call. -/
structure Updater (μ : Type) where
  new : μ
  /-- `write_firmware(offset, data)`; the answer tells whether it was `Ok` -/
  write : Partitions → μ → (offset : ℕ) → (data : List UInt8) → Bool → Partitions → μ → Prop
  /-- `mark_updated()` -/
  mark : Partitions → μ → Bool → Partitions → μ → Prop

/-- What the upload relies on. A write that fails may have erased and written part of its
sectors, unless it was refused for the sake of STATE. -/
structure Updater.Contract {μ : Type} (U : Updater μ) : Prop where
  /-- a successful write found STATE booted, stores the data, and erases at most its sectors -/
  write_ok : ∀ {p m offset data p' m'}, U.write p m offset data true p' m' →
    p.state = .boot ∧ p'.state = .boot ∧
      (∀ j b, data[j]? = some b → p'.dfu (offset + j) = b) ∧
      ∀ a, ¬ InChunk offset data.length a →
        p'.dfu a = p.dfu a ∨ InSectors offset data.length a ∧ p'.dfu a = 0xFF
  write_err : ∀ {p m offset data p' m'}, U.write p m offset data false p' m' →
    p'.state = p.state ∧ (p.state ≠ .boot → p'.dfu = p.dfu) ∧
      ∀ a, ¬ InSectors offset data.length a → p'.dfu a = p.dfu a
  mark_ok : ∀ {p m p' m'}, U.mark p m true p' m' → p'.state = .swap ∧ p'.dfu = p.dfu
  mark_err : ∀ {p m p' m'}, U.mark p m false p' m' → p' = p

namespace Updater.Contract

variable {μ : Type} {U : Updater μ} (hU : U.Contract)

include hU

/-- Where STATE is not booted, no write changes anything. -/
theorem write_refused {p m offset data ok p' m'} (h : U.write p m offset data ok p' m')
    (hp : p.state ≠ .boot) : ok = false ∧ p' = p := by
  cases ok with
  | true => exact absurd (hU.write_ok h).1 hp
  | false =>
    obtain ⟨hstate, hdfu, -⟩ := hU.write_err h
    refine ⟨rfl, ?_⟩
    have hd := hdfu hp
    cases p
    cases p'
    simp_all

theorem write_state {p m offset data ok p' m'} (h : U.write p m offset data ok p' m') :
    p'.state = p.state := by
  cases ok with
  | true =>
    obtain ⟨hp, hp', -⟩ := hU.write_ok h
    rw [hp, hp']
  | false => exact (hU.write_err h).1

/-- A write changes bytes of its sectors only. -/
theorem write_frame {p m offset data ok p' m'} (h : U.write p m offset data ok p' m') {a : ℕ}
    (ha : ¬ InSectors offset data.length a) : p'.dfu a = p.dfu a := by
  cases ok with
  | false => exact (hU.write_err h).2.2 a ha
  | true =>
    obtain ⟨-, -, -, hother⟩ := hU.write_ok h
    have hchunk : ¬ InChunk offset data.length a := by
      rintro ⟨hlo, hhi⟩
      refine ha ⟨by omega, Nat.div_le_div_right hlo, Nat.div_le_div_right (by omega)⟩
    rcases hother a hchunk with hsame | ⟨hin, -⟩
    · exact hsame
    · exact absurd hin ha

/-- A chunk at the start of a sector leaves everything before it alone. -/
theorem write_below {p m offset data ok p' m'} (h : U.write p m offset data ok p' m')
    (hoff : offset % eraseSize = 0) {a : ℕ} (ha : a < offset) : p'.dfu a = p.dfu a := by
  refine hU.write_frame h ?_
  rintro ⟨-, hlo, -⟩
  unfold eraseSize at hoff hlo
  omega

end Updater.Contract

/-! ### The updater of the crate -/

/-- After erasing the sectors of the chunk, all but `lastErased`, and writing the chunk. -/
def writeSectors (lastErased : Option ℕ) (dfu : ℕ → UInt8) (offset : ℕ) (data : List UInt8)
    (a : ℕ) : UInt8 :=
  if InChunk offset data.length a then data.getD (a - offset) 0
  else if InSectors offset data.length a ∧ lastErased ≠ some (a / eraseSize) then 0xFF
  else dfu a

/-- An updater of the crate, on a flash that does not fail: it remembers the sector it erased
last, refuses to write unless STATE is booted, and marks an update by a swap request. -/
def sectorUpdater : Updater (Option ℕ) where
  new := none
  write p lastErased offset data ok p' lastErased' :=
    if p.state = .boot then
      ok = true ∧ p' = ⟨.boot, writeSectors lastErased p.dfu offset data⟩ ∧
        lastErased' = if data = [] then lastErased
          else some ((offset + data.length - 1) / eraseSize)
    else ok = false ∧ p' = p ∧ lastErased' = lastErased
  mark p lastErased ok p' lastErased' :=
    ok = true ∧ p' = { p with state := .swap } ∧ lastErased' = lastErased

theorem sectorUpdater_contract : sectorUpdater.Contract where
  write_ok := by
    intro p m offset data p' m' h
    simp only [sectorUpdater] at h
    split at h
    · next hp =>
      obtain ⟨-, rfl, -⟩ := h
      refine ⟨hp, rfl, fun j b hj => ?_, fun a ha => ?_⟩
      · have hlt : j < data.length := (List.getElem?_eq_some_iff.1 hj).1
        have hin : InChunk offset data.length (offset + j) := ⟨by omega, by omega⟩
        simp [writeSectors, hin, hj]
      · show writeSectors m p.dfu offset data a = p.dfu a ∨
          InSectors offset data.length a ∧ writeSectors m p.dfu offset data a = 0xFF
        by_cases hs : InSectors offset data.length a ∧ m ≠ some (a / eraseSize)
        · exact .inr ⟨hs.1, by simp [writeSectors, ha, hs]⟩
        · exact .inl (by simp [writeSectors, ha, hs])
    · exact absurd h.1 (by decide)
  write_err := by
    intro p m offset data p' m' h
    simp only [sectorUpdater] at h
    split at h
    · exact absurd h.1 (by decide)
    · obtain ⟨-, rfl, -⟩ := h
      exact ⟨rfl, fun _ => rfl, fun _ _ => rfl⟩
  mark_ok := by
    rintro p m p' m' ⟨-, rfl, -⟩
    exact ⟨rfl, rfl⟩
  mark_err := by
    rintro p m p' m' ⟨h, -⟩
    exact absurd h (by decide)

end ScoreboardCtrl
