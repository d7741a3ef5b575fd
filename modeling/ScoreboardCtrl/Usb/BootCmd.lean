import ScoreboardCtrl.Lib.Restart
import ScoreboardCtrl.Lib.Rust

/-!
# `ENTERBOOTLOADER` over USB CDC

`BootCmd::handle_data` (`src/main.rs`) looks for the command in what is received, chunk by chunk, and
keeps how much of it was seen in `MATCH`. `CdcCmd` of `examples/uart-test.rs` has the same loop.

* `matchData_hits` — the loop over a chunk is the matcher of `Lib/Restart.lean`;
* `swallowed_iff` — the letters of the command that may swallow its first one;
* `enterbootloader_iff` — a hit is reported for every command received, exactly when one of them
  was not swallowed.
-/

namespace ScoreboardCtrl.Usb

open Lib (Rust)
open Lib.Restart

/-- `CMD` -/
def bootCmd : List UInt8 := Rust.byteStr "ENTERBOOTLOADER"

/-- The `for` of `handle_data`, with `n` in `MATCH`: whether there was a hit, and what `MATCH` holds
then. A hit leaves the rest of the data. -/
def matchData (cmd : List UInt8) (n : ℕ) : List UInt8 → Bool × ℕ
  | [] => (false, n)
  | b :: data =>
    if n < cmd.length ∧ cmd[n]? = some b then
      if n + 1 = cmd.length then (true, 0) else matchData cmd (n + 1) data
    else if cmd[0]? = some b then matchData cmd 1 data
    else matchData cmd 0 data

def BootCmd.handleData (n : ℕ) (data : List UInt8) : Bool × ℕ := matchData bootCmd n data

/-- Whether a hit was reported since boot, and what `MATCH` holds. -/
def BootCmd.receive (s : Bool × ℕ) (data : List UInt8) : Bool × ℕ :=
  let (hit, n) := BootCmd.handleData s.2 data
  (s.1 || hit, n)

def BootCmd.received (chunks : List (List UInt8)) : Bool × ℕ := chunks.foldl receive (false, 0)

/-! ### One chunk -/

theorem matchData_hits {cmd : List UInt8} {n : ℕ} (hn : n < cmd.length) (data : List UInt8) :
    ((matchData cmd n data).1 = true ↔ Hits cmd n data) ∧
      ((matchData cmd n data).1 = false → (matchData cmd n data).2 = run cmd n data) := by
  induction data generalizing n with
  | nil =>
    rw [hits_nil]
    refine ⟨⟨by simp [matchData], fun h => ?_⟩, fun _ => rfl⟩
    omega
  | cons b data ih =>
    have hrun : run cmd n (b :: data) = run cmd (step cmd n b) data := rfl
    have hcons : Hits cmd n (b :: data) ↔ Hits cmd (step cmd n b) data := by
      rw [hits_cons]
      exact ⟨fun h => h.resolve_left (Nat.ne_of_lt hn), .inr⟩
    rw [hrun, hcons, matchData, step]
    by_cases hgo : cmd[n]? = some b
    · rw [if_pos ⟨hn, hgo⟩, if_pos hgo]
      by_cases hlast : n + 1 = cmd.length
      · rw [if_pos hlast, hlast]
        exact ⟨⟨fun _ => ⟨[], data, rfl, rfl⟩, fun _ => rfl⟩, by rintro ⟨⟩⟩
      · rw [if_neg hlast]
        exact ih (by omega)
    · rw [if_neg fun h => hgo h.2, if_neg hgo]
      by_cases hstart : cmd[0]? = some b
      · rw [if_pos hstart, if_pos hstart]
        by_cases hone : cmd.length = 1
        · -- a first letter goes on from zero
          obtain rfl : n = 0 := by omega
          exact absurd hstart hgo
        · exact ih (by omega)
      · rw [if_neg hstart, if_neg hstart]
        exact ih (by omega)

/-! ### All chunks -/

theorem received_hits (chunks : List (List UInt8)) :
    ((BootCmd.received chunks).1 = true ↔ Hits bootCmd 0 chunks.flatten) ∧
      ((BootCmd.received chunks).1 = false →
        (BootCmd.received chunks).2 = run bootCmd 0 chunks.flatten) := by
  have hlen : 0 < bootCmd.length := by decide +kernel
  induction chunks using List.reverseRecOn with
  | nil =>
    refine ⟨⟨by simp [BootCmd.received], fun h => ?_⟩, fun _ => rfl⟩
    exact absurd (hits_nil.1 h) (Nat.ne_of_lt hlen)
  | append_singleton chunks data ih =>
    obtain ⟨hhits, hmatch⟩ := ih
    have hflat : (chunks ++ [data]).flatten = chunks.flatten ++ data := by simp
    have hstep : BootCmd.received (chunks ++ [data]) =
        BootCmd.receive (BootCmd.received chunks) data := List.foldl_append
    rw [hflat, hits_append, run_append, hstep]
    generalize BootCmd.received chunks = s at hhits hmatch ⊢
    obtain ⟨hit, n⟩ := s
    cases hit with
    | true =>
      refine ⟨⟨fun _ => .inl (hhits.1 rfl), fun _ => rfl⟩, ?_⟩
      intro h
      cases h
    | false =>
      have hnone : ¬ Hits bootCmd 0 chunks.flatten := fun h => Bool.noConfusion (hhits.2 h)
      have hn : n = run bootCmd 0 chunks.flatten := hmatch rfl
      have hlt : n < bootCmd.length := by
        have hle := run_le (Nat.zero_le _) hlen chunks.flatten
        have hne : run bootCmd 0 chunks.flatten ≠ bootCmd.length := fun h =>
          hnone ⟨chunks.flatten, [], by simp, h⟩
        omega
      obtain ⟨hdata, hkept⟩ := matchData_hits hlt data
      rw [← hn]
      refine ⟨?_, hkept⟩
      exact hdata.trans ⟨.inr, fun h => h.resolve_left hnone⟩

/-- Which letters of the command are its first one again: the fourth and the fourteenth. -/
theorem swallowed_iff (past : List UInt8) :
    Swallowed bootCmd past ↔ ∃ older, (past = older ++ Rust.byteStr "ENT" ∨
      past = older ++ Rust.byteStr "ENTERBOOTLOAD") ∧ ¬ Swallowed bootCmd older := by
  have hlen : bootCmd.length = 15 := by decide +kernel
  have hent : bootCmd.take 3 = Rust.byteStr "ENT" := by decide +kernel
  have hload : bootCmd.take 13 = Rust.byteStr "ENTERBOOTLOAD" := by decide +kernel
  have hfirst : ∀ j : Fin 15, 0 < j.val → bootCmd[j.val]? = bootCmd[0]? → j.val = 3 ∨ j.val = 13 := by
    decide +kernel
  rw [Swallowed]
  constructor
  · rintro ⟨j, older, ⟨hj, hlt, heq⟩, hsame, hold⟩
    rw [hlen] at hlt
    obtain rfl | rfl := hfirst ⟨j, hlt⟩ hj hsame
    · exact ⟨older, .inl (hent ▸ heq), hold⟩
    · exact ⟨older, .inr (hload ▸ heq), hold⟩
  · rintro ⟨older, heq | heq, hold⟩
    · exact ⟨3, older, ⟨by omega, by omega, hent ▸ heq⟩, by decide +kernel, hold⟩
    · exact ⟨13, older, ⟨by omega, by omega, hload ▸ heq⟩, by decide +kernel, hold⟩

/-- **A hit means a command**: of the chunks received so far the handler has reported a hit exactly
if they hold a command, at every time, when each time they hold one also one that was not swallowed. -/
theorem enterbootloader_iff (chunks : List (List UInt8)) :
    (∀ k, (BootCmd.received (chunks.take k)).1 = true ↔ bootCmd <:+: (chunks.take k).flatten) ↔
      ∀ k, bootCmd <:+: (chunks.take k).flatten → ∃ past rest,
        (chunks.take k).flatten = past ++ bootCmd ++ rest ∧ ¬ Swallowed bootCmd past := by
  have hreported (k : ℕ) : (BootCmd.received (chunks.take k)).1 = true ↔ ∃ past rest,
      (chunks.take k).flatten = past ++ bootCmd ++ rest ∧ ¬ Swallowed bootCmd past :=
    (received_hits _).1.trans (hits_iff (by decide +kernel))
  constructor
  · intro hexact k hcmd
    exact (hreported k).1 ((hexact k).2 hcmd)
  · intro hlive k
    rw [hreported k]
    constructor
    · rintro ⟨past, rest, heq, -⟩
      exact ⟨past, rest, heq.symm⟩
    · exact hlive k

/-- Three letters of the command before the command. -/
theorem enterbootloader_swallowed :
    bootCmd <:+: [Rust.byteStr "ENTENTERBOOTLOADER"].flatten ∧
      (BootCmd.received [Rust.byteStr "ENTENTERBOOTLOADER"]).1 = false := by
  refine ⟨⟨Rust.byteStr "ENT", [], by decide +kernel⟩, by decide +kernel⟩

end ScoreboardCtrl.Usb
