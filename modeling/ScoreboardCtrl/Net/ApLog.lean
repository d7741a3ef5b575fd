import ScoreboardCtrl.Net.Name

/-!
# The network trace (`src/ap_log.rs`)

`formatQname` writes the name of a packet with dots into a buffer, for the log of `dns_task` and
`mdns_task`; `formatQname_returns` says that it returns on every packet and fills no more than the
buffer.
-/

namespace ScoreboardCtrl.Net

open Lib (Rust)
open Lib.Dns

/-- The locals of `format_qname` and the buffer it writes. -/
structure Format where
  i : ℕ
  o : ℕ
  hops : ℕ
  out : Bytes
  deriving DecidableEq, Repr

/-- `if o > 0 { out[o] = b'.'; o += 1; … }`; the test that follows is in the loop. -/
def putDot (o : ℕ) (out : Bytes) : Rust (ℕ × Bytes) :=
  if 0 < o then do
    let out ← Rust.write out o 46
    return (← Rust.add o 1, out)
  else pure (o, out)

/-- The `loop`; it leaves with `o` and the buffer where the source breaks. -/
def formatRound (pkt : Bytes) (s : Format) : Rust (Format ⊕ (ℕ × Bytes)) :=
  let hops := min (s.hops + 1) 255
  if 10 < hops ∨ pkt.length ≤ s.i ∨ s.out.length ≤ s.o then pure (.inr (s.o, s.out))
  else do
    let len := (← Rust.index pkt s.i).toNat
    if len = 0 then return .inr (s.o, s.out)
    else if len &&& 0xC0 = 0xC0 then
      let next ← Rust.add s.i 1
      if pkt.length ≤ next then return .inr (s.o, s.out)
      else
        let c ← Rust.index pkt next
        return .inl { s with hops := hops, i := (len &&& 0x3F) <<< 8 ||| c.toNat }
    else
      let next ← Rust.add s.i 1
      if pkt.length < (← Rust.add next len) then return .inr (s.o, s.out)
      else
        let (o, out) ← putDot s.o s.out
        if 0 < s.o ∧ out.length ≤ o then return .inr (o, out)
        else
          let n := min len (← Rust.sub out.length o)
          let label ← Rust.slice pkt next (← Rust.add next n)
          let stop ← Rust.add o n
          let out ← Rust.copyFrom out o stop label
          return .inl ⟨← Rust.add s.i (← Rust.add 1 len), stop, hops, out⟩

/-- Returns the number of bytes written, and the buffer. -/
def formatQname (pkt out : Bytes) : Rust (ℕ × Bytes) :=
  Rust.loop (formatRound pkt) 256 ⟨12, 0, 0, out⟩

def qtypeName : ℕ → String
  | 1 => "A"
  | 12 => "PTR"
  | 28 => "AAAA"
  | 255 => "ANY"
  | _ => "?"

/-- `core::str::from_utf8(text).unwrap_or("?")` -/
def textOr (text : Bytes) : String := (String.fromUTF8? ⟨text.toArray⟩).getD "?"

theorem putDot_returns {o : ℕ} {out : Bytes} (ho : o < out.length) (hout : out.length < 2 ^ 31) :
    (putDot o out).Returns fun r => r.1 ≤ r.2.length ∧ r.2.length = out.length := by
  unfold putDot
  split
  · rw [Rust.write_ok ho, Rust.ok_bind]
    refine .bind (.add (by omega)) fun o' ho' => .pure ?_
    rw [ho', List.length_set]
    exact ⟨ho, rfl⟩
  · exact .pure ⟨Nat.le_of_lt ho, rfl⟩

/-- **`format_qname` returns**, and fills the buffer up to what it returns at most. -/
theorem formatQname_returns {pkt out : Bytes} (hpkt : Rust.Sized pkt) (hout : Rust.Sized out) :
    (formatQname pkt out).Returns fun r => r.1 ≤ r.2.length ∧ r.2.length = out.length := by
  have hsize : pkt.length < 2 ^ 31 := hpkt
  have hsize' : out.length < 2 ^ 31 := hout
  refine Rust.Returns.loop
    (I := fun s : Format => s.hops ≤ 10 ∧ s.o ≤ s.out.length ∧ s.out.length = out.length)
    (μ := fun s : Format => 10 - s.hops)
    (Q := fun (_ : Format) (r : ℕ × Bytes) => r.1 ≤ r.2.length ∧ r.2.length = out.length)
    (fun s hs => ?_) ⟨by simp, by simp, rfl⟩ ?_
  swap
  · simp
  obtain ⟨i, o, hops, buf⟩ := s
  obtain ⟨h10, ho, hbuf⟩ := hs
  dsimp only at h10 ho hbuf
  have hmin : min (hops + 1) 255 = hops + 1 := by omega
  simp only [formatRound, hmin]
  by_cases hstop : 10 < hops + 1 ∨ pkt.length ≤ i ∨ buf.length ≤ o
  · rw [if_pos hstop]
    exact .pure ⟨ho, hbuf⟩
  rw [if_neg hstop]
  refine .bind (.index (by omega)) ?_
  intro b hb
  have hlt := b.toNat_lt
  by_cases h0 : b.toNat = 0
  · rw [if_pos h0]
    exact .pure ⟨ho, hbuf⟩
  rw [if_neg h0]
  by_cases h192 : b.toNat &&& 0xC0 = 0xC0
  · rw [if_pos h192]
    refine .bind (.add (by omega)) ?_
    intro next hnext
    rw [hnext]
    by_cases hend : pkt.length ≤ i + 1
    · rw [if_pos hend]
      exact .pure ⟨ho, hbuf⟩
    · rw [if_neg hend]
      refine .bind (.index (by omega)) fun c hc => .pure ?_
      exact ⟨⟨by dsimp only; omega, ho, hbuf⟩, by dsimp only; omega, fun _ hr => hr⟩
  rw [if_neg h192]
  refine .bind (.add (by omega)) ?_
  intro next hnext
  rw [hnext]
  refine .bind (.add (by omega)) ?_
  intro stop hstop'
  rw [hstop']
  by_cases hend : pkt.length < i + 1 + b.toNat
  · rw [if_pos hend]
    exact .pure ⟨ho, hbuf⟩
  rw [if_neg hend]
  refine .bind (putDot_returns (by omega) (by omega)) ?_
  intro r hr
  obtain ⟨o', buf'⟩ := r
  obtain ⟨hle', hbuf'⟩ := hr
  dsimp only at hle' hbuf' ⊢
  by_cases hfull : 0 < o ∧ buf'.length ≤ o'
  · rw [if_pos hfull]
    exact .pure ⟨hle', hbuf'.trans hbuf⟩
  rw [if_neg hfull, Rust.sub_ok hle', Rust.ok_bind]
  generalize hn : min b.toNat (buf'.length - o') = n
  refine .bind (.add (by omega)) ?_
  intro last hlast
  rw [hlast]
  refine .bind (.slice (by omega) (by omega)) ?_
  intro l hl
  have hllen : l.length = n := by
    rw [hl, List.length_drop, List.length_take]
    omega
  refine .bind (.add (by omega)) ?_
  intro stop hstop''
  rw [hstop'', Rust.copyFrom_ok (by omega) (by omega) (by omega), Rust.ok_bind]
  refine .bind (.add (by omega)) ?_
  intro d hd
  rw [hd]
  refine .bind (.add (by omega)) fun d hd => .pure ?_
  have hspl := Rust.length_splice (show o' + l.length ≤ buf'.length by omega)
  refine ⟨⟨by dsimp only; omega, ?_, ?_⟩, by dsimp only; omega, fun _ hr => hr⟩
  · dsimp only
    omega
  · dsimp only
    omega

end ScoreboardCtrl.Net
