import ScoreboardCtrl.Lib.Lru
import ScoreboardCtrl.Net.Dhcp

/-!
# The lease table

* `pickSlot_picks` and `slotForMac_ok` — the slot a client gets, and the only change of the table;
* `Tracks` — the table holds the eight clients handled last, each with the time of its last
  datagram; `Tracks.step` — `slotForMac` keeps that.
-/

namespace ScoreboardCtrl.Net

open Lib (Rust)
open Lib.Dns (Bytes)

/-! ### The slot of a client -/

/-- The slot `slot_for_mac` writes: that of the address, or the first empty one, or the oldest. -/
def pickSlot (leases : List Lease) (mac : Mac) : ℕ :=
  match leases.findIdx? fun l => l.mac == mac with
  | some i => i
  | none =>
    match leases.findIdx? fun l => l.mac == Mac.zero with
    | some i => i
    | none => oldestFrom ((leases.head?.map Lease.seq).getD 0) 0 leases.zipIdx

/-- The loop over the leases ends at the last of those that are no younger than `best` and all it
saw. -/
theorem oldestFrom_spec {leases : List Lease} {best : UInt32} {i : ℕ} {rest : List (Lease × ℕ)}
    (hi : ∃ l, leases[i]? = some l ∧ l.seq = best)
    (hrest : ∀ x ∈ rest, leases[x.2]? = some x.1) (hle : ∀ x ∈ rest, i ≤ x.2)
    (hsorted : rest.Pairwise fun x y => x.2 ≤ y.2) :
    i ≤ oldestFrom best i rest ∧ ∃ l, leases[oldestFrom best i rest]? = some l ∧ l.seq ≤ best ∧
      ∀ x ∈ rest, l.seq ≤ x.1.seq ∧ (l.seq = x.1.seq → x.2 ≤ oldestFrom best i rest) := by
  induction rest generalizing best i with
  | nil =>
    obtain ⟨l, hl, rfl⟩ := hi
    exact ⟨Nat.le_refl i, l, hl, UInt32.le_refl _, by simp⟩
  | cons x rest ih =>
    obtain ⟨hx, hrest⟩ := List.forall_mem_cons.1 hrest
    obtain ⟨hxle, hle⟩ := List.forall_mem_cons.1 hle
    obtain ⟨hxrest, hsorted⟩ := List.pairwise_cons.1 hsorted
    unfold oldestFrom
    by_cases hbest : x.1.seq ≤ best
    · rw [if_pos hbest]
      obtain ⟨hlast, l, hl, hlx, hall⟩ := ih ⟨x.1, hx, rfl⟩ hrest hxrest hsorted
      refine ⟨Nat.le_trans hxle hlast, l, hl, UInt32.le_trans hlx hbest, ?_⟩
      exact List.forall_mem_cons.2 ⟨⟨hlx, fun _ => hlast⟩, hall⟩
    · rw [if_neg hbest]
      obtain ⟨hlast, l, hl, hlbest, hall⟩ := ih hi hrest hle hsorted
      have hlt : l.seq < x.1.seq := UInt32.lt_of_le_of_lt hlbest (UInt32.not_le.1 hbest)
      refine ⟨hlast, l, hl, hlbest, List.forall_mem_cons.2 ⟨⟨UInt32.le_of_lt hlt, ?_⟩, hall⟩⟩
      intro heq
      exact absurd heq (UInt32.ne_of_lt hlt)

/-- The slot of a client: the first one with its address, or the first empty one, or the last of the
oldest. -/
inductive Picks (leases : List Lease) (mac : Mac) : ℕ → Prop
  | known {i : ℕ} {l : Lease} : leases[i]? = some l → l.mac = mac →
      (∀ j l', j < i → leases[j]? = some l' → l'.mac ≠ mac) → Picks leases mac i
  | empty {i : ℕ} {l : Lease} : (∀ l' ∈ leases, l'.mac ≠ mac) → leases[i]? = some l →
      l.mac = Mac.zero → (∀ j l', j < i → leases[j]? = some l' → l'.mac ≠ Mac.zero) →
      Picks leases mac i
  | oldest {i : ℕ} {l : Lease} : (∀ l' ∈ leases, l'.mac ≠ mac) →
      (∀ l' ∈ leases, l'.mac ≠ Mac.zero) → leases[i]? = some l →
      (∀ j l', leases[j]? = some l' → l.seq ≤ l'.seq ∧ (l.seq = l'.seq → j ≤ i)) →
      Picks leases mac i

theorem findIdx?_mac {leases : List Lease} {mac : Mac} {i : ℕ}
    (h : (leases.findIdx? fun l => l.mac == mac) = some i) :
    ∃ l, leases[i]? = some l ∧ l.mac = mac ∧
      ∀ j l', j < i → leases[j]? = some l' → l'.mac ≠ mac := by
  obtain ⟨hi, hp, hfirst⟩ := List.findIdx?_eq_some_iff_getElem.1 h
  refine ⟨leases[i], List.getElem?_eq_getElem hi, by simpa using hp, fun j l' hj hl' => ?_⟩
  obtain ⟨hjlt, rfl⟩ := List.getElem?_eq_some_iff.1 hl'
  simpa using hfirst j hj

theorem pickSlot_picks {leases : List Lease} (hne : leases ≠ []) (mac : Mac) :
    Picks leases mac (pickSlot leases mac) := by
  unfold pickSlot
  cases hmac : leases.findIdx? fun l => l.mac == mac with
  | some i =>
    obtain ⟨l, hl, hlmac, hfirst⟩ := findIdx?_mac hmac
    exact .known hl hlmac hfirst
  | none =>
    have hnone : ∀ l' ∈ leases, l'.mac ≠ mac := by simpa using hmac
    cases hzero : leases.findIdx? fun l => l.mac == Mac.zero with
    | some i =>
      obtain ⟨l, hl, hlzero, hfirst⟩ := findIdx?_mac hzero
      exact .empty hnone hl hlzero hfirst
    | none =>
      have hfull : ∀ l' ∈ leases, l'.mac ≠ Mac.zero := by simpa using hzero
      obtain ⟨l₀, rest, rfl⟩ := List.exists_cons_of_ne_nil hne
      have hhead : ∃ l, (l₀ :: rest)[0]? = some l ∧
          l.seq = ((l₀ :: rest).head?.map Lease.seq).getD 0 := ⟨l₀, rfl, rfl⟩
      have hsorted : (l₀ :: rest).zipIdx.Pairwise fun x y => x.2 ≤ y.2 := by
        have hrange : ((l₀ :: rest).zipIdx.map Prod.snd).Pairwise (· ≤ ·) := by
          rw [List.zipIdx_map_snd]
          exact List.pairwise_le_range'
        exact List.pairwise_map.1 hrange
      obtain ⟨-, l, hl, -, hall⟩ := oldestFrom_spec hhead
        (fun x (hx : x ∈ (l₀ :: rest).zipIdx) => List.mem_zipIdx_iff_getElem?.1 hx)
        (fun _ _ => Nat.zero_le _) hsorted
      refine .oldest hnone hfull hl ?_
      intro j l' hl'
      exact hall (l', j) (List.mem_zipIdx_iff_getElem?.2 hl')

/-- What is at the slot that is picked: the client, or nothing, or the oldest of all clients. -/
theorem pickSlot_spec {leases : List Lease} (hne : leases ≠ []) (mac : Mac) :
    ∃ l, leases[pickSlot leases mac]? = some l ∧
      (l.mac = mac ∨
        (∀ l' ∈ leases, l'.mac ≠ mac) ∧
          (l.mac = Mac.zero ∨
            (∀ l' ∈ leases, l'.mac ≠ Mac.zero) ∧ ∀ l' ∈ leases, l.seq ≤ l'.seq)) := by
  cases pickSlot_picks hne mac with
  | known hl hmac _ => exact ⟨_, hl, .inl hmac⟩
  | empty hnone hl hzero _ => exact ⟨_, hl, .inr ⟨hnone, .inl hzero⟩⟩
  | @oldest l hnone hfull hl hall =>
    refine ⟨l, hl, .inr ⟨hnone, .inr ⟨hfull, fun l' hl' => ?_⟩⟩⟩
    obtain ⟨j, hj⟩ := List.mem_iff_getElem?.1 hl'
    exact (hall j l' hj).1

theorem pickSlot_lt {leases : List Lease} (hne : leases ≠ []) (mac : Mac) :
    pickSlot leases mac < leases.length := by
  obtain ⟨l, hl, -⟩ := pickSlot_spec hne mac
  exact (List.getElem?_eq_some_iff.1 hl).1

/-- **The slot**: the counter goes up, and the lease of the slot is the client's. -/
theorem slotForMac_ok {leases : List Lease} (hne : leases ≠ []) (h256 : leases.length ≤ 256)
    (seq : UInt32) (mac : Mac) :
    slotForMac leases seq mac =
      .ok (pickSlot leases mac, leases.set (pickSlot leases mac) ⟨mac, seq + 1⟩, seq + 1) := by
  have hlt := pickSlot_lt hne mac
  obtain ⟨l, hl, -⟩ := pickSlot_spec hne mac
  have hmod : pickSlot leases mac % 256 = pickSlot leases mac := Nat.mod_eq_of_lt (by omega)
  unfold slotForMac
  cases hmac : leases.findIdx? fun l => l.mac == mac with
  | some i =>
    have hpick : pickSlot leases mac = i := by rw [pickSlot, hmac]
    rw [hpick] at hlt hl hmod ⊢
    obtain ⟨hi, hp, -⟩ := List.findIdx?_eq_some_iff_getElem.1 hmac
    have hlmac : l.mac = mac := by
      rw [List.getElem?_eq_getElem hlt] at hl
      rw [← Option.some.inj hl]
      simpa using hp
    dsimp only
    rw [Rust.index_ok hl, Rust.ok_bind, Rust.write_ok hlt, Rust.ok_bind, Rust.pure_eq, hmod, hlmac]
  | none =>
    cases hzero : leases.findIdx? fun l => l.mac == Mac.zero with
    | some i =>
      have hpick : pickSlot leases mac = i := by rw [pickSlot, hmac, hzero]
      rw [hpick] at hlt hmod ⊢
      dsimp only
      rw [Rust.write_ok hlt, Rust.ok_bind, Rust.pure_eq, hmod]
    | none =>
      have hpick : pickSlot leases mac =
          oldestFrom ((leases.head?.map Lease.seq).getD 0) 0 leases.zipIdx := by
        rw [pickSlot, hmac, hzero]
      rw [← hpick]
      dsimp only
      rw [Rust.write_ok hlt, Rust.ok_bind, Rust.pure_eq, hmod]

/-! ### The table and the history -/

/-- The addresses in the table. -/
def macs (leases : List Lease) : List Mac :=
  (leases.map Lease.mac).filter fun m => m ≠ Mac.zero

/-- The table after the clients `hist` were handled, the newest first. -/
structure Tracks (leases : List Lease) (seq : UInt32) (hist : List Mac) : Prop where
  length : leases.length = poolSize
  clock : seq.toNat = hist.length
  macs : (macs leases).Perm (Lib.Lru.recent poolSize hist)
  stamp : ∀ l ∈ leases, l.mac ≠ Mac.zero → l.seq.toNat = Lib.Lru.lastUse l.mac hist

theorem tracks_init : Tracks (List.replicate poolSize .empty) 0 [] :=
  ⟨rfl, rfl, .nil, fun l hl hne => absurd (by rw [List.eq_of_mem_replicate hl]; rfl) hne⟩

theorem mem_macs {leases : List Lease} {m : Mac} :
    m ∈ macs leases ↔ m ≠ Mac.zero ∧ ∃ l ∈ leases, l.mac = m := by
  simp [macs, and_comm]

/-- The addresses without those of the lease at `i`. -/
def macsBut (leases : List Lease) (i : ℕ) : List Mac :=
  macs (leases.take i) ++ macs (leases.drop (i + 1))

theorem macs_perm {leases : List Lease} {i : ℕ} {l : Lease} (hl : leases[i]? = some l) :
    (macs leases).Perm ((if l.mac ≠ Mac.zero then [l.mac] else []) ++ macsBut leases i) := by
  obtain ⟨hi, rfl⟩ := List.getElem?_eq_some_iff.1 hl
  have hsplit : leases = leases.take i ++ leases[i] :: leases.drop (i + 1) := by
    rw [List.getElem_cons_drop, List.take_append_drop]
  have hmacs : macs leases = macs (leases.take i) ++
      ((if leases[i].mac ≠ Mac.zero then [leases[i].mac] else []) ++
        macs (leases.drop (i + 1))) := by
    conv_lhs => rw [hsplit]
    unfold macs
    rw [List.map_append, List.filter_append, List.map_cons, List.filter_cons]
    by_cases h0 : leases[i].mac = Mac.zero <;> simp [h0]
  rw [hmacs, macsBut]
  exact List.perm_append_comm_assoc _ _ _

theorem macs_set {leases : List Lease} {i : ℕ} (hi : i < leases.length) {l : Lease}
    (hne : l.mac ≠ Mac.zero) :
    (macs (leases.set i l)).Perm (l.mac :: macsBut leases i) := by
  have hperm : (macs (leases.set i l)).Perm _ := macs_perm (List.getElem?_set_self hi)
  rw [if_pos hne] at hperm
  have hbut : macsBut (leases.set i l) i = macsBut leases i := by
    rw [macsBut, macsBut, List.take_set_of_le (Nat.le_refl i), List.drop_set_of_lt (Nat.lt_succ_self i)]
  rw [hbut] at hperm
  exact hperm

theorem length_macs_le (leases : List Lease) : (macs leases).length ≤ leases.length := by
  have hlen := List.length_filter_le (fun m => decide (m ≠ Mac.zero)) (leases.map Lease.mac)
  rw [List.length_map] at hlen
  exact hlen

theorem length_macsBut_lt {leases : List Lease} {i : ℕ} (hi : i < leases.length) :
    (macsBut leases i).length < leases.length := by
  have h₁ := length_macs_le (leases.take i)
  have h₂ := length_macs_le (leases.drop (i + 1))
  rw [List.length_take] at h₁
  rw [List.length_drop] at h₂
  rw [macsBut, List.length_append]
  omega

namespace Tracks

variable {leases : List Lease} {seq : UInt32} {hist : List Mac}

theorem ne_nil (h : Tracks leases seq hist) : leases ≠ [] := by
  rintro rfl
  cases h.length

theorem slot_unique (h : Tracks leases seq hist) {i j : ℕ} {a b : Lease} (ha : leases[i]? = some a)
    (hb : leases[j]? = some b) (hmac : a.mac = b.mac) (hne : a.mac ≠ Mac.zero) : i = j := by
  have hnodup : (Net.macs leases).Nodup :=
    h.macs.nodup_iff.2 (Lib.Lru.nodup_recent poolSize hist)
  have hpair : leases.Pairwise fun a b => a.mac ≠ Mac.zero → b.mac ≠ Mac.zero → a.mac ≠ b.mac := by
    rw [Net.macs, List.Nodup, List.pairwise_filter, List.pairwise_map] at hnodup
    exact hnodup.imp fun hab h₁ h₂ => hab (by simpa using h₁) (by simpa using h₂)
  obtain ⟨hi, rfl⟩ := List.getElem?_eq_some_iff.1 ha
  obtain ⟨hj, rfl⟩ := List.getElem?_eq_some_iff.1 hb
  rw [List.pairwise_iff_getElem] at hpair
  rcases Nat.lt_trichotomy i j with hlt | heq | hlt
  · exact absurd hmac (hpair i j hi hj hlt hne (hmac ▸ hne))
  · exact heq
  · exact absurd hmac.symm (hpair j i hj hi hlt (hmac ▸ hne) hne)

theorem mem_recent_iff (h : Tracks leases seq hist) {m : Mac} :
    m ∈ Lib.Lru.recent poolSize hist ↔ m ≠ Mac.zero ∧ ∃ l ∈ leases, l.mac = m := by
  rw [← h.macs.mem_iff, mem_macs]

/-- Where no place is empty there are as many clients as places. -/
theorem length_recent_of_full (h : Tracks leases seq hist)
    (hfull : ∀ l ∈ leases, l.mac ≠ Mac.zero) :
    (Lib.Lru.recent poolSize hist).length = poolSize := by
  have hall : Net.macs leases = leases.map Lease.mac := by
    unfold Net.macs
    refine List.filter_eq_self.2 ?_
    intro m hm
    obtain ⟨l, hl, rfl⟩ := List.mem_map.1 hm
    simpa using hfull l hl
  rw [← h.macs.length_eq, hall, List.length_map, h.length]

theorem macs_step (h : Tracks leases seq hist) {mac : Mac} (hne : mac ≠ Mac.zero)
    (x : UInt32) :
    (Net.macs (leases.set (pickSlot leases mac) ⟨mac, x⟩)).Perm
      (Lib.Lru.recent poolSize (mac :: hist)) := by
  have hlt := pickSlot_lt h.ne_nil mac
  obtain ⟨l, hl, hcases⟩ := pickSlot_spec h.ne_nil mac
  have hset := macs_set hlt (show (Lease.mk mac x).mac ≠ Mac.zero from hne)
  have hold := macs_perm hl
  refine hset.trans ?_
  dsimp only
  rcases hcases with hmac | ⟨hnew, hzero | ⟨hfull, holdest⟩⟩
  · -- the client has the slot
    rw [if_pos (by rw [hmac]; exact hne), hmac] at hold
    have hmem : mac ∈ Lib.Lru.recent poolSize hist :=
      h.mem_recent_iff.2 ⟨hne, l, List.mem_of_getElem? hl, hmac⟩
    exact hold.symm.trans (h.macs.trans (Lib.Lru.recent_cons_of_mem hmem).symm)
  · -- the slot is empty
    rw [if_neg (by simpa using hzero), List.nil_append] at hold
    have hperm := hold.symm.trans h.macs
    have hnot : mac ∉ Lib.Lru.recent poolSize hist := by
      intro hmem
      obtain ⟨-, l', hl', hmac'⟩ := h.mem_recent_iff.1 hmem
      exact hnew l' hl' hmac'
    have hroom : (Lib.Lru.recent poolSize hist).length ≤ 7 := by
      have hlt' := length_macsBut_lt hlt
      have hlen : leases.length = 8 := h.length
      rw [← hperm.length_eq]
      omega
    rw [Lib.Lru.recent_cons_of_room hnot hroom]
    exact hperm.cons mac
  · -- the slot is that of the client whose last datagram is the oldest
    have hlmac : l.mac ≠ Mac.zero := hfull l (List.mem_of_getElem? hl)
    rw [if_pos hlmac] at hold
    have hperm := hold.symm.trans h.macs
    have hnot : mac ∉ Lib.Lru.recent poolSize hist := by
      intro hmem
      obtain ⟨-, l', hl', hmac'⟩ := h.mem_recent_iff.1 hmem
      exact hnew l' hl' hmac'
    have hmin : ∀ m ∈ Lib.Lru.recent poolSize hist,
        Lib.Lru.lastUse l.mac hist ≤ Lib.Lru.lastUse m hist := by
      intro m hm
      obtain ⟨hm0, l', hl', rfl⟩ := h.mem_recent_iff.1 hm
      rw [← h.stamp l (List.mem_of_getElem? hl) hlmac, ← h.stamp l' hl' hm0]
      exact UInt32.le_iff_toNat_le.1 (holdest l' hl')
    exact (Lib.Lru.recent_cons_evict hnot (h.length_recent_of_full hfull) hperm hmin).symm

/-- **One more client**: the table follows the history. -/
theorem step (h : Tracks leases seq hist) {mac : Mac} (hne : mac ≠ Mac.zero)
    (hclock : hist.length + 1 < 2 ^ 32) :
    Tracks (leases.set (pickSlot leases mac) ⟨mac, seq + 1⟩) (seq + 1) (mac :: hist) := by
  have hnext : (seq + 1).toNat = hist.length + 1 := by
    rw [UInt32.toNat_add, h.clock]
    exact Nat.mod_eq_of_lt hclock
  refine ⟨by rw [List.length_set, h.length], by rw [hnext, List.length_cons],
    h.macs_step hne (seq + 1), fun l hl hl0 => ?_⟩
  obtain ⟨j, hj, rfl⟩ := List.mem_iff_getElem.1 hl
  rw [List.length_set] at hj
  rw [List.getElem_set] at hl0 ⊢
  by_cases hji : pickSlot leases mac = j
  · rw [if_pos hji, hnext, Lib.Lru.lastUse_cons_self]
  · rw [if_neg hji] at hl0 ⊢
    have hother : mac ≠ leases[j].mac := by
      -- a lease of the client is at the slot that was picked
      intro hmac
      obtain ⟨l, hl, hcases⟩ := pickSlot_spec h.ne_nil mac
      have hlmac : l.mac = mac := by
        rcases hcases with hlmac | ⟨hnone, -⟩
        · exact hlmac
        · exact absurd hmac.symm (hnone _ (List.getElem_mem hj))
      exact hji (h.slot_unique hl (List.getElem?_eq_getElem hj) (hlmac.trans hmac)
        (by rw [hlmac]; exact hne))
    rw [Lib.Lru.lastUse_cons_of_ne hother]
    exact h.stamp _ (List.getElem_mem hj) hl0

/-- A client that stays among the last eight keeps its slot. -/
theorem slot_stays (h : Tracks leases seq hist) {mac m : Mac} (hne : mac ≠ Mac.zero) {i : ℕ}
    {l : Lease} (hl : leases[i]? = some l) (hlm : l.mac = m) (hm : m ≠ Mac.zero)
    (hstays : m ∈ Lib.Lru.recent poolSize (mac :: hist)) (x : UInt32) :
    ∃ l', (leases.set (pickSlot leases mac) ⟨mac, x⟩)[i]? = some l' ∧ l'.mac = m := by
  have hi := (List.getElem?_eq_some_iff.1 hl).1
  by_cases hpick : pickSlot leases mac = i
  · refine ⟨⟨mac, x⟩, by rw [hpick, List.getElem?_set_self hi], ?_⟩
    by_contra hother
    -- otherwise it has another slot in the new table, and had it in the old one
    obtain ⟨-, l', hl', hlm'⟩ := mem_macs.1 ((h.macs_step hne x).mem_iff.2 hstays)
    obtain ⟨j, hj, rfl⟩ := List.mem_iff_getElem.1 hl'
    rw [List.length_set] at hj
    rw [List.getElem_set] at hlm'
    by_cases hji : pickSlot leases mac = j
    · rw [if_pos hji] at hlm'
      exact hother hlm'
    · rw [if_neg hji] at hlm'
      exact hji (hpick.trans (h.slot_unique hl (List.getElem?_eq_getElem hj) (hlm.trans hlm'.symm)
        (by rw [hlm]; exact hm)))
  · exact ⟨l, by rw [List.getElem?_set_ne hpick, hl], hlm⟩

theorem pickSlot_eq (h : Tracks leases seq hist) {m : Mac} {i : ℕ} {l : Lease}
    (hl : leases[i]? = some l) (hlm : l.mac = m) (hm : m ≠ Mac.zero) : pickSlot leases m = i := by
  obtain ⟨l', hl', hcases⟩ := pickSlot_spec h.ne_nil m
  rcases hcases with hlm' | ⟨hnone, -⟩
  · exact h.slot_unique hl' hl (hlm'.trans hlm.symm) (by rw [hlm']; exact hm)
  · exact absurd hlm (hnone l (List.mem_of_getElem? hl))

end Tracks

end ScoreboardCtrl.Net
