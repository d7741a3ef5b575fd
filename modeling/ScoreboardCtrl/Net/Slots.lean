import Mathlib.Data.List.Perm.Subperm
import ScoreboardCtrl.Net.Leases

/-!
# Runs of `slot_for_mac`

* `slot_for_mac_refines_lru` — the calls for clients whose address is not zero refine a memory of eight
  places, `Lib.Lru.uses`: slots and table are in `Lockstep` with it;
* `consecutive_slots_differ_iff` — two calls in a row for different clients give different slots, unless
  the first client has the address zero, or the counter has wrapped.
-/

namespace ScoreboardCtrl.Net

open Lib (Rust)

/-- The slots that were returned, the table and the counter, after the calls for the clients; the
newest call is the first. -/
def slotRun : List Mac → Rust (List ℕ × List Lease × UInt32)
  | [] => pure ([], List.replicate poolSize .empty, 0)
  | m :: older => do
    let (slots, leases, seq) ← slotRun older
    let (slot, leases, seq) ← slotForMac leases seq m
    return (slot :: slots, leases, seq)

theorem slotRun_cons {ms : List Mac} {slots : List ℕ} {leases : List Lease} {seq : UInt32}
    (h : slotRun ms = .ok (slots, leases, seq)) (hlen : leases.length = poolSize) (m : Mac) :
    slotRun (m :: ms) = .ok (pickSlot leases m :: slots,
      leases.set (pickSlot leases m) ⟨m, seq + 1⟩, seq + 1) := by
  have h8 : leases.length = 8 := hlen
  have hne : leases ≠ [] := by
    rintro rfl
    cases h8
  rw [slotRun, h, Rust.ok_bind]
  dsimp only
  rw [slotForMac_ok hne (by omega), Rust.ok_bind]
  rfl

theorem slotRun_returns (ms : List Mac) :
    (slotRun ms).Returns fun r => r.2.1.length = poolSize := by
  induction ms with
  | nil => exact .pure List.length_replicate
  | cons m ms ih =>
    obtain ⟨⟨slots, leases, seq⟩, hrun, hlen⟩ := ih
    refine ⟨_, slotRun_cons hrun hlen m, ?_⟩
    dsimp only
    rw [List.length_set]
    exact hlen

/-- Until the counter wraps it counts the calls, and no lease is newer. -/
theorem slotRun_clock {ms : List Mac} (h : ms.length < 2 ^ 32) :
    (slotRun ms).Returns fun r => r.2.1.length = poolSize ∧ r.2.2.toNat = ms.length ∧
      ∀ x ∈ r.2.1, x.seq.toNat ≤ ms.length := by
  induction ms with
  | nil =>
    refine .pure ⟨List.length_replicate, rfl, fun x hx => ?_⟩
    rw [List.eq_of_mem_replicate hx]
    exact Nat.le_refl 0
  | cons m ms ih =>
    rw [List.length_cons] at h
    obtain ⟨⟨slots, leases, seq⟩, hrun, hlen, hclock, hstamps⟩ := ih (by omega)
    have hnext : (seq + 1).toNat = ms.length + 1 := by
      rw [UInt32.toNat_add, hclock]
      exact Nat.mod_eq_of_lt h
    refine ⟨_, slotRun_cons hrun hlen m, by dsimp only; rw [List.length_set]; exact hlen, hnext, ?_⟩
    intro x hx
    rw [List.length_cons]
    rcases List.mem_or_eq_of_mem_set hx with hx | rfl
    · exact Nat.le_succ_of_le (hstamps x hx)
    · exact Nat.le_of_eq hnext

/-! ### Lockstep -/

/-- The table holds the clients of the list, each in its place, and the client used last has the
newest lease. -/
structure Lockstep (leases : List Lease) (l : List (Mac × ℕ)) : Prop where
  length : leases.length = poolSize
  holds : ∀ m i, (m, i) ∈ l ↔ m ≠ Mac.zero ∧ ∃ x, leases[i]? = some x ∧ x.mac = m
  order : l.Pairwise fun a b => ∀ x y, leases[a.2]? = some x → leases[b.2]? = some y → y.seq < x.seq

namespace Lockstep

variable {leases : List Lease} {l : List (Mac × ℕ)} {m : Mac} {i : ℕ}

theorem init : Lockstep (List.replicate poolSize .empty) [] where
  length := List.length_replicate
  holds m i := by
    constructor
    · intro h
      cases h
    · rintro ⟨hm, x, hx, rfl⟩
      rw [List.eq_of_mem_replicate (List.mem_of_getElem? hx)] at hm
      exact absurd rfl hm
  order := List.Pairwise.nil

theorem mac_unique (h : Lockstep leases l) {k : Mac} (hm : (m, i) ∈ l) (hk : (k, i) ∈ l) : k = m := by
  obtain ⟨-, x, hx, rfl⟩ := (h.holds m i).1 hm
  obtain ⟨-, y, hy, rfl⟩ := (h.holds k i).1 hk
  rw [hx] at hy
  rw [Option.some.inj hy]

theorem lt_poolSize (h : Lockstep leases l) (hmem : i ∈ l.map Prod.snd) : i < poolSize := by
  obtain ⟨⟨k, i⟩, hk, rfl⟩ := List.mem_map.1 hmem
  obtain ⟨-, x, hx, -⟩ := (h.holds k i).1 hk
  rw [← h.length]
  exact (List.getElem?_eq_some_iff.1 hx).1

theorem nodup_places (h : Lockstep leases l) (hkeys : (l.map Prod.fst).Nodup) :
    (l.map Prod.snd).Nodup := by
  refine List.Nodup.map_on ?_ hkeys.of_map
  rintro ⟨k, i⟩ hk ⟨k', j⟩ hk' hij
  obtain rfl : i = j := hij
  rw [h.mac_unique hk' hk]

theorem mem_places (h : Lockstep leases l) {x : Lease} (hx : leases[i]? = some x)
    (hne : x.mac ≠ Mac.zero) : (x.mac, i) ∈ l := (h.holds x.mac i).2 ⟨hne, x, hx, rfl⟩

theorem not_mem_keys (h : Lockstep leases l) (hnone : ∀ x ∈ leases, x.mac ≠ m) :
    m ∉ l.map Prod.fst := by
  intro hmem
  obtain ⟨⟨k, i⟩, hk, rfl⟩ := List.mem_map.1 hmem
  obtain ⟨-, x, hx, hxm⟩ := (h.holds k i).1 hk
  exact hnone x (List.mem_of_getElem? hx) hxm

/-- An empty place leaves room for a client. -/
theorem room_of_free (h : Lockstep leases l) (hkeys : (l.map Prod.fst).Nodup)
    (hi : i < leases.length) (hfree : i ∉ l.map Prod.snd) : l.length < 8 := by
  have h8 : leases.length = 8 := h.length
  have hsub : i :: l.map Prod.snd ⊆ List.range 8 := by
    intro j hj
    rcases List.mem_cons.1 hj with rfl | hj
    · exact List.mem_range.2 (by omega)
    · exact List.mem_range.2 (h.lt_poolSize hj)
  have hnodup : (i :: l.map Prod.snd).Nodup := List.nodup_cons.2 ⟨hfree, h.nodup_places hkeys⟩
  have hlen := (hnodup.subperm hsub).length_le
  rw [List.length_cons, List.length_map, List.length_range] at hlen
  omega

/-- Where no place is empty every one has its client. -/
theorem full_of_no_empty (h : Lockstep leases l) (hfull : ∀ x ∈ leases, x.mac ≠ Mac.zero) :
    8 ≤ l.length := by
  have h8 : leases.length = 8 := h.length
  have hsub : List.range 8 ⊆ l.map Prod.snd := by
    intro j hj
    have hj8 : j < 8 := List.mem_range.1 hj
    have hjx := List.getElem?_eq_getElem (show j < leases.length by omega)
    exact List.mem_map.2 ⟨_, h.mem_places hjx (hfull _ (List.mem_of_getElem? hjx)), rfl⟩
  have hle := ((List.nodup_range : (List.range 8).Nodup).subperm hsub).length_le
  rw [List.length_range, List.length_map] at hle
  exact hle

/-- The last of the list is the client whose lease is the oldest. -/
theorem last_oldest {rest : List (Mac × ℕ)} {v : Mac} {k : ℕ} {x : Lease}
    (h : Lockstep leases (rest ++ [(v, k)])) (hmem : (x.mac, i) ∈ rest ++ [(v, k)])
    (hx : leases[i]? = some x) (hmin : ∀ (j : ℕ) (y : Lease), leases[j]? = some y → x.seq ≤ y.seq) :
    k = i := by
  obtain ⟨-, y, hy, -⟩ := (h.holds v k).1 (by simp)
  rcases List.mem_append.1 hmem with hin | hin
  · have hlt := (List.pairwise_append.1 h.order).2.2 _ hin (v, k) (by simp) x y hx hy
    exact absurd (hmin k y hy) (UInt32.not_le.2 hlt)
  · rw [List.mem_singleton, Prod.mk.injEq] at hin
    exact hin.2.symm

/-- **A lease is written**: its client is the newest one, and the clients of the other places stay. -/
theorem set (h : Lockstep leases l) (hi : i < leases.length) (hm : m ≠ Mac.zero) {s : UInt32}
    (hnew : ∀ x ∈ leases, x.seq < s) {rest : List (Mac × ℕ)} (hsub : rest.Sublist l)
    (hrest : ∀ k j, (k, j) ∈ rest ↔ (k, j) ∈ l ∧ j ≠ i) :
    Lockstep (leases.set i ⟨m, s⟩) ((m, i) :: rest) := by
  have hother {j : ℕ} (hj : j ≠ i) : (leases.set i ⟨m, s⟩)[j]? = leases[j]? :=
    List.getElem?_set_ne (Ne.symm hj)
  have hplace {b : Mac × ℕ} (hb : b ∈ rest) : b.2 ≠ i := ((hrest b.1 b.2).1 hb).2
  refine ⟨by rw [List.length_set, h.length], fun k j => ?_, List.pairwise_cons.2 ⟨?_, ?_⟩⟩
  · rw [List.mem_cons, Prod.mk.injEq, hrest]
    by_cases hj : j = i
    · subst hj
      rw [List.getElem?_set_self hi]
      constructor
      · rintro (⟨rfl, -⟩ | ⟨-, hne⟩)
        · exact ⟨hm, _, rfl, rfl⟩
        · exact absurd rfl hne
      · rintro ⟨-, x, hx, rfl⟩
        exact .inl ⟨by rw [← Option.some.inj hx], rfl⟩
    · rw [hother hj, ← h.holds]
      simp [hj]
  · intro b hb x y hx hy
    rw [List.getElem?_set_self hi] at hx
    rw [hother (hplace hb)] at hy
    rw [← Option.some.inj hx]
    exact hnew y (List.mem_of_getElem? hy)
  · refine (h.order.sublist hsub).imp_of_mem fun {a b} ha hb hab => ?_
    rw [hother (hplace ha), hother (hplace hb)]
    exact hab

/-- **One call**: it returns the place that the use of the list takes, and keeps the lockstep. -/
theorem step (h : Lockstep leases l) (hkeys : (l.map Prod.fst).Nodup) (hm : m ≠ Mac.zero)
    {s : UInt32} (hnew : ∀ x ∈ leases, x.seq < s) :
    pickSlot leases m = (Lib.Lru.use poolSize m l).1 ∧
      Lockstep (leases.set (pickSlot leases m) ⟨m, s⟩) (Lib.Lru.use poolSize m l).2 := by
  have h8 : leases.length = 8 := h.length
  have hne : leases ≠ [] := by
    rintro rfl
    cases h8
  have hlt := pickSlot_lt hne m
  have hplaces := h.nodup_places hkeys
  have hpicks := pickSlot_picks hne m
  generalize pickSlot leases m = i at *
  cases hpicks with
  | @known x hx hxm _ =>
    have hmem : (m, i) ∈ l := by
      rw [← hxm]
      exact h.mem_places hx (by rw [hxm]; exact hm)
    rw [Lib.Lru.use_of_mem hkeys hmem]
    refine ⟨rfl, h.set hlt hm hnew List.filter_sublist fun k j => ?_⟩
    rw [List.mem_filter]
    constructor
    · rintro ⟨hk, hkm⟩
      refine ⟨hk, ?_⟩
      rintro rfl
      exact absurd (h.mac_unique hmem hk) (by simpa using hkm)
    · rintro ⟨hk, hj⟩
      refine ⟨hk, ?_⟩
      by_contra hkm
      obtain rfl : k = m := by simpa using hkm
      exact hj (Prod.ext_iff.1 (List.inj_on_of_nodup_map hkeys hk hmem rfl)).2
  | @empty x hnone hx hzero hfirst =>
    have hfree : i ∉ l.map Prod.snd := by
      intro hmem
      obtain ⟨⟨k, i⟩, hk, rfl⟩ := List.mem_map.1 hmem
      obtain ⟨hk0, y, hy, rfl⟩ := (h.holds k i).1 hk
      rw [hx] at hy
      exact hk0 (Option.some.inj hy ▸ hzero)
    have hbelow : ∀ j < i, j ∈ l.map Prod.snd := by
      intro j hj
      have hjx := List.getElem?_eq_getElem (show j < leases.length by omega)
      exact List.mem_map.2 ⟨_, h.mem_places hjx (hfirst j _ hj hjx), rfl⟩
    rw [Lib.Lru.use_of_room (h.not_mem_keys hnone) (h.room_of_free hkeys hlt hfree),
      Lib.Lru.lowestFree_eq (h8 ▸ hlt) hfree hbelow]
    refine ⟨rfl, h.set hlt hm hnew (List.Sublist.refl l) fun k j => ?_⟩
    constructor
    · intro hk
      refine ⟨hk, ?_⟩
      rintro rfl
      exact hfree (List.mem_map.2 ⟨_, hk, rfl⟩)
    · intro hk
      exact hk.1
  | @oldest x hnone hfull hx hmin =>
    have hmem : (x.mac, i) ∈ l := h.mem_places hx (hfull x (List.mem_of_getElem? hx))
    have hlen : 8 ≤ l.length := h.full_of_no_empty hfull
    obtain ⟨rest, ⟨v, k⟩, rfl⟩ : ∃ rest last, l = rest ++ [last] :=
      ⟨l.dropLast, l.getLast (List.ne_nil_of_mem hmem), (List.dropLast_append_getLast _).symm⟩
    have hlast : k = i := h.last_oldest hmem hx fun j y hy => (hmin j y hy).1
    subst hlast
    rw [Lib.Lru.use_of_full (h.not_mem_keys hnone) hlen]
    refine ⟨rfl, h.set hlt hm hnew (List.sublist_append_left _ _) fun c j => ?_⟩
    rw [List.map_append, List.nodup_append] at hplaces
    constructor
    · intro hc
      refine ⟨List.mem_append_left _ hc, ?_⟩
      rintro rfl
      exact hplaces.2.2 _ (List.mem_map.2 ⟨_, hc, rfl⟩) _ (by simp) rfl
    · rintro ⟨hc, hj⟩
      rcases List.mem_append.1 hc with hc | hc
      · exact hc
      · rw [List.mem_singleton, Prod.mk.injEq] at hc
        exact absurd hc.2 hj

end Lockstep

/-- The keys of the list over a run of calls. -/
theorem nodup_keys_uses (ms : List Mac) :
    ((Lib.Lru.uses poolSize ms).2.map Prod.fst).Nodup := by
  have hkeys : (Lib.Lru.uses poolSize ms).2.map Prod.fst = Lib.Lru.recent poolSize ms :=
    Lib.Lru.map_fst_uses 7 ms
  rw [hkeys]
  exact Lib.Lru.nodup_recent poolSize ms

/-- **The run rule**: slots and table follow the list. -/
theorem slotRun_lockstep {ms : List Mac} (hcount : ms.length < 2 ^ 32)
    (hzero : ∀ m ∈ ms, m ≠ Mac.zero) :
    (slotRun ms).Returns fun r => r.1 = (Lib.Lru.uses poolSize ms).1 ∧
      Lockstep r.2.1 (Lib.Lru.uses poolSize ms).2 := by
  induction ms with
  | nil => exact .pure ⟨rfl, Lockstep.init⟩
  | cons m ms ih =>
    rw [List.length_cons] at hcount
    obtain ⟨hm, hzero⟩ := List.forall_mem_cons.1 hzero
    obtain ⟨⟨slots, leases, seq⟩, hrun, hslots, hlockstep⟩ := ih (by omega) hzero
    obtain ⟨-, hclock, hstamps⟩ :=
      (slotRun_clock (show ms.length < 2 ^ 32 by omega)).post hrun
    have hnew : ∀ x ∈ leases, x.seq < seq + 1 := by
      intro x hx
      have hx' : x.seq.toNat ≤ ms.length := hstamps x hx
      have hseq : seq.toNat = ms.length := hclock
      rw [UInt32.lt_iff_toNat_lt, UInt32.toNat_add, hseq, UInt32.toNat_one,
        Nat.mod_eq_of_lt hcount]
      omega
    obtain ⟨hplace, hnext⟩ := hlockstep.step (nodup_keys_uses ms) hm hnew
    have hslots' : slots = (Lib.Lru.uses poolSize ms).1 := hslots
    refine ⟨_, slotRun_cons hrun hlockstep.length m, ?_, hnext⟩
    dsimp only
    rw [hplace, hslots']
    rfl

/-- **`slot_for_mac` refines a memory of eight places.** The slots are the places, and the table is
in lockstep with the list, in which no client and no place occurs twice; a call writes no other
slot than the one it returns. -/
theorem slot_for_mac_refines_lru {ms : List Mac} (hcount : ms.length < 2 ^ 32)
    (hzero : ∀ m ∈ ms, m ≠ Mac.zero) :
    ∃ slots leases seq, slotRun ms = .ok (slots, leases, seq) ∧
      slots = (Lib.Lru.uses poolSize ms).1 ∧ Lockstep leases (Lib.Lru.uses poolSize ms).2 ∧
      ((Lib.Lru.uses poolSize ms).2.map Prod.fst).Nodup ∧
      ((Lib.Lru.uses poolSize ms).2.map Prod.snd).Nodup ∧
      (Lib.Lru.uses poolSize ms).2.length ≤ poolSize ∧
      ∀ m older, ms = m :: older → ∃ slot slots' leases' seq',
        slotRun older = .ok (slots', leases', seq') ∧ slots = slot :: slots' ∧
          (∃ x, leases[slot]? = some x ∧ x.mac = m) ∧ ∀ j, j ≠ slot → leases[j]? = leases'[j]? := by
  obtain ⟨⟨slots, leases, seq⟩, hrun, hslots, hlockstep⟩ := slotRun_lockstep hcount hzero
  have hkeys := nodup_keys_uses ms
  have hlen : (Lib.Lru.uses poolSize ms).2.length ≤ poolSize := by
    have hrecent : (Lib.Lru.uses poolSize ms).2.map Prod.fst = Lib.Lru.recent poolSize ms :=
      Lib.Lru.map_fst_uses 7 ms
    rw [← List.length_map (f := Prod.fst), hrecent]
    exact Lib.Lru.length_recent_le poolSize ms
  refine ⟨slots, leases, seq, hrun, hslots, hlockstep, hkeys, hlockstep.nodup_places hkeys, hlen, ?_⟩
  rintro m older rfl
  obtain ⟨⟨slots', leases', seq'⟩, hrun', hlen'⟩ := slotRun_returns older
  have hlen'' : leases'.length = 8 := hlen'
  have hne : leases' ≠ [] := by
    rintro rfl
    cases hlen''
  have hlast := slotRun_cons hrun' hlen' m
  rw [hrun] at hlast
  cases hlast
  refine ⟨_, slots', leases', seq', hrun', rfl, ⟨_, List.getElem?_set_self (pickSlot_lt hne m), rfl⟩, ?_⟩
  intro j hj
  exact List.getElem?_set_ne (Ne.symm hj)

/-- Nine clients, and then the second of them: it keeps its slot, and the ninth has that of the
first. -/
theorem slot_for_mac_refines_lru_nine :
    ∃ leases seq, slotRun ([2, 9, 8, 7, 6, 5, 4, 3, 2, 1].map fun k => [2, 0, 0, 0, 0, k]) =
        .ok ([1, 0, 7, 6, 5, 4, 3, 2, 1, 0], leases, seq) := by
  obtain ⟨slots, leases, seq, hrun, hslots, -⟩ := slot_for_mac_refines_lru
    (show ([2, 9, 8, 7, 6, 5, 4, 3, 2, 1].map fun k => [2, 0, 0, 0, 0, k]).length < 2 ^ 32 by decide)
    (by decide)
  have hplaces : slots = [1, 0, 7, 6, 5, 4, 3, 2, 1, 0] := hslots.trans (by decide +kernel)
  exact ⟨leases, seq, hplaces ▸ hrun⟩

/-! ### Two calls in a row -/

/-- When the next call for another client `b` spares the slot `i` that the last call wrote for `a`, with
the stamp `seq`: it finds `b`, or an empty slot, or an older lease. -/
def Spares (leases : List Lease) (seq : UInt32) (i : ℕ) (a b : Mac) : Prop :=
  (∃ l ∈ leases, l.mac = b) ∨
    a ≠ Mac.zero ∧ ((∃ l ∈ leases, l.mac = Mac.zero) ∨
      ∃ k l, leases[k]? = some l ∧ (l.seq < seq ∨ l.seq = seq ∧ i < k))

/-- A client with the address zero leaves its slot the first empty one. -/
theorem first_empty_after_zero {leases : List Lease} (hne : leases ≠ []) {j : ℕ} {l : Lease}
    (hj : j < pickSlot leases Mac.zero) (hl : leases[j]? = some l) : l.mac ≠ Mac.zero := by
  intro hzero
  have hpicks := pickSlot_picks hne Mac.zero
  generalize pickSlot leases Mac.zero = i at *
  cases hpicks with
  | known _ _ hfirst => exact hfirst j l hj hl hzero
  | empty hnone _ _ _ => exact hnone l (List.mem_of_getElem? hl) hzero
  | oldest hnone _ _ _ => exact hnone l (List.mem_of_getElem? hl) hzero

theorem pickSlot_after {leases : List Lease} (hne : leases ≠ []) {a b : Mac} (hab : a ≠ b)
    (seq : UInt32) :
    pickSlot leases a ≠ pickSlot (leases.set (pickSlot leases a) ⟨a, seq⟩) b ↔
      Spares (leases.set (pickSlot leases a) ⟨a, seq⟩) seq (pickSlot leases a) a b := by
  have hat : (leases.set (pickSlot leases a) ⟨a, seq⟩)[pickSlot leases a]? = some ⟨a, seq⟩ :=
    List.getElem?_set_self (pickSlot_lt hne a)
  have hother {j : ℕ} (hj : pickSlot leases a ≠ j) :
      (leases.set (pickSlot leases a) ⟨a, seq⟩)[j]? = leases[j]? := List.getElem?_set_ne hj
  have hne' : leases.set (pickSlot leases a) ⟨a, seq⟩ ≠ [] := by
    simpa [List.set_eq_nil_iff] using hne
  have hbelow (ha : a = Mac.zero) {j : ℕ} {l : Lease} (hj : j < pickSlot leases a)
      (hl : leases[j]? = some l) : l.mac ≠ Mac.zero := by
    subst ha
    exact first_empty_after_zero hne hj hl
  have hpicks := pickSlot_picks hne' b
  generalize pickSlot leases a = i at *
  generalize leases.set i ⟨a, seq⟩ = table at *
  generalize pickSlot table b = j at *
  cases hpicks with
  | @known l hl hlb _ =>
    refine ⟨fun _ => .inl ⟨l, List.mem_of_getElem? hl, hlb⟩, fun _ => ?_⟩
    rintro rfl
    rw [hat] at hl
    exact hab (by rw [← hlb, ← Option.some.inj hl])
  | @empty l hnone hl hzero hfirst =>
    by_cases ha : a = Mac.zero
    · have hij : i = j := by
        rcases Nat.lt_trichotomy i j with hlt | heq | hlt
        · exact absurd ha (hfirst i _ hlt hat)
        · exact heq
        · rw [hother (Nat.ne_of_gt hlt)] at hl
          exact absurd hzero (hbelow ha hlt hl)
      refine ⟨fun h => absurd hij h, ?_⟩
      rintro (⟨l', hl', hb⟩ | ⟨hne0, -⟩)
      · exact absurd hb (hnone l' hl')
      · exact absurd ha hne0
    · refine ⟨fun _ => .inr ⟨ha, .inl ⟨l, List.mem_of_getElem? hl, hzero⟩⟩, fun _ => ?_⟩
      rintro rfl
      rw [hat] at hl
      exact ha (by rw [← hzero, ← Option.some.inj hl])
  | @oldest l hnone hfull hl hmin =>
    have ha : a ≠ Mac.zero := hfull _ (List.mem_of_getElem? hat)
    constructor
    · intro hij
      obtain ⟨hle, htie⟩ := hmin i _ hat
      refine .inr ⟨ha, .inr ⟨j, l, hl, ?_⟩⟩
      by_cases heq : l.seq = seq
      · have hle' : i ≤ j := htie heq
        exact .inr ⟨heq, by omega⟩
      · exact .inl (UInt32.lt_of_le_of_ne hle heq)
    · rintro (⟨l', hl', hb⟩ | ⟨-, ⟨l', hl', hzero⟩ | ⟨k, l', hl', holder⟩⟩)
      · exact absurd hb (hnone l' hl')
      · exact absurd hzero (hfull l' hl')
      · rintro rfl
        rw [hat] at hl
        obtain rfl := Option.some.inj hl
        obtain ⟨hle, htie⟩ := hmin k l' hl'
        dsimp only at hle htie
        rcases holder with hlt | ⟨heq, hlt⟩
        · exact absurd hle (UInt32.not_le.2 hlt)
        · have hle' : k ≤ i := htie heq.symm
          omega

/-- **Two calls in a row give different slots** exactly where the second one `Spares` the first one's:
until the counter wraps, unless the first client has the address zero and the second one is new. -/
theorem consecutive_slots_differ_iff (ms : List Mac) {a b : Mac} (hab : a ≠ b) :
    ∃ slots leases seq i j leases' seq', slotRun (a :: ms) = .ok (i :: slots, leases, seq) ∧
      slotRun (b :: a :: ms) = .ok (j :: i :: slots, leases', seq') ∧
      (i ≠ j ↔ Spares leases seq i a b) ∧
      (ms.length + 1 < 2 ^ 32 → (i ≠ j ↔ a ≠ Mac.zero ∨ ∃ l ∈ leases, l.mac = b)) := by
  obtain ⟨⟨slots, leases, seq⟩, hrun, hlen⟩ := slotRun_returns ms
  have h8 : leases.length = 8 := hlen
  have hne : leases ≠ [] := by
    rintro rfl
    cases h8
  have hfirst := slotRun_cons hrun hlen a
  have hlen' : (leases.set (pickSlot leases a) ⟨a, seq + 1⟩).length = poolSize := by
    rw [List.length_set]
    exact hlen
  have hsecond := slotRun_cons hfirst hlen' b
  have hspares := pickSlot_after hne hab (seq + 1)
  refine ⟨_, _, _, _, _, _, _, hfirst, hsecond, hspares, fun hcount => hspares.trans ?_⟩
  constructor
  · rintro (hb | ⟨ha, -⟩)
    · exact .inr hb
    · exact .inl ha
  · rintro (ha | hb)
    · -- of the other seven leases each is older
      obtain ⟨-, hclock, hstamps⟩ := (slotRun_clock (show ms.length < 2 ^ 32 by omega)).post hrun
      have hseq : seq.toNat = ms.length := hclock
      obtain ⟨k, hk, hki⟩ : ∃ k, k < leases.length ∧ pickSlot leases a ≠ k := by
        by_cases h0 : pickSlot leases a = 0
        · exact ⟨1, by omega, by omega⟩
        · exact ⟨0, by omega, h0⟩
      refine .inr ⟨ha, .inr ⟨k, leases[k], ?_, .inl ?_⟩⟩
      · rw [List.getElem?_set_ne hki, List.getElem?_eq_getElem hk]
      · have hstamp : leases[k].seq.toNat ≤ ms.length := hstamps _ (List.getElem_mem hk)
        rw [UInt32.lt_iff_toNat_lt, UInt32.toNat_add, hseq, UInt32.toNat_one,
          Nat.mod_eq_of_lt hcount]
        omega
    · exact .inl hb

/-- A client with the address zero, and then another one. -/
theorem zero_mac_shares_slot :
    ∃ leases seq, slotRun [[2, 0, 0, 0, 0, 1], Mac.zero] = .ok ([0, 0], leases, seq) :=
  ⟨⟨[2, 0, 0, 0, 0, 1], 2⟩ :: List.replicate 7 .empty, 2, by decide +kernel⟩

/-- Two clients with other addresses. -/
theorem consecutive_slots_differ_iff_two :
    ∃ slots leases seq i j, slotRun [[2, 0, 0, 0, 0, 2], [2, 0, 0, 0, 0, 1]] =
      .ok (j :: i :: slots, leases, seq) ∧ i ≠ j := by
  obtain ⟨slots, _, _, i, j, leases, seq, -, hrun, -, hiff⟩ := consecutive_slots_differ_iff []
    (show ([2, 0, 0, 0, 0, 1] : Mac) ≠ [2, 0, 0, 0, 0, 2] by decide)
  exact ⟨slots, leases, seq, i, j, hrun, (hiff (by decide)).2 (.inl (by decide))⟩

end ScoreboardCtrl.Net
