import Mathlib.Data.List.Dedup
import Mathlib.Tactic.Common

/-!
# Least recently used

A history lists the keys that were used, the newest first.

* `recent cap hist` — the `cap` keys used last, in the order of their last use;
* `mem_recent` — a key is among them exactly when fewer than `cap` distinct keys were used since;
* `recent_cons_of_mem`, `recent_cons_of_room` and `recent_cons_evict` — what one more use does: it
  moves a key up, takes a free place, or takes the place of the key whose last use is the oldest;
* `use` and `uses` — a memory with `cap` places, as a list of its keys; its keys are the recent ones
  (`map_fst_uses`), and a step is one of `use_of_mem`, `use_of_room` and `use_of_full`.
-/

namespace ScoreboardCtrl.Lib.Lru

variable {α : Type} [DecidableEq α]

/-- The keys of a history in the order of their last use. -/
def order : List α → List α
  | [] => []
  | m :: hist => m :: (order hist).erase m

def recent (cap : ℕ) (hist : List α) : List α := (order hist).take cap

/-- The uses of other keys since the last one of `m`. -/
def since (m : α) (hist : List α) : List α := hist.takeWhile fun x => x ≠ m

/-- When `m` was used last, in uses from the start. -/
def lastUse (m : α) (hist : List α) : ℕ := (hist.dropWhile fun x => x ≠ m).length

/-! ### The order of the last uses -/

theorem nodup_order (hist : List α) : (order hist).Nodup := by
  induction hist with
  | nil => exact List.nodup_nil
  | cons m hist ih => exact List.nodup_cons.2 ⟨ih.not_mem_erase, ih.erase m⟩

theorem mem_order {m : α} {hist : List α} : m ∈ order hist ↔ m ∈ hist := by
  induction hist with
  | nil => simp [order]
  | cons x hist ih =>
    by_cases hm : m = x
    · simp [order, hm]
    · rw [order, List.mem_cons, List.mem_cons, List.mem_erase_of_ne hm, ih]

theorem takeWhile_erase {m x : α} (h : x ≠ m) (l : List α) :
    (l.erase x).takeWhile (fun y => y ≠ m) = (l.takeWhile fun y => y ≠ m).erase x := by
  induction l with
  | nil => rfl
  | cons y l ih =>
    by_cases hy : y = x
    · subst hy
      simp [h]
    · by_cases hm : y = m
      · subst hm
        simp [hy]
      · rw [List.erase_cons_tail (by simpa using hy),
          List.takeWhile_cons_of_pos (by simpa using hm),
          List.takeWhile_cons_of_pos (by simpa using hm), ih,
          List.erase_cons_tail (by simpa using hy)]

/-- The keys ahead of `m` are those used since. -/
theorem mem_takeWhile_order {m x : α} {hist : List α} :
    x ∈ (order hist).takeWhile (fun y => y ≠ m) ↔ x ∈ since m hist := by
  induction hist with
  | nil => simp [order, since]
  | cons y hist ih =>
    by_cases hm : y = m
    · simp [order, since, hm]
    · have hsince : since m (y :: hist) = y :: since m hist := by simp [since, hm]
      have hhead : (order (y :: hist)).takeWhile (fun y => y ≠ m) =
          y :: ((order hist).takeWhile fun y => y ≠ m).erase y := by
        rw [order, List.takeWhile_cons_of_pos (by simpa using hm), takeWhile_erase hm]
      rw [hsince, hhead]
      by_cases hx : x = y
      · simp [hx]
      · rw [List.mem_cons, List.mem_cons, List.mem_erase_of_ne hx, ih]

theorem idxOf_eq_length_takeWhile (m : α) (l : List α) (h : m ∈ l) :
    l.idxOf m = (l.takeWhile fun y => y ≠ m).length := by
  induction l with
  | nil => cases h
  | cons y l ih =>
    by_cases hm : y = m
    · simp [hm]
    · have hmem : m ∈ l := (List.mem_cons.1 h).resolve_left fun h => hm h.symm
      rw [List.idxOf_cons_ne _ hm, ih hmem, List.takeWhile_cons_of_pos (by simpa using hm)]
      rfl

/-- **A key stays** while fewer than `cap` others are used. -/
theorem mem_recent {cap : ℕ} {m : α} {hist : List α} :
    m ∈ recent cap hist ↔ m ∈ hist ∧ (since m hist).dedup.length < cap := by
  have hcount (h : m ∈ order hist) : (order hist).idxOf m = (since m hist).dedup.length := by
    rw [idxOf_eq_length_takeWhile m _ h]
    have hnodup : ((order hist).takeWhile fun y => y ≠ m).Nodup :=
      (nodup_order hist).sublist (List.takeWhile_sublist _)
    refine ((List.perm_ext_iff_of_nodup hnodup (List.nodup_dedup _)).2 fun x => ?_).length_eq
    rw [mem_takeWhile_order, List.mem_dedup]
  constructor
  · intro h
    have hmem := List.mem_of_mem_take h
    exact ⟨mem_order.1 hmem, hcount hmem ▸ (List.mem_take_iff_idxOf_lt hmem).1 h⟩
  · rintro ⟨hmem, hlt⟩
    have hmem' := mem_order.2 hmem
    exact (List.mem_take_iff_idxOf_lt hmem').2 (by rw [hcount hmem']; exact hlt)

theorem nodup_recent (cap : ℕ) (hist : List α) : (recent cap hist).Nodup :=
  (nodup_order hist).sublist (List.take_sublist _ _)

theorem length_recent_le (cap : ℕ) (hist : List α) : (recent cap hist).length ≤ cap :=
  List.length_take_le _ _

/-! ### One more use -/

theorem take_erase (m : α) (l : List α) (cap : ℕ) :
    (l.erase m).take cap = ((l.take (cap + 1)).erase m).take cap := by
  induction l generalizing cap with
  | nil => simp
  | cons x l ih =>
    by_cases hx : x = m
    · subst hx
      simp [List.take_take]
    · cases cap with
      | zero => simp
      | succ cap => simp [hx, ih cap]

theorem recent_cons (cap : ℕ) (m : α) (hist : List α) :
    recent (cap + 1) (m :: hist) = m :: ((recent (cap + 1) hist).erase m).take cap := by
  rw [recent, order, List.take_succ_cons, take_erase]
  rfl

theorem recent_cons_of_mem {cap : ℕ} {m : α} {hist : List α} (h : m ∈ recent (cap + 1) hist) :
    (recent (cap + 1) (m :: hist)).Perm (recent (cap + 1) hist) := by
  have hlen := length_recent_le (cap + 1) hist
  rw [recent_cons, List.take_of_length_le (by rw [List.length_erase_of_mem h]; omega)]
  exact (List.perm_cons_erase h).symm

theorem recent_cons_of_room {cap : ℕ} {m : α} {hist : List α} (h : m ∉ recent (cap + 1) hist)
    (hroom : (recent (cap + 1) hist).length ≤ cap) :
    recent (cap + 1) (m :: hist) = m :: recent (cap + 1) hist := by
  rw [recent_cons, List.erase_of_not_mem h, List.take_of_length_le hroom]

theorem lastUse_cons_self (m : α) (hist : List α) : lastUse m (m :: hist) = hist.length + 1 := by
  simp [lastUse]

theorem lastUse_cons_of_ne {m x : α} (h : x ≠ m) (hist : List α) :
    lastUse m (x :: hist) = lastUse m hist := by
  simp [lastUse, h]

theorem lastUse_le (m : α) (hist : List α) : lastUse m hist ≤ hist.length :=
  (List.dropWhile_sublist _).length_le

/-- The order goes by the last use. -/
theorem order_sorted (hist : List α) :
    (order hist).Pairwise fun a b => lastUse b hist < lastUse a hist := by
  induction hist with
  | nil => exact List.Pairwise.nil
  | cons m hist ih =>
    have hne : ∀ x ∈ (order hist).erase m, m ≠ x := by
      rintro x hx rfl
      exact (nodup_order hist).not_mem_erase hx
    refine List.pairwise_cons.2 ⟨?_, ?_⟩
    · intro x hx
      have := lastUse_le x hist
      rw [lastUse_cons_self, lastUse_cons_of_ne (hne x hx)]
      omega
    · refine (ih.sublist List.erase_sublist).imp_of_mem fun hx hy hlt => ?_
      rw [lastUse_cons_of_ne (hne _ hx), lastUse_cons_of_ne (hne _ hy)]
      exact hlt

/-- In a full memory the key with the oldest last use is the one that goes. -/
theorem recent_cons_evict {cap : ℕ} {m v : α} {rest hist : List α}
    (h : m ∉ recent (cap + 1) hist) (hfull : (recent (cap + 1) hist).length = cap + 1)
    (hrest : (v :: rest).Perm (recent (cap + 1) hist))
    (hmin : ∀ x ∈ recent (cap + 1) hist, lastUse v hist ≤ lastUse x hist) :
    (recent (cap + 1) (m :: hist)).Perm (m :: rest) := by
  have hsorted : (recent (cap + 1) hist).Pairwise fun a b => lastUse b hist < lastUse a hist :=
    (order_sorted hist).sublist (List.take_sublist _ _)
  have hv : v ∈ recent (cap + 1) hist := hrest.mem_iff.1 List.mem_cons_self
  rw [recent_cons, List.erase_of_not_mem h]
  generalize recent (cap + 1) hist = l at *
  obtain ⟨init, z, rfl⟩ : ∃ init z, l = init ++ [z] :=
    ⟨l.dropLast, l.getLast (List.ne_nil_of_mem hv), (List.dropLast_append_getLast _).symm⟩
  rw [List.length_append, List.length_singleton, Nat.add_right_cancel_iff] at hfull
  have hz : v ∉ init := by
    intro hin
    have hlt := (List.pairwise_append.1 hsorted).2.2 v hin z (List.mem_singleton_self z)
    have := hmin z (by simp)
    omega
  obtain rfl : v = z := by simpa [hz] using hv
  rw [List.take_left' hfull]
  have hinit : (v :: rest).Perm (v :: init) := hrest.trans (List.perm_append_singleton v init)
  exact (hinit.cons_inv.symm).cons m

/-! ### A memory with places -/

/-- The lowest place that no key has. -/
def lowestFree (cap : ℕ) (l : List (α × ℕ)) : ℕ :=
  ((List.range cap).find? fun i => i ∉ l.map Prod.snd).getD 0

/-- A use of `m`. The memory lists the keys with their places, the one used last first. A key that is
known keeps its place, a new one takes the lowest place that is free or else that of the last key. -/
def use (cap : ℕ) (m : α) (l : List (α × ℕ)) : ℕ × List (α × ℕ) :=
  match l.find? fun x => x.1 = m with
  | some x => (x.2, (m, x.2) :: l.filter fun y => y.1 ≠ m)
  | none =>
    if l.length < cap then (lowestFree cap l, (m, lowestFree cap l) :: l)
    else
      match l.getLast? with
      | some x => (x.2, (m, x.2) :: l.dropLast)
      | none => (0, [])

/-- The places of the uses and the memory after them. -/
def uses (cap : ℕ) : List α → List ℕ × List (α × ℕ)
  | [] => ([], [])
  | m :: hist =>
    ((use cap m (uses cap hist).2).1 :: (uses cap hist).1, (use cap m (uses cap hist).2).2)

section Use

variable {cap i : ℕ} {m : α} {l : List (α × ℕ)}

theorem use_of_mem (hkeys : (l.map Prod.fst).Nodup) (h : (m, i) ∈ l) :
    use cap m l = (i, (m, i) :: l.filter fun y => y.1 ≠ m) := by
  have hfind : (l.find? fun x => x.1 = m) = some (m, i) := by
    cases hfind : l.find? fun x => x.1 = m with
    | none =>
      have hnone : ∀ a b, (a, b) ∈ l → ¬ a = m := by simpa using hfind
      exact absurd rfl (hnone m i h)
    | some x =>
      have hx : x.1 = m := by simpa using List.find?_some hfind
      rw [List.inj_on_of_nodup_map hkeys (List.mem_of_find?_eq_some hfind) h hx]
  rw [use, hfind]

theorem find?_eq_none_of_not_mem (h : m ∉ l.map Prod.fst) : (l.find? fun x => x.1 = m) = none := by
  refine List.find?_eq_none.2 fun x hx hxm => h ?_
  exact List.mem_map.2 ⟨x, hx, by simpa using hxm⟩

theorem use_of_room (h : m ∉ l.map Prod.fst) (hroom : l.length < cap) :
    use cap m l = (lowestFree cap l, (m, lowestFree cap l) :: l) := by
  rw [use, find?_eq_none_of_not_mem h]
  exact if_pos hroom

theorem use_of_full {v : α} (h : m ∉ (l ++ [(v, i)]).map Prod.fst)
    (hfull : cap ≤ (l ++ [(v, i)]).length) :
    use cap m (l ++ [(v, i)]) = (i, (m, i) :: l) := by
  rw [use, find?_eq_none_of_not_mem h]
  dsimp only
  rw [if_neg (Nat.not_lt.2 hfull), List.getLast?_concat, List.dropLast_concat]

omit [DecidableEq α] in
theorem lowestFree_eq (hi : i < cap) (hfree : i ∉ l.map Prod.snd)
    (hbelow : ∀ j < i, j ∈ l.map Prod.snd) : lowestFree cap l = i := by
  have hfind : ((List.range cap).find? fun i => i ∉ l.map Prod.snd) = some i := by
    refine List.find?_range_eq_some.2 ⟨by simpa using hfree, List.mem_range.2 hi, fun j hj => ?_⟩
    simpa using hbelow j hj
  rw [lowestFree, hfind, Option.getD_some]

end Use

theorem map_fst_uses (cap : ℕ) (hist : List α) :
    (uses (cap + 1) hist).2.map Prod.fst = recent (cap + 1) hist := by
  induction hist with
  | nil => rfl
  | cons m hist ih =>
    have hkeys := nodup_recent (cap + 1) hist
    have hlen := length_recent_le (cap + 1) hist
    rw [recent_cons, uses]
    generalize (uses (cap + 1) hist).2 = l at *
    rw [← ih] at hkeys hlen ⊢
    rw [List.length_map] at hlen
    by_cases hmem : m ∈ l.map Prod.fst
    · obtain ⟨⟨x, i⟩, hx, rfl⟩ := List.mem_map.1 hmem
      have hfilter : (l.filter fun y => y.1 ≠ x).map Prod.fst = (l.map Prod.fst).erase x := by
        rw [hkeys.erase_eq_filter, List.filter_map]
        congr 2
        funext y
        by_cases hy : y.1 = x <;> simp [hy]
      have herase := List.length_erase_of_mem hmem
      rw [List.length_map] at herase
      rw [use_of_mem hkeys hx, List.map_cons, hfilter, List.take_of_length_le (by omega)]
    rw [List.erase_of_not_mem hmem]
    by_cases hroom : l.length < cap + 1
    · rw [use_of_room hmem hroom, List.map_cons,
        List.take_of_length_le (by rw [List.length_map]; omega)]
    · obtain ⟨init, last, rfl⟩ : ∃ init last, l = init ++ [last] := by
        have hne : l ≠ [] := by
          rintro rfl
          exact hroom (Nat.succ_pos cap)
        exact ⟨l.dropLast, l.getLast hne, (List.dropLast_append_getLast hne).symm⟩
      obtain ⟨v, i⟩ := last
      rw [use_of_full hmem (Nat.not_lt.1 hroom), List.map_cons, List.map_append]
      rw [List.length_append, List.length_singleton] at hlen hroom
      rw [List.take_left' (by rw [List.length_map]; omega)]

end ScoreboardCtrl.Lib.Lru
