import ScoreboardCtrl.Flash.MergeUf2

/-!
# Merging what was merged

The file that `scripts/merge-uf2.py` writes is one that it reads (`merged_reads`): every block keeps its
magics, and numbering a block again leaves nothing of the old numbers. So it does not matter in which
order several images are merged: `mergeUf2_assoc`.
-/

namespace ScoreboardCtrl.Flash

open Lib (Rust)

/-! ### Files that the script reads -/

/-- The three magics of a block. -/
structure Framed (b : Bytes) : Prop where
  first : unpackU32 b 0 = magic0
  second : unpackU32 b 4 = magic1
  last : unpackU32 b 508 = magicEnd

/-- A file that `blocks` accepts. -/
structure Readable (data : Bytes) : Prop where
  whole : 512 ∣ data.length
  framed : ∀ b ∈ slices 512 data, Framed b

/-- What `blocks` makes of a block. -/
def addressed (b : Bytes) : ℤ × Bytes := (unpackU32 b 12, b)

theorem checkBlock_ok_iff {path : String} {i : ℕ} {b : Bytes} {y : ℤ × Bytes} :
    checkBlock path i b = .ok y ↔ Framed b ∧ y = addressed b := by
  unfold checkBlock
  split
  · rename_i hbad
    refine ⟨by rintro ⟨⟩, ?_⟩
    rintro ⟨hframed, -⟩
    rcases hbad with hbad | hbad | hbad
    · exact absurd hframed.first hbad
    · exact absurd hframed.second hbad
    · exact absurd hframed.last hbad
  · rename_i hgood
    simp only [not_or, not_not] at hgood
    obtain ⟨hfirst, hsecond, hlast⟩ := hgood
    constructor
    · rintro ⟨⟩
      exact ⟨⟨hfirst, hsecond, hlast⟩, rfl⟩
    · rintro ⟨-, rfl⟩
      rfl

theorem forEach_cons_ok_iff {σ τ : Type} {f : ℕ → σ → Script τ} {i : ℕ} {x : σ} {xs : List σ}
    {ys : List τ} : forEach f i (x :: xs) = .ok ys ↔
      ∃ y ys', f i x = .ok y ∧ forEach f (i + 1) xs = .ok ys' ∧ ys = y :: ys' := by
  refine ⟨forEach_cons_ok, ?_⟩
  rintro ⟨y, ys', hy, hys, rfl⟩
  exact bind_eq_ok.2 ⟨y, hy, bind_eq_ok.2 ⟨ys', hys, rfl⟩⟩

theorem forEach_checkBlock_iff {path : String} {i : ℕ} {xs : List Bytes} {bs : List (ℤ × Bytes)} :
    forEach (checkBlock path) i xs = .ok bs ↔ (∀ b ∈ xs, Framed b) ∧ bs = xs.map addressed := by
  induction xs generalizing i bs with
  | nil => simp [forEach, eq_comm]
  | cons b xs ih =>
    rw [forEach_cons_ok_iff, List.forall_mem_cons, List.map_cons]
    constructor
    · rintro ⟨y, ys, hy, hys, rfl⟩
      obtain ⟨hb, rfl⟩ := checkBlock_ok_iff.1 hy
      obtain ⟨hxs, rfl⟩ := ih.1 hys
      exact ⟨⟨hb, hxs⟩, rfl⟩
    · rintro ⟨⟨hb, hxs⟩, rfl⟩
      exact ⟨_, _, checkBlock_ok_iff.2 ⟨hb, rfl⟩, ih.2 ⟨hxs, rfl⟩, rfl⟩

/-- **What `blocks` reads.** -/
theorem blocks_ok_iff {path : String} {data : Bytes} {bs : List (ℤ × Bytes)} :
    blocks path data = .ok bs ↔ Readable data ∧ bs = (slices 512 data).map addressed := by
  unfold blocks
  split
  · rename_i hmod
    refine ⟨by rintro ⟨⟩, ?_⟩
    rintro ⟨hread, -⟩
    exact absurd (Nat.mod_eq_zero_of_dvd hread.whole) hmod
  · rename_i hmod
    have hdvd : 512 ∣ data.length := Nat.dvd_of_mod_eq_zero (by simpa using hmod)
    rw [forEach_checkBlock_iff]
    exact ⟨fun h => ⟨⟨hdvd, h.1⟩, h.2⟩, fun h => ⟨h.1.framed, h.2⟩⟩

/-! ### Numbering -/

/-- A block with its number and the number of blocks. -/
def number (n i : ℕ) (b : Bytes) : Bytes := Rust.splice b 20 (packU32 i ++ packU32 n)

/-- Blocks numbered from `i` on, of `n`. -/
def numberAll (n : ℕ) : ℕ → List Bytes → List Bytes
  | _, [] => []
  | i, b :: bs => number n i b :: numberAll n (i + 1) bs

theorem length_number {b : Bytes} (hb : b.length = 512) (n i : ℕ) : (number n i b).length = 512 := by
  have hwords : (packU32 i ++ packU32 n).length = 8 := rfl
  rw [number, Rust.length_splice (by rw [hwords, hb]; decide), hb]

theorem number_getElem? {b : Bytes} (hb : b.length = 512) (n i : ℕ) {j : ℕ}
    (hj : j < 20 ∨ 28 ≤ j) : (number n i b)[j]? = b[j]? := by
  have hlo : 20 ≤ b.length := by omega
  have hwords : (packU32 i ++ packU32 n).length = 8 := rfl
  rcases hj with hj | hj
  · have htake : (b.take 20).length = 20 := List.length_take_of_le hlo
    rw [number, Rust.splice, List.append_assoc, List.getElem?_append_left (by omega),
      List.getElem?_take_of_lt hj]
  · have hdrop : (number n i b).drop (20 + 8) = b.drop (20 + 8) := by
      have hsplice := @Rust.drop_splice _ b (packU32 i ++ packU32 n) 20 hlo 0
      rwa [hwords] at hsplice
    obtain ⟨k, rfl⟩ := Nat.exists_eq_add_of_le hj
    rw [← List.getElem?_drop, hdrop, List.getElem?_drop]

theorem unpackU32_number {b : Bytes} (hb : b.length = 512) (n i : ℕ) {j : ℕ}
    (hj : j + 4 ≤ 20 ∨ 28 ≤ j) : unpackU32 (number n i b) j = unpackU32 b j := by
  have hbyte : ∀ k, j ≤ k → k < j + 4 → byteAt (number n i b) k = byteAt b k :=
    fun k hle hlt => byteAt_congr (number_getElem? hb n i (by omega))
  simp only [unpackU32]
  rw [hbyte j (by omega) (by omega), hbyte (j + 1) (by omega) (by omega),
    hbyte (j + 2) (by omega) (by omega), hbyte (j + 3) (by omega) (by omega)]

theorem Framed.number {b : Bytes} (h : Framed b) (hb : b.length = 512) (n i : ℕ) :
    Framed (number n i b) where
  first := (unpackU32_number hb n i (by omega)).trans h.first
  second := (unpackU32_number hb n i (by omega)).trans h.second
  last := (unpackU32_number hb n i (by omega)).trans h.last

theorem number_number {b : Bytes} (hb : b.length = 512) (n i m j : ℕ) :
    number n i (number m j b) = number n i b := Rust.splice_again (by omega) rfl

theorem numberAll_append (n i : ℕ) (bs cs : List Bytes) :
    numberAll n i (bs ++ cs) = numberAll n i bs ++ numberAll n (i + bs.length) cs := by
  induction bs generalizing i with
  | nil => rfl
  | cons b bs ih =>
    rw [List.cons_append, numberAll, numberAll, ih, List.cons_append, List.length_cons,
      Nat.add_right_comm i 1, Nat.add_assoc]

/-- **Numbering leaves nothing of the old numbers.** -/
theorem numberAll_numberAll {bs : List Bytes} (hbs : ∀ b ∈ bs, b.length = 512) (n i m j : ℕ) :
    numberAll n i (numberAll m j bs) = numberAll n i bs := by
  induction bs generalizing i j with
  | nil => rfl
  | cons b bs ih =>
    obtain ⟨hb, hbs⟩ := List.forall_mem_cons.1 hbs
    rw [numberAll, numberAll, number_number hb, ih hbs, numberAll]

theorem length_numberAll (n i : ℕ) (bs : List Bytes) : (numberAll n i bs).length = bs.length := by
  induction bs generalizing i with
  | nil => rfl
  | cons b bs ih => rw [numberAll, List.length_cons, ih, List.length_cons]

theorem exists_of_mem_numberAll {n i : ℕ} {bs : List Bytes} {b : Bytes}
    (h : b ∈ numberAll n i bs) : ∃ b₀ ∈ bs, ∃ j, b = number n j b₀ := by
  induction bs generalizing i with
  | nil => cases h
  | cons b₀ bs ih =>
    rcases List.mem_cons.1 h with rfl | h
    · exact ⟨b₀, List.mem_cons_self, i, rfl⟩
    · obtain ⟨b₁, hmem, hj⟩ := ih h
      exact ⟨b₁, List.mem_cons_of_mem _ hmem, hj⟩

theorem pack_ok_iff {x : ℕ} {b : Bytes} : pack x = .ok b ↔ x < 4294967296 ∧ b = packU32 x := by
  unfold pack
  split
  · rename_i hx
    rw [Int.toNat_natCast]
    exact ⟨fun h => ⟨by omega, (Except.ok.inj h).symm⟩, fun h => by rw [h.2]⟩
  · rename_i hx
    exact ⟨by rintro ⟨⟩, fun h => absurd h.1 (by omega)⟩

theorem renumber_ok_iff {n i : ℕ} {blk : ℤ × Bytes} {b : Bytes} :
    renumber n i blk = .ok b ↔ i < 4294967296 ∧ n < 4294967296 ∧ b = number n i blk.2 := by
  constructor
  · intro h
    obtain ⟨no, hno, h⟩ := bind_eq_ok.1 h
    obtain ⟨num, hnum, h⟩ := bind_eq_ok.1 h
    obtain ⟨hi, rfl⟩ := pack_ok_iff.1 hno
    obtain ⟨hn, rfl⟩ := pack_ok_iff.1 hnum
    exact ⟨hi, hn, (Except.ok.inj h).symm⟩
  · rintro ⟨hi, hn, rfl⟩
    exact bind_eq_ok.2 ⟨_, pack_ok_iff.2 ⟨hi, rfl⟩, bind_eq_ok.2 ⟨_, pack_ok_iff.2 ⟨hn, rfl⟩, rfl⟩⟩

theorem forEach_renumber_iff {n i : ℕ} {merged : List (ℤ × Bytes)} {written : List Bytes}
    (hn : i + merged.length = n) : forEach (renumber n) i merged = .ok written ↔
      (merged ≠ [] → n < 4294967296) ∧ written = numberAll n i (merged.map Prod.snd) := by
  induction merged generalizing i written with
  | nil => simp [forEach, numberAll, eq_comm]
  | cons blk merged ih =>
    rw [List.length_cons] at hn
    rw [forEach_cons_ok_iff, List.map_cons, numberAll]
    constructor
    · rintro ⟨b, bs, hb, hbs, rfl⟩
      obtain ⟨-, hlt, rfl⟩ := renumber_ok_iff.1 hb
      obtain ⟨-, rfl⟩ := (ih (by omega)).1 hbs
      exact ⟨fun _ => hlt, rfl⟩
    · rintro ⟨hlt, rfl⟩
      have hlt := hlt (List.cons_ne_nil _ _)
      exact ⟨_, _, renumber_ok_iff.2 ⟨by omega, hlt, rfl⟩, (ih (by omega)).2 ⟨fun _ => hlt, rfl⟩, rfl⟩

/-! ### STATE -/

theorem uf2Block_framed {addr : ℤ} {payload b : Bytes} (h : uf2Block addr payload = .ok b) :
    Framed b := by
  unfold uf2Block at h
  split at h
  · cases h
  rename_i hlen
  have hlen : payload.length = 256 := by simpa using hlen
  obtain ⟨word, hword, h⟩ := bind_eq_ok.1 h
  obtain ⟨-, -, rfl⟩ := pack_ok hword
  have hb := (Except.ok.inj h).symm.trans (splice_uf2Block rfl hlen)
  have hfirst : b.drop 0 = packU32 magic0 ++ b.drop 4 := by
    rw [hb]
    rfl
  have hsecond : b.drop 4 = packU32 magic1 ++ b.drop 8 := by
    rw [hb]
    rfl
  have hlast : b.drop 508 = packU32 magicEnd ++ [] := by
    rw [hb, ← List.append_assoc, ← List.append_assoc, List.append_nil]
    refine List.drop_left' ?_
    simp only [List.length_append, hlen, List.length_replicate]
    rfl
  exact ⟨unpackU32_pack hfirst (by decide), unpackU32_pack hsecond (by decide),
    unpackU32_pack hlast (by decide)⟩

theorem forall_mem_forEach {σ τ : Type} {f : ℕ → σ → Script τ} {P : τ → Prop}
    (hf : ∀ {i x y}, f i x = .ok y → P y) {i : ℕ} {xs : List σ} {ys : List τ}
    (h : forEach f i xs = .ok ys) : ∀ y ∈ ys, P y := by
  induction xs generalizing i ys with
  | nil =>
    cases h
    exact List.forall_mem_nil _
  | cons x xs ih =>
    obtain ⟨y, ys', hy, hys, rfl⟩ := forEach_cons_ok h
    exact List.forall_mem_cons.2 ⟨hf hy, ih hys⟩

theorem injectState_framed {state : Option (ℤ × ℤ)} {ss : List (ℤ × Bytes)}
    (h : injectState state = .ok ss) : ∀ b ∈ ss, Framed b.2 := by
  cases state with
  | none =>
    cases h
    exact List.forall_mem_nil _
  | some s =>
    have hblock : ∀ {i : ℕ} {part : Bytes} {y : ℤ × Bytes}, stateBlock s.1 i part = .ok y →
        Framed y.2 := by
      intro i part y hy
      obtain ⟨b, hb, hy⟩ := bind_eq_ok.1 hy
      cases hy
      exact uf2Block_framed hb
    simp only [injectState, stateBlocks] at h
    split at h
    · cases h
    · split at h
      · cases h
      · exact forall_mem_forEach hblock h

/-! ### What a merge returns -/

/-- The blocks that go into the file. -/
def mergedBlocks (boot app : Bytes) (ss : List (ℤ × Bytes)) : List Bytes :=
  slices 512 boot ++ ss.map Prod.snd ++ slices 512 app

/-- The file of some blocks, numbered. -/
def writeBlocks (bs : List Bytes) : Bytes := (numberAll bs.length 0 bs).flatten

theorem map_snd_addressed (bs : List Bytes) : (bs.map addressed).map Prod.snd = bs := by
  rw [List.map_map]
  exact List.map_id bs

/-- **What the script writes**, where it does. -/
theorem mergeUf2_ok_iff {bootPath appPath : String} {boot app out : Bytes}
    {state : Option (ℤ × ℤ)} : mergeUf2 bootPath boot appPath app state = .ok out ↔
      Readable boot ∧ Readable app ∧ ∃ ss, injectState state = .ok ss ∧
        mergedBlocks boot app ss ≠ [] ∧ (mergedBlocks boot app ss).length < 4294967296 ∧
        out = writeBlocks (mergedBlocks boot app ss) := by
  have hsnd (ss : List (ℤ × Bytes)) :
      ((slices 512 boot).map addressed ++ ss ++ (slices 512 app).map addressed).map Prod.snd =
        mergedBlocks boot app ss := by
    rw [List.map_append, List.map_append, map_snd_addressed, map_snd_addressed, mergedBlocks]
  have hlength (ss : List (ℤ × Bytes)) :
      ((slices 512 boot).map addressed ++ ss ++ (slices 512 app).map addressed).length =
        (mergedBlocks boot app ss).length := by
    rw [← hsnd, List.length_map]
  constructor
  · intro h
    obtain ⟨bs, hboot, h⟩ := bind_eq_ok.1 h
    obtain ⟨ss, hstate, h⟩ := bind_eq_ok.1 h
    obtain ⟨as, happ, h⟩ := bind_eq_ok.1 h
    obtain ⟨written, hwritten, h⟩ := bind_eq_ok.1 h
    obtain ⟨hreadBoot, rfl⟩ := blocks_ok_iff.1 hboot
    obtain ⟨hreadApp, rfl⟩ := blocks_ok_iff.1 happ
    obtain ⟨hlt, rfl⟩ := (forEach_renumber_iff (Nat.zero_add _)).1 hwritten
    rw [hlength] at hlt
    rw [hlength, hsnd] at h
    split at h
    · cases h
    · rename_i hne
      have hmerged : mergedBlocks boot app ss ≠ [] := fun hnil => hne (by rw [hnil]; rfl)
      refine ⟨hreadBoot, hreadApp, ss, hstate, hmerged, hlt ?_, (Except.ok.inj h).symm⟩
      intro hnil
      rw [← hsnd, hnil] at hmerged
      exact hmerged rfl
  · rintro ⟨hboot, happ, ss, hstate, hne, hlt, rfl⟩
    have hwritten : forEach (renumber ((slices 512 boot).map addressed ++ ss ++
        (slices 512 app).map addressed).length) 0
          ((slices 512 boot).map addressed ++ ss ++ (slices 512 app).map addressed) =
        .ok (numberAll (mergedBlocks boot app ss).length 0 (mergedBlocks boot app ss)) := by
      refine (forEach_renumber_iff (Nat.zero_add _)).2 ⟨fun _ => ?_, ?_⟩
      · rwa [hlength]
      · rw [hlength, hsnd]
    refine bind_eq_ok.2 ⟨_, blocks_ok_iff.2 ⟨hboot, rfl⟩, bind_eq_ok.2 ⟨ss, hstate, ?_⟩⟩
    refine bind_eq_ok.2 ⟨_, blocks_ok_iff.2 ⟨happ, rfl⟩, bind_eq_ok.2 ⟨_, hwritten, ?_⟩⟩
    rw [hlength, if_neg (by simpa using hne)]
    rfl

theorem length_mergedBlocks {boot app : Bytes} {state : Option (ℤ × ℤ)} {ss : List (ℤ × Bytes)}
    (h : injectState state = .ok ss) : ∀ b ∈ mergedBlocks boot app ss, b.length = 512 := by
  intro b hb
  rcases List.mem_append.1 hb with hb | hb
  · rcases List.mem_append.1 hb with hb | hb
    · exact length_of_mem_slices hb
    · obtain ⟨blk, hblk, rfl⟩ := List.mem_map.1 hb
      exact (injectState_ok h).1 blk hblk
  · exact length_of_mem_slices hb

theorem framed_mergedBlocks {boot app : Bytes} {state : Option (ℤ × ℤ)} {ss : List (ℤ × Bytes)}
    (hboot : Readable boot) (happ : Readable app) (h : injectState state = .ok ss) :
    ∀ b ∈ mergedBlocks boot app ss, Framed b := by
  intro b hb
  rcases List.mem_append.1 hb with hb | hb
  · rcases List.mem_append.1 hb with hb | hb
    · exact hboot.framed b hb
    · obtain ⟨blk, hblk, rfl⟩ := List.mem_map.1 hb
      exact injectState_framed h blk hblk
  · exact happ.framed b hb

/-- Numbered blocks, one after the other, are a file that the script reads. -/
theorem writeBlocks_reads {bs : List Bytes} (hlen : ∀ b ∈ bs, b.length = 512)
    (hframed : ∀ b ∈ bs, Framed b) :
    Readable (writeBlocks bs) ∧ slices 512 (writeBlocks bs) = numberAll bs.length 0 bs := by
  have hblock : ∀ b ∈ numberAll bs.length 0 bs, b.length = 512 ∧ Framed b := by
    intro b hb
    obtain ⟨b₀, hmem, j, rfl⟩ := exists_of_mem_numberAll hb
    exact ⟨length_number (hlen b₀ hmem) _ j, (hframed b₀ hmem).number (hlen b₀ hmem) _ j⟩
  have hslices : slices 512 (writeBlocks bs) = numberAll bs.length 0 bs :=
    slices_flatten (by omega) fun b hb => (hblock b hb).1
  refine ⟨⟨?_, ?_⟩, hslices⟩
  · rw [writeBlocks, length_flatten_blocks fun b hb => (hblock b hb).1]
    exact Nat.dvd_mul_left 512 _
  · rw [hslices]
    exact fun b hb => (hblock b hb).2

/-- **The script reads what it wrote.** -/
theorem merged_reads {boot app : Bytes} {state : Option (ℤ × ℤ)} {ss : List (ℤ × Bytes)}
    (hboot : Readable boot) (happ : Readable app) (hstate : injectState state = .ok ss) :
    Readable (writeBlocks (mergedBlocks boot app ss)) ∧
      slices 512 (writeBlocks (mergedBlocks boot app ss)) =
        numberAll (mergedBlocks boot app ss).length 0 (mergedBlocks boot app ss) :=
  writeBlocks_reads (length_mergedBlocks hstate) (framed_mergedBlocks hboot happ hstate)

/-- Blocks that were numbered before are written like any others. -/
theorem writeBlocks_numberAll {ys : List Bytes} (hys : ∀ b ∈ ys, b.length = 512)
    (xs zs : List Bytes) (m j : ℕ) :
    writeBlocks (xs ++ numberAll m j ys ++ zs) = writeBlocks (xs ++ ys ++ zs) := by
  have hlength : (xs ++ numberAll m j ys ++ zs).length = (xs ++ ys ++ zs).length := by
    simp only [List.length_append, length_numberAll]
  have hmid : (xs ++ numberAll m j ys).length = (xs ++ ys).length := by
    simp only [List.length_append, length_numberAll]
  rw [writeBlocks, hlength, numberAll_append, numberAll_append, numberAll_numberAll hys, hmid,
    ← numberAll_append, ← numberAll_append, writeBlocks]

/-! ### Three images -/

/-- `a`, STATE, `b` and `c` are merged into `out`. -/
def Merges (a b c : Bytes) (state : Option (ℤ × ℤ)) (out : Bytes) : Prop :=
  Readable a ∧ Readable b ∧ Readable c ∧ ∃ ss, injectState state = .ok ss ∧
    (mergedBlocks a b ss ++ slices 512 c).length < 4294967296 ∧
    out = writeBlocks (mergedBlocks a b ss ++ slices 512 c)

theorem injectState_none {ss : List (ℤ × Bytes)} : injectState none = .ok ss ↔ ss = [] :=
  ⟨fun h => (Except.ok.inj h).symm, fun h => by rw [h]; rfl⟩

theorem slices_ne_nil {b : Bytes} (hb : b ≠ []) (hread : Readable b) : slices 512 b ≠ [] := by
  intro hnil
  rw [← flatten_slices hread.whole, hnil] at hb
  exact hb rfl

variable {p q r s : String} {a b c out : Bytes} {state : Option (ℤ × ℤ)}

theorem mergedBlocks_append_ne_nil {ss : List (ℤ × Bytes)} (hb : b ≠ []) (hread : Readable b)
    (cs : List Bytes) : mergedBlocks a b ss ++ cs ≠ [] := by
  intro hnil
  obtain ⟨hblocks, -⟩ := List.append_eq_nil_iff.1 hnil
  exact slices_ne_nil hb hread (List.append_eq_nil_iff.1 hblocks).2

theorem merge_left_iff (hb : b ≠ []) :
    (∃ ab, mergeUf2 p a q b state = .ok ab ∧ mergeUf2 s ab r c none = .ok out) ↔
      Merges a b c state out := by
  have hblocks {ss : List (ℤ × Bytes)} (ha : Readable a) (hread : Readable b)
      (hstate : injectState state = .ok ss) :
      Readable (writeBlocks (mergedBlocks a b ss)) ∧
        (mergedBlocks (writeBlocks (mergedBlocks a b ss)) c []).length =
          (mergedBlocks a b ss ++ slices 512 c).length ∧
        writeBlocks (mergedBlocks (writeBlocks (mergedBlocks a b ss)) c []) =
          writeBlocks (mergedBlocks a b ss ++ slices 512 c) := by
    obtain ⟨habread, hab⟩ := merged_reads ha hread hstate
    rw [mergedBlocks.eq_def (writeBlocks _), hab, List.map_nil, List.append_nil]
    refine ⟨habread, ?_, ?_⟩
    · simp only [List.length_append, length_numberAll]
    · exact writeBlocks_numberAll (length_mergedBlocks hstate) [] _ _ _
  constructor
  · rintro ⟨ab, hab, hout⟩
    obtain ⟨ha, hread, ss, hstate, -, -, rfl⟩ := mergeUf2_ok_iff.1 hab
    obtain ⟨-, hc, none, hnone, -, hlt, rfl⟩ := mergeUf2_ok_iff.1 hout
    obtain rfl := injectState_none.1 hnone
    obtain ⟨-, hlength, hwrite⟩ := hblocks ha hread hstate
    exact ⟨ha, hread, hc, ss, hstate, hlength ▸ hlt, hwrite⟩
  · rintro ⟨ha, hread, hc, ss, hstate, hlt, rfl⟩
    obtain ⟨habread, hlength, hwrite⟩ := hblocks ha hread hstate
    have hne : mergedBlocks a b ss ≠ [] := by
      have happend : mergedBlocks a b ss ++ [] ≠ [] := mergedBlocks_append_ne_nil hb hread []
      rwa [List.append_nil] at happend
    have hltab : (mergedBlocks a b ss).length < 4294967296 := by
      rw [List.length_append] at hlt
      omega
    refine ⟨_, mergeUf2_ok_iff.2 ⟨ha, hread, ss, hstate, hne, hltab, rfl⟩, ?_⟩
    refine mergeUf2_ok_iff.2 ⟨habread, hc, [], rfl, ?_, hlength ▸ hlt, hwrite.symm⟩
    refine List.ne_nil_of_length_pos ?_
    rw [hlength, List.length_pos_iff]
    exact mergedBlocks_append_ne_nil hb hread _

theorem merge_right_iff (hb : b ≠ []) :
    (∃ bc, mergeUf2 q b r c none = .ok bc ∧ mergeUf2 p a s bc state = .ok out) ↔
      Merges a b c state out := by
  have hblocks (ss : List (ℤ × Bytes)) (hread : Readable b) (hc : Readable c) :
      Readable (writeBlocks (mergedBlocks b c [])) ∧
        (mergedBlocks a (writeBlocks (mergedBlocks b c [])) ss).length =
          (mergedBlocks a b ss ++ slices 512 c).length ∧
        writeBlocks (mergedBlocks a (writeBlocks (mergedBlocks b c [])) ss) =
          writeBlocks (mergedBlocks a b ss ++ slices 512 c) := by
    obtain ⟨hbcread, hbc⟩ := merged_reads hread hc (injectState_none.2 rfl)
    have hlen := @length_mergedBlocks b c none [] (injectState_none.2 rfl)
    have hwrite := writeBlocks_numberAll hlen (slices 512 a ++ ss.map Prod.snd) []
      (mergedBlocks b c []).length 0
    rw [List.append_nil, List.append_nil] at hwrite
    refine ⟨hbcread, ?_, ?_⟩
    · rw [mergedBlocks, hbc]
      simp [mergedBlocks, length_numberAll]
    · rw [mergedBlocks, hbc, hwrite]
      simp [mergedBlocks]
  constructor
  · rintro ⟨bc, hbc, hout⟩
    obtain ⟨hread, hc, none, hnone, -, -, rfl⟩ := mergeUf2_ok_iff.1 hbc
    obtain ⟨ha, -, ss, hstate, -, hlt, rfl⟩ := mergeUf2_ok_iff.1 hout
    obtain rfl := injectState_none.1 hnone
    obtain ⟨-, hlength, hwrite⟩ := hblocks ss hread hc
    exact ⟨ha, hread, hc, ss, hstate, hlength ▸ hlt, hwrite⟩
  · rintro ⟨ha, hread, hc, ss, hstate, hlt, rfl⟩
    obtain ⟨hbcread, hlength, hwrite⟩ := hblocks ss hread hc
    have hne : mergedBlocks b c [] ≠ [] := by
      intro hnil
      obtain ⟨hfirst, -⟩ := List.append_eq_nil_iff.1 hnil
      exact slices_ne_nil hb hread (List.append_eq_nil_iff.1 hfirst).1
    have hltbc : (mergedBlocks b c []).length < 4294967296 := by
      simp only [mergedBlocks, List.length_append, List.map_nil, List.length_nil] at hlt ⊢
      omega
    refine ⟨_, mergeUf2_ok_iff.2 ⟨hread, hc, [], rfl, hne, hltbc, rfl⟩, ?_⟩
    refine mergeUf2_ok_iff.2 ⟨ha, hbcread, ss, hstate, ?_, hlength ▸ hlt, hwrite.symm⟩
    refine List.ne_nil_of_length_pos ?_
    rw [hlength, List.length_pos_iff]
    exact mergedBlocks_append_ne_nil hb hread _

/-- A merged file can be merged with any file that the script reads, while a block's number has 32
bits. -/
theorem merge_again {ab : Bytes} (hab : mergeUf2 p a q b state = .ok ab) {cs : List (ℤ × Bytes)}
    (hc : blocks r c = .ok cs) (hlt : ab.length + c.length < 512 * 4294967296) :
    ∃ abc, mergeUf2 s ab r c none = .ok abc := by
  obtain ⟨ha, hb, ss, hstate, hne, -, rfl⟩ := mergeUf2_ok_iff.1 hab
  obtain ⟨hcread, -⟩ := blocks_ok_iff.1 hc
  obtain ⟨habread, hslices⟩ := merged_reads ha hb hstate
  have hlength : (mergedBlocks (writeBlocks (mergedBlocks a b ss)) c []).length =
      (slices 512 (writeBlocks (mergedBlocks a b ss))).length + (slices 512 c).length := by
    simp [mergedBlocks]
  have hcut := length_slices 512 (writeBlocks (mergedBlocks a b ss))
  have hcut' := length_slices 512 c
  refine ⟨_, mergeUf2_ok_iff.2 ⟨habread, hcread, [], rfl, ?_, by omega, rfl⟩⟩
  refine List.ne_nil_of_length_pos ?_
  have hpos := List.length_pos_iff.2 hne
  rw [hlength, hslices, length_numberAll]
  omega

/-- **Merging is closed and associative.** A merged file can be merged again. Three images with STATE
behind the first, the middle one not empty, come out as the same file whichever two are merged first;
and where the one way succeeds so does the other. -/
theorem mergeUf2_assoc {t : String} (hb : b ≠ []) :
    (∀ ab, mergeUf2 p a q b state = .ok ab → ∀ cs, blocks r c = .ok cs →
      ab.length + c.length < 512 * 4294967296 → ∃ abc, mergeUf2 s ab r c none = .ok abc) ∧
    ((∃ ab, mergeUf2 p a q b state = .ok ab ∧ mergeUf2 s ab r c none = .ok out) ↔
      ∃ bc, mergeUf2 q b r c none = .ok bc ∧ mergeUf2 p a t bc state = .ok out) :=
  ⟨fun _ hab _ hc hlt => merge_again hab hc hlt, (merge_left_iff hb).trans (merge_right_iff hb).symm⟩

/-- A bootloader, a small STATE, an application and its data. -/
theorem mergeUf2_assoc_data : ∃ abc,
    (∃ bc, mergeUf2 "app.uf2" (oneBlock 0x10009000 2) "data.uf2" (oneBlock 0x10100000 3) none =
        .ok bc ∧
      mergeUf2 "bootloader.uf2" (oneBlock 0x10000000 1) "rest.uf2" bc (some (0x10008000, 256)) =
        .ok abc) := by
  obtain ⟨ab, hab, hlen⟩ : ∃ ab, mergeUf2 "bootloader.uf2" (oneBlock 0x10000000 1) "app.uf2"
      (oneBlock 0x10009000 2) (some (0x10008000, 256)) = .ok ab ∧ ab.length = 1536 :=
    exists_of_map_ok (by decide +kernel)
  obtain ⟨cs, hcs⟩ : ∃ cs, blocks "data.uf2" (oneBlock 0x10100000 3) = .ok cs :=
    exists_of_isOk (by decide +kernel)
  have hlen' : (oneBlock 0x10100000 3).length = 512 := by decide +kernel
  obtain ⟨abc, habc⟩ := (@mergeUf2_assoc _ _ _ "scoreboard.uf2" _ _ _ [] _ "rest.uf2"
    (by decide)).1 ab hab cs hcs (by omega)
  exact ⟨abc, (mergeUf2_assoc (by decide)).2.1 ⟨ab, hab, habc⟩⟩

end ScoreboardCtrl.Flash
