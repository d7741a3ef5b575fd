import ScoreboardCtrl.Flash.Uf2

/-!
# `scripts/merge-uf2.py`

The script puts the blocks of the bootloader, an erased STATE partition and the blocks of the
application into one file, and numbers them. It does not ask whether they overlap.

* `blocks_ok`, `stateBlocks_ok`, `renumber_ok` — what the functions of the script return, where they
  return;
* `flashUf2_merged` — flashing the file writes all that went into it, in order;
* `merged_uf2_intact_iff` — nothing of that is lost exactly where the inputs do not disagree.
-/

namespace ScoreboardCtrl.Flash

open Lib (Rust)
open Lib.Overlay

/-- What ends the script before its end. -/
inductive ScriptError where
  | systemExit (message : String)
  | indexError
  | structError
  deriving DecidableEq, Repr

abbrev Script (α : Type) : Type := Except ScriptError α

abbrev magic0 : ℕ := 0x0A324655
abbrev magic1 : ℕ := 0x9E5D5157
abbrev magicEnd : ℕ := 0x0AB16F30
abbrev flags : ℕ := 0x2000
abbrev familyRp2040 : ℕ := 0xE48BFF56
abbrev payloadSize : ℕ := 256
abbrev bootMagic : UInt8 := 0xD0

/-- `struct.pack("<I", x)` -/
def pack (x : ℤ) : Script Bytes :=
  if 0 ≤ x ∧ x < 4294967296 then .ok (packU32 x.toNat) else .error .structError

/-- A `for` over `enumerate(xs)`, from `i` on, that collects what its body returns. -/
def forEach {σ τ : Type} (f : ℕ → σ → Script τ) (i : ℕ) : List σ → Script (List τ)
  | [] => .ok []
  | x :: xs => do
    let y ← f i x
    let ys ← forEach f (i + 1) xs
    return y :: ys

/-- The body of the `for` of `blocks`. -/
def checkBlock (path : String) (i : ℕ) (b : Bytes) : Script (ℤ × Bytes) :=
  if unpackU32 b 0 ≠ magic0 ∨ unpackU32 b 4 ≠ magic1 ∨ unpackU32 b 508 ≠ magicEnd then
    .error (.systemExit (path ++ ": bad UF2 magic at block " ++ toString i))
  else .ok (unpackU32 b 12, b)

def blocks (path : String) (data : Bytes) : Script (List (ℤ × Bytes)) :=
  if data.length % 512 ≠ 0 then
    .error (.systemExit (path ++ ": length " ++ toString data.length ++ " not multiple of 512"))
  else forEach (checkBlock path) 0 (slices 512 data)

def uf2Block (addr : ℤ) (payload : Bytes) : Script Bytes :=
  if payload.length ≠ payloadSize then
    .error (.systemExit ("UF2 payload must be 256 bytes, got " ++ toString payload.length))
  else do
    let addr ← pack addr
    let blk := Rust.splice (List.replicate 512 0) 0
      (packU32 magic0 ++ packU32 magic1 ++ packU32 flags ++ addr ++ packU32 payloadSize ++
        packU32 0 ++ packU32 0 ++ packU32 familyRp2040)
    let blk := Rust.splice blk 32 payload
    return Rust.splice blk 508 (packU32 magicEnd)

/-- The body of the `for` of `state_blocks`; the offset is 256 times the number of the round. -/
def stateBlock (addr : ℤ) (i : ℕ) (payload : Bytes) : Script (ℤ × Bytes) := do
  let a := addr + 256 * i
  return (a, ← uf2Block a payload)

def stateBlocks (addr size : ℤ) : Script (List (ℤ × Bytes)) :=
  if size % 256 ≠ 0 then
    .error (.systemExit ("state size " ++ toString size ++ " is not a multiple of 256"))
  else
    let data := List.replicate size.toNat 0xFF
    -- `data[0] = BOOT_MAGIC`
    if data.length = 0 then .error .indexError
    else forEach (stateBlock addr) 0 (slices 256 (data.set 0 bootMagic))

/-- `--state-addr` and `--state-size`; no blocks without an address. -/
def injectState : Option (ℤ × ℤ) → Script (List (ℤ × Bytes))
  | none => .ok []
  | some (addr, size) => stateBlocks addr size

/-- `struct.pack_into("<II", blk, 20, i, n)` -/
def renumber (n i : ℕ) (blk : ℤ × Bytes) : Script Bytes := do
  let i ← pack i
  let n ← pack n
  return Rust.splice blk.2 20 (i ++ n)

/-- `main`: the file that is written. -/
def mergeUf2 (bootPath : String) (boot : Bytes) (appPath : String) (app : Bytes)
    (state : Option (ℤ × ℤ)) : Script Bytes := do
  let merged ← blocks bootPath boot
  let merged := merged ++ (← injectState state)
  let merged := merged ++ (← blocks appPath app)
  let written ← forEach (renumber merged.length) 0 merged
  -- `merged[0][0]`
  if merged.length = 0 then .error .indexError
  else return written.flatten

/-! ### What is to be in the flash -/

/-- `BOOT_MAGIC` and erased bytes. -/
def stateContents : Option (ℤ × ℤ) → List (ℕ → Option UInt8)
  | none => []
  | some (addr, size) =>
    [piece addr.toNat (bootMagic :: List.replicate (size.toNat - 1) 0xFF)]

/-- All that goes into the file. -/
def contents (boot app : Bytes) (state : Option (ℤ × ℤ)) : List (ℕ → Option UInt8) :=
  (slices 512 boot).map segment ++ stateContents state ++ (slices 512 app).map segment

/-! ### What the functions return -/

theorem bind_eq_ok {ε α β : Type} {x : Except ε α} {f : α → Except ε β} {b : β} :
    (x >>= f) = .ok b ↔ ∃ a, x = .ok a ∧ f a = .ok b := by
  cases x with
  | error e => exact ⟨by rintro ⟨⟩, by rintro ⟨a, ⟨⟩, -⟩⟩
  | ok a => exact ⟨fun h => ⟨a, rfl, h⟩, by rintro ⟨a, ⟨⟩, h⟩; exact h⟩

theorem forEach_cons_ok {σ τ : Type} {f : ℕ → σ → Script τ} {i : ℕ} {x : σ} {xs : List σ}
    {ys : List τ} (h : forEach f i (x :: xs) = .ok ys) :
    ∃ y ys', f i x = .ok y ∧ forEach f (i + 1) xs = .ok ys' ∧ ys = y :: ys' := by
  obtain ⟨y, hy, h⟩ := bind_eq_ok.1 h
  obtain ⟨ys', hys, h⟩ := bind_eq_ok.1 h
  exact ⟨y, ys', hy, hys, (Except.ok.inj h).symm⟩

theorem pack_ok {x : ℤ} {b : Bytes} (h : pack x = .ok b) :
    0 ≤ x ∧ x < 4294967296 ∧ b = packU32 x.toNat := by
  unfold pack at h
  split at h
  · rename_i hx
    exact ⟨hx.1, hx.2, (Except.ok.inj h).symm⟩
  · cases h

theorem blocks_ok {path : String} {data : Bytes} {bs : List (ℤ × Bytes)}
    (h : blocks path data = .ok bs) : bs.map Prod.snd = slices 512 data := by
  have hcheck {xs : List Bytes} {i : ℕ} {bs : List (ℤ × Bytes)}
      (h : forEach (checkBlock path) i xs = .ok bs) : bs.map Prod.snd = xs := by
    induction xs generalizing i bs with
    | nil =>
      cases h
      rfl
    | cons b xs ih =>
      obtain ⟨y, ys, hy, hys, rfl⟩ := forEach_cons_ok h
      have hsnd : y.2 = b := by
        unfold checkBlock at hy
        split at hy
        · cases hy
        · cases hy
          rfl
      rw [List.map_cons, hsnd, ih hys]
  unfold blocks at h
  split at h
  · cases h
  · exact hcheck h

theorem splice_uf2Block {header payload : Bytes} (hheader : header.length = 32)
    (hpayload : payload.length = 256) :
    Rust.splice (Rust.splice (Rust.splice (List.replicate 512 0) 0 header) 32 payload) 508
        (packU32 magicEnd) =
      header ++ (payload ++ (List.replicate 220 0 ++ packU32 magicEnd)) := by
  have hzeros (m k : ℕ) : (List.replicate (m + k) 0 : Bytes) =
      List.replicate m 0 ++ List.replicate k 0 := by rw [List.replicate_append_replicate]
  have hfirst : Rust.splice (List.replicate 512 0) 0 header = [] ++ header ++ List.replicate 480 0 :=
    Rust.splice_block [] (List.replicate 32 0) (List.replicate 480 0) (hzeros 32 480) rfl
      (by rw [hheader, List.length_replicate])
  have hsecond : Rust.splice (header ++ List.replicate 480 0) 32 payload =
      header ++ payload ++ List.replicate 224 0 := by
    refine Rust.splice_block header (List.replicate 256 0) (List.replicate 224 0) ?_ hheader
      (by rw [hpayload, List.length_replicate])
    rw [hzeros 256 224, List.append_assoc]
  have hthird : Rust.splice (header ++ payload ++ List.replicate 224 0) 508 (packU32 magicEnd) =
      header ++ payload ++ List.replicate 220 0 ++ packU32 magicEnd ++ [] := by
    refine Rust.splice_block _ (List.replicate 4 0) [] ?_ ?_ rfl
    · rw [hzeros 220 4, List.append_nil]
      simp only [List.append_assoc]
    · simp only [List.length_append, hheader, hpayload, List.length_replicate]
  rw [hfirst, List.nil_append, hsecond, hthird]
  simp only [List.append_assoc, List.append_nil]

theorem uf2Block_ok {addr : ℤ} {payload b : Bytes} (h : uf2Block addr payload = .ok b) :
    0 ≤ addr ∧ b.length = 512 ∧ segment b = piece addr.toNat payload := by
  unfold uf2Block at h
  split at h
  · cases h
  rename_i hlen
  have hlen : payload.length = 256 := by simpa using hlen
  obtain ⟨word, hword, h⟩ := bind_eq_ok.1 h
  obtain ⟨h0, hlt, rfl⟩ := pack_ok hword
  generalize hrest : packU32 0 ++ (packU32 0 ++ packU32 familyRp2040) = rest
  generalize hheader : packU32 magic0 ++ packU32 magic1 ++ packU32 flags ++ packU32 addr.toNat ++
    packU32 payloadSize ++ packU32 0 ++ packU32 0 ++ packU32 familyRp2040 = header at h
  have hparts : header = packU32 magic0 ++ packU32 magic1 ++ packU32 flags ++
      (packU32 addr.toNat ++ (packU32 payloadSize ++ rest)) := by
    rw [← hheader, ← hrest]
    simp only [List.append_assoc]
  have hheaderlen : header.length = 32 := by
    rw [← hheader]
    rfl
  have hb : b = header ++ (payload ++ (List.replicate 220 0 ++ packU32 magicEnd)) :=
    (Except.ok.inj h).symm.trans (splice_uf2Block hheaderlen hlen)
  have hlength : b.length = 512 := by
    rw [hb]
    simp only [List.length_append, hheaderlen, hlen, List.length_replicate]
    rfl
  have hbody : (b.drop 32).take 256 = payload := by
    rw [hb, List.drop_left' hheaderlen, List.take_left' hlen]
  generalize payload ++ (List.replicate 220 0 ++ packU32 magicEnd) = tail at hb
  have hwords : b.drop 12 = packU32 addr.toNat ++ (packU32 payloadSize ++ (rest ++ tail)) := by
    have hfront : (packU32 magic0 ++ packU32 magic1 ++ packU32 flags).length = 12 := rfl
    rw [hb, hparts, List.append_assoc, List.drop_left' hfront]
    simp only [List.append_assoc]
  have haddr : unpackU32 b 12 = addr.toNat := unpackU32_pack hwords (by omega)
  have hsize : unpackU32 b 16 = 256 := by
    have hnext : b.drop (12 + 4) = packU32 payloadSize ++ (rest ++ tail) := by
      rw [← List.drop_drop, hwords]
      rfl
    exact unpackU32_pack hnext (by decide)
  refine ⟨h0, hlength, ?_⟩
  rw [segment, haddr, hsize, hbody]

/-- Numbering a block leaves what it says of the flash. -/
theorem renumber_ok {n i : ℕ} {blk : ℤ × Bytes} {b : Bytes} (h : renumber n i blk = .ok b)
    (hlen : blk.2.length = 512) :
    b.length = 512 ∧ segment b = segment blk.2 ∧ unpackU32 b 20 = i ∧ unpackU32 b 24 = n := by
  obtain ⟨no, hno, h⟩ := bind_eq_ok.1 h
  obtain ⟨num, hnum, h⟩ := bind_eq_ok.1 h
  obtain ⟨-, hi, rfl⟩ := pack_ok hno
  obtain ⟨-, hn, rfl⟩ := pack_ok hnum
  rw [Int.toNat_natCast, Int.toNat_natCast] at h
  have hb : b = blk.2.take 20 ++ (packU32 i ++ (packU32 n ++ blk.2.drop 28)) := by
    rw [← Except.ok.inj h, Rust.splice, List.append_assoc, List.append_assoc]
    rfl
  have htake : (blk.2.take 20).length = 20 := by
    rw [List.length_take, hlen]
    rfl
  have hfront {j : ℕ} (hj : j < 20) : b[j]? = blk.2[j]? := by
    rw [hb, List.getElem?_append_left (by rw [htake]; exact hj), List.getElem?_take_of_lt hj]
  have hwords : (packU32 i ++ packU32 n).length = 8 := rfl
  have hback : b.drop 32 = blk.2.drop 32 := by
    have hdrop : (Rust.splice blk.2 20 (packU32 i ++ packU32 n)).drop
        (20 + (packU32 i ++ packU32 n).length + 4) = _ := Rust.drop_splice (by omega) 4
    rw [← Except.ok.inj h]
    exact hdrop
  refine ⟨?_, ?_, ?_, ?_⟩
  · rw [← Except.ok.inj h, Rust.length_splice (by rw [hwords, hlen]; decide), hlen]
  · rw [segment, segment, hback, unpackU32_congr fun j hj => hfront (by omega),
      unpackU32_congr fun j hj => hfront (by omega)]
  · have hfirst : b.drop 20 = packU32 i ++ (packU32 n ++ blk.2.drop 28) := by
      rw [hb, List.drop_left' htake]
    exact unpackU32_pack hfirst (by omega)
  · have hsecond : b.drop 24 = packU32 n ++ blk.2.drop 28 := by
      rw [hb, ← List.append_assoc, List.drop_left' (by rw [List.length_append, htake]; rfl)]
    exact unpackU32_pack hsecond (by omega)

/-! ### STATE -/

theorem stateBlock_ok {addr : ℤ} {i : ℕ} {part : Bytes} {y : ℤ × Bytes}
    (h : stateBlock addr i part = .ok y) :
    0 ≤ addr + 256 * i ∧ y.2.length = 512 ∧ segment y.2 = piece (addr + 256 * i).toNat part := by
  obtain ⟨b, hb, h⟩ := bind_eq_ok.1 h
  cases h
  exact uf2Block_ok hb

/-- The blocks for the parts of some data say what the data says. -/
theorem forEach_stateBlock {addr : ℤ} {i : ℕ} {parts : List Bytes} {bs : List (ℤ × Bytes)}
    (h : forEach (stateBlock addr) i parts = .ok bs) (hlen : ∀ p ∈ parts, p.length = 256) :
    (∀ b ∈ bs, b.2.length = 512) ∧ ∀ a x, Says (bs.map fun b => segment b.2) a x ↔
      piece (addr + 256 * i).toNat parts.flatten a = some x := by
  induction parts generalizing i bs with
  | nil =>
    cases h
    exact ⟨by simp, by simp [Says, piece]⟩
  | cons part parts ih =>
    obtain ⟨y, ys, hy, hys, rfl⟩ := forEach_cons_ok h
    obtain ⟨hpart, hparts⟩ := List.forall_mem_cons.1 hlen
    obtain ⟨h0, hylen, hyseg⟩ := stateBlock_ok hy
    obtain ⟨hyslen, hrest⟩ := ih hys hparts
    refine ⟨List.forall_mem_cons.2 ⟨hylen, hyslen⟩, ?_⟩
    intro a x
    have hbase : (addr + 256 * ((i + 1 : ℕ) : ℤ)).toNat =
        (addr + 256 * i).toNat + part.length := by
      rw [hpart]
      omega
    rw [List.map_cons, says_cons, hrest, hyseg, hbase, List.flatten_cons, piece_append]

theorem stateBlocks_ok {addr size : ℤ} {bs : List (ℤ × Bytes)}
    (h : stateBlocks addr size = .ok bs) :
    (∀ b ∈ bs, b.2.length = 512) ∧ ∀ a x, Says (bs.map fun b => segment b.2) a x ↔
      Says (stateContents (some (addr, size))) a x := by
  unfold stateBlocks at h
  split at h
  · cases h
  rename_i hmod
  have hmod : size % 256 = 0 := by simpa using hmod
  dsimp only at h
  split at h
  · cases h
  rename_i hne
  rw [List.length_replicate] at hne
  have hdata : (List.replicate size.toNat (0xFF : UInt8)).set 0 bootMagic =
      bootMagic :: List.replicate (size.toNat - 1) 0xFF := by
    obtain ⟨k, hk⟩ : ∃ k, size.toNat = k + 1 := ⟨size.toNat - 1, by omega⟩
    rw [hk]
    rfl
  have hdvd : 256 ∣ (bootMagic :: List.replicate (size.toNat - 1) (0xFF : UInt8)).length := by
    rw [List.length_cons, List.length_replicate]
    omega
  rw [hdata] at h
  obtain ⟨hlen, hpieces⟩ := forEach_stateBlock h fun p => length_of_mem_slices
  refine ⟨hlen, ?_⟩
  intro a x
  rw [hpieces, flatten_slices hdvd]
  simp [Says, stateContents]

theorem injectState_ok {state : Option (ℤ × ℤ)} {bs : List (ℤ × Bytes)}
    (h : injectState state = .ok bs) :
    (∀ b ∈ bs, b.2.length = 512) ∧ ∀ a x, Says (bs.map fun b => segment b.2) a x ↔
      Says (stateContents state) a x := by
  cases state with
  | none =>
    cases h
    exact ⟨by simp, fun a x => Iff.rfl⟩
  | some s => exact stateBlocks_ok h

/-! ### The file -/

theorem forEach_renumber {n i : ℕ} {merged : List (ℤ × Bytes)} {written : List Bytes}
    (h : forEach (renumber n) i merged = .ok written) (hlen : ∀ b ∈ merged, b.2.length = 512) :
    written.length = merged.length ∧ (∀ b ∈ written, b.length = 512) ∧
      written.map segment = (merged.map fun b => segment b.2) ∧ Numbered n i written := by
  induction merged generalizing i written with
  | nil =>
    cases h
    exact ⟨rfl, by simp, rfl, trivial⟩
  | cons blk merged ih =>
    obtain ⟨b, bs, hb, hbs, rfl⟩ := forEach_cons_ok h
    obtain ⟨hblk, hmerged⟩ := List.forall_mem_cons.1 hlen
    obtain ⟨hblen, hseg, hno, hnum⟩ := renumber_ok hb hblk
    obtain ⟨hcount, hlens, hsegs, hnumbered⟩ := ih hbs hmerged
    refine ⟨by rw [List.length_cons, hcount, List.length_cons], ?_, ?_, hno, hnum, hnumbered⟩
    · exact List.forall_mem_cons.2 ⟨hblen, hlens⟩
    · rw [List.map_cons, hseg, hsegs]
      rfl

theorem blocks_segments {path : String} {data : Bytes} {bs : List (ℤ × Bytes)}
    (h : blocks path data = .ok bs) :
    (∀ b ∈ bs, b.2.length = 512) ∧
      (bs.map fun b => segment b.2) = (slices 512 data).map segment := by
  have hsnd := blocks_ok h
  constructor
  · intro b hb
    have hmem : b.2 ∈ bs.map Prod.snd := List.mem_map_of_mem hb
    rw [hsnd] at hmem
    exact length_of_mem_slices hmem
  · rw [← hsnd, List.map_map]
    rfl

/-- **Flashing the file** writes pieces that say what is to be in the flash. -/
theorem flashUf2_merged {bootPath appPath : String} {boot app out : Bytes}
    {state : Option (ℤ × ℤ)} (h : mergeUf2 bootPath boot appPath app state = .ok out)
    (flash : ℕ → UInt8) :
    ∃ ps, flashUf2 flash out = overlay flash ps ∧
      ∀ a x, Says ps a x ↔ Says (contents boot app state) a x := by
  obtain ⟨bs, hboot, h⟩ := bind_eq_ok.1 h
  obtain ⟨ss, hstate, h⟩ := bind_eq_ok.1 h
  obtain ⟨as, happ, h⟩ := bind_eq_ok.1 h
  obtain ⟨written, hwritten, h⟩ := bind_eq_ok.1 h
  obtain ⟨hbootlen, hbootseg⟩ := blocks_segments hboot
  obtain ⟨hstatelen, hstatepieces⟩ := injectState_ok hstate
  obtain ⟨happlen, happseg⟩ := blocks_segments happ
  have hlen : ∀ b ∈ bs ++ ss ++ as, b.2.length = 512 := by
    intro b hb
    rw [List.mem_append, List.mem_append] at hb
    obtain (hb | hb) | hb := hb
    · exact hbootlen b hb
    · exact hstatelen b hb
    · exact happlen b hb
  obtain ⟨hcount, hlens, hsegs, hnumbered⟩ := forEach_renumber hwritten hlen
  have hout : out = written.flatten := by
    split at h
    · cases h
    · exact (Except.ok.inj h).symm
  refine ⟨written.map segment, ?_, fun a x => ?_⟩
  · rw [flashUf2, hout, slices_flatten (by omega) hlens]
    refine flashBlocks_numbered flash hnumbered ?_ rfl (by simp)
    rw [hcount, Nat.zero_add]
  · rw [hsegs, List.map_append, List.map_append, hbootseg, happseg, contents, says_append,
      says_append, says_append, says_append, hstatepieces]

/-- **The merged UF2 flashes its inputs**: where the script succeeds, every byte of the bootloader, of
STATE and of the application is in the flash, exactly if no two of them want different bytes at one
address. -/
theorem merged_uf2_intact_iff {bootPath appPath : String} {boot app out : Bytes}
    {state : Option (ℤ × ℤ)} (h : mergeUf2 bootPath boot appPath app state = .ok out)
    (flash : ℕ → UInt8) :
    Intact (flashUf2 flash out) (contents boot app state) ↔ Agree (contents boot app state) := by
  obtain ⟨ps, hflash, hpieces⟩ := flashUf2_merged h flash
  rw [hflash, ← intact_congr hpieces, ← agree_congr hpieces]
  exact intact_overlay_iff flash

theorem says_boot {boot app b : Bytes} {state : Option (ℤ × ℤ)} {a : ℕ} {x : UInt8}
    (hb : b ∈ slices 512 boot) (h : segment b a = some x) : Says (contents boot app state) a x :=
  ⟨segment b, List.mem_append_left _ (List.mem_append_left _ (List.mem_map_of_mem hb)), h⟩

theorem says_app {boot app b : Bytes} {state : Option (ℤ × ℤ)} {a : ℕ} {x : UInt8}
    (hb : b ∈ slices 512 app) (h : segment b a = some x) : Says (contents boot app state) a x :=
  ⟨segment b, List.mem_append_right _ (List.mem_map_of_mem hb), h⟩

/-- A file of one block, with its payload full of one byte. -/
def oneBlock (addr : ℕ) (x : UInt8) : Bytes :=
  packU32 magic0 ++ packU32 magic1 ++ packU32 flags ++ packU32 addr ++ packU32 payloadSize ++
    packU32 0 ++ packU32 1 ++ packU32 familyRp2040 ++ List.replicate 256 x ++ List.replicate 220 0 ++
    packU32 magicEnd

theorem exists_of_isOk {ε α : Type} {r : Except ε α} (h : r.toBool = true) : ∃ a, r = .ok a := by
  cases r with
  | error e => cases h
  | ok a => exact ⟨a, rfl⟩

theorem exists_of_map_ok {ε α β : Type} {r : Except ε α} {f : α → β} {y : β} (h : r.map f = .ok y) :
    ∃ a, r = .ok a ∧ f a = y := by
  cases r with
  | error e => cases h
  | ok a => exact ⟨a, rfl, Except.ok.inj h⟩

/-- A bootloader, STATE and an application behind it want different addresses. -/
theorem agree_ota : Agree (contents (oneBlock 0x10000000 1) (oneBlock 0x10009000 2)
    (some (0x10008000, 4096))) := by
  have hcontents : contents (oneBlock 0x10000000 1) (oneBlock 0x10009000 2)
      (some (0x10008000, 4096)) = [piece 0x10000000 (List.replicate 256 1),
        piece 0x10008000 (bootMagic :: List.replicate 4095 0xFF),
        piece 0x10009000 (List.replicate 256 2)] := by
    have hboot : slices 512 (oneBlock 0x10000000 1) = [oneBlock 0x10000000 1] := by decide +kernel
    have happ : slices 512 (oneBlock 0x10009000 2) = [oneBlock 0x10009000 2] := by decide +kernel
    have hfirst : segment (oneBlock 0x10000000 1) = piece 0x10000000 (List.replicate 256 1) :=
      congrArg₂ piece (by decide +kernel) (by decide +kernel)
    have hlast : segment (oneBlock 0x10009000 2) = piece 0x10009000 (List.replicate 256 2) :=
      congrArg₂ piece (by decide +kernel) (by decide +kernel)
    rw [contents, hboot, happ, List.map_singleton, List.map_singleton, hfirst, hlast]
    rfl
  rw [hcontents]
  refine agree_of_pairwise ?_
  simp only [List.pairwise_cons, List.forall_mem_cons, List.not_mem_nil, false_imp_iff, implies_true,
    List.Pairwise.nil, and_true]
  refine ⟨⟨?_, ?_⟩, ?_⟩
  all_goals
    intro a x y hx hy
    have hfirst := piece_bounds hx
    have hsecond := piece_bounds hy
    simp only [List.length_replicate, List.length_cons] at hfirst hsecond
    omega

theorem merged_uf2_intact_iff_ota :
    ∃ out, mergeUf2 "bootloader.uf2" (oneBlock 0x10000000 1) "app.uf2" (oneBlock 0x10009000 2)
        (some (0x10008000, 4096)) = .ok out ∧
      Intact (flashUf2 (fun _ => 0xFF) out)
        (contents (oneBlock 0x10000000 1) (oneBlock 0x10009000 2) (some (0x10008000, 4096))) := by
  obtain ⟨out, hout⟩ : ∃ out, mergeUf2 "bootloader.uf2" (oneBlock 0x10000000 1) "app.uf2"
      (oneBlock 0x10009000 2) (some (0x10008000, 4096)) = .ok out :=
    exists_of_isOk (by decide +kernel)
  exact ⟨out, hout, (merged_uf2_intact_iff hout _).2 agree_ota⟩

/-- An application that is linked where the bootloader is. -/
theorem bootloader_overwritten :
    ∃ out, mergeUf2 "bootloader.uf2" (oneBlock 0x10000000 1) "app.uf2" (oneBlock 0x10000000 2)
        (some (0x10008000, 4096)) = .ok out ∧
      ∀ flash, ¬ Intact (flashUf2 flash out)
        (contents (oneBlock 0x10000000 1) (oneBlock 0x10000000 2) (some (0x10008000, 4096))) := by
  obtain ⟨out, hout⟩ : ∃ out, mergeUf2 "bootloader.uf2" (oneBlock 0x10000000 1) "app.uf2"
      (oneBlock 0x10000000 2) (some (0x10008000, 4096)) = .ok out :=
    exists_of_isOk (by decide +kernel)
  have hboot : oneBlock 0x10000000 1 ∈ slices 512 (oneBlock 0x10000000 1) := by decide +kernel
  have happ : oneBlock 0x10000000 2 ∈ slices 512 (oneBlock 0x10000000 2) := by decide +kernel
  refine ⟨out, hout, ?_⟩
  intro flash hintact
  have hone : flashUf2 flash out 0x10000000 = 1 :=
    hintact _ _ (says_boot hboot (by decide +kernel))
  have htwo : flashUf2 flash out 0x10000000 = 2 :=
    hintact _ _ (says_app happ (by decide +kernel))
  exact absurd (hone.symm.trans htwo) (by decide)

end ScoreboardCtrl.Flash
