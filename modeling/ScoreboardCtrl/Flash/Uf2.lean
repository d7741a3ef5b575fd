import ScoreboardCtrl.Lib.Overlay
import ScoreboardCtrl.Lib.Rust

/-!
# UF2 files

A file of blocks of 512 bytes. A block has eight words of 32 bits (two magics, flags, the address, the
length of the payload, its number, the number of blocks, the family), the payload, and a last magic.

* `unpackU32_pack` — a word is read back;
* `slices_flatten` — the blocks of a file that was written block by block;
* `flashBlocks_numbered` — the loader writes every block of a file whose blocks are numbered.
-/

namespace ScoreboardCtrl.Flash

open Lib.Overlay

abbrev Bytes : Type := List UInt8

/-- `struct.pack("<I", x)`, for a number that fits. -/
def packU32 (x : ℕ) : Bytes :=
  [UInt8.ofNat x, UInt8.ofNat (x / 256), UInt8.ofNat (x / 65536), UInt8.ofNat (x / 16777216)]

def byteAt (b : Bytes) (i : ℕ) : ℕ := (b[i]?.getD 0).toNat

/-- `struct.unpack_from("<I", b, i)`, in a block. -/
def unpackU32 (b : Bytes) (i : ℕ) : ℕ :=
  byteAt b i + 256 * byteAt b (i + 1) + 65536 * byteAt b (i + 2) + 16777216 * byteAt b (i + 3)

/-- The first `count` slices of `width` bytes. -/
def chunks (width : ℕ) : ℕ → Bytes → List Bytes
  | 0, _ => []
  | count + 1, data => data.take width :: chunks width count (data.drop width)

/-- `data[i : i + width] for i in range(0, len(data), width)`, where that leaves no bytes over. -/
def slices (width : ℕ) (data : Bytes) : List Bytes := chunks width (data.length / width) data

/-! ### The loader -/

/-- What a block says of the flash: its payload from its address on. -/
def segment (b : Bytes) : ℕ → Option UInt8 :=
  piece (unpackU32 b 12) ((b.drop 32).take (unpackU32 b 16))

/-- The loader writes one block after the other, until it has seen as many block numbers as there
are blocks. -/
def flashBlocks (flash : ℕ → UInt8) (seen : List ℕ) : List Bytes → ℕ → UInt8
  | [] => flash
  | b :: rest =>
    let flash := write flash (segment b)
    let seen := seen.insert (unpackU32 b 20)
    if seen.length = unpackU32 b 24 then flash else flashBlocks flash seen rest

def flashUf2 (flash : ℕ → UInt8) (file : Bytes) : ℕ → UInt8 :=
  flashBlocks flash [] (slices 512 file)

/-- The blocks are numbered from `i` on, of `n`. -/
def Numbered (n : ℕ) : ℕ → List Bytes → Prop
  | _, [] => True
  | i, b :: rest => unpackU32 b 20 = i ∧ unpackU32 b 24 = n ∧ Numbered n (i + 1) rest

/-! ### Words -/

theorem byteAt_congr {b b' : Bytes} {i : ℕ} (h : b'[i]? = b[i]?) : byteAt b' i = byteAt b i := by
  rw [byteAt, h, byteAt]

theorem unpackU32_congr {b b' : Bytes} {i : ℕ} (h : ∀ j, j < i + 4 → b'[j]? = b[j]?) :
    unpackU32 b' i = unpackU32 b i := by
  simp only [unpackU32]
  rw [byteAt_congr (h i (by omega)), byteAt_congr (h (i + 1) (by omega)),
    byteAt_congr (h (i + 2) (by omega)), byteAt_congr (h (i + 3) (by omega))]

theorem unpackU32_drop (b : Bytes) (i : ℕ) : unpackU32 b i = unpackU32 (b.drop i) 0 := by
  simp only [unpackU32, byteAt, List.getElem?_drop, Nat.zero_add, Nat.add_zero]

theorem unpackU32_pack {b rest : Bytes} {i x : ℕ} (h : b.drop i = packU32 x ++ rest)
    (hx : x < 4294967296) : unpackU32 b i = x := by
  have hread : unpackU32 (packU32 x ++ rest) 0 = x % 256 + 256 * (x / 256 % 256) +
      65536 * (x / 65536 % 256) + 16777216 * (x / 16777216 % 256) := by
    simp only [unpackU32, byteAt, packU32, List.cons_append, List.nil_append, Nat.zero_add,
      List.getElem?_cons_zero, List.getElem?_cons_succ, Option.getD_some, UInt8.toNat_ofNat']
  rw [unpackU32_drop, h, hread]
  omega

/-! ### Slices -/

theorem chunks_append {width count : ℕ} {b rest : Bytes} (h : b.length = width) :
    chunks width (count + 1) (b ++ rest) = b :: chunks width count rest := by
  rw [chunks, List.take_left' h, List.drop_left' h]

theorem length_flatten_blocks {width : ℕ} {bs : List Bytes} (h : ∀ b ∈ bs, b.length = width) :
    bs.flatten.length = bs.length * width := by
  induction bs with
  | nil => simp
  | cons b bs ih =>
    obtain ⟨hb, hbs⟩ := List.forall_mem_cons.1 h
    rw [List.flatten_cons, List.length_append, ih hbs, hb, List.length_cons, Nat.succ_mul,
      Nat.add_comm]

theorem chunks_flatten {width : ℕ} {bs : List Bytes} (h : ∀ b ∈ bs, b.length = width) :
    chunks width bs.length bs.flatten = bs := by
  induction bs with
  | nil => rfl
  | cons b bs ih =>
    obtain ⟨hb, hbs⟩ := List.forall_mem_cons.1 h
    rw [List.length_cons, List.flatten_cons, chunks_append hb, ih hbs]

/-- **Blocks written one after the other** are the slices of the file. -/
theorem slices_flatten {width : ℕ} (hwidth : 0 < width) {bs : List Bytes}
    (h : ∀ b ∈ bs, b.length = width) : slices width bs.flatten = bs := by
  rw [slices, length_flatten_blocks h, Nat.mul_div_cancel _ hwidth, chunks_flatten h]

theorem length_of_mem_chunks {width count : ℕ} {data b : Bytes}
    (hlen : count * width ≤ data.length) (h : b ∈ chunks width count data) : b.length = width := by
  induction count generalizing data with
  | zero => cases h
  | succ count ih =>
    rw [Nat.succ_mul] at hlen
    rw [chunks, List.mem_cons] at h
    obtain rfl | h := h
    · rw [List.length_take]
      omega
    · refine ih ?_ h
      rw [List.length_drop]
      omega

theorem length_chunks (width count : ℕ) (data : Bytes) : (chunks width count data).length = count := by
  induction count generalizing data with
  | zero => rfl
  | succ count ih => rw [chunks, List.length_cons, ih]

theorem length_slices (width : ℕ) (data : Bytes) :
    (slices width data).length = data.length / width := length_chunks _ _ _

theorem flatten_chunks (width count : ℕ) (data : Bytes) :
    (chunks width count data).flatten = data.take (count * width) := by
  induction count generalizing data with
  | zero => simp [chunks]
  | succ count ih =>
    rw [chunks, List.flatten_cons, ih, Nat.succ_mul, Nat.add_comm, List.take_add]

theorem flatten_slices {width : ℕ} {data : Bytes} (h : width ∣ data.length) :
    (slices width data).flatten = data := by
  rw [slices, flatten_chunks, Nat.div_mul_cancel h, List.take_length]

theorem length_of_mem_slices {width : ℕ} {data b : Bytes} (h : b ∈ slices width data) :
    b.length = width := length_of_mem_chunks (Nat.div_mul_le_self _ _) h

/-! ### Flashing -/

/-- **The loader takes every block** of those that are numbered to the last. -/
theorem flashBlocks_numbered {n i : ℕ} {seen : List ℕ} {blocks : List Bytes} (flash : ℕ → UInt8)
    (h : Numbered n i blocks) (hn : n = i + blocks.length) (hlen : seen.length = i)
    (hseen : ∀ k ∈ seen, k < i) :
    flashBlocks flash seen blocks = overlay flash (blocks.map segment) := by
  induction blocks generalizing flash i seen with
  | nil => rfl
  | cons b rest ih =>
    obtain ⟨hno, hnum, hrest⟩ := h
    rw [List.length_cons] at hn
    have hfresh : i ∉ seen := fun hmem => Nat.lt_irrefl i (hseen i hmem)
    have hinsert : seen.insert i = i :: seen := List.insert_of_not_mem hfresh
    have hcons : overlay flash ((b :: rest).map segment) =
        overlay (write flash (segment b)) (rest.map segment) := rfl
    rw [hcons, flashBlocks, hno, hnum, hinsert, List.length_cons, hlen]
    by_cases hlast : i + 1 = n
    · obtain rfl : rest = [] := List.length_eq_zero_iff.1 (by omega)
      rw [if_pos hlast]
      rfl
    · rw [if_neg hlast]
      refine ih (write flash (segment b)) hrest (by omega) (by rw [List.length_cons, hlen]) ?_
      intro k hk
      obtain rfl | hk := List.mem_cons.1 hk
      · omega
      · exact Nat.lt_succ_of_lt (hseen k hk)

end ScoreboardCtrl.Flash
