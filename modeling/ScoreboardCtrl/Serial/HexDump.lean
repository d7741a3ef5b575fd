import ScoreboardCtrl.Lib.Rust

/-!
# The hex dump and its way back

`write_hex` (`src/decode.rs`) writes bytes as `aa bb cc` for the log, as many as fit; `parse_hex_bytes`
(`examples/uart-test.rs`) reads such a text back, whatever white space stands between the digits.

* `writeHex_eq` — what is written, and how long it is; the rest of the buffer stays;
* `parseHexFrom_respells` — more white space and capital digits do not matter;
* `hex_round_trip` — the bytes come back.
-/

namespace ScoreboardCtrl.Serial

open Lib (Rust)

abbrev Bytes : Type := List UInt8

/-! ### `write_hex` -/

/-- `HEX` -/
def hexDigits : Bytes := Rust.byteStr "0123456789abcdef"

/-- The space before all bytes but the first. -/
def putSpace (k i : ℕ) (out : Bytes) : Rust (ℕ × Bytes) :=
  if k > 0 then do
    let out ← Rust.write out i 32
    return (← Rust.add i 1, out)
  else pure (i, out)

/-- The two digits of `b`. -/
def putByte (i : ℕ) (out : Bytes) (b : UInt8) : Rust Bytes := do
  let out ← Rust.write out i (← Rust.index hexDigits (b >>> 4).toNat)
  Rust.write out (← Rust.add i 1) (← Rust.index hexDigits (b &&& 0x0f).toNat)

/-- The `for` of `write_hex` from its round `k` on. -/
def writeHexFrom (k i : ℕ) (out : Bytes) : Bytes → Rust (ℕ × Bytes)
  | [] => pure (i, out)
  | b :: data => do
    let need := if k = 0 then 2 else 3
    if (← Rust.add i need) > out.length then return (i, out)
    else
      let (i, out) ← putSpace k i out
      let out ← putByte i out b
      writeHexFrom (k + 1) (← Rust.add i 2) out data

/-- Returns the bytes written and the buffer. -/
def writeHex (data out : Bytes) : Rust (ℕ × Bytes) := writeHexFrom 0 0 out data

/-! ### `parse_hex_bytes` -/

/-- `u8::is_ascii_whitespace` -/
def isAsciiWhitespace (c : UInt8) : Bool := c == 32 || c == 9 || c == 10 || c == 12 || c == 13

def unhex (c : UInt8) : Option UInt8 :=
  if 48 ≤ c ∧ c ≤ 57 then some (c - 48)
  else if 97 ≤ c ∧ c ≤ 102 then some (c - 97 + 10)
  else if 65 ≤ c ∧ c ≤ 70 then some (c - 65 + 10)
  else none

/-- The `for` of `parse_hex_bytes`, and what comes after it. -/
def parseHexFrom (hi : Option UInt8) (n : ℕ) (out : Bytes) : Bytes → Rust (Option ℕ × Bytes)
  | [] => if hi.isSome || n == 0 then pure (none, out) else pure (some n, out)
  | c :: s =>
    if isAsciiWhitespace c then parseHexFrom hi n out s
    else
      match unhex c with
      | none => pure (none, out)
      | some d =>
        match hi with
        | some h =>
          if n ≥ out.length then pure (none, out)
          else do
            let out ← Rust.write out n (h <<< 4 ||| d)
            parseHexFrom none (← Rust.add n 1) out s
        | none => parseHexFrom (some d) n out s

/-- Returns the number of bytes read, if the text is one, and the buffer. -/
def parseHexBytes (s out : Bytes) : Rust (Option ℕ × Bytes) := parseHexFrom none 0 out s

/-! ### What is written -/

def hexDigit (n : ℕ) : UInt8 := hexDigits.getD n 0

/-- The two digits of a byte. -/
def hexByte (b : UInt8) : Bytes := [hexDigit (b >>> 4).toNat, hexDigit (b &&& 0x0f).toNat]

/-- Bytes behind the first one, each with its space. -/
def hexTail (data : Bytes) : Bytes := data.flatMap fun b => 32 :: hexByte b

/-- The text `aa bb cc` of some bytes. -/
def hexText : Bytes → Bytes
  | [] => []
  | b :: data => hexByte b ++ hexTail data

theorem length_hexTail (data : Bytes) : (hexTail data).length = 3 * data.length := by
  induction data with
  | nil => rfl
  | cons b data ih =>
    rw [hexTail, List.flatMap_cons, List.length_append, ← hexTail, ih]
    simp only [hexByte, List.length_cons, List.length_nil]
    omega

theorem length_hexText (data : Bytes) : (hexText data).length = 3 * data.length - 1 := by
  cases data with
  | nil => rfl
  | cons b data =>
    rw [hexText, List.length_append, length_hexTail]
    simp only [hexByte, List.length_cons, List.length_nil]
    omega

theorem index_hexDigits {n : ℕ} (h : n < 16) : Rust.index hexDigits n = .ok (hexDigit n) := by
  have hlen : hexDigits.length = 16 := by decide
  have hget : hexDigits[n]? = some (hexDigit n) := by
    rw [hexDigit, List.getD_eq_getElem?_getD, List.getElem?_eq_getElem (by omega)]
    rfl
  exact Rust.index_ok hget

@[elab_as_elim]
theorem byte_forall {P : UInt8 → Prop} (h : ∀ m : Fin 256, P (UInt8.ofNat m)) (b : UInt8) : P b := by
  have hb := h ⟨b.toNat, b.toNat_lt⟩
  rwa [UInt8.ofNat_toNat] at hb

theorem nibbles_lt (b : UInt8) : (b >>> 4).toNat < 16 ∧ (b &&& 0x0f).toNat < 16 := by
  refine byte_forall ?_ b
  decide +kernel

section Write

variable {out : Bytes} {i : ℕ}

theorem putByte_ok (hout : Rust.Sized out) (h : i + 2 ≤ out.length) (b : UInt8) :
    putByte i out b = .ok (Rust.splice out i (hexByte b)) := by
  have hsize : out.length < 2 ^ 31 := hout
  obtain ⟨hhigh, hlow⟩ := nibbles_lt b
  have hfirst : ∀ x, Rust.write out i x = .ok (Rust.splice out i [x]) := by
    intro x
    rw [Rust.write_ok (by omega), Rust.set_eq_splice (by omega)]
  have hsecond : ∀ x y, Rust.write (Rust.splice out i [x]) (i + 1) y =
      .ok (Rust.splice out i [x, y]) := by
    intro x y
    have hlen : (Rust.splice out i [x]).length = out.length :=
      Rust.length_splice (by simp only [List.length_singleton]; omega)
    rw [Rust.write_ok (by omega), Rust.set_eq_splice (by omega)]
    exact congrArg Except.ok (Rust.splice_splice (by omega))
  rw [putByte, index_hexDigits hhigh, index_hexDigits hlow, Rust.add_ok (by omega)]
  simp only [Rust.ok_bind, hfirst, hsecond]
  rfl

theorem putSpace_ok (hout : Rust.Sized out) (h : i < out.length) {k : ℕ} (hk : 0 < k) :
    putSpace k i out = .ok (i + 1, Rust.splice out i [32]) := by
  have hsize : out.length < 2 ^ 31 := hout
  rw [putSpace, if_pos hk, Rust.write_ok h, Rust.ok_bind, Rust.add_ok (by omega),
    Rust.set_eq_splice h]
  rfl

theorem hexTail_cons (b : UInt8) (data : Bytes) :
    hexTail (b :: data) = 32 :: hexByte b ++ hexTail data := rfl

/-- The rounds behind the first one: each takes three bytes of room. -/
theorem writeHexFrom_eq (hout : Rust.Sized out) (hi : i ≤ out.length) {k : ℕ} (hk : 0 < k)
    (data : Bytes) : writeHexFrom k i out data =
      .ok (i + 3 * min data.length ((out.length - i) / 3),
        Rust.splice out i (hexTail (data.take ((out.length - i) / 3)))) := by
  induction data generalizing k i out with
  | nil =>
    rw [writeHexFrom, List.take_nil, List.length_nil, Nat.zero_min]
    exact congrArg (fun out => Except.ok (i, out)) (Rust.splice_nil out _).symm
  | cons b data ih =>
    have hsize : out.length < 2 ^ 31 := hout
    rw [writeHexFrom, if_neg (Nat.ne_of_gt hk), Rust.add_ok (by omega), Rust.ok_bind]
    by_cases hfit : i + 3 ≤ out.length
    · -- the byte fits: its space and digits, then the rest behind it
      have hspace : (Rust.splice out i [32]).length = out.length :=
        Rust.length_splice (by simp only [List.length_singleton]; omega)
      have hbyte : Rust.splice (Rust.splice out i [32]) (i + 1) (hexByte b) =
          Rust.splice out i (32 :: hexByte b) := Rust.splice_splice (by omega)
      have hlen : (Rust.splice out i (32 :: hexByte b)).length = out.length :=
        Rust.length_splice (by simp only [hexByte, List.length_cons, List.length_nil]; omega)
      have hroom : (out.length - i) / 3 = (out.length - (i + 3)) / 3 + 1 := by omega
      rw [if_neg (by omega), putSpace_ok hout (by omega) hk, Rust.ok_bind]
      dsimp only
      rw [putByte_ok (hout.of_length hspace) (by omega), Rust.ok_bind, hbyte, Rust.add_ok (by omega),
        Rust.ok_bind, ih (hout.of_length hlen) (by omega) (Nat.succ_pos k), hlen, hroom,
        List.take_succ_cons, hexTail_cons, ← Rust.splice_splice (by omega), List.length_cons]
      refine congrArg Except.ok (Prod.ext ?_ rfl)
      show i + 1 + 2 + 3 * min data.length ((out.length - (i + 3)) / 3) = _
      omega
    · have hroom : (out.length - i) / 3 = 0 := by omega
      rw [if_pos (by omega), hroom, List.take_zero, Nat.min_zero]
      exact congrArg (fun out => Except.ok (i, out)) (Rust.splice_nil out _).symm

/-- How many bytes `write_hex` has room for. -/
def hexRoom (data out : Bytes) : ℕ := min data.length ((out.length + 1) / 3)

/-- **What `write_hex` writes.** -/
theorem writeHex_eq (hout : Rust.Sized out) (data : Bytes) :
    writeHex data out =
      .ok (3 * hexRoom data out - 1, Rust.splice out 0 (hexText (data.take (hexRoom data out)))) := by
  have hsize : out.length < 2 ^ 31 := hout
  have hempty : hexRoom data out = 0 → Except.ok (0, out) =
      (Except.ok (3 * hexRoom data out - 1,
        Rust.splice out 0 (hexText (data.take (hexRoom data out)))) : Rust (ℕ × Bytes)) := by
    intro hroom
    rw [hroom, List.take_zero]
    exact congrArg (fun out => Except.ok (0, out)) (Rust.splice_nil out _).symm
  cases data with
  | nil => exact hempty (Nat.zero_min _)
  | cons b data =>
    rw [writeHex, writeHexFrom, if_pos rfl, Rust.add_ok (by omega), Rust.ok_bind]
    by_cases hfit : 2 ≤ out.length
    · have hlen : (Rust.splice out 0 (hexByte b)).length = out.length :=
        Rust.length_splice (by simp only [hexByte, List.length_cons, List.length_nil]; omega)
      have hroom : hexRoom (b :: data) out = min data.length ((out.length - 2) / 3) + 1 := by
        rw [hexRoom, List.length_cons]
        omega
      have htake : data.take ((out.length - 2) / 3) =
          data.take (min data.length ((out.length - 2) / 3)) := by
        rw [Nat.min_comm, ← List.take_take, List.take_length]
      rw [if_neg (by omega), putSpace, if_neg (Nat.lt_irrefl 0), Rust.pure_eq, Rust.ok_bind]
      dsimp only
      rw [putByte_ok hout (by omega), Rust.ok_bind, Rust.add_ok (by omega), Rust.ok_bind,
        writeHexFrom_eq (hout.of_length hlen) (by omega) Nat.one_pos, hlen, hroom,
        List.take_succ_cons, hexText, htake, ← Rust.splice_splice (Nat.zero_le _)]
      refine congrArg Except.ok (Prod.ext ?_ rfl)
      show 0 + 2 + 3 * min data.length ((out.length - (0 + 2)) / 3) = _
      omega
    · rw [if_pos (by omega)]
      refine hempty ?_
      rw [hexRoom]
      omega

end Write

/-! ### What is read back -/

/-- `s` is `t` with more white space, and with some letters of its digits capital. -/
inductive Respells : Bytes → Bytes → Prop
  | nil : Respells [] []
  | space {c : UInt8} {s t : Bytes} : isAsciiWhitespace c = true → Respells s t → Respells (c :: s) t
  | same {c : UInt8} {s t : Bytes} : Respells s t → Respells (c :: s) (c :: t)
  | upper {c : UInt8} {s t : Bytes} : 97 ≤ c → c ≤ 102 → Respells s t → Respells ((c - 32) :: s) (c :: t)

theorem Respells.refl (t : Bytes) : Respells t t := by
  induction t with
  | nil => exact .nil
  | cons c t ih => exact .same ih

/-- A capital digit is read as the small one. -/
theorem unhex_upper {c : UInt8} (h97 : 97 ≤ c) (h102 : c ≤ 102) :
    isAsciiWhitespace (c - 32) = false ∧ isAsciiWhitespace c = false ∧
      unhex (c - 32) = unhex c := by
  revert h97 h102
  refine byte_forall ?_ c
  decide +kernel

theorem unhex_hexByte (b : UInt8) :
    (isAsciiWhitespace (hexDigit (b >>> 4).toNat) = false ∧
      unhex (hexDigit (b >>> 4).toNat) = some (b >>> 4)) ∧
    (isAsciiWhitespace (hexDigit (b &&& 0x0f).toNat) = false ∧
      unhex (hexDigit (b &&& 0x0f).toNat) = some (b &&& 0x0f)) ∧
    b >>> 4 <<< 4 ||| (b &&& 0x0f) = b := by
  refine byte_forall ?_ b
  decide +kernel

variable {out : Bytes} {n : ℕ}

/-- **White space and capital digits do not matter.** -/
theorem parseHexFrom_respells {s t : Bytes} (h : Respells s t) (hi : Option UInt8) (n : ℕ)
    (out : Bytes) : parseHexFrom hi n out s = parseHexFrom hi n out t := by
  induction h generalizing hi n out with
  | nil => rfl
  | space hc _ ih =>
    rw [parseHexFrom, if_pos hc]
    exact ih hi n out
  | same _ ih => simp only [parseHexFrom, ih]
  | upper h97 h102 _ ih =>
    obtain ⟨hcapital, hsmall, heq⟩ := unhex_upper h97 h102
    simp only [parseHexFrom, hcapital, hsmall, heq, ih]

theorem parseHexFrom_byte (hout : Rust.Sized out) (hn : n < out.length) (b : UInt8) (s : Bytes) :
    parseHexFrom none n out (hexByte b ++ s) = parseHexFrom none (n + 1) (Rust.splice out n [b]) s := by
  have hsize : out.length < 2 ^ 31 := hout
  obtain ⟨⟨hspace, hhigh⟩, ⟨hspace', hlow⟩, hbyte⟩ := unhex_hexByte b
  show parseHexFrom none n out (_ :: _ :: s) = _
  rw [parseHexFrom, if_neg (Bool.eq_false_iff.1 hspace), hhigh]
  dsimp only
  rw [parseHexFrom, if_neg (Bool.eq_false_iff.1 hspace'), hlow]
  dsimp only
  rw [if_neg (by omega), hbyte, Rust.write_ok hn, Rust.ok_bind, Rust.add_ok (by omega),
    Rust.ok_bind, Rust.set_eq_splice hn]

theorem parseHexFrom_tail (hout : Rust.Sized out) (data : Bytes) (hpos : 0 < n + data.length)
    (hn : n + data.length ≤ out.length) :
    parseHexFrom none n out (hexTail data) =
      .ok (some (n + data.length), Rust.splice out n data) := by
  induction data generalizing n out with
  | nil =>
    have hne : (n == 0) = false := by simpa using Nat.ne_of_gt hpos
    rw [hexTail, List.flatMap_nil, parseHexFrom, hne, Rust.splice_nil]
    rfl
  | cons b data ih =>
    rw [List.length_cons] at hn
    have hlen : (Rust.splice out n [b]).length = out.length :=
      Rust.length_splice (by simp only [List.length_singleton]; omega)
    have hspace : isAsciiWhitespace 32 = true := rfl
    have hjoin : Rust.splice (Rust.splice out n [b]) (n + 1) data = Rust.splice out n (b :: data) :=
      Rust.splice_splice (by omega)
    rw [hexTail_cons, List.cons_append, parseHexFrom, if_pos hspace,
      parseHexFrom_byte hout (by omega), ih (hout.of_length hlen) (by omega)
        (by omega), hjoin, List.length_cons]
    refine congrArg Except.ok (Prod.ext (congrArg some ?_) rfl)
    omega

/-- The text of some bytes is read back into the front of the buffer. -/
theorem parseHexBytes_text (hout : Rust.Sized out) {data : Bytes} (hdata : 1 ≤ data.length)
    (hle : data.length ≤ out.length) {s : Bytes} (hs : Respells s (hexText data)) :
    parseHexBytes s out = .ok (some data.length, Rust.splice out 0 data) := by
  have htext : parseHexFrom none 0 out (hexTail data) = parseHexFrom none 0 out (hexText data) := by
    cases data with
    | nil => rfl
    | cons b data =>
      have hspace : isAsciiWhitespace 32 = true := rfl
      rw [hexTail_cons, List.cons_append, parseHexFrom, if_pos hspace, hexText]
  rw [parseHexBytes, parseHexFrom_respells hs, ← htext,
    parseHexFrom_tail hout data (by omega) (by omega), Nat.zero_add]

/-- **The round trip of a hex dump.** `write_hex` returns on all data and buffers, and writes the text of
as many bytes as fit into `3k - 1` bytes at the front, and nothing else; where that is at least one byte,
`parse_hex_bytes` reads from this text, respelt or not, those bytes into a buffer that holds them. -/
theorem hex_round_trip (data : Bytes) {out : Bytes} (hout : Rust.Sized out) :
    let k := min data.length ((out.length + 1) / 3)
    let text := hexText (data.take k)
    (writeHex data out = .ok (3 * k - 1, Rust.splice out 0 text) ∧ text.length = 3 * k - 1) ∧
      ∀ s buf, 1 ≤ k → Rust.Sized buf → k ≤ buf.length → Respells s text →
        parseHexBytes s buf = .ok (some k, Rust.splice buf 0 (data.take k)) := by
  intro k text
  have hlen : (data.take k).length = k := by
    rw [List.length_take]
    exact Nat.min_eq_left (Nat.min_le_left _ _)
  refine ⟨⟨writeHex_eq hout data, by rw [length_hexText, hlen]⟩, ?_⟩
  intro s buf hk hbuf hle hs
  have hparse := parseHexBytes_text hbuf (hlen.symm ▸ hk) (hlen.symm ▸ hle) hs
  rwa [hlen] at hparse

/-- Three bytes into room for two, and the text read back with a tab and a capital digit. -/
theorem hex_round_trip_two :
    (writeHex [0x00, 0xab, 0x3f] (List.replicate 7 0) =
        .ok (5, Rust.splice (List.replicate 7 0) 0 (hexText [0x00, 0xab])) ∧
      (hexText [0x00, 0xab]).length = 5) ∧
      parseHexBytes [48, 9, 48, 32, 65, 98] [0, 0] = .ok (some 2, Rust.splice [0, 0] 0 [0x00, 0xab]) := by
  have h := hex_round_trip [0x00, 0xab, 0x3f] (show Rust.Sized (List.replicate 7 0) by decide)
  refine ⟨h.1, h.2 _ _ (by decide) (by decide) (by decide) ?_⟩
  exact .same (.space rfl (.same (.same (.upper (c := 97) (by decide) (by decide) (.same .nil)))))

end ScoreboardCtrl.Serial
