import ScoreboardCtrl.Net.Name
import ScoreboardCtrl.Serial.HexDump

/-!
# Command lines of the RS-232 probe (`examples/uart-test.rs`)

The probe reads commands from USB CDC, one a line: a word (`help`, `replay`, `probe`, `hunt`,
`listen`), or `tx` or `blast` with the bytes to send in hex.

* `parseHexFrom_value` — a text of digits is read as its value, two digits a byte, or refused;
* `sendOf_iff` — the lines that send: the words are looked for first, and at the end of the line, but
  they end no line that sends;
* `parseLine_reads` — so a line is read without a panic as the one command it says, in whatever order
  the words are looked for.
-/

namespace ScoreboardCtrl.Probe

open Lib (Rust)
open Serial (Bytes isAsciiWhitespace unhex parseHexFrom parseHexBytes)
open Net (toAsciiLowercase)

abbrev txMax : ℕ := 64
abbrev lineMax : ℕ := 128

/-! ### Commands -/

/-- The bytes of one burst, at least one. -/
structure TxBurst where
  buf : Bytes
  len : ℕ
  length_buf : buf.length = txMax
  len_pos : 0 < len
  len_le : len ≤ txMax
  deriving DecidableEq, Repr

namespace TxBurst

def fromSlice (data : Bytes) : Option TxBurst :=
  if h : data = [] ∨ data.length > txMax then none
  else
    have hpos : 0 < data.length := List.length_pos_iff.2 fun hnil => h (.inl hnil)
    have hle : data.length ≤ txMax := Nat.le_of_not_lt fun hlt => h (.inr hlt)
    some {
      buf := Rust.splice (List.replicate txMax 0) 0 data
      len := data.length
      length_buf := by rw [Rust.length_splice (by simpa using hle), List.length_replicate]
      len_pos := hpos
      len_le := hle }

def asSlice (b : TxBurst) : Bytes := b.buf.take b.len

end TxBurst

inductive HostCmd where
  | tx (burst : TxBurst)
  | blast (burst : TxBurst)
  | replay
  | probe
  | hunt
  | listen
  | help
  deriving DecidableEq, Repr

/-! ### `parse_line` -/

/-- The two `while` of `trim`. -/
def trim (s : Bytes) : Bytes :=
  (((s.dropWhile isAsciiWhitespace).reverse).dropWhile isAsciiWhitespace).reverse

/-- `<[u8]>::eq_ignore_ascii_case`: the same in lower case. -/
def sameWord (a b : Bytes) : Bool := a.map toAsciiLowercase == b.map toAsciiLowercase

/-- The name, or anything that ends in it. -/
def cmdEq (line name : Bytes) : Bool :=
  sameWord line name ||
    (decide (line.length > name.length) && sameWord (line.drop (line.length - name.length)) name)

def parseTxCmd (rest : Bytes) (blast : Bool) : Rust (Option HostCmd) := do
  let rest := trim rest
  let (n, buf) ← parseHexBytes rest (List.replicate txMax 0)
  match n with
  | some n => do
    let data ← Rust.slice buf 0 n
    return (TxBurst.fromSlice data).map fun b => if blast then .blast b else .tx b
  | none => return none

def parseLine (line : Bytes) : Rust (Option HostCmd) :=
  let line := trim line
  if line.isEmpty then return none
  else if cmdEq line (Rust.byteStr "help") then return some .help
  else if cmdEq line (Rust.byteStr "replay") then return some .replay
  else if cmdEq line (Rust.byteStr "probe") then return some .probe
  else if cmdEq line (Rust.byteStr "hunt") then return some .hunt
  else if cmdEq line (Rust.byteStr "listen") then return some .listen
  else if line.length ≥ 2 && sameWord (line.take 2) (Rust.byteStr "tx") then
    parseTxCmd (line.drop 2) false
  else if line.length ≥ 5 && sameWord (line.take 5) (Rust.byteStr "blast") then
    parseTxCmd (line.drop 5) true
  else return none

/-! ### What a hex text says -/

/-- Two digits a byte. -/
def pairs : Bytes → Option Bytes
  | [] => some []
  | [_] => none
  | h :: l :: digits => (pairs digits).map ((h <<< 4 ||| l) :: ·)

/-- The values of the digits; white space does not count. -/
def digits (s : Bytes) : Option Bytes := (s.filter fun c => !isAsciiWhitespace c).mapM unhex

/-- The bytes that a text stands for, if it is one of whole bytes. -/
def hexValue (s : Bytes) : Option Bytes := (digits s).bind pairs

/-- The same with a digit read before. -/
def hexValueFrom (hi : Option UInt8) (s : Bytes) : Option Bytes :=
  (digits s).bind fun ds => pairs (hi.toList ++ ds)

theorem digits_space {c : UInt8} (h : isAsciiWhitespace c = true) (s : Bytes) :
    digits (c :: s) = digits s := by
  simp [digits, h]

theorem digits_cons {c : UInt8} (h : isAsciiWhitespace c = false) (s : Bytes) :
    digits (c :: s) = (unhex c).bind fun d => (digits s).map (d :: ·) := by
  simp only [digits, h, Bool.not_false, List.filter_cons_of_pos, List.mapM_cons]
  cases unhex c with
  | none => rfl
  | some d => cases (s.filter fun c => !isAsciiWhitespace c).mapM unhex <;> rfl

theorem length_pairs {ds data : Bytes} (h : pairs ds = some data) : ds.length = 2 * data.length := by
  induction ds using pairs.induct generalizing data with
  | case1 =>
    cases h
    rfl
  | case2 _ => cases h
  | case3 hi lo ds ih =>
    obtain ⟨rest, hrest, rfl⟩ := Option.map_eq_some_iff.1 h
    have := ih hrest
    simp only [List.length_cons]
    omega

/-- What `parse_hex_bytes` returns with the value of the text: the bytes, if there are some and they
fit, from `n` on. -/
def Parsed (n : ℕ) (out : Bytes) (value : Option Bytes) (r : Option ℕ × Bytes) : Prop :=
  match value with
  | some data =>
    if 0 < n + data.length ∧ n + data.length ≤ out.length then
      r = (some (n + data.length), Rust.splice out n data)
    else r.1 = none
  | none => r.1 = none

theorem Parsed.none {n : ℕ} {out out' : Bytes} {value : Option Bytes}
    (h : ∀ data, value = some data → ¬ (0 < n + data.length ∧ n + data.length ≤ out.length)) :
    Parsed n out value (none, out') := by
  cases value with
  | none => rfl
  | some data =>
    rw [Parsed, if_neg (h data rfl)]

/-- **`parse_hex_bytes` reads the value of the text**, on every text. -/
theorem parseHexFrom_value (s : Bytes) : ∀ {hi : Option UInt8} {n : ℕ} {out : Bytes},
    Rust.Sized out → n ≤ out.length →
    (parseHexFrom hi n out s).Returns (Parsed n out (hexValueFrom hi s)) := by
  induction s with
  | nil =>
    intro hi n out hout hn
    cases hi with
    | some h => exact .pure (Parsed.none fun data hd => by cases hd)
    | none =>
      by_cases h0 : n = 0
      · subst h0
        exact .pure (Parsed.none fun data hd => by cases hd; simp)
      · have hn0 : (n == 0) = false := by simpa using h0
        rw [parseHexFrom, hn0]
        refine .pure ?_
        show Parsed n out (some []) _
        rw [Parsed, if_pos (by simp only [List.length_nil]; omega), Rust.splice_nil]
        rfl
  | cons c s ih =>
    intro hi n out hout hn
    have hsize : out.length < 2 ^ 31 := hout
    rw [parseHexFrom]
    cases hc : isAsciiWhitespace c with
    | true =>
      rw [if_pos rfl]
      have hvalue : hexValueFrom hi (c :: s) = hexValueFrom hi s := by
        rw [hexValueFrom, digits_space hc, hexValueFrom]
      rw [hvalue]
      exact ih hout hn
    | false =>
      rw [if_neg Bool.false_ne_true]
      have hdigits := digits_cons hc s
      cases hd : unhex c with
      | none =>
        rw [hd] at hdigits
        refine .pure (Parsed.none fun data hdata => ?_)
        rw [hexValueFrom, hdigits] at hdata
        cases hdata
      | some d =>
        rw [hd] at hdigits
        cases hi with
        | none =>
          have hvalue : hexValueFrom none (c :: s) = hexValueFrom (some d) s := by
            rw [hexValueFrom, hdigits, hexValueFrom]
            cases digits s <;> rfl
          rw [hvalue]
          exact ih hout hn
        | some h =>
          -- the second digit of a byte: the byte is written, if there is room
          have hvalue : hexValueFrom (some h) (c :: s) =
              (hexValueFrom none s).map ((h <<< 4 ||| d) :: ·) := by
            rw [hexValueFrom, hdigits, hexValueFrom]
            cases digits s <;> rfl
          rw [hvalue]
          by_cases hroom : n ≥ out.length
          · dsimp only
            rw [if_pos hroom]
            refine .pure (Parsed.none fun data hdata => ?_)
            obtain ⟨rest, -, rfl⟩ := Option.map_eq_some_iff.1 hdata
            simp only [List.length_cons]
            omega
          · have hlen : (out.set n (h <<< 4 ||| d)).length = out.length := List.length_set
            dsimp only
            rw [if_neg hroom, Rust.write_ok (by omega), Rust.ok_bind, Rust.add_ok (by omega),
              Rust.ok_bind]
            refine (ih (hout.of_length hlen) (by omega)).mono ?_
            intro r hr
            cases hs : hexValueFrom none s with
            | none =>
              rw [hs] at hr
              exact hr
            | some rest =>
              rw [hs, Parsed, hlen] at hr
              show Parsed n out (some (_ :: rest)) r
              rw [Parsed, List.length_cons]
              by_cases hfits : n + 1 + rest.length ≤ out.length
              · have hjoin : Rust.splice (Rust.splice out n [h <<< 4 ||| d]) (n + 1) rest =
                    Rust.splice out n ((h <<< 4 ||| d) :: rest) := Rust.splice_splice (by omega)
                rw [if_pos (by omega)] at hr
                rw [if_pos (by omega), hr, Rust.set_eq_splice (by omega), hjoin]
                refine Prod.ext (congrArg some ?_) rfl
                show n + 1 + rest.length = _
                omega
              · rw [if_neg (by omega)] at hr
                rw [if_neg (by omega)]
                exact hr

/-! ### What a line says -/

/-- What is sent, and whether it is repeated. -/
def HostCmd.sends : HostCmd → Option (Bool × Bytes)
  | .tx burst => some (false, burst.asSlice)
  | .blast burst => some (true, burst.asSlice)
  | _ => none

theorem fromSlice_some {data : Bytes} (hpos : 0 < data.length) (hle : data.length ≤ txMax) :
    ∃ b, TxBurst.fromSlice data = some b ∧ b.asSlice = data := by
  have h : ¬ (data = [] ∨ data.length > txMax) := by
    rintro (rfl | hlt)
    · cases hpos
    · omega
  have htake := @Rust.take_splice UInt8 (List.replicate txMax 0) data 0 (Nat.zero_le _)
  rw [Nat.zero_add] at htake
  exact ⟨_, dif_neg h, htake⟩

theorem fromSlice_none {data : Bytes} (h : ¬ (0 < data.length ∧ data.length ≤ txMax)) :
    TxBurst.fromSlice data = none := by
  refine dif_pos ?_
  by_cases hnil : data = []
  · exact .inl hnil
  · have := List.length_pos_iff.2 hnil
    exact .inr (by omega)

theorem fromSlice_eq_some {data : Bytes} {b : TxBurst} (h : TxBurst.fromSlice data = some b) :
    b.asSlice = data ∧ 0 < data.length ∧ data.length ≤ txMax := by
  by_cases hfit : 0 < data.length ∧ data.length ≤ txMax
  · obtain ⟨b', hb', hdata⟩ := fromSlice_some hfit.1 hfit.2
    rw [h] at hb'
    cases hb'
    exact ⟨hdata, hfit⟩
  · rw [fromSlice_none hfit] at h
    cases h

theorem filter_dropSpace (t : Bytes) :
    (t.dropWhile isAsciiWhitespace).filter (fun c => !isAsciiWhitespace c) =
      t.filter fun c => !isAsciiWhitespace c := by
  induction t with
  | nil => rfl
  | cons c t ih =>
    cases hc : isAsciiWhitespace c <;> simp [hc, ih]

/-- `trim` at the end. -/
def trimEnd (s : Bytes) : Bytes := (s.reverse.dropWhile isAsciiWhitespace).reverse

theorem hexValue_trimEnd (s : Bytes) : hexValue (trimEnd s) = hexValue s := by
  rw [hexValue, hexValue, digits, digits, trimEnd, List.filter_reverse, filter_dropSpace,
    List.filter_reverse, List.reverse_reverse]

theorem hexValue_trim (s : Bytes) : hexValue (trim s) = hexValue s := by
  rw [trim, ← trimEnd, hexValue_trimEnd, hexValue, hexValue, digits, digits, filter_dropSpace]

/-- Behind a word without white space only the end is trimmed. -/
theorem trim_word {word : Bytes} (hne : word ≠ []) (hword : ∀ c ∈ word, isAsciiWhitespace c = false)
    (text : Bytes) : trim (word ++ text) = word ++ trimEnd text := by
  have hstop {xs : Bytes} (ys : Bytes) (hxs : xs ≠ []) (hall : ∀ c ∈ xs, isAsciiWhitespace c = false) :
      (ys ++ xs).dropWhile isAsciiWhitespace = ys.dropWhile isAsciiWhitespace ++ xs := by
    induction ys with
    | nil =>
      cases xs with
      | nil => exact absurd rfl hxs
      | cons x xs => simp [hall x (by simp)]
    | cons y ys ih =>
      cases hy : isAsciiWhitespace y <;> simp [hy, ih]
  have hstart : (word ++ text).dropWhile isAsciiWhitespace = word ++ text := by
    cases word with
    | nil => exact absurd rfl hne
    | cons c word => simp [hword c (by simp)]
  rw [trim, hstart, List.reverse_append, hstop _ (by simpa using hne) (by simpa using hword),
    List.reverse_append, List.reverse_reverse, trimEnd]

/-- The command of a burst. -/
def sendCmd (blast : Bool) (b : TxBurst) : HostCmd := if blast then .blast b else .tx b

theorem parseTxCmd_eq (rest : Bytes) (blast : Bool) : parseTxCmd rest blast =
    .ok (((hexValue rest).bind TxBurst.fromSlice).map (sendCmd blast)) := by
  have hroom : (List.replicate txMax (0 : UInt8)).length = txMax := List.length_replicate
  obtain ⟨r, hr, hparsed⟩ :=
    @parseHexFrom_value (trim rest) none 0 (List.replicate txMax 0) (by decide) (Nat.zero_le _)
  have hvalue : hexValueFrom none (trim rest) = hexValue rest := hexValue_trim rest
  rw [hvalue] at hparsed
  rw [parseTxCmd, parseHexBytes, hr, Rust.ok_bind]
  obtain ⟨n, buf⟩ := r
  cases hd : hexValue rest with
  | none =>
    rw [hd] at hparsed
    obtain rfl : n = none := hparsed
    rfl
  | some data =>
    rw [hd, Parsed, hroom, Nat.zero_add] at hparsed
    by_cases hfit : 0 < data.length ∧ data.length ≤ txMax
    · rw [if_pos hfit] at hparsed
      cases hparsed
      have hlen : (Rust.splice (List.replicate txMax 0) 0 data).length = txMax := by
        rw [Rust.length_splice (by omega), hroom]
      have htake := @Rust.take_splice UInt8 (List.replicate txMax 0) data 0 (Nat.zero_le _)
      rw [Nat.zero_add] at htake
      dsimp only
      rw [Rust.slice_ok (Nat.zero_le _) (by omega), htake]
      rfl
    · rw [if_neg hfit] at hparsed
      obtain rfl : n = none := hparsed
      rw [Option.bind_some, fromSlice_none hfit]
      rfl

/-- The line ends in the word, in any letter case. -/
def EndsIn (line name : Bytes) : Prop :=
  name.map toAsciiLowercase <:+ line.map toAsciiLowercase

/-- The words, in the order they are looked for. -/
def words : List (Bytes × HostCmd) :=
  [(Rust.byteStr "help", .help), (Rust.byteStr "replay", .replay), (Rust.byteStr "probe", .probe),
    (Rust.byteStr "hunt", .hunt), (Rust.byteStr "listen", .listen)]

/-- What sends, and whether it repeats. -/
def senders : List (Bytes × Bool) := [(Rust.byteStr "tx", false), (Rust.byteStr "blast", true)]

/-- The command that a line says, whatever is looked for first. -/
inductive Reads (line : Bytes) : HostCmd → Prop
  | word {name : Bytes} {cmd : HostCmd} : (name, cmd) ∈ words → EndsIn (trim line) name →
      Reads line cmd
  | send {name head rest data : Bytes} {blast : Bool} {b : TxBurst} : (name, blast) ∈ senders →
      trim line = head ++ rest → sameWord head name = true → hexValue rest = some data →
      TxBurst.fromSlice data = some b → Reads line (sendCmd blast b)

theorem sameWord_iff {a b : Bytes} :
    sameWord a b = true ↔ a.map toAsciiLowercase = b.map toAsciiLowercase := beq_iff_eq

theorem sameWord_length {a b : Bytes} (h : sameWord a b = true) : a.length = b.length := by
  simpa using congrArg List.length (sameWord_iff.1 h)

theorem cmdEq_iff {line name : Bytes} : cmdEq line name = true ↔ EndsIn line name := by
  rw [cmdEq, Bool.or_eq_true, Bool.and_eq_true, decide_eq_true_eq]
  constructor
  · rintro (h | ⟨-, h⟩)
    · exact ⟨[], (sameWord_iff.1 h).symm⟩
    · rw [EndsIn, ← sameWord_iff.1 h, List.map_drop]
      exact List.drop_suffix _ _
  · intro h
    have hle : name.length ≤ line.length := by simpa using h.length_le
    have hdrop : (line.drop (line.length - name.length)).map toAsciiLowercase =
        name.map toAsciiLowercase := by
      have := List.suffix_iff_eq_drop.1 h
      rw [List.length_map, List.length_map] at this
      rw [List.map_drop, ← this]
    by_cases heq : line.length = name.length
    · left
      rw [heq, Nat.sub_self, List.drop_zero] at hdrop
      exact sameWord_iff.2 hdrop
    · exact .inr ⟨by omega, sameWord_iff.2 hdrop⟩

/-- White space, or a digit. -/
def Hexy (c : UInt8) : Prop := isAsciiWhitespace c = true ∨ (unhex c).isSome = true

instance (c : UInt8) : Decidable (Hexy c) :=
  inferInstanceAs (Decidable (isAsciiWhitespace c = true ∨ (unhex c).isSome = true))

/-- A text with a value has nothing else in it, and two digits a byte at least. -/
theorem digits_some {s ds : Bytes} (h : digits s = some ds) :
    (∀ c ∈ s, Hexy c) ∧ ds.length ≤ s.length := by
  induction s generalizing ds with
  | nil =>
    cases h
    exact ⟨by simp, Nat.le_refl _⟩
  | cons c s ih =>
    cases hc : isAsciiWhitespace c with
    | true =>
      rw [digits_space hc] at h
      obtain ⟨hs, hlen⟩ := ih h
      exact ⟨List.forall_mem_cons.2 ⟨.inl hc, hs⟩, Nat.le_succ_of_le hlen⟩
    | false =>
      rw [digits_cons hc] at h
      obtain ⟨d, hd, h⟩ := Option.bind_eq_some_iff.1 h
      obtain ⟨ds', hds', rfl⟩ := Option.map_eq_some_iff.1 h
      obtain ⟨hs, hlen⟩ := ih hds'
      exact ⟨List.forall_mem_cons.2 ⟨.inr (by rw [hd]; rfl), hs⟩, Nat.succ_le_succ hlen⟩

theorem hexValue_some {s data : Bytes} (h : hexValue s = some data) :
    (∀ c ∈ s, Hexy c) ∧ 2 * data.length ≤ s.length := by
  obtain ⟨ds, hds, hpairs⟩ := Option.bind_eq_some_iff.1 h
  obtain ⟨hs, hlen⟩ := digits_some hds
  exact ⟨hs, length_pairs hpairs ▸ hlen⟩

/-- A letter that stands for no digit, in either case. -/
def Foreign (l : UInt8) : Prop := ∀ c, Hexy c → toAsciiLowercase c ≠ l

/-- A word with a foreign letter among its last three ends no line of bytes in hex. -/
theorem not_endsIn {head rest data name : Bytes} {k : ℕ} {l : UInt8} (hrest : hexValue rest = some data)
    (hpos : 0 < data.length) (hl : (name.map toAsciiLowercase).reverse[k]? = some l) (hk : k ≤ 2)
    (hforeign : Foreign l) (hhead : (head.map toAsciiLowercase).reverse[0]? ≠ some l) :
    ¬ EndsIn (head ++ rest) name := by
  rintro ⟨before, hsplit⟩
  obtain ⟨hhexy, hlen⟩ := hexValue_some hrest
  have hrev : (name.map toAsciiLowercase).reverse ++ before.reverse =
      (rest.map toAsciiLowercase).reverse ++ (head.map toAsciiLowercase).reverse := by
    rw [← List.reverse_append, hsplit, List.map_append, List.reverse_append]
  have hat : ((rest.map toAsciiLowercase).reverse ++ (head.map toAsciiLowercase).reverse)[k]? =
      some l := by
    rw [← hrev, List.getElem?_append_left (List.getElem?_eq_some_iff.1 hl).1, hl]
  by_cases hin : k < rest.length
  · -- the letter stands in the text
    rw [List.getElem?_append_left (by simpa using hin)] at hat
    have hmem := List.mem_of_getElem? hat
    rw [List.mem_reverse] at hmem
    obtain ⟨c, hc, hcl⟩ := List.mem_map.1 hmem
    exact hforeign c (hhexy c hc) hcl
  · -- the text has just two digits, and the letter is the last one before them
    have htwo : k - ((rest.map toAsciiLowercase).reverse).length = 0 := by
      simp only [List.length_reverse, List.length_map]
      omega
    rw [List.getElem?_append_right (by simp; omega), htwo] at hat
    exact hhead hat

theorem foreign_of_word {name : Bytes} {cmd : HostCmd} (h : (name, cmd) ∈ words) :
    ∃ k ≤ 2, ∃ l, (name.map toAsciiLowercase).reverse[k]? = some l ∧ Foreign l ∧ l ≠ 120 ∧ l ≠ 116 := by
  have hp : Foreign 112 := fun c => Serial.byte_forall (by decide +kernel) c
  have hy : Foreign 121 := fun c => Serial.byte_forall (by decide +kernel) c
  have ho : Foreign 111 := fun c => Serial.byte_forall (by decide +kernel) c
  have hn : Foreign 110 := fun c => Serial.byte_forall (by decide +kernel) c
  simp only [words, List.mem_cons, Prod.mk.injEq, List.not_mem_nil, or_false] at h
  rcases h with ⟨rfl, -⟩ | ⟨rfl, -⟩ | ⟨rfl, -⟩ | ⟨rfl, -⟩ | ⟨rfl, -⟩
  · exact ⟨0, by omega, 112, by decide +kernel, hp, by decide, by decide⟩
  · exact ⟨0, by omega, 121, by decide +kernel, hy, by decide, by decide⟩
  · exact ⟨2, by omega, 111, by decide +kernel, ho, by decide, by decide⟩
  · exact ⟨1, by omega, 110, by decide +kernel, hn, by decide, by decide⟩
  · exact ⟨0, by omega, 110, by decide +kernel, hn, by decide, by decide⟩

/-- A line that sends ends in no word. -/
theorem word_not_send {name head rest data w : Bytes} {blast : Bool} {cmd : HostCmd}
    (hname : (name, blast) ∈ senders) (hhead : sameWord head name = true)
    (hrest : hexValue rest = some data) (hpos : 0 < data.length) (hw : (w, cmd) ∈ words) :
    ¬ EndsIn (head ++ rest) w := by
  obtain ⟨k, hk, l, hl, hforeign, hx, ht⟩ := foreign_of_word hw
  refine not_endsIn hrest hpos hl hk hforeign ?_
  rw [sameWord_iff.1 hhead]
  simp only [senders, List.mem_cons, Prod.mk.injEq, List.not_mem_nil, or_false] at hname
  have hxlast : ((Rust.byteStr "tx").map toAsciiLowercase).reverse[0]? = some 120 := by decide +kernel
  have htlast : ((Rust.byteStr "blast").map toAsciiLowercase).reverse[0]? = some 116 := by
    decide +kernel
  rcases hname with ⟨rfl, -⟩ | ⟨rfl, -⟩
  · rw [hxlast]
    exact fun h => hx (Option.some.inj h).symm
  · rw [htlast]
    exact fun h => ht (Option.some.inj h).symm

/-- No line ends in two of the words: their last letters differ. -/
theorem endsIn_unique {line w w' : Bytes} {cmd cmd' : HostCmd} (hw : (w, cmd) ∈ words)
    (hw' : (w', cmd') ∈ words) (h : EndsIn line w) (h' : EndsIn line w') : cmd = cmd' := by
  have hlast : ∀ p ∈ words, ∀ q ∈ words, (p.1.map toAsciiLowercase).getLast? =
      (q.1.map toAsciiLowercase).getLast? → p.2 = q.2 := by decide +kernel
  have hne : ∀ p ∈ words, (p.1.map toAsciiLowercase) ≠ [] := by decide +kernel
  have hends {v : Bytes} {c : HostCmd} (hv : (v, c) ∈ words) (hend : EndsIn line v) :
      (v.map toAsciiLowercase).getLast? = (line.map toAsciiLowercase).getLast? := by
    obtain ⟨before, hsplit⟩ := hend
    rw [← hsplit, List.getLast?_append_of_ne_nil _ (hne _ hv)]
  exact hlast _ hw _ hw' ((hends hw h).trans (hends hw' h').symm)

/-- The first word found. -/
def firstWord (line : Bytes) : Option HostCmd := (words.find? fun w => cmdEq line w.1).map (·.2)

/-- The burst of a line that ends in no word. -/
def sendOf (line : Bytes) : Option HostCmd :=
  if line.length ≥ 2 ∧ sameWord (line.take 2) (Rust.byteStr "tx") = true then
    ((hexValue (line.drop 2)).bind TxBurst.fromSlice).map (sendCmd false)
  else if line.length ≥ 5 ∧ sameWord (line.take 5) (Rust.byteStr "blast") = true then
    ((hexValue (line.drop 5)).bind TxBurst.fromSlice).map (sendCmd true)
  else none

theorem parseLine_eq (line : Bytes) :
    parseLine line = .ok ((firstWord (trim line)).or (sendOf (trim line))) := by
  unfold parseLine firstWord sendOf
  generalize trim line = line
  by_cases hnil : line = []
  · subst hnil
    rfl
  · have hempty : line.isEmpty = false := by simpa using hnil
    simp only [hempty, words, List.find?_cons, List.find?_nil, parseTxCmd_eq, Bool.false_eq_true,
      if_false, Bool.and_eq_true, decide_eq_true_eq]
    cases cmdEq line (Rust.byteStr "help")
    · cases cmdEq line (Rust.byteStr "replay")
      · cases cmdEq line (Rust.byteStr "probe")
        · cases cmdEq line (Rust.byteStr "hunt")
          · cases cmdEq line (Rust.byteStr "listen")
            · simp only [Bool.false_eq_true, if_false, Option.map_none, Option.none_or]
              split
              · rfl
              · split <;> rfl
            · rfl
          · rfl
        · rfl
      · rfl
    · rfl

theorem firstWord_some {line : Bytes} {cmd : HostCmd} (h : firstWord line = some cmd) :
    ∃ name, (name, cmd) ∈ words ∧ EndsIn line name := by
  obtain ⟨w, hfind, rfl⟩ := Option.map_eq_some_iff.1 h
  have hcmd := List.find?_some hfind
  exact ⟨w.1, List.mem_of_find?_eq_some hfind, cmdEq_iff.1 hcmd⟩

theorem firstWord_none {line : Bytes} (h : firstWord line = none) {name : Bytes} {cmd : HostCmd}
    (hmem : (name, cmd) ∈ words) : ¬ EndsIn line name := by
  have := List.find?_eq_none.1 (Option.map_eq_none_iff.1 h) _ hmem
  exact fun hend => this (cmdEq_iff.2 hend)

/-- The burst of a line starts with one of the two names. -/
theorem sendOf_iff {line : Bytes} {cmd : HostCmd} : sendOf line = some cmd ↔
    ∃ name head rest data blast b, (name, blast) ∈ senders ∧ line = head ++ rest ∧
      sameWord head name = true ∧ hexValue rest = some data ∧ TxBurst.fromSlice data = some b ∧
      cmd = sendCmd blast b := by
  have htx : (Rust.byteStr "tx").length = 2 := by decide +kernel
  have hblast : (Rust.byteStr "blast").length = 5 := by decide +kernel
  have hburst {rest : Bytes} {blast : Bool} :
      ((hexValue rest).bind TxBurst.fromSlice).map (sendCmd blast) = some cmd ↔
        ∃ data b, hexValue rest = some data ∧ TxBurst.fromSlice data = some b ∧
          cmd = sendCmd blast b := by
    simp only [Option.map_eq_some_iff, Option.bind_eq_some_iff]
    constructor
    · rintro ⟨b, ⟨data, hd, hb⟩, rfl⟩
      exact ⟨data, b, hd, hb, rfl⟩
    · rintro ⟨data, b, hd, hb, rfl⟩
      exact ⟨b, ⟨data, hd, hb⟩, rfl⟩
  constructor
  · intro h
    unfold sendOf at h
    split at h
    · rename_i hhead
      obtain ⟨data, b, hd, hb, rfl⟩ := hburst.1 h
      exact ⟨_, _, _, data, false, b, by simp [senders], (List.take_append_drop 2 line).symm, hhead.2,
        hd, hb, rfl⟩
    · split at h
      · rename_i hhead
        obtain ⟨data, b, hd, hb, rfl⟩ := hburst.1 h
        exact ⟨_, _, _, data, true, b, by simp [senders], (List.take_append_drop 5 line).symm, hhead.2,
          hd, hb, rfl⟩
      · cases h
  · rintro ⟨name, head, rest, data, blast, b, hname, rfl, hhead, hd, hb, rfl⟩
    have hlen := sameWord_length hhead
    simp only [senders, List.mem_cons, Prod.mk.injEq, List.not_mem_nil, or_false] at hname
    rcases hname with ⟨rfl, rfl⟩ | ⟨rfl, rfl⟩
    · rw [htx] at hlen
      rw [sendOf, List.take_left' hlen, List.drop_left' hlen,
        if_pos ⟨by rw [List.length_append]; omega, hhead⟩]
      exact hburst.2 ⟨data, b, hd, hb, rfl⟩
    · rw [hblast] at hlen
      -- the first letter of `blast` is not that of `tx`
      have hnot : ¬ sameWord ((head ++ rest).take 2) (Rust.byteStr "tx") = true := by
        intro htake
        have hfirst := congrArg List.head? (sameWord_iff.1 htake)
        have hhead' := congrArg List.head? (sameWord_iff.1 hhead)
        rw [List.take_append_of_le_length (by omega), List.map_take, List.head?_take] at hfirst
        simp only [Nat.reduceEqDiff, if_false] at hfirst
        rw [hhead'] at hfirst
        revert hfirst
        decide +kernel
      rw [sendOf, List.take_left' hlen, List.drop_left' hlen, if_neg fun h => hnot h.2,
        if_pos ⟨by rw [List.length_append]; omega, hhead⟩]
      exact hburst.2 ⟨data, b, hd, hb, rfl⟩

theorem parseLine_returns (line : Bytes) : ∃ cmd, parseLine line = .ok cmd := ⟨_, parseLine_eq line⟩

theorem reads_of_parseLine {line : Bytes} {cmd : HostCmd} (h : parseLine line = .ok (some cmd)) :
    Reads line cmd := by
  rw [parseLine_eq, Except.ok.injEq, Option.or_eq_some_iff] at h
  rcases h with h | ⟨-, h⟩
  · obtain ⟨name, hmem, hend⟩ := firstWord_some h
    exact .word hmem hend
  · obtain ⟨name, head, rest, data, blast, b, hname, hline, hhead, hd, hb, rfl⟩ := sendOf_iff.1 h
    exact .send hname hline hhead hd hb

/-- **The order in which the words are looked for does not matter**: a line is read as a command
exactly if it says it, and so it says one at most. Above all no line of bytes to send is taken for a
word, though a word is found at the end of any line. -/
theorem parseLine_reads (line : Bytes) :
    ∃ cmd, parseLine line = .ok cmd ∧ ∀ c, cmd = some c ↔ Reads line c := by
  refine ⟨_, parseLine_eq line, ?_⟩
  intro c
  constructor
  · intro h
    exact reads_of_parseLine ((parseLine_eq line).trans (congrArg Except.ok h))
  intro h
  cases hfirst : firstWord (trim line) with
  | some cmd =>
    obtain ⟨name, hmem, hend⟩ := firstWord_some hfirst
    rw [Option.some_or, Option.some.injEq]
    rcases h with ⟨hmem', hend'⟩ | ⟨hname, hline, hhead, hd, hb⟩
    · exact endsIn_unique hmem hmem' hend hend'
    · rw [hline] at hend
      exact absurd hend (word_not_send hname hhead hd (fromSlice_eq_some hb).2.1 hmem)
  | none =>
    rw [Option.none_or]
    rcases h with ⟨hmem, hend⟩ | ⟨hname, hline, hhead, hd, hb⟩
    · exact absurd hend (firstWord_none hfirst hmem)
    · exact sendOf_iff.2 ⟨_, _, _, _, _, _, hname, hline, hhead, hd, hb, rfl⟩

end ScoreboardCtrl.Probe
