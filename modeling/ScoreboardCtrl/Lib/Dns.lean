import Mathlib.Algebra.Group.Nat.Defs
import Mathlib.Data.List.Basic
import Mathlib.Tactic.Common

/-!
# The DNS wire format

Names, questions, records and messages as RFC 1035 lays them out, with name compression.

* `NameAt` — the name read at an offset, following labels and compression pointers, and the number
  of steps it takes; `InPlace` — where its encoding at that offset ends;
* `encodeName` — a name without compression; `nameAt_encode` and `inPlace_encode` read it back;
* `WireName` — a name as a message may hold it, with pointers to earlier names only;
* `decode` — a parser of whole messages that leaves no byte over. It takes one step more than the
  message has bytes to read a name; `readName_of_nameAt` and `nameEnd_of_inPlace` say what it makes
  of one.
-/

namespace ScoreboardCtrl.Lib.Dns

abbrev Bytes : Type := List UInt8

/-- The labels of a name, the root's left out. -/
abbrev Name : Type := List Bytes

/-! ### Names -/

/-- The bytes from `lo` up to `hi`. -/
def cut (q : Bytes) (lo hi : ℕ) : Bytes := (q.take hi).drop lo

/-- The label `l` of 1 to 63 bytes stands at `i`, its length first. -/
structure LabelAt (q : Bytes) (i : ℕ) (l : Bytes) : Prop where
  pos : 1 ≤ l.length
  le : l.length ≤ 63
  head : q[i]? = some (UInt8.ofNat l.length)
  body : cut q (i + 1) (i + 1 + l.length) = l

/-- A compression pointer to `t` stands at `i`: two bits set, the other fourteen are `t`. -/
def PointerAt (q : Bytes) (i t : ℕ) : Prop :=
  ∃ b c : UInt8, q[i]? = some b ∧ 192 ≤ b.toNat ∧ q[i + 1]? = some c ∧
    t = (b.toNat - 192) * 256 + c.toNat

/-- The name read at `i`, over `k` labels and pointers. -/
inductive NameAt (q : Bytes) : ℕ → ℕ → Name → Prop
  | root {i : ℕ} : q[i]? = some 0 → NameAt q i 0 []
  | label {i k : ℕ} {l : Bytes} {ls : Name} : LabelAt q i l → NameAt q (i + 1 + l.length) k ls →
      NameAt q i (k + 1) (l :: ls)
  | pointer {i k t : ℕ} {ls : Name} : PointerAt q i t → NameAt q t k ls → NameAt q i (k + 1) ls

/-- The encoding of a name at `i` ends before `e`: after the root, or after the first pointer. -/
inductive InPlace (q : Bytes) : ℕ → ℕ → Prop
  | root {i : ℕ} : q[i]? = some 0 → InPlace q i (i + 1)
  | label {i e : ℕ} {l : Bytes} : LabelAt q i l → InPlace q (i + 1 + l.length) e → InPlace q i e
  | pointer {i t : ℕ} : PointerAt q i t → InPlace q i (i + 2)

/-- A name without compression. -/
def encodeName : Name → Bytes
  | [] => [0]
  | l :: ls => UInt8.ofNat l.length :: l ++ encodeName ls

/-- A 16-bit number, its high byte first. -/
def u16 (x : UInt16) : Bytes := [UInt8.ofNat (x.toNat / 256), UInt8.ofNat x.toNat]

/-- Every label has 1 to 63 bytes. -/
def Name.Valid (ls : Name) : Prop := ∀ l ∈ ls, 1 ≤ l.length ∧ l.length ≤ 63

instance (ls : Name) : Decidable ls.Valid := inferInstanceAs (Decidable (∀ l ∈ ls, _))

/-! ### Where names are -/

theorem length_cut {q : Bytes} {lo hi : ℕ} (h : hi ≤ q.length) : (cut q lo hi).length = hi - lo := by
  rw [cut, List.length_drop, List.length_take, Nat.min_eq_left h]

theorem getElem?_cut {q : Bytes} {lo hi k : ℕ} (h : lo + k < hi) : (cut q lo hi)[k]? = q[lo + k]? := by
  rw [cut, List.getElem?_drop, List.getElem?_take_of_lt h]

theorem cut_append {q : Bytes} {lo hi : ℕ} (h : hi ≤ q.length) (r : Bytes) :
    cut (q ++ r) lo hi = cut q lo hi := by
  rw [cut, List.take_append_of_le_length h]
  rfl

theorem cut_middle (pre l post : Bytes) :
    cut (pre ++ l ++ post) pre.length (pre.length + l.length) = l := by
  rw [cut, ← List.length_append, List.take_left, List.drop_left]

theorem getElem?_append_of_some {q : Bytes} {i : ℕ} {b : UInt8} (h : q[i]? = some b)
    (r : Bytes) : (q ++ r)[i]? = some b := by
  rw [List.getElem?_append_left (List.getElem?_eq_some_iff.1 h).1, h]

theorem getElem?_length_append (pre : Bytes) (b : UInt8) (post : Bytes) :
    (pre ++ b :: post)[pre.length]? = some b := by
  rw [List.getElem?_append_right (Nat.le_refl _), Nat.sub_self]
  rfl

theorem getElem?_of_drop {q rest : Bytes} {i : ℕ} {b : UInt8} (h : q.drop i = b :: rest) :
    q[i]? = some b := by
  have hhead : (q.drop i)[0]? = q[i + 0]? := List.getElem?_drop
  rw [h] at hhead
  exact hhead.symm

theorem drop_of_drop {q l rest : Bytes} {i : ℕ} (h : q.drop i = l ++ rest) :
    q.drop (i + l.length) = rest := by
  rw [← List.drop_drop, h, List.drop_left]

theorem cut_of_drop {q l rest : Bytes} {i : ℕ} (h : q.drop i = l ++ rest) :
    cut q i (i + l.length) = l := by
  rw [cut, List.drop_take, h, Nat.add_sub_cancel_left, List.take_left]

theorem drop_eq_cut_append (q : Bytes) {i j : ℕ} (h : i ≤ j) : q.drop i = cut q i j ++ q.drop j := by
  rw [cut, List.drop_take, ← Nat.add_sub_cancel' h, ← List.drop_drop, Nat.add_sub_cancel_left,
    List.take_append_drop]

theorem toNat_length {l : Bytes} (h : l.length ≤ 63) : (UInt8.ofNat l.length).toNat = l.length := by
  rw [UInt8.toNat_ofNat']
  exact Nat.mod_eq_of_lt (by omega)

namespace LabelAt

variable {q l : Bytes} {i : ℕ}

theorem le_length (h : LabelAt q i l) : i + 1 + l.length ≤ q.length := by
  have hlen := congrArg List.length h.body
  have hpos := h.pos
  simp only [cut, List.length_drop, List.length_take] at hlen
  omega

theorem append (h : LabelAt q i l) (r : Bytes) : LabelAt (q ++ r) i l :=
  ⟨h.pos, h.le, getElem?_append_of_some h.head r, by rw [cut_append h.le_length, h.body]⟩

theorem of_append {r : Bytes} (h : LabelAt (q ++ r) i l) (hin : i + 1 + l.length ≤ q.length) :
    LabelAt q i l := by
  refine ⟨h.pos, h.le, ?_, ?_⟩
  · rw [← List.getElem?_append_left (show i < q.length by omega), h.head]
  · rw [← cut_append hin r, h.body]

theorem toNat_head (h : LabelAt q i l) {b : UInt8} (hb : q[i]? = some b) : b.toNat = l.length := by
  obtain rfl := Option.some.inj (hb.symm.trans h.head)
  exact toNat_length h.le

theorem not_root (h : LabelAt q i l) : q[i]? ≠ some 0 := by
  intro hb
  have hpos := h.pos
  have hzero : (0 : UInt8).toNat = l.length := h.toNat_head hb
  rw [UInt8.toNat_zero] at hzero
  omega

theorem not_pointer (h : LabelAt q i l) {t : ℕ} : ¬ PointerAt q i t := by
  rintro ⟨b, c, hb, h192, -⟩
  have hle := h.le
  have := h.toNat_head hb
  omega

/-- The first byte says which label it is. -/
theorem unique (h : LabelAt q i l) {l' : Bytes} (h' : LabelAt q i l') : l = l' := by
  have hhead : UInt8.ofNat l.length = UInt8.ofNat l'.length := by
    have := h.head.symm.trans h'.head
    exact Option.some.inj this
  have hlen : l.length = l'.length := by
    rw [← toNat_length h.le, hhead, toNat_length h'.le]
  rw [← h.body, ← h'.body, hlen]

end LabelAt

theorem PointerAt.append {q : Bytes} {i t : ℕ} (h : PointerAt q i t) (r : Bytes) :
    PointerAt (q ++ r) i t := by
  obtain ⟨b, c, hb, h192, hc, ht⟩ := h
  exact ⟨b, c, getElem?_append_of_some hb r, h192, getElem?_append_of_some hc r, ht⟩

theorem PointerAt.not_root {q : Bytes} {i t : ℕ} (h : PointerAt q i t) : q[i]? ≠ some 0 := by
  rintro hb
  obtain ⟨b, c, hb', h192, -⟩ := h
  obtain rfl := Option.some.inj (hb.symm.trans hb')
  simp at h192

theorem PointerAt.unique {q : Bytes} {i t t' : ℕ} (h : PointerAt q i t) (h' : PointerAt q i t') :
    t = t' := by
  obtain ⟨b, c, hb, -, hc, rfl⟩ := h
  obtain ⟨b', c', hb', -, hc', rfl⟩ := h'
  obtain rfl := Option.some.inj (hb.symm.trans hb')
  obtain rfl := Option.some.inj (hc.symm.trans hc')
  rfl

theorem NameAt.lt_length {q : Bytes} {i k : ℕ} {ls : Name} (h : NameAt q i k ls) :
    i < q.length := by
  cases h with
  | root hb => exact (List.getElem?_eq_some_iff.1 hb).1
  | label hl => exact (List.getElem?_eq_some_iff.1 hl.head).1
  | pointer hp =>
    obtain ⟨b, c, hb, -⟩ := hp
    exact (List.getElem?_eq_some_iff.1 hb).1

/-- There is one name at an offset, and one way to read it. -/
theorem NameAt.unique {q : Bytes} {i k k' : ℕ} {ls ls' : Name} (h : NameAt q i k ls)
    (h' : NameAt q i k' ls') : k = k' ∧ ls = ls' := by
  induction h generalizing k' ls' with
  | root hb =>
    cases h' with
    | root => exact ⟨rfl, rfl⟩
    | label hl => exact absurd hb hl.not_root
    | pointer hp => exact absurd hb hp.not_root
  | label hl _ ih =>
    cases h' with
    | root hb => exact absurd hb hl.not_root
    | label hl' hrest =>
      obtain rfl := hl.unique hl'
      obtain ⟨rfl, rfl⟩ := ih hrest
      exact ⟨rfl, rfl⟩
    | pointer hp => exact absurd hp hl.not_pointer
  | pointer hp _ ih =>
    cases h' with
    | root hb => exact absurd hb hp.not_root
    | label hl => exact absurd hp hl.not_pointer
    | pointer hp' hrest =>
      obtain rfl := hp.unique hp'
      obtain ⟨rfl, rfl⟩ := ih hrest
      exact ⟨rfl, rfl⟩

theorem NameAt.append {q : Bytes} {i k : ℕ} {ls : Name} (h : NameAt q i k ls) (r : Bytes) :
    NameAt (q ++ r) i k ls := by
  induction h with
  | root hb => exact .root (getElem?_append_of_some hb r)
  | label hl _ ih => exact .label (hl.append r) ih
  | pointer hp _ ih => exact .pointer (hp.append r) ih

/-! ### Encoding -/

theorem labelAt_encode {l : Bytes} {ls : Name} (h1 : 1 ≤ l.length) (h63 : l.length ≤ 63)
    (pre post : Bytes) : LabelAt (pre ++ encodeName (l :: ls) ++ post) pre.length l := by
  have hq : pre ++ encodeName (l :: ls) ++ post =
      (pre ++ [UInt8.ofNat l.length]) ++ l ++ (encodeName ls ++ post) := by simp [encodeName]
  refine ⟨h1, h63, ?_, ?_⟩
  · rw [encodeName, List.append_assoc, List.cons_append]
    exact getElem?_length_append pre _ _
  · have hmid := cut_middle (pre ++ [UInt8.ofNat l.length]) l (encodeName ls ++ post)
    rw [List.length_append, List.length_singleton] at hmid
    rw [hq, hmid]

theorem encode_cons (pre : Bytes) (l : Bytes) (ls : Name) (post : Bytes) :
    ∃ pre' : Bytes, pre'.length = pre.length + 1 + l.length ∧
      pre ++ encodeName (l :: ls) ++ post = pre' ++ encodeName ls ++ post := by
  refine ⟨pre ++ UInt8.ofNat l.length :: l, ?_, by simp [encodeName]⟩
  rw [List.length_append, List.length_cons]
  omega

theorem getElem?_root (pre post : Bytes) : (pre ++ encodeName [] ++ post)[pre.length]? = some 0 := by
  rw [encodeName, List.append_assoc]
  exact getElem?_length_append pre 0 post

/-- A name is read back where it was written, one step for each label. -/
theorem nameAt_encode {ls : Name} (h : ls.Valid) (pre post : Bytes) :
    NameAt (pre ++ encodeName ls ++ post) pre.length ls.length ls := by
  induction ls generalizing pre with
  | nil => exact .root (getElem?_root pre post)
  | cons l ls ih =>
    obtain ⟨⟨h1, h63⟩, hls⟩ := List.forall_mem_cons.1 h
    obtain ⟨pre', hlen, heq⟩ := encode_cons pre l ls post
    refine .label (labelAt_encode h1 h63 pre post) ?_
    rw [heq, ← hlen]
    exact ih hls pre'

theorem length_lt_encode (ls : Name) : ls.length < (encodeName ls).length := by
  induction ls with
  | nil => simp [encodeName]
  | cons l ls ih =>
    rw [encodeName, List.length_append, List.length_cons, List.length_cons]
    omega

/-! ### Names of a message -/

/-- The name `ls`, written at `i` up to `e`. A pointer leads behind the header and before `lim`, to a
name that was written earlier. -/
inductive WireName (q : Bytes) : ℕ → ℕ → Name → ℕ → Prop
  | root {lim i : ℕ} : q[i]? = some 0 → WireName q lim i [] (i + 1)
  | label {lim i e : ℕ} {l : Bytes} {ls : Name} : LabelAt q i l →
      WireName q lim (i + 1 + l.length) ls e → WireName q lim i (l :: ls) e
  | pointer {lim i t e : ℕ} {ls : Name} : PointerAt q i t → 12 ≤ t → t < lim →
      WireName q t t ls e → WireName q lim i ls (i + 2)

namespace WireName

variable {q : Bytes} {lim i e : ℕ} {ls : Name}

theorem nameAt (h : WireName q lim i ls e) : ∃ k, NameAt q i k ls := by
  induction h with
  | root hb => exact ⟨0, .root hb⟩
  | label hl _ ih =>
    obtain ⟨k, hk⟩ := ih
    exact ⟨k + 1, .label hl hk⟩
  | pointer hp _ _ _ ih =>
    obtain ⟨k, hk⟩ := ih
    exact ⟨k + 1, .pointer hp hk⟩

theorem inPlace (h : WireName q lim i ls e) : InPlace q i e := by
  induction h with
  | root hb => exact .root hb
  | label hl _ ih => exact .label hl ih
  | pointer hp => exact .pointer hp

end WireName

theorem wireName_encode {ls : Name} (h : ls.Valid) (lim : ℕ) (pre post : Bytes) :
    WireName (pre ++ encodeName ls ++ post) lim pre.length ls
      (pre.length + (encodeName ls).length) := by
  induction ls generalizing pre with
  | nil => exact .root (getElem?_root pre post)
  | cons l ls ih =>
    obtain ⟨⟨h1, h63⟩, hls⟩ := List.forall_mem_cons.1 h
    obtain ⟨pre', hlen, heq⟩ := encode_cons pre l ls post
    refine .label (labelAt_encode h1 h63 pre post) ?_
    have hrest := ih hls pre'
    have hend : pre.length + (encodeName (l :: ls)).length =
        pre'.length + (encodeName ls).length := by
      rw [hlen, encodeName, List.length_append, List.length_cons]
      omega
    rw [heq, hend, ← hlen]
    exact hrest

theorem inPlace_encode {ls : Name} (h : ls.Valid) (pre post : Bytes) :
    InPlace (pre ++ encodeName ls ++ post) pre.length (pre.length + (encodeName ls).length) :=
  (wireName_encode h 0 pre post).inPlace

/-! ### Reading -/

/-- The 16-bit number at `i`. -/
def be16 (q : Bytes) (i : ℕ) : Option ℕ := do
  let a ← q[i]?
  let b ← q[i + 1]?
  return a.toNat * 256 + b.toNat

/-- The 32-bit number at `i`. -/
def be32 (q : Bytes) (i : ℕ) : Option ℕ := do
  let a ← be16 q i
  let b ← be16 q (i + 2)
  return a * 65536 + b

/-- The name at `i`, in fewer than `fuel` labels and pointers. -/
def readName (q : Bytes) : ℕ → ℕ → Option Name
  | 0, _ => none
  | fuel + 1, i => do
    let b ← q[i]?
    if b.toNat = 0 then return []
    else if 192 ≤ b.toNat then
      let c ← q[i + 1]?
      readName q fuel ((b.toNat - 192) * 256 + c.toNat)
    else if b.toNat ≤ 63 ∧ i + 1 + b.toNat ≤ q.length then
      let ls ← readName q fuel (i + 1 + b.toNat)
      return cut q (i + 1) (i + 1 + b.toNat) :: ls
    else none

/-- Where the encoding at `i` ends. -/
def nameEnd (q : Bytes) : ℕ → ℕ → Option ℕ
  | 0, _ => none
  | fuel + 1, i => do
    let b ← q[i]?
    if b.toNat = 0 then return i + 1
    else if 192 ≤ b.toNat then
      let _ ← q[i + 1]?
      return i + 2
    else if b.toNat ≤ 63 ∧ i + 1 + b.toNat ≤ q.length then nameEnd q fuel (i + 1 + b.toNat)
    else none

/-- The name at `i` and where its encoding ends. -/
def name (q : Bytes) (i : ℕ) : Option (Name × ℕ) := do
  let ls ← readName q (q.length + 1) i
  let e ← nameEnd q (q.length + 1) i
  return (ls, e)

structure Question where
  name : Name
  qtype : ℕ
  qclass : ℕ
  deriving DecidableEq, Repr

/-- Questions one after the other from `i` on, each with the offset of its name. -/
inductive QuestionsAt (q : Bytes) : ℕ → List (ℕ × Question) → Prop
  | nil {i : ℕ} : QuestionsAt q i []
  | cons {i e t c : ℕ} {ls : Name} {rest : List (ℕ × Question)} : WireName q i i ls e →
      be16 q e = some t → be16 q (e + 2) = some c → QuestionsAt q (e + 4) rest →
      QuestionsAt q i ((i, ⟨ls, t, c⟩) :: rest)

structure Record where
  name : Name
  rtype : ℕ
  rclass : ℕ
  ttl : ℕ
  rdata : Bytes
  deriving DecidableEq, Repr

structure Message where
  id : ℕ
  flags : ℕ
  questions : List Question
  answers : List Record
  authority : List Record
  additional : List Record
  deriving DecidableEq, Repr

/-- QR -/
def Message.isResponse (m : Message) : Bool := m.flags / 2 ^ 15 % 2 == 1

/-- RCODE -/
def Message.rcode (m : Message) : ℕ := m.flags % 2 ^ 4

/-- The question at `i` and where it ends. -/
def question (q : Bytes) (i : ℕ) : Option (Question × ℕ) := do
  let (ls, e) ← name q i
  let qtype ← be16 q e
  let qclass ← be16 q (e + 2)
  return (⟨ls, qtype, qclass⟩, e + 4)

/-- The record at `i` and where it ends. -/
def record (q : Bytes) (i : ℕ) : Option (Record × ℕ) := do
  let (ls, e) ← name q i
  let rtype ← be16 q e
  let rclass ← be16 q (e + 2)
  let ttl ← be32 q (e + 4)
  let rdlength ← be16 q (e + 8)
  if e + 10 + rdlength ≤ q.length then
    return (⟨ls, rtype, rclass, ttl, cut q (e + 10) (e + 10 + rdlength)⟩, e + 10 + rdlength)
  else none

/-- `n` items one after the other. -/
def many {α : Type} (item : ℕ → Option (α × ℕ)) : ℕ → ℕ → Option (List α × ℕ)
  | 0, i => some ([], i)
  | n + 1, i => do
    let (x, i) ← item i
    let (xs, i) ← many item n i
    return (x :: xs, i)

/-- The message `q` is, with no byte left over. -/
def decode (q : Bytes) : Option Message := do
  let id ← be16 q 0
  let flags ← be16 q 2
  let qdcount ← be16 q 4
  let ancount ← be16 q 6
  let nscount ← be16 q 8
  let arcount ← be16 q 10
  let (questions, i) ← many (question q) qdcount 12
  let (answers, i) ← many (record q) ancount i
  let (authority, i) ← many (record q) nscount i
  let (additional, i) ← many (record q) arcount i
  if i = q.length then return ⟨id, flags, questions, answers, authority, additional⟩ else none

theorem be16_some {q : Bytes} {i : ℕ} {a b : UInt8} (ha : q[i]? = some a)
    (hb : q[i + 1]? = some b) : be16 q i = some (a.toNat * 256 + b.toNat) := by
  rw [be16, ha, hb]
  rfl

/-- A name of fewer than `fuel` steps is found. -/
theorem readName_of_nameAt {q : Bytes} {i k : ℕ} {ls : Name} (h : NameAt q i k ls) {fuel : ℕ}
    (hfuel : k < fuel) : readName q fuel i = some ls := by
  induction h generalizing fuel with
  | root hb =>
    obtain ⟨fuel, rfl⟩ := Nat.exists_eq_add_of_le' hfuel
    rw [readName, hb]
    rfl
  | label hl _ ih =>
    obtain ⟨fuel, rfl⟩ := Nat.exists_eq_add_of_le' (Nat.lt_of_le_of_lt (Nat.zero_le _) hfuel)
    have hnat := toNat_length hl.le
    have hpos := hl.pos
    have hle := hl.le
    simp only [readName, hl.head, hnat, Option.bind_eq_bind, Option.bind_some]
    rw [if_neg (by omega), if_neg (by omega), if_pos ⟨hle, hl.le_length⟩, ih (by omega), hl.body]
    rfl
  | pointer hp _ ih =>
    obtain ⟨fuel, rfl⟩ := Nat.exists_eq_add_of_le' (Nat.lt_of_le_of_lt (Nat.zero_le _) hfuel)
    obtain ⟨b, c, hb, h192, hc, rfl⟩ := hp
    simp only [readName, hb, hc, Option.bind_eq_bind, Option.bind_some]
    rw [if_neg (by omega), if_pos h192, ih (by omega)]

/-- The end of an encoding is found in as many steps as the message has bytes. -/
theorem nameEnd_of_inPlace {q : Bytes} {i e : ℕ} (h : InPlace q i e) {fuel : ℕ}
    (hfuel : q.length < i + fuel) : nameEnd q fuel i = some e := by
  induction h generalizing fuel with
  | @root i hb =>
    have hi := (List.getElem?_eq_some_iff.1 hb).1
    obtain ⟨fuel, rfl⟩ := Nat.exists_eq_add_of_le' (show 1 ≤ fuel by omega)
    rw [nameEnd, hb]
    rfl
  | @label i e l hl _ ih =>
    have hlen := hl.le_length
    have hnat := toNat_length hl.le
    have hpos := hl.pos
    have hle := hl.le
    obtain ⟨fuel, rfl⟩ := Nat.exists_eq_add_of_le' (show 1 ≤ fuel by omega)
    simp only [nameEnd, hl.head, hnat, Option.bind_eq_bind, Option.bind_some]
    rw [if_neg (by omega), if_neg (by omega), if_pos ⟨hle, hlen⟩, ih (by omega)]
  | @pointer i t hp =>
    obtain ⟨b, c, hb, h192, hc, -⟩ := hp
    have hi := (List.getElem?_eq_some_iff.1 hb).1
    obtain ⟨fuel, rfl⟩ := Nat.exists_eq_add_of_le' (show 1 ≤ fuel by omega)
    simp only [nameEnd, hb, hc, Option.bind_eq_bind, Option.bind_some]
    rw [if_neg (by omega), if_pos h192]
    rfl

theorem name_some {q : Bytes} {i k e : ℕ} {ls : Name} (h : NameAt q i k ls) (hk : k ≤ q.length)
    (he : InPlace q i e) : name q i = some (ls, e) := by
  rw [name, readName_of_nameAt h (by omega), nameEnd_of_inPlace he (by omega)]
  rfl

theorem getElem?_length_add (pre post : Bytes) (k : ℕ) :
    (pre ++ post)[pre.length + k]? = post[k]? := by
  rw [List.getElem?_append_right (Nat.le_add_right _ _), Nat.add_sub_cancel_left]

theorem u16_toNat (x : UInt16) :
    (UInt8.ofNat (x.toNat / 256)).toNat * 256 + (UInt8.ofNat x.toNat).toNat = x.toNat := by
  have hlt := x.toNat_lt
  rw [UInt8.toNat_ofNat', UInt8.toNat_ofNat']
  omega

theorem be16_add (pre : Bytes) {post : Bytes} (k : ℕ) {a b : UInt8} (ha : post[k]? = some a)
    (hb : post[k + 1]? = some b) :
    be16 (pre ++ post) (pre.length + k) = some (a.toNat * 256 + b.toNat) := by
  refine be16_some ?_ ?_
  · rw [getElem?_length_add, ha]
  · rw [Nat.add_assoc, getElem?_length_add, hb]

section Sections

variable {q : Bytes} {i k e t c : ℕ} {ls : Name}

theorem question_some (h : NameAt q i k ls) (hk : k ≤ q.length) (he : InPlace q i e)
    (ht : be16 q e = some t) (hc : be16 q (e + 2) = some c) :
    question q i = some (⟨ls, t, c⟩, e + 4) := by
  simp only [question, name_some h hk he, Option.bind_eq_bind, Option.bind_some, ht, hc]
  rfl

theorem record_some {ttl rdlength : ℕ} (h : NameAt q i k ls) (hk : k ≤ q.length)
    (he : InPlace q i e) (ht : be16 q e = some t) (hc : be16 q (e + 2) = some c)
    (httl : be32 q (e + 4) = some ttl) (hlen : be16 q (e + 8) = some rdlength)
    (hle : e + 10 + rdlength ≤ q.length) :
    record q i =
      some (⟨ls, t, c, ttl, cut q (e + 10) (e + 10 + rdlength)⟩, e + 10 + rdlength) := by
  simp only [record, name_some h hk he, Option.bind_eq_bind, Option.bind_some, ht, hc, httl, hlen]
  rw [if_pos hle]
  rfl

end Sections

@[simp] theorem many_zero {α : Type} (item : ℕ → Option (α × ℕ)) (i : ℕ) :
    many item 0 i = some ([], i) := rfl

theorem many_one {α : Type} {item : ℕ → Option (α × ℕ)} {i j : ℕ} {x : α}
    (h : item i = some (x, j)) : many item 1 i = some ([x], j) := by
  simp [many, h]

theorem decode_some {q : Bytes} {id flags qd an ns ar i j k : ℕ} {questions : List Question}
    {answers authority additional : List Record} (hid : be16 q 0 = some id)
    (hflags : be16 q 2 = some flags) (hqd : be16 q 4 = some qd) (han : be16 q 6 = some an)
    (hns : be16 q 8 = some ns) (har : be16 q 10 = some ar)
    (hquestions : many (question q) qd 12 = some (questions, i))
    (hanswers : many (record q) an i = some (answers, j))
    (hauthority : many (record q) ns j = some (authority, k))
    (hadditional : many (record q) ar k = some (additional, q.length)) :
    decode q = some ⟨id, flags, questions, answers, authority, additional⟩ := by
  simp only [decode, Option.bind_eq_bind, hid, hflags, hqd, han, hns, har, hquestions, hanswers,
    hauthority, hadditional, Option.bind_some, if_true]
  rfl

end ScoreboardCtrl.Lib.Dns
