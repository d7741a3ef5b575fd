import ScoreboardCtrl.Net.Dns

/-!
# The DHCP server (`src/net_proto.rs` and `dhcp_task`)

* `findOption_returns` and `findOption_some` — the walk over the options returns on every packet,
  and finds the first one;
* `writeOfferOrAck_eq` — the reply, byte for byte up to its end mark; the rest of the buffer stays.
-/

namespace ScoreboardCtrl.Net

open Lib (Rust)
open Lib.Dns

abbrev poolStart : ℕ := 10
abbrev poolSize : ℕ := 8
abbrev dhcpMagic : Bytes := [99, 130, 83, 99]
abbrev dhcpDiscover : UInt8 := 1
abbrev dhcpOffer : UInt8 := 2
abbrev dhcpRequest : UInt8 := 3
abbrev dhcpAck : UInt8 := 5
abbrev dhcpNak : UInt8 := 6

/-- `POOL_START + slot` is a sum of two `u8`. -/
def offeredIp (slot : ℕ) : Rust Bytes :=
  if poolStart + slot < 256 then .ok [192, 168, 0, UInt8.ofNat (poolStart + slot)]
  else .error .overflow

/-! ### Options -/

/-- The `while` of `find_option`; it leaves with `none` where the source breaks. -/
def optionRound (packet : Bytes) (code : UInt8) (i : ℕ) : Rust (ℕ ⊕ Option Bytes) :=
  if packet.length ≤ i then pure (.inr none)
  else do
    let c ← Rust.index packet i
    if c = 0 then return .inl (← Rust.add i 1)
    else if c = 255 then return .inr none
    else
      let next ← Rust.add i 1
      if packet.length ≤ next then return .inr none
      else
        let len := (← Rust.index packet next).toNat
        let start ← Rust.add i 2
        let stop := Rust.saturatingAdd start len
        if packet.length < stop then return .inr none
        else if c = code then return .inr (some (← Rust.slice packet start stop))
        else return .inl stop

def findOption (packet : Bytes) (code : UInt8) : Rust (Option Bytes) :=
  if packet.length < 240 then pure none
  else do
    if (← Rust.slice packet 236 240) ≠ dhcpMagic then return none
    else Rust.loop (optionRound packet code) (packet.length + 1) 240

def dhcpMsgType (packet : Bytes) : Rust (Option UInt8) := do
  return (← findOption packet 53).bind List.head?

def requestedIp (packet : Bytes) : Rust (Option Bytes) := do
  return (← findOption packet 50).bind fun v => if v.length = 4 then some v else none

/-! ### The reply -/

/-- `push`: the option is left out where the end mark would not fit behind it. -/
def push (i : ℕ) (out : Bytes) (code : UInt8) (data : Bytes) : Rust (ℕ × Bytes) := do
  let start ← Rust.add i 2
  let stop ← Rust.add start data.length
  if out.length ≤ stop then return (i, out)
  else
    let out ← Rust.write out i code
    let out ← Rust.write out (← Rust.add i 1) (UInt8.ofNat data.length)
    let out ← Rust.copyFrom out start stop data
    return (← Rust.add i (← Rust.add 2 data.length), out)

/-- One `push` after the other. -/
def pushAll (i : ℕ) (out : Bytes) : List (UInt8 × Bytes) → Rust (ℕ × Bytes)
  | [] => pure (i, out)
  | (code, data) :: rest => do
    let (i, out) ← push i out code data
    pushAll i out rest

def captiveUri : Bytes := Rust.byteStr "http://192.168.0.1/"

/-- The options of a reply. -/
def replyOptions (msgType : UInt8) : List (UInt8 × Bytes) :=
  [(53, [msgType]), (54, serverIp)] ++
    if msgType ≠ dhcpNak then
      [(1, [255, 255, 255, 0]), (3, serverIp), (6, serverIp), (51, [0, 1, 81, 128]),
        (28, [192, 168, 0, 255]), (15, Rust.byteStr "lan"), (114, captiveUri), (160, captiveUri)]
    else []

/-- `if msg_type != DHCP_NAK { out[16..20].copy_from_slice(&yiaddr) }` -/
def putYiaddr (out yiaddr : Bytes) (msgType : UInt8) : Rust Bytes :=
  if msgType ≠ dhcpNak then Rust.copyFrom out 16 20 yiaddr else pure out

/-- `write_offer_or_ack` up to the options. -/
def writeHead (req out yiaddr : Bytes) (msgType : UInt8) : Rust Bytes := do
  let out ← Rust.fill out 0 240 0
  let out ← Rust.writeEach out [(0, 2), (1, 1), (2, 6)]
  let out ← Rust.copyFrom out 4 8 (← Rust.slice req 4 8)
  let out ← putYiaddr out yiaddr msgType
  let out ← Rust.copyFrom out 20 24 serverIp
  let out ← Rust.copyFrom out 28 44 (← Rust.slice req 28 44)
  Rust.copyFrom out 236 240 dhcpMagic

/-- Returns the length of the reply, if there is one, and the buffer it was written to. -/
def writeOfferOrAck (req out yiaddr : Bytes) (msgType : UInt8) : Rust (Option ℕ × Bytes) :=
  if req.length < 240 ∨ out.length < 360 then pure (none, out)
  else do
    let out ← writeHead req out yiaddr msgType
    let (i, out) ← pushAll 240 out (replyOptions msgType)
    let out ← Rust.write out i 255
    let i ← Rust.add i 1
    return (some (max i 300), out)

/-! ### Leases -/

/-- Six bytes. -/
abbrev Mac : Type := Bytes

abbrev Mac.zero : Mac := [0, 0, 0, 0, 0, 0]

structure Lease where
  mac : Mac
  seq : UInt32
  deriving DecidableEq, Repr

def Lease.empty : Lease := ⟨Mac.zero, 0⟩

/-- The `for` that looks for the oldest lease, from `best` and `i` on. -/
def oldestFrom (best : UInt32) (i : ℕ) : List (Lease × ℕ) → ℕ
  | [] => i
  | (l, idx) :: rest => if l.seq ≤ best then oldestFrom l.seq idx rest else oldestFrom best i rest

/-- Returns the slot, a `u8`, the table and the counter. -/
def slotForMac (leases : List Lease) (seq : UInt32) (mac : Mac) :
    Rust (ℕ × List Lease × UInt32) :=
  match leases.findIdx? fun l => l.mac == mac with
  | some i => do
    let seq := seq + 1
    let l ← Rust.index leases i
    let leases ← Rust.write leases i { l with seq := seq }
    return (i % 256, leases, seq)
  | none =>
    match leases.findIdx? fun l => l.mac == Mac.zero with
    | some i => do
      let seq := seq + 1
      let leases ← Rust.write leases i ⟨mac, seq⟩
      return (i % 256, leases, seq)
    | none => do
      let i := oldestFrom ((leases.head?.map Lease.seq).getD 0) 0 leases.zipIdx
      let seq := seq + 1
      let leases ← Rust.write leases i ⟨mac, seq⟩
      return (i % 256, leases, seq)

/-! ### A turn of `dhcp_task` -/

/-- The locals of `dhcp_task`. -/
structure Dhcp where
  leases : List Lease
  leaseSeq : UInt32
  pkt : Bytes
  reply : Bytes
  deriving DecidableEq, Repr

def Dhcp.init : Dhcp :=
  ⟨List.replicate poolSize .empty, 0, List.replicate 600 0, List.replicate 400 0⟩

/-- What `dhcp_task` logs and sends. -/
structure DhcpAnswer where
  kind : UInt8
  mac : Mac
  yiaddr : Bytes
  reply : Bytes
  deriving DecidableEq, Repr

/-- The type of the reply to a message of type `msg`, from a client with the address `yi`. -/
def replyType (req : Bytes) (msg : UInt8) (yi : Bytes) : Rust (Option UInt8) :=
  if msg = dhcpDiscover then pure (some dhcpOffer)
  else if msg = dhcpRequest then do
    match ← requestedIp req with
    | some want => return some (if want ≠ yi then dhcpNak else dhcpAck)
    | none => return some dhcpAck
  else pure none

/-- What `dhcp_task` does with `n` received bytes in `pkt`. -/
def dhcpTurn (s : Dhcp) (n : ℕ) : Rust (Dhcp × Option DhcpAnswer) := do
  let req ← Rust.slice s.pkt 0 n
  if n < 240 then return (s, none)
  else
    let mac ← Rust.slice req 28 34
    match ← dhcpMsgType req with
    | none => return (s, none)
    | some msg =>
      let (slot, leases, seq) ← slotForMac s.leases s.leaseSeq mac
      let s := { s with leases := leases, leaseSeq := seq }
      let yi ← offeredIp slot
      match ← replyType req msg yi with
      | none => return (s, none)
      | some kind =>
        let yiaddr := if kind = dhcpNak then [0, 0, 0, 0] else yi
        let (len, reply) ← writeOfferOrAck req s.reply yiaddr kind
        let s := { s with reply := reply }
        match len with
        | none => return (s, none)
        | some len => return (s, some ⟨kind, mac, yiaddr, ← Rust.slice reply 0 len⟩)

/-- `recv_from` writes a datagram over the start of `pkt`. -/
def Dhcp.receive (s : Dhcp) (d : Bytes) : Dhcp := { s with pkt := Rust.splice s.pkt 0 d }

/-! ### What `find_option` finds -/

/-- From `i` on the first option with the code `code` has the value `v`; an option ends the list
where it does not fit. -/
inductive OptionAt (packet : Bytes) (code : UInt8) : ℕ → Bytes → Prop
  | pad {i : ℕ} {v : Bytes} : packet[i]? = some 0 → OptionAt packet code (i + 1) v →
      OptionAt packet code i v
  | here {i : ℕ} {len : UInt8} : packet[i]? = some code → code ≠ 0 → code ≠ 255 →
      packet[i + 1]? = some len → i + 2 + len.toNat ≤ packet.length →
      OptionAt packet code i (cut packet (i + 2) (i + 2 + len.toNat))
  | other {i : ℕ} {c len : UInt8} {v : Bytes} : packet[i]? = some c → c ≠ 0 → c ≠ 255 → c ≠ code →
      packet[i + 1]? = some len → i + 2 + len.toNat ≤ packet.length →
      OptionAt packet code (i + 2 + len.toNat) v → OptionAt packet code i v

section Options

variable {packet : Bytes} {code : UInt8} {i : ℕ} {v : Bytes}

theorem OptionAt.lt_length (h : OptionAt packet code i v) : i < packet.length := by
  cases h with
  | pad hc => exact (List.getElem?_eq_some_iff.1 hc).1
  | here hc => exact (List.getElem?_eq_some_iff.1 hc).1
  | other hc => exact (List.getElem?_eq_some_iff.1 hc).1

theorem optionAt_pad (hc : packet[i]? = some 0) :
    OptionAt packet code i v ↔ OptionAt packet code (i + 1) v := by
  constructor
  · intro h
    cases h with
    | pad _ hrest => exact hrest
    | here hc' h0 => exact absurd (Option.some.inj (hc'.symm.trans hc)) h0
    | other hc' h0 => exact absurd (Option.some.inj (hc'.symm.trans hc)) h0
  · exact .pad hc

/-- At another byte than padding there is an option that fits, or nothing more. -/
theorem OptionAt.inv {c : UInt8} (h : OptionAt packet code i v) (hc : packet[i]? = some c)
    (h0 : c ≠ 0) : c ≠ 255 ∧ ∃ len, packet[i + 1]? = some len ∧ i + 2 + len.toNat ≤ packet.length ∧
      ((c = code ∧ v = cut packet (i + 2) (i + 2 + len.toNat)) ∨
        (c ≠ code ∧ OptionAt packet code (i + 2 + len.toNat) v)) := by
  cases h with
  | pad hc' => exact absurd (Option.some.inj (hc.symm.trans hc')) h0
  | @here _ len hc' _ h255 hlen hle =>
    obtain rfl := Option.some.inj (hc.symm.trans hc')
    exact ⟨h255, len, hlen, hle, .inl ⟨rfl, rfl⟩⟩
  | @other _ c' len _ hc' _ h255 hne hlen hle hrest =>
    obtain rfl := Option.some.inj (hc.symm.trans hc')
    exact ⟨h255, len, hlen, hle, .inr ⟨hne, hrest⟩⟩

theorem optionLoop_returns (hpacket : Rust.Sized packet) :
    (Rust.loop (optionRound packet code) (packet.length + 1) 240).Returns
      fun r => ∀ v, r = some v ↔ OptionAt packet code 240 v := by
  have hsize : packet.length < 2 ^ 31 := hpacket
  refine Rust.Returns.loop (I := fun _ => True) (μ := fun i => packet.length - i)
    (Q := fun i r => ∀ v, r = some v ↔ OptionAt packet code i v) (fun i _ => ?_) trivial (by omega)
  unfold optionRound
  by_cases hi : packet.length ≤ i
  · rw [if_pos hi]
    refine .pure fun v => ⟨by rintro ⟨⟩, fun h => ?_⟩
    have := h.lt_length
    omega
  rw [if_neg hi]
  refine .bind (.index (by omega)) ?_
  intro c hc
  by_cases h0 : c = 0
  · rw [if_pos h0]
    rw [h0] at hc
    refine .bind (.add (by omega)) fun next hnext => .pure ?_
    rw [hnext]
    exact ⟨trivial, by omega, fun r hr v => (hr v).trans (optionAt_pad hc).symm⟩
  rw [if_neg h0]
  by_cases h255 : c = 255
  · rw [if_pos h255]
    exact .pure fun v => ⟨by rintro ⟨⟩, fun h => absurd h255 (h.inv hc h0).1⟩
  rw [if_neg h255]
  refine .bind (.add (by omega)) ?_
  intro next hnext
  rw [hnext]
  by_cases hend : packet.length ≤ i + 1
  · rw [if_pos hend]
    refine .pure fun v => ⟨by rintro ⟨⟩, fun h => ?_⟩
    obtain ⟨-, len, hlen, -⟩ := h.inv hc h0
    have := (List.getElem?_eq_some_iff.1 hlen).1
    omega
  rw [if_neg hend]
  refine .bind (.index (by omega)) ?_
  intro len hlen
  have hbyte := len.toNat_lt
  refine .bind (.add (by omega)) ?_
  intro start hstart
  rw [hstart, Rust.saturatingAdd_eq (by omega)]
  by_cases hfit : packet.length < i + 2 + len.toNat
  · rw [if_pos hfit]
    refine .pure fun v => ⟨by rintro ⟨⟩, fun h => ?_⟩
    obtain ⟨-, len', hlen', hle, -⟩ := h.inv hc h0
    obtain rfl := Option.some.inj (hlen.symm.trans hlen')
    omega
  rw [if_neg hfit]
  by_cases hcode : c = code
  · rw [if_pos hcode]
    refine .bind (.slice (by omega) (by omega)) fun value hvalue => .pure ?_
    intro v
    have hcut' : value = cut packet (i + 2) (i + 2 + len.toNat) := hvalue
    constructor
    · rintro ⟨⟩
      rw [hcut']
      exact .here (hcode ▸ hc) (hcode ▸ h0) (hcode ▸ h255) hlen (by omega)
    · intro h
      obtain ⟨-, len', hlen', -, ⟨-, rfl⟩ | ⟨hne', -⟩⟩ := h.inv hc h0
      · obtain rfl := Option.some.inj (hlen.symm.trans hlen')
        rw [hcut']
      · exact absurd hcode hne'
  · rw [if_neg hcode]
    refine .pure ⟨trivial, by omega, fun r hr v => (hr v).trans ⟨fun h => ?_, fun h => ?_⟩⟩
    · exact .other hc h0 h255 hcode hlen (by omega) h
    · obtain ⟨-, len', hlen', -, ⟨heq, -⟩ | ⟨-, hrest⟩⟩ := h.inv hc h0
      · exact absurd heq hcode
      · obtain rfl := Option.some.inj (hlen.symm.trans hlen')
        exact hrest

/-- **`find_option` returns**, and finds the first option with the code. -/
theorem findOption_returns (hpacket : Rust.Sized packet) :
    (findOption packet code).Returns fun r => ∀ v, r = some v ↔
      240 ≤ packet.length ∧ cut packet 236 240 = dhcpMagic ∧ OptionAt packet code 240 v := by
  have hsize : packet.length < 2 ^ 31 := hpacket
  unfold findOption
  by_cases hshort : packet.length < 240
  · rw [if_pos hshort]
    refine .pure fun v => ⟨by rintro ⟨⟩, ?_⟩
    rintro ⟨h240, -⟩
    omega
  rw [if_neg hshort]
  refine .bind (.slice (by omega) (by omega)) ?_
  intro magic hmagic
  have hcut : magic = cut packet 236 240 := hmagic
  by_cases hne : magic ≠ dhcpMagic
  · rw [if_pos hne]
    refine .pure fun v => ⟨by rintro ⟨⟩, ?_⟩
    rintro ⟨-, heq, -⟩
    exact absurd (hcut.trans heq) hne
  rw [if_neg hne]
  refine (optionLoop_returns hpacket).mono fun r hr v => (hr v).trans ⟨fun h => ?_, fun h => h.2.2⟩
  exact ⟨by omega, by rw [← hcut]; simpa using hne, h⟩

theorem findOption_some (hpacket : Rust.Sized packet) (h240 : 240 ≤ packet.length)
    (hmagic : cut packet 236 240 = dhcpMagic) (h : OptionAt packet code 240 v) :
    findOption packet code = .ok (some v) := by
  obtain ⟨r, hr, hiff⟩ : (findOption packet code).Returns _ := findOption_returns hpacket
  rw [hr, (hiff v).2 ⟨h240, hmagic, h⟩]

end Options

/-! ### What the reply is -/

def encodeOption (o : UInt8 × Bytes) : Bytes := o.1 :: UInt8.ofNat o.2.length :: o.2

def encodeOptions (options : List (UInt8 × Bytes)) : Bytes := options.flatMap encodeOption

theorem length_encodeOption (o : UInt8 × Bytes) : (encodeOption o).length = 2 + o.2.length := by
  rw [encodeOption, List.length_cons, List.length_cons]
  omega

/-- The first 240 bytes of the reply. -/
def replyHead (req yiaddr : Bytes) (msgType : UInt8) : Bytes :=
  [2, 1, 6, 0] ++ cut req 4 8 ++ List.replicate 8 0 ++
    (if msgType ≠ dhcpNak then yiaddr else [0, 0, 0, 0]) ++ serverIp ++ List.replicate 4 0 ++
    cut req 28 44 ++ List.replicate 192 0 ++ dhcpMagic

/-- The reply up to its end mark. -/
def replyBody (req yiaddr : Bytes) (msgType : UInt8) : Bytes :=
  replyHead req yiaddr msgType ++ encodeOptions (replyOptions msgType) ++ [255]

theorem push_ok {out data : Bytes} {i : ℕ} {code : UInt8} (hout : Rust.Sized out)
    (hroom : i + 2 + data.length < out.length) :
    push i out code data =
      .ok (i + (encodeOption (code, data)).length, Rust.splice out i (encodeOption (code, data))) := by
  have hsize : out.length < 2 ^ 31 := hout
  have hlen : (Rust.splice (Rust.splice out i [code]) (i + 1) [UInt8.ofNat data.length]).length =
      out.length := by
    have h₁ : (Rust.splice out i [code]).length = out.length :=
      Rust.length_splice (by simp; omega)
    rw [Rust.length_splice (by rw [h₁]; simp; omega), h₁]
  have hwrites : Rust.splice (Rust.splice (Rust.splice out i [code]) (i + 1)
      [UInt8.ofNat data.length]) (i + 2) data = Rust.splice out i (encodeOption (code, data)) := by
    have h₁ : Rust.splice (Rust.splice out i [code]) (i + 1) [UInt8.ofNat data.length] =
        Rust.splice out i [code, UInt8.ofNat data.length] :=
      Rust.splice_splice (by omega)
    have h₂ : Rust.splice (Rust.splice out i [code, UInt8.ofNat data.length]) (i + 2) data =
        Rust.splice out i ([code, UInt8.ofNat data.length] ++ data) :=
      Rust.splice_splice (by omega)
    rw [h₁, h₂]
    rfl
  have hset : (out.set i code).length = out.length := List.length_set
  unfold push
  rw [Rust.add_ok (by omega), Rust.ok_bind, Rust.add_ok (by omega), Rust.ok_bind,
    if_neg (by omega), Rust.write_ok (by omega), Rust.ok_bind, Rust.add_ok (by omega),
    Rust.ok_bind, Rust.write_ok (by omega), Rust.ok_bind, Rust.set_eq_splice (by omega),
    Rust.set_eq_splice (by omega), Rust.copyFrom_ok (by omega) (by rw [hlen]; omega) (by omega),
    Rust.ok_bind, Rust.add_ok (by omega), Rust.ok_bind, Rust.add_ok (by omega), Rust.ok_bind,
    hwrites, length_encodeOption]
  rfl

theorem pushAll_ok {out : Bytes} {i : ℕ} {options : List (UInt8 × Bytes)} (hout : Rust.Sized out)
    (hroom : i + (encodeOptions options).length < out.length) :
    pushAll i out options =
      .ok (i + (encodeOptions options).length, Rust.splice out i (encodeOptions options)) := by
  induction options generalizing i out with
  | nil => simp [pushAll, encodeOptions, Rust.splice]
  | cons o options ih =>
    obtain ⟨code, data⟩ := o
    have hcons : encodeOptions ((code, data) :: options) =
        encodeOption (code, data) ++ encodeOptions options := rfl
    have hone := length_encodeOption (code, data)
    rw [hcons, List.length_append] at hroom
    dsimp only at hone
    have hlen : (Rust.splice out i (encodeOption (code, data))).length = out.length :=
      Rust.length_splice (by omega)
    have hrest : pushAll (i + (encodeOption (code, data)).length)
        (Rust.splice out i (encodeOption (code, data))) options = _ :=
      ih (by rw [Rust.Sized, hlen]; exact hout) (by rw [hlen]; omega)
    rw [pushAll, push_ok hout (by omega), Rust.ok_bind]
    dsimp only
    rw [hrest, Rust.splice_splice (by omega), hcons, List.length_append, Nat.add_assoc]

/-- The options of a reply are short enough for any buffer it is written to. -/
theorem length_replyOptions (msgType : UInt8) :
    (encodeOptions (replyOptions msgType)).length = if msgType ≠ dhcpNak then 86 else 9 := by
  unfold replyOptions
  split
  · rfl
  · rfl

theorem length_yiaddr {yiaddr : Bytes} (hyi : yiaddr.length = 4) (msgType : UInt8) :
    (if msgType ≠ dhcpNak then yiaddr else [0, 0, 0, 0]).length = 4 := by
  split
  · exact hyi
  · rfl

theorem length_replyHead {req yiaddr : Bytes} (hreq : 240 ≤ req.length) (hyi : yiaddr.length = 4)
    (msgType : UInt8) : (replyHead req yiaddr msgType).length = 240 := by
  have hxid : (cut req 4 8).length = 4 := length_cut (by omega)
  have hchaddr : (cut req 28 44).length = 16 := length_cut (by omega)
  have hyiaddr := length_yiaddr hyi msgType
  unfold replyHead
  generalize (if msgType ≠ dhcpNak then yiaddr else [0, 0, 0, 0]) = yi at *
  simp only [List.length_append, List.length_cons, List.length_nil, List.length_replicate, hxid,
    hchaddr, hyiaddr]

/-- The address goes to offset 16 of the zeros behind the first eight bytes. -/
theorem putYiaddr_ok {pre yiaddr : Bytes} (hpre : pre.length = 8) (hyi : yiaddr.length = 4)
    (msgType : UInt8) (rest : Bytes) :
    putYiaddr (pre ++ (List.replicate 232 0 ++ rest)) yiaddr msgType =
      .ok (pre ++ List.replicate 8 0 ++ (if msgType ≠ dhcpNak then yiaddr else [0, 0, 0, 0]) ++
        (List.replicate 220 0 ++ rest)) := by
  have hz : (List.replicate 232 0 : Bytes) =
      List.replicate 8 0 ++ (List.replicate 4 0 ++ List.replicate 220 0) := rfl
  unfold putYiaddr
  split
  · refine Rust.copyFrom_block _ (List.replicate 4 0) _ ?_ ?_ rfl hyi
    · rw [hz]
      simp only [List.append_assoc]
    · rw [List.length_append, hpre, List.length_replicate]
  · rw [hz, Rust.pure_eq]
    simp only [List.append_assoc]
    rfl

theorem writeHead_ok {req out yiaddr : Bytes} {msgType : UInt8} (hreq : 240 ≤ req.length)
    (hroom : 360 ≤ out.length) (hyi : yiaddr.length = 4) :
    writeHead req out yiaddr msgType = .ok (replyHead req yiaddr msgType ++ out.drop 240) := by
  generalize hrest : out.drop 240 = rest
  have hxid : Rust.slice req 4 8 = .ok (cut req 4 8) := Rust.slice_ok (by omega) (by omega)
  have hchaddr : Rust.slice req 28 44 = .ok (cut req 28 44) := Rust.slice_ok (by omega) (by omega)
  have hxidlen : (cut req 4 8).length = 4 := length_cut (by omega)
  have hchlen : (cut req 28 44).length = 16 := length_cut (by omega)
  have hfill : Rust.fill out 0 240 0 = .ok (List.replicate 240 0 ++ rest) := by
    rw [Rust.fill_ok (by omega) (by omega), Rust.splice, List.take_zero, List.nil_append,
      List.length_replicate, hrest]
  have heach (z : Bytes) : Rust.writeEach ([0, 0, 0] ++ z) [(0, 2), (1, 1), (2, 6)] =
      .ok ([2, 1, 6] ++ z) := by
    simp [Rust.writeEach, Rust.write]
  -- the fields one after the other, each in the zeros the one before it left
  have hxidok : Rust.copyFrom ([2, 1, 6] ++ (List.replicate 237 0 ++ rest)) 4 8 (cut req 4 8) =
      .ok ([2, 1, 6, 0] ++ cut req 4 8 ++ (List.replicate 232 0 ++ rest)) :=
    Rust.copyFrom_block _ (List.replicate 4 0) _ rfl rfl rfl hxidlen
  generalize hpre : [2, 1, 6, 0] ++ cut req 4 8 = pre at hxidok
  have hprelen : pre.length = 8 := by
    rw [← hpre, List.length_append, hxidlen]
    rfl
  have hyiok := putYiaddr_ok hprelen hyi msgType rest
  have hyilen := length_yiaddr hyi msgType
  unfold replyHead
  generalize (if msgType ≠ dhcpNak then yiaddr else [0, 0, 0, 0]) = yi at *
  have hserver : Rust.copyFrom (pre ++ List.replicate 8 0 ++ yi ++ (List.replicate 220 0 ++ rest))
      20 24 serverIp =
        .ok (pre ++ List.replicate 8 0 ++ yi ++ serverIp ++ (List.replicate 216 0 ++ rest)) := by
    refine Rust.copyFrom_block _ (List.replicate 4 0) _ ?_ ?_ rfl rfl
    · rw [show (List.replicate 220 0 : Bytes) = List.replicate 4 0 ++ List.replicate 216 0 from rfl]
      simp only [List.append_assoc]
    · simp only [List.length_append, List.length_replicate, hprelen, hyilen]
  have hchok : Rust.copyFrom
      (pre ++ List.replicate 8 0 ++ yi ++ serverIp ++ (List.replicate 216 0 ++ rest)) 28 44
        (cut req 28 44) =
      .ok (pre ++ List.replicate 8 0 ++ yi ++ serverIp ++ List.replicate 4 0 ++ cut req 28 44 ++
        (List.replicate 196 0 ++ rest)) := by
    refine Rust.copyFrom_block _ (List.replicate 16 0) _ ?_ ?_ rfl hchlen
    · rw [show (List.replicate 216 0 : Bytes) =
        List.replicate 4 0 ++ (List.replicate 16 0 ++ List.replicate 196 0) from rfl]
      simp only [List.append_assoc]
    · simp only [List.length_append, List.length_replicate, hprelen, hyilen, List.length_cons,
        List.length_nil]
  have hmagic : Rust.copyFrom (pre ++ List.replicate 8 0 ++ yi ++ serverIp ++ List.replicate 4 0 ++
      cut req 28 44 ++ (List.replicate 196 0 ++ rest)) 236 240 dhcpMagic =
        .ok (pre ++ List.replicate 8 0 ++ yi ++ serverIp ++ List.replicate 4 0 ++ cut req 28 44 ++
          List.replicate 192 0 ++ dhcpMagic ++ rest) := by
    refine Rust.copyFrom_block _ (List.replicate 4 0) _ ?_ ?_ rfl rfl
    · have hz : (List.replicate 196 0 : Bytes) = List.replicate 192 0 ++ List.replicate 4 0 := by
        rw [List.replicate_append_replicate]
      rw [hz]
      simp only [List.append_assoc]
    · simp only [List.length_append, List.length_replicate, hprelen, hyilen, hchlen,
        List.length_cons, List.length_nil]
  have hz : (List.replicate 240 0 ++ rest : Bytes) =
      [0, 0, 0] ++ (List.replicate 237 0 ++ rest) := rfl
  unfold writeHead
  rw [hfill, Rust.ok_bind, hz, heach, Rust.ok_bind, hxid, Rust.ok_bind, hxidok, Rust.ok_bind, hyiok,
    Rust.ok_bind, hserver, Rust.ok_bind, hchaddr, Rust.ok_bind, hchok, Rust.ok_bind, hmagic, hpre]

theorem length_replyBody {req yiaddr : Bytes} (hreq : 240 ≤ req.length) (hyi : yiaddr.length = 4)
    (msgType : UInt8) :
    (replyBody req yiaddr msgType).length = if msgType ≠ dhcpNak then 327 else 250 := by
  rw [replyBody, List.length_append, List.length_append, length_replyHead hreq hyi,
    length_replyOptions]
  split
  · rfl
  · rfl

/-- **The reply**: head, options and end mark at the start of the buffer, and the rest as it was. -/
theorem writeOfferOrAck_eq {req out yiaddr : Bytes} (hout : Rust.Sized out)
    (hreq : 240 ≤ req.length) (hroom : 360 ≤ out.length) (hyi : yiaddr.length = 4)
    (msgType : UInt8) :
    writeOfferOrAck req out yiaddr msgType =
      .ok (some (max (replyBody req yiaddr msgType).length 300),
        replyBody req yiaddr msgType ++ out.drop (replyBody req yiaddr msgType).length) := by
  have hsize : out.length < 2 ^ 31 := hout
  have hheadlen := length_replyHead hreq hyi msgType
  have hoptions := length_replyOptions msgType
  have hlen : (replyHead req yiaddr msgType ++ out.drop 240).length = out.length := by
    rw [List.length_append, hheadlen, List.length_drop]
    omega
  have hshort : (encodeOptions (replyOptions msgType)).length ≤ 86 := by
    rw [hoptions]
    split <;> omega
  have hpush : pushAll 240 (replyHead req yiaddr msgType ++ out.drop 240)
      (replyOptions msgType) = _ :=
    pushAll_ok (by rw [Rust.Sized, hlen]; exact hout) (by omega)
  have hmark : Rust.splice (Rust.splice (replyHead req yiaddr msgType ++ out.drop 240) 240
      (encodeOptions (replyOptions msgType))) (240 + (encodeOptions (replyOptions msgType)).length)
        [255] = Rust.splice (replyHead req yiaddr msgType ++ out.drop 240) 240
          (encodeOptions (replyOptions msgType) ++ [255]) := Rust.splice_splice (by omega)
  have hpushlen : (Rust.splice (replyHead req yiaddr msgType ++ out.drop 240) 240
      (encodeOptions (replyOptions msgType))).length = out.length := by
    rw [Rust.length_splice (by omega), hlen]
  have hbodylen : (replyBody req yiaddr msgType).length =
      240 + (encodeOptions (replyOptions msgType) ++ [255]).length := by
    rw [replyBody, List.length_append, List.length_append, List.length_append, hheadlen]
    omega
  have hbuffer : Rust.splice (replyHead req yiaddr msgType ++ out.drop 240) 240
      (encodeOptions (replyOptions msgType) ++ [255]) =
        replyBody req yiaddr msgType ++ out.drop (replyBody req yiaddr msgType).length := by
    have hrest : (replyHead req yiaddr msgType ++ out.drop 240).drop
        (replyBody req yiaddr msgType).length = out.drop (replyBody req yiaddr msgType).length := by
      conv_lhs => rw [hbodylen, ← hheadlen, List.drop_length_add_append, List.drop_drop]
      rw [hbodylen, hheadlen]
    have hbody : replyHead req yiaddr msgType ++ (encodeOptions (replyOptions msgType) ++ [255]) =
        replyBody req yiaddr msgType := by rw [replyBody, List.append_assoc]
    rw [Rust.splice, ← hbodylen, List.take_left' hheadlen, hrest, hbody]
  unfold writeOfferOrAck
  rw [if_neg (by omega), writeHead_ok hreq hroom hyi, Rust.ok_bind, hpush, Rust.ok_bind]
  dsimp only
  rw [Rust.write_ok (by rw [hpushlen]; omega), Rust.ok_bind, Rust.set_eq_splice (by omega), hmark,
    Rust.add_ok (by omega), Rust.ok_bind, Rust.pure_eq, hbuffer, hbodylen, List.length_append,
    List.length_singleton, Nat.add_assoc]

theorem writeOfferOrAck_ok {req out yiaddr : Bytes} (hout : Rust.Sized out)
    (hreq : 240 ≤ req.length) (hroom : 360 ≤ out.length) (hyi : yiaddr.length = 4)
    (msgType : UInt8) :
    ∃ out', writeOfferOrAck req out yiaddr msgType =
        .ok (some (max (replyBody req yiaddr msgType).length 300), out') ∧
      out'.length = out.length ∧
      out'.take (replyBody req yiaddr msgType).length = replyBody req yiaddr msgType := by
  have hbody := length_replyBody hreq hyi msgType
  have hshort : (replyBody req yiaddr msgType).length ≤ 327 := by
    rw [hbody]
    split <;> omega
  refine ⟨_, writeOfferOrAck_eq hout hreq hroom hyi msgType, ?_, List.take_left⟩
  rw [List.length_append, List.length_drop]
  omega

end ScoreboardCtrl.Net
