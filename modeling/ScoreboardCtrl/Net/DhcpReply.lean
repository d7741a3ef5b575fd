import ScoreboardCtrl.Net.DhcpRun
import ScoreboardCtrl.Net.Options

/-!
# The DHCP reply as its reader sees it

* `writeOfferOrAck_sends` — what is sent: the reply to its end mark, and up to byte 300 what the
  buffer held before;
* `same_reply_iff` — two buffers give one reply, unless a NAK is shorter than its padding;
* `findOption_encoded` and `reply_decodes` — the options that `find_option` reads back from a reply
  are the ones it was written with.
-/

namespace ScoreboardCtrl.Net

open Lib (Rust)
open Lib.Dns

/-! ### What is sent -/

/-- Only the reply itself is written; the padding is what was there. -/
theorem writeOfferOrAck_sends {req out yiaddr : Bytes} (hout : Rust.Sized out)
    (hreq : 240 ≤ req.length) (hroom : 360 ≤ out.length) (hyi : yiaddr.length = 4)
    (msgType : UInt8) :
    ∃ out', writeOfferOrAck req out yiaddr msgType =
        .ok (some (max (replyBody req yiaddr msgType).length 300), out') ∧
      out'.length = out.length ∧
      out'.take (max (replyBody req yiaddr msgType).length 300) = replyBody req yiaddr msgType ++
        cut out (replyBody req yiaddr msgType).length
          (max (replyBody req yiaddr msgType).length 300) := by
  have hbody := length_replyBody hreq hyi msgType
  have hwrite := writeOfferOrAck_eq hout hreq hroom hyi msgType
  generalize replyBody req yiaddr msgType = body at *
  have hshort : body.length ≤ 327 := by
    rw [hbody]
    split <;> omega
  refine ⟨_, hwrite, ?_, ?_⟩
  · rw [List.length_append, List.length_drop]
    omega
  · rw [List.take_append, List.take_of_length_le (Nat.le_max_left _ _), List.take_drop, cut,
      Nat.add_sub_cancel' (Nat.le_max_left _ _)]

/-- Both calls return one length, and the bytes up to it are the same. -/
def SameReply (r₁ r₂ : Rust (Option ℕ × Bytes)) : Prop :=
  ∃ len out₁ out₂, r₁ = .ok (len, out₁) ∧ r₂ = .ok (len, out₂) ∧
    ∀ n, len = some n → out₁.take n = out₂.take n

theorem sameReply_iff {n₁ n₂ : ℕ} {out₁ out₂ : Bytes} :
    SameReply (.ok (some n₁, out₁)) (.ok (some n₂, out₂)) ↔
      n₁ = n₂ ∧ out₁.take n₁ = out₂.take n₂ := by
  constructor
  · rintro ⟨len, o₁, o₂, h₁, h₂, hsame⟩
    cases h₁
    cases h₂
    exact ⟨rfl, hsame n₁ rfl⟩
  · rintro ⟨rfl, hsame⟩
    refine ⟨_, _, _, rfl, rfl, fun n hn => ?_⟩
    cases hn
    exact hsame

/-- **A reply carries something of an earlier one** exactly when it is a NAK: its 250 bytes are padded
to 300 with what the buffer held. -/
theorem same_reply_iff {req out₁ out₂ yiaddr : Bytes} (h₁ : Rust.Sized out₁)
    (hlen : out₁.length = out₂.length) (hroom : 360 ≤ out₁.length) (hyi : yiaddr.length = 4)
    (msgType : UInt8) :
    SameReply (writeOfferOrAck req out₁ yiaddr msgType) (writeOfferOrAck req out₂ yiaddr msgType) ↔
      msgType ≠ dhcpNak ∨ req.length < 240 ∨ cut out₁ 250 300 = cut out₂ 250 300 := by
  by_cases hreq : req.length < 240
  · have hnone (out : Bytes) : writeOfferOrAck req out yiaddr msgType = .ok (none, out) :=
      if_pos (.inl hreq)
    rw [hnone, hnone]
    exact ⟨fun _ => .inr (.inl hreq), fun _ => ⟨none, out₁, out₂, rfl, rfl, by rintro _ ⟨⟩⟩⟩
  have h240 : 240 ≤ req.length := Nat.le_of_not_lt hreq
  have h₂ : Rust.Sized out₂ := by
    rw [Rust.Sized, ← hlen]
    exact h₁
  obtain ⟨out₁', hwrite₁, -, htake₁⟩ := writeOfferOrAck_sends h₁ h240 hroom hyi msgType
  obtain ⟨out₂', hwrite₂, -, htake₂⟩ :=
    writeOfferOrAck_sends h₂ h240 (hlen ▸ hroom) hyi msgType
  have hbody := length_replyBody h240 hyi msgType
  rw [hwrite₁, hwrite₂, sameReply_iff, htake₁, htake₂, List.append_cancel_left_eq, hbody]
  by_cases hnak : msgType = dhcpNak
  · simp [hnak, hreq]
  · -- the reply is longer than its padding
    simp [hnak, cut]

/-- The request of a client that asks for an address. -/
def askingFor (ip : Bytes) : Bytes :=
  clientDatagram [2, 0, 0, 0, 0, 1] [(53, [dhcpRequest]), (50, ip)]

/-- The buffers of the first reply and of a NAK after an OFFER. -/
theorem nak_carries_offer :
    ∃ offer, writeOfferOrAck (askingFor [10, 0, 0, 1]) (List.replicate 400 0) (address 0) dhcpOffer =
        .ok (some 327, offer) ∧
      ¬ SameReply
        (writeOfferOrAck (askingFor [10, 0, 0, 1]) (List.replicate 400 0) [0, 0, 0, 0] dhcpNak)
        (writeOfferOrAck (askingFor [10, 0, 0, 1]) offer [0, 0, 0, 0] dhcpNak) := by
  refine ⟨replyBody (askingFor [10, 0, 0, 1]) (address 0) dhcpOffer ++ List.replicate 73 0,
    by decide +kernel, ?_⟩
  rw [writeOfferOrAck_eq (by decide +kernel) (by decide +kernel) (by decide +kernel) rfl,
    writeOfferOrAck_eq (by decide +kernel) (by decide +kernel) (by decide +kernel) rfl, sameReply_iff]
  decide +kernel

/-- An ACK is the same whatever the buffer held. -/
theorem same_reply_iff_ack :
    SameReply
      (writeOfferOrAck (askingFor (address 0)) (List.replicate 400 0) (address 0) dhcpAck)
      (writeOfferOrAck (askingFor (address 0)) (List.replicate 400 7) (address 0) dhcpAck) :=
  (same_reply_iff (by decide +kernel) (by decide +kernel) (by decide +kernel) rfl dhcpAck).2
    (.inl (by decide))

/-! ### Reading the options back -/

/-- An option that `find_option` can read: it is not padding and no end mark, and its length is one
byte. -/
def Readable (o : UInt8 × Bytes) : Prop := o.1 ≠ 0 ∧ o.1 ≠ 255 ∧ o.2.length ≤ 255

theorem lookup_cons_ite (code c : UInt8) (data : Bytes) (options : List (UInt8 × Bytes)) :
    ((c, data) :: options).lookup code = if code = c then some data else options.lookup code := by
  by_cases h : code = c
  · rw [if_pos h, h, List.lookup_cons_self]
  · have hne : (code == c) = false := beq_false_of_ne h
    rw [if_neg h, List.lookup_cons, hne]

theorem exists_items {options : List (UInt8 × Bytes)} (h : ∀ o ∈ options, Readable o) :
    ∃ items : List DhcpItem, Lib.Tlv.encode items = encodeOptions options ∧
      ∀ code, Lib.Tlv.lookup code items = options.lookup code := by
  induction options with
  | nil => exact ⟨[], rfl, fun _ => rfl⟩
  | cons o options ih =>
    obtain ⟨c, data⟩ := o
    obtain ⟨⟨hc0, hc255, hdata⟩, hrest⟩ := List.forall_mem_cons.1 h
    obtain ⟨items, hencode, hlookup⟩ := ih hrest
    refine ⟨.value c data hc0 hc255 hdata :: items, ?_, fun code => ?_⟩
    · rw [Lib.Tlv.encode_cons, hencode]
      rfl
    · rw [lookup_cons_ite, Lib.Tlv.lookup, hlookup code]
      simp only [eq_comm]

/-- **The options round trip**: behind a head with the magic `find_option` reads what was encoded,
whatever follows the end mark. -/
theorem findOption_encoded {head post : Bytes} {options : List (UInt8 × Bytes)}
    (hhead : head.length = 240) (hmagic : cut head 236 240 = dhcpMagic)
    (hoptions : ∀ o ∈ options, Readable o)
    (hsize : Rust.Sized (head ++ (encodeOptions options ++ 255 :: post))) (code : UInt8) :
    findOption (head ++ (encodeOptions options ++ 255 :: post)) code =
      .ok (options.lookup code) := by
  obtain ⟨items, hencode, hlookup⟩ := exists_items hoptions
  have h240 : 240 ≤ (head ++ (encodeOptions options ++ 255 :: post)).length := by
    rw [List.length_append]
    omega
  have harea : (head ++ (encodeOptions options ++ 255 :: post)).drop 240 =
      Lib.Tlv.encode items ++ 255 :: post := by
    rw [hencode, ← hhead, List.drop_left]
  rw [findOption_eq_lookup hsize h240 (by rw [cut_append (by omega), hmagic])
    ⟨harea, .mark post⟩, hlookup]

theorem replyOptions_readable (msgType : UInt8) : ∀ o ∈ replyOptions msgType, Readable o := by
  unfold replyOptions Readable
  split
  · simp only [List.cons_append, List.nil_append, List.forall_mem_cons, List.length_singleton]
    decide +kernel
  · simp only [List.append_nil, List.forall_mem_cons, List.length_singleton]
    decide +kernel

/-- What a reply of the type says under a code. -/
def meant (msgType code : UInt8) : Option Bytes :=
  if code = 53 then some [msgType]
  else if code = 54 then some [192, 168, 0, 1]
  else if msgType = dhcpNak then none
  else if code = 1 then some [255, 255, 255, 0]
  else if code = 3 then some [192, 168, 0, 1]
  else if code = 6 then some [192, 168, 0, 1]
  else if code = 51 then some [0, 1, 81, 128]
  else if code = 28 then some [192, 168, 0, 255]
  else if code = 15 then some (Rust.byteStr "lan")
  else if code = 114 then some (Rust.byteStr "http://192.168.0.1/")
  else if code = 160 then some (Rust.byteStr "http://192.168.0.1/")
  else none

theorem lookup_replyOptions (msgType code : UInt8) :
    (replyOptions msgType).lookup code = meant msgType code := by
  unfold replyOptions meant
  by_cases hnak : msgType = dhcpNak
  · simp [lookup_cons_ite, hnak]
  · simp [lookup_cons_ite, hnak, captiveUri]

/-- **A reply decodes to what was meant.** -/
theorem reply_decodes {req out yiaddr : Bytes} (hout : Rust.Sized out) (hreq : 240 ≤ req.length)
    (hroom : 360 ≤ out.length) (hyi : yiaddr.length = 4) (msgType : UInt8) :
    ∃ len out', writeOfferOrAck req out yiaddr msgType = .ok (some len, out') ∧
      out'.length = out.length ∧ 300 ≤ len ∧ len ≤ out'.length ∧
      cut (out'.take len) 4 8 = cut req 4 8 ∧
      cut (out'.take len) 28 44 = cut req 28 44 ∧
      cut (out'.take len) 16 20 = (if msgType = dhcpNak then [0, 0, 0, 0] else yiaddr) ∧
      ∀ code, findOption (out'.take len) code = .ok (meant msgType code) := by
  obtain ⟨out', hwrite, hlen, htake⟩ := writeOfferOrAck_sends hout hreq hroom hyi msgType
  obtain ⟨hxid, hyiaddr, hchaddr, hmagic⟩ := cut_replyHead hreq hyi msgType
  have hhead := length_replyHead hreq hyi msgType
  have hbody := length_replyBody hreq hyi msgType
  have hshort : (replyBody req yiaddr msgType).length ≤ 327 := by
    rw [hbody]
    split <;> omega
  refine ⟨_, out', hwrite, hlen, Nat.le_max_right _ _, by omega, ?_⟩
  have hsize : Rust.Sized (out'.take (max (replyBody req yiaddr msgType).length 300)) := by
    rw [Rust.Sized, List.length_take]
    omega
  rw [htake] at hsize ⊢
  -- the head, the options, the end mark and the padding
  generalize cut out (replyBody req yiaddr msgType).length
    (max (replyBody req yiaddr msgType).length 300) = padding at *
  have hsent : replyBody req yiaddr msgType ++ padding = replyHead req yiaddr msgType ++
      (encodeOptions (replyOptions msgType) ++ 255 :: padding) := by simp [replyBody]
  rw [hsent] at hsize ⊢
  refine ⟨?_, ?_, ?_, fun code => ?_⟩
  · rw [cut_append (by omega), hxid]
  · rw [cut_append (by omega), hchaddr]
  · rw [cut_append (by omega), hyiaddr]
    exact ite_not _ _ _
  · rw [findOption_encoded hhead hmagic (replyOptions_readable msgType) hsize,
      lookup_replyOptions]

/-- A NAK in a buffer full of other bytes. -/
theorem reply_decodes_nak :
    ∃ len out', writeOfferOrAck (askingFor [10, 0, 0, 1]) (List.replicate 360 53) [0, 0, 0, 0] dhcpNak =
        .ok (some len, out') ∧
      cut (out'.take len) 16 20 = [0, 0, 0, 0] ∧
      ∀ code, findOption (out'.take len) code = .ok (meant dhcpNak code) := by
  have hout : Rust.Sized (List.replicate 360 (53 : UInt8)) := by decide +kernel
  obtain ⟨len, out', hwrite, -, -, -, -, -, hyiaddr, hoptions⟩ :=
    reply_decodes hout (show 240 ≤ (askingFor [10, 0, 0, 1]).length by decide +kernel)
      (by decide +kernel) (show [0, 0, 0, 0].length = 4 from rfl) dhcpNak
  exact ⟨len, out', hwrite, hyiaddr, hoptions⟩

end ScoreboardCtrl.Net
