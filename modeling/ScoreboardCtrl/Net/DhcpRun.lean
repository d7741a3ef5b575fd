import ScoreboardCtrl.Net.Leases

/-!
# Runs of the DHCP server

* `dhcpTurn_returns` — `dhcpTurn` takes any datagram: it leaves the table alone, or it handles a
  client, and then it answers by `replyType` with a reply that `Carries` the type, the client and
  the address;
* `dhcpRun_tracks` — after any run the table `Tracks` the clients that were handled;
* `lease_is_kept` — a client keeps its address, and keeps it alone, while fewer than eight others
  are handled since its last datagram.
-/

namespace ScoreboardCtrl.Net

open Lib (Rust)
open Lib.Dns

/-! ### One turn -/

/-- The sizes of the buffers and the table. -/
structure Dhcp.Fits (s : Dhcp) : Prop where
  leases : s.leases.length = poolSize
  pkt : s.pkt.length = 600
  reply : s.reply.length = 400

/-- The address of a slot. -/
def address (slot : ℕ) : Bytes := [192, 168, 0, UInt8.ofNat (poolStart + slot)]

/-- The reply says its type, the address it gives and the client it is for. -/
structure Carries (reply : Bytes) (kind : UInt8) (yiaddr : Bytes) (mac : Mac) : Prop where
  kind : dhcpMsgType reply = .ok (some kind)
  yiaddr : cut reply 16 20 = yiaddr
  mac : cut reply 28 34 = mac

/-- The client of a datagram that gets as far as `slot_for_mac`. -/
def clientOf (d : Bytes) : Option Mac :=
  if 240 ≤ d.length then
    match dhcpMsgType d with
    | .ok (some _) => some (cut d 28 34)
    | _ => none
  else none

theorem dhcpMsgType_returns {packet : Bytes} (hpacket : Rust.Sized packet) :
    (dhcpMsgType packet).Returns fun _ => True :=
  .bind (findOption_returns hpacket) fun _ _ => .pure trivial

theorem requestedIp_returns {packet : Bytes} (hpacket : Rust.Sized packet) :
    (requestedIp packet).Returns fun _ => True :=
  .bind (findOption_returns hpacket) fun _ _ => .pure trivial

theorem replyType_returns {req yi : Bytes} (hreq : Rust.Sized req) (msg : UInt8) :
    (replyType req msg yi).Returns fun _ => True := by
  unfold replyType
  split
  · exact .pure trivial
  split
  · refine .bind (requestedIp_returns hreq) ?_
    intro want _
    cases want with
    | none => exact .pure trivial
    | some want => exact .pure trivial
  · exact .pure trivial

theorem offeredIp_ok {slot : ℕ} (h : slot < poolSize) : offeredIp slot = .ok (address slot) := by
  have h8 : slot < 8 := h
  have hsum : poolStart + slot < 256 := by
    show 10 + slot < 256
    omega
  exact if_pos hsum

theorem take_cut {q : Bytes} {lo k hi : ℕ} (h : lo + k ≤ hi) :
    (cut q lo hi).take k = cut q lo (lo + k) := by
  rw [cut, cut, List.take_drop, List.take_take, Nat.min_eq_left h]

theorem cut_replyHead {req yiaddr : Bytes} (hreq : 240 ≤ req.length) (hyi : yiaddr.length = 4)
    (kind : UInt8) :
    cut (replyHead req yiaddr kind) 4 8 = cut req 4 8 ∧
      cut (replyHead req yiaddr kind) 16 20 =
        (if kind ≠ dhcpNak then yiaddr else [0, 0, 0, 0]) ∧
      cut (replyHead req yiaddr kind) 28 44 = cut req 28 44 ∧
      cut (replyHead req yiaddr kind) 236 240 = dhcpMagic := by
  have hxid : (cut req 4 8).length = 4 := length_cut (by omega)
  have hchaddr : (cut req 28 44).length = 16 := length_cut (by omega)
  have hyilen := length_yiaddr hyi kind
  rw [replyHead]
  generalize (if kind ≠ dhcpNak then yiaddr else [0, 0, 0, 0]) = yi at *
  have hxidcut : cut ([2, 1, 6, 0] ++ cut req 4 8 ++ List.replicate 8 0) 4 8 = cut req 4 8 := by
    have hmiddle := cut_middle [2, 1, 6, 0] (cut req 4 8) (List.replicate 8 0)
    rw [hxid] at hmiddle
    exact hmiddle
  generalize hpre : [2, 1, 6, 0] ++ cut req 4 8 ++ List.replicate 8 0 = pre at *
  have hprelen : pre.length = 16 := by
    rw [← hpre]
    simp only [List.length_append, List.length_cons, List.length_nil, List.length_replicate, hxid]
  refine ⟨?_, ?_, ?_, ?_⟩
  · simp only [List.append_assoc]
    rw [cut_append (by omega), hxidcut]
  · have hmiddle := cut_middle pre yi
      (serverIp ++ List.replicate 4 0 ++ cut req 28 44 ++ List.replicate 192 0 ++ dhcpMagic)
    rw [hprelen, hyilen] at hmiddle
    simpa only [List.append_assoc] using hmiddle
  · have hmiddle := cut_middle (pre ++ yi ++ serverIp ++ List.replicate 4 0) (cut req 28 44)
      (List.replicate 192 0 ++ dhcpMagic)
    simp only [List.length_append, List.length_cons, List.length_nil, List.length_replicate, hprelen,
      hyilen, hchaddr] at hmiddle
    simpa only [List.append_assoc] using hmiddle
  · have hmiddle := cut_middle (pre ++ yi ++ serverIp ++ List.replicate 4 0 ++ cut req 28 44 ++
      List.replicate 192 0) dhcpMagic []
    simp only [List.length_append, List.length_cons, List.length_nil, List.length_replicate, hprelen,
      hyilen, hchaddr] at hmiddle
    simpa only [List.append_assoc, List.append_nil] using hmiddle

theorem carries_replyBody {req yiaddr reply : Bytes} {kind : UInt8} (hreq : 240 ≤ req.length)
    (hyi : yiaddr.length = 4) (hreply : Rust.Sized reply)
    (hbody : reply.take (replyBody req yiaddr kind).length = replyBody req yiaddr kind) :
    Carries reply kind (if kind ≠ dhcpNak then yiaddr else [0, 0, 0, 0]) (cut req 28 34) := by
  have hhead := length_replyHead hreq hyi kind
  obtain ⟨-, hyiaddr, hchaddr, hmagic⟩ := cut_replyHead hreq hyi kind
  -- the reply: its head, the option with the type, and more
  obtain ⟨more, hmore⟩ : ∃ more,
      reply = replyHead req yiaddr kind ++ ([53, 1, kind] ++ more) := by
    obtain ⟨options, hoptions⟩ : ∃ options,
        encodeOptions (replyOptions kind) = [53, 1, kind] ++ options := ⟨_, rfl⟩
    refine ⟨options ++ [255] ++ reply.drop (replyBody req yiaddr kind).length, ?_⟩
    conv_lhs => rw [← List.take_append_drop (replyBody req yiaddr kind).length reply, hbody]
    simp only [replyBody, hoptions, List.append_assoc]
  have hget (k : ℕ) : reply[240 + k]? = ([53, 1, kind] ++ more)[k]? := by
    rw [hmore, ← hhead, getElem?_length_add]
  have hlen : 243 ≤ reply.length := by
    rw [hmore, List.length_append, hhead, List.length_append]
    simp only [List.length_cons, List.length_nil]
    omega
  have hcut {lo hi : ℕ} (h : hi ≤ 240) : cut reply lo hi = cut (replyHead req yiaddr kind) lo hi := by
    rw [hmore, cut_append (by omega)]
  refine ⟨?_, ?_, ?_⟩
  · have hoption : OptionAt reply 53 240 (cut reply 242 243) :=
      .here (hget 0) (by decide) (by decide) (show reply[241]? = some 1 from hget 1) hlen
    have hvalue : (cut reply 242 243).head? = some kind := by
      rw [List.head?_eq_getElem?, getElem?_cut (by omega)]
      exact hget 2
    rw [dhcpMsgType, findOption_some hreply (by omega) (by rw [hcut (by omega), hmagic]) hoption,
      Rust.ok_bind, Rust.pure_eq, Option.bind_some, hvalue]
  · rw [hcut (by omega), hyiaddr]
  · rw [← take_cut (show 28 + 6 ≤ 44 by omega), hcut (by omega), hchaddr, take_cut (by omega)]

/-- `n` bytes of the buffer that are no datagram of a client change nothing. -/
theorem dhcpTurn_of_none {s : Dhcp} (hs : s.Fits) {n : ℕ} (hn : n ≤ 600)
    (h : clientOf (s.pkt.take n) = none) : dhcpTurn s n = .ok (s, none) := by
  have hpkt := hs.pkt
  have hlen : (s.pkt.take n).length = n := by rw [List.length_take, hpkt, Nat.min_eq_left hn]
  have hslice : Rust.slice s.pkt 0 n = .ok (s.pkt.take n) := by
    rw [Rust.slice_ok (Nat.zero_le _) (by omega), List.drop_zero]
  unfold dhcpTurn
  rw [hslice, Rust.ok_bind]
  generalize s.pkt.take n = req at *
  by_cases h240 : n < 240
  · rw [if_pos h240, Rust.pure_eq]
  rw [if_neg h240, Rust.slice_ok (by omega) (by omega), Rust.ok_bind]
  obtain ⟨msg, hmsg, -⟩ := dhcpMsgType_returns (show Rust.Sized req by rw [Rust.Sized, hlen]; omega)
  rw [hmsg, Rust.ok_bind]
  cases msg with
  | none => rfl
  | some msg =>
    rw [clientOf, if_pos (by omega), hmsg] at h
    cases h

/-- **A turn** for a client: it gets its slot, and a reply by its message. -/
theorem dhcpTurn_of_client {s : Dhcp} (hs : s.Fits) {n : ℕ} (hn : n ≤ 600) {msg : UInt8}
    (h240 : 240 ≤ (s.pkt.take n).length) (hmsg : dhcpMsgType (s.pkt.take n) = .ok (some msg)) :
    (dhcpTurn s n).Returns fun r => r.1.Fits ∧
      r.1.leases = s.leases.set (pickSlot s.leases (cut (s.pkt.take n) 28 34))
        ⟨cut (s.pkt.take n) 28 34, s.leaseSeq + 1⟩ ∧
      r.1.leaseSeq = s.leaseSeq + 1 ∧
      ∃ kind, replyType (s.pkt.take n) msg
          (address (pickSlot s.leases (cut (s.pkt.take n) 28 34))) = .ok kind ∧
        (r.2.map DhcpAnswer.kind = kind) ∧
        ∀ answer, r.2 = some answer → Carries answer.reply answer.kind
          (if answer.kind ≠ dhcpNak then address (pickSlot s.leases (cut (s.pkt.take n) 28 34))
            else [0, 0, 0, 0]) (cut (s.pkt.take n) 28 34) := by
  obtain ⟨hleases, hpkt, hreply⟩ := hs
  have h8 : s.leases.length = 8 := hleases
  have hlen : (s.pkt.take n).length = n := by rw [List.length_take, hpkt, Nat.min_eq_left hn]
  have hslice : Rust.slice s.pkt 0 n = .ok (s.pkt.take n) := by
    rw [Rust.slice_ok (Nat.zero_le _) (by omega), List.drop_zero]
  have hne : s.leases ≠ [] := by
    intro h
    rw [h] at h8
    cases h8
  unfold dhcpTurn
  rw [hslice, Rust.ok_bind]
  generalize s.pkt.take n = req at *
  have hsized : Rust.Sized req := by
    rw [Rust.Sized]
    omega
  have hmac : Rust.slice req 28 34 = .ok (cut req 28 34) := Rust.slice_ok (by omega) (by omega)
  generalize hmac' : cut req 28 34 = mac at *
  have hslot := pickSlot_lt hne mac
  generalize hpick : pickSlot s.leases mac = slot at *
  obtain ⟨kind, hkind, -⟩ : (replyType req msg (address slot)).Returns _ :=
    replyType_returns hsized msg
  rw [if_neg (by omega), hmac, Rust.ok_bind, hmsg, Rust.ok_bind]
  dsimp only
  rw [slotForMac_ok hne (by omega), Rust.ok_bind, hpick]
  dsimp only
  rw [offeredIp_ok (by omega), Rust.ok_bind, hkind, Rust.ok_bind]
  have hset : (s.leases.set slot ⟨mac, s.leaseSeq + 1⟩).length = poolSize := by
    rw [List.length_set, hleases]
  cases kind with
  | none => exact .pure ⟨⟨hset, hpkt, hreply⟩, rfl, rfl, none, rfl, rfl, by rintro _ ⟨⟩⟩
  | some kind =>
    have hyilen : (if kind = dhcpNak then [0, 0, 0, 0] else address slot).length = 4 := by
      split <;> rfl
    obtain ⟨reply', hwrite, hlen', hbody⟩ := writeOfferOrAck_ok
      (show Rust.Sized s.reply by rw [Rust.Sized, hreply]; decide) h240 (by omega) hyilen kind
    have hbodylen := length_replyBody h240 hyilen kind
    dsimp only
    rw [hwrite, Rust.ok_bind]
    dsimp only
    generalize hb : replyBody req (if kind = dhcpNak then [0, 0, 0, 0] else address slot) kind = body
      at *
    have hshort : body.length ≤ 327 := by
      rw [hbodylen]
      split <;> omega
    refine .bind (.slice (Nat.zero_le _) (by omega)) fun sent hsent => .pure ?_
    refine ⟨⟨hset, hpkt, hlen'.trans hreply⟩, rfl, rfl, some kind, rfl, rfl, ?_⟩
    rintro answer ⟨⟩
    rw [List.drop_zero] at hsent
    have hsentbody : sent.take body.length = body := by
      rw [hsent, List.take_take, Nat.min_eq_left (Nat.le_max_left _ _), hbody]
    have hsentsized : Rust.Sized sent := by
      rw [hsent, Rust.Sized, List.length_take]
      omega
    have hcarries := carries_replyBody h240 hyilen hsentsized (by rw [hb]; exact hsentbody)
    rw [hmac'] at hcarries
    dsimp only
    by_cases hnak : kind = dhcpNak
    · rw [if_neg (by simpa using hnak)] at hcarries ⊢
      exact hcarries
    · rw [if_pos hnak, if_neg hnak] at hcarries
      rw [if_pos hnak]
      exact hcarries

/-- **`dhcp_task` takes any datagram.** -/
theorem dhcpTurn_returns {s : Dhcp} (hs : s.Fits) {n : ℕ} (hn : n ≤ 600) :
    (dhcpTurn s n).Returns fun r => r.1.Fits := by
  cases hclient : clientOf (s.pkt.take n) with
  | none => exact ⟨_, dhcpTurn_of_none hs hn hclient, hs⟩
  | some mac =>
    unfold clientOf at hclient
    split at hclient
    · split at hclient
      · exact (dhcpTurn_of_client hs hn ‹_› ‹_›).mono fun r hr => hr.1
      · cases hclient
    · cases hclient

/-! ### Runs -/

/-- The state after the datagrams, the newest first. -/
def dhcpRun : List Bytes → Rust Dhcp
  | [] => pure Dhcp.init
  | d :: older => do
    let s ← dhcpRun older
    let (s, _) ← dhcpTurn (s.receive d) d.length
    return s

/-- The reply to `d` after the datagrams before it. -/
def dhcpReply (older : List Bytes) (d : Bytes) : Rust (Option Bytes) := do
  let s ← dhcpRun older
  let (_, answer) ← dhcpTurn (s.receive d) d.length
  return answer.map DhcpAnswer.reply

/-- The clients that were handled, the newest first. -/
def handled (ds : List Bytes) : List Mac := ds.filterMap clientOf

/-- Fewer than 2³² datagrams that fit the buffer, none from the hardware address zero. -/
structure Received (ds : List Bytes) : Prop where
  count : ds.length < 2 ^ 32
  fits : ∀ d ∈ ds, d.length ≤ 600
  nonzero : ∀ d ∈ ds, 240 ≤ d.length → cut d 28 34 ≠ Mac.zero

/-- The reply is an OFFER or an ACK of `ip` for the client `m`. -/
def Grants (reply : Bytes) (m : Mac) (ip : Bytes) : Prop :=
  (dhcpMsgType reply = .ok (some dhcpOffer) ∨ dhcpMsgType reply = .ok (some dhcpAck)) ∧
    cut reply 28 34 = m ∧ cut reply 16 20 = ip

theorem Received.tail {d : Bytes} {older : List Bytes} (h : Received (d :: older)) :
    Received older :=
  ⟨Nat.lt_of_succ_lt h.count, fun x hx => h.fits x (List.mem_cons_of_mem d hx),
    fun x hx => h.nonzero x (List.mem_cons_of_mem d hx)⟩

theorem take_receive (s : Dhcp) (d : Bytes) : (s.receive d).pkt.take d.length = d := by
  have htake : (Rust.splice s.pkt 0 d).take (0 + d.length) = s.pkt.take 0 ++ d :=
    Rust.take_splice (Nat.zero_le s.pkt.length)
  rw [Nat.zero_add, List.take_zero, List.nil_append] at htake
  exact htake

theorem Dhcp.Fits.receive {s : Dhcp} (hs : s.Fits) {d : Bytes} (hd : d.length ≤ 600) :
    (s.receive d).Fits := by
  refine ⟨hs.leases, ?_, hs.reply⟩
  have hpkt := hs.pkt
  show (Rust.splice s.pkt 0 d).length = 600
  rw [Rust.length_splice (by omega), hpkt]

theorem clientOf_some {d : Bytes} {m : Mac} (h : clientOf d = some m) :
    240 ≤ d.length ∧ cut d 28 34 = m ∧ ∃ msg, dhcpMsgType d = .ok (some msg) := by
  unfold clientOf at h
  split at h
  · split at h
    · exact ⟨‹_›, Option.some.inj h, _, ‹_›⟩
    · cases h
  · cases h

/-- What one more datagram does: nothing, or it handles its client. -/
theorem dhcpTurn_receive {s : Dhcp} (hs : s.Fits) {d : Bytes} (hd : d.length ≤ 600) :
    (dhcpTurn (s.receive d) d.length).Returns fun r => r.1.Fits ∧
      match clientOf d with
      | none => r.1.leases = s.leases ∧ r.1.leaseSeq = s.leaseSeq ∧ r.2 = none
      | some m => r.1.leases = s.leases.set (pickSlot s.leases m) ⟨m, s.leaseSeq + 1⟩ ∧
          r.1.leaseSeq = s.leaseSeq + 1 ∧
          ∃ msg kind, dhcpMsgType d = .ok (some msg) ∧
            replyType d msg (address (pickSlot s.leases m)) = .ok kind ∧
            r.2.map DhcpAnswer.kind = kind ∧
            ∀ answer, r.2 = some answer → Carries answer.reply answer.kind
              (if answer.kind ≠ dhcpNak then address (pickSlot s.leases m) else [0, 0, 0, 0]) m := by
  have hreq := take_receive s d
  have hfits := hs.receive hd
  cases hclient : clientOf d with
  | none =>
    exact ⟨_, dhcpTurn_of_none hfits hd (by rw [hreq, hclient]), hfits, rfl, rfl, rfl⟩
  | some m =>
    obtain ⟨h240, rfl, msg, hmsg⟩ := clientOf_some hclient
    have hturn := dhcpTurn_of_client hfits hd (by rw [hreq]; exact h240) (by rw [hreq]; exact hmsg)
    rw [hreq] at hturn
    refine hturn.mono ?_
    intro r hr
    obtain ⟨hfits', hleases, hseq, kind, hkind, hanswer, hcarries⟩ := hr
    exact ⟨hfits', hleases, hseq, msg, kind, hmsg, hkind, hanswer, hcarries⟩

/-- **The table follows the clients** over any run. -/
theorem dhcpRun_tracks {ds : List Bytes} (h : Received ds) :
    (dhcpRun ds).Returns fun s => s.Fits ∧ Tracks s.leases s.leaseSeq (handled ds) := by
  induction ds with
  | nil => exact .pure ⟨⟨rfl, List.length_replicate, List.length_replicate⟩, tracks_init⟩
  | cons d older ih =>
    unfold dhcpRun
    refine .bind (ih h.tail) ?_
    intro s hs
    obtain ⟨hfits, htracks⟩ := hs
    have hd := h.fits d List.mem_cons_self
    refine .bind (dhcpTurn_receive hfits hd) fun r hr => .pure ?_
    obtain ⟨hfits', hr⟩ := hr
    refine ⟨hfits', ?_⟩
    cases hclient : clientOf d with
    | none =>
      rw [hclient] at hr
      rw [handled, List.filterMap_cons_none hclient, hr.1, hr.2.1]
      exact htracks
    | some m =>
      rw [hclient] at hr
      obtain ⟨hleases, hseq, -⟩ := hr
      obtain ⟨h240, hmac, -⟩ := clientOf_some hclient
      rw [handled, List.filterMap_cons_some hclient, hleases, hseq]
      refine htracks.step (hmac ▸ h.nonzero d List.mem_cons_self h240) ?_
      have hle : (handled older).length ≤ older.length := List.length_filterMap_le _ _
      have hcount := h.count
      rw [List.length_cons] at hcount
      omega

/-! ### Leases -/

/-- Fewer than eight other clients were handled since the last datagram of `m`, after the
datagrams `ds` and after each of `later`. -/
def StaysRecent (m : Mac) (later ds : List Bytes) : Prop :=
  ∀ part, part <:+ later → (Lib.Lru.since m (handled (part ++ ds))).dedup.length < poolSize

/-- The client has the slot after the datagrams. -/
def Holds (ds : List Bytes) (m : Mac) (i : ℕ) : Prop :=
  ∃ s, dhcpRun ds = .ok s ∧ ∃ l, s.leases[i]? = some l ∧ l.mac = m

theorem toNat_address_byte {slot : ℕ} (h : slot < poolSize) :
    (UInt8.ofNat (poolStart + slot)).toNat = 10 + slot := by
  have h8 : slot < 8 := h
  rw [UInt8.toNat_ofNat']
  exact Nat.mod_eq_of_lt (by show 10 + slot < 256; omega)

theorem address_inj {i j : ℕ} (hi : i < poolSize) (hj : j < poolSize)
    (h : address i = address j) : i = j := by
  unfold address at h
  simp only [List.cons.injEq, true_and, and_true] at h
  have hbyte := congrArg UInt8.toNat h
  rw [toNat_address_byte hi, toNat_address_byte hj] at hbyte
  omega

theorem address_range {slot : ℕ} (h : slot < poolSize) :
    ∃ k : UInt8, 10 ≤ k ∧ k ≤ 17 ∧ address slot = [192, 168, 0, k] := by
  have h8 : slot < 8 := h
  have hbyte := toNat_address_byte h
  refine ⟨_, ?_, ?_, rfl⟩
  · rw [UInt8.le_iff_toNat_le, hbyte]
    exact Nat.le_add_right 10 slot
  · rw [UInt8.le_iff_toNat_le, hbyte]
    show 10 + slot ≤ 17
    omega

theorem Received.append {later ds : List Bytes} (h : Received (later ++ ds)) : Received ds := by
  induction later with
  | nil => exact h
  | cons _ later ih => exact ih h.tail

/-- A reply that gives an address is for the client of the datagram, which has the slot then. -/
theorem slot_of_grants {before : List Bytes} {d reply : Bytes} {m : Mac} {ip : Bytes}
    (h : Received (d :: before)) (hreply : dhcpReply before d = .ok (some reply))
    (hgrants : Grants reply m ip) :
    clientOf d = some m ∧ ∃ i < poolSize, ip = address i ∧ Holds (d :: before) m i ∧
      ∃ s, dhcpRun before = .ok s ∧ i = pickSlot s.leases m := by
  obtain ⟨s, hrun, hfits, htracks⟩ := dhcpRun_tracks h.tail
  obtain ⟨⟨s', answer⟩, hturn, -, hr⟩ := dhcpTurn_receive hfits (h.fits d List.mem_cons_self)
  have hanswer : answer.map DhcpAnswer.reply = some reply := by
    rw [dhcpReply, hrun, Rust.ok_bind, hturn] at hreply
    exact Except.ok.inj hreply
  have hnext : dhcpRun (d :: before) = .ok s' := by
    rw [dhcpRun, hrun, Rust.ok_bind, hturn]
    rfl
  cases hclient : clientOf d with
  | none =>
    rw [hclient] at hr
    obtain ⟨-, -, rfl⟩ : s'.leases = s.leases ∧ s'.leaseSeq = s.leaseSeq ∧ answer = none := hr
    cases hanswer
  | some c =>
    rw [hclient] at hr
    obtain ⟨hleases, -, msg, kind, -, -, -, hcarries⟩ := hr
    obtain ⟨answer, rfl, rfl⟩ := Option.map_eq_some_iff.1 hanswer
    obtain ⟨hkind, hyiaddr, hmac⟩ := hcarries answer rfl
    obtain ⟨htype, hm, hip⟩ := hgrants
    have hnak : answer.kind ≠ dhcpNak := by
      intro hnak
      rw [hkind, hnak] at htype
      rcases htype with htype | htype
      · exact absurd htype (by decide)
      · exact absurd htype (by decide)
    rw [if_pos hnak, hip] at hyiaddr
    obtain rfl : c = m := hmac.symm.trans hm
    have hlt := pickSlot_lt htracks.ne_nil c
    have hpool : s.leases.length = poolSize := hfits.leases
    have hholds : Holds (d :: before) c (pickSlot s.leases c) := by
      refine ⟨s', hnext, ⟨c, s.leaseSeq + 1⟩, ?_, rfl⟩
      dsimp only at hleases
      rw [hleases, List.getElem?_set_self hlt]
    exact ⟨rfl, pickSlot s.leases c, hpool ▸ hlt, hyiaddr, hholds, s, hrun, rfl⟩

/-- One more datagram takes the slot from no client that stays among the last eight. -/
theorem Holds.step {ds : List Bytes} {d : Bytes} {m : Mac} {i : ℕ} (hm : m ≠ Mac.zero)
    (h : Received (d :: ds)) (hholds : Holds ds m i)
    (hstays : m ∈ Lib.Lru.recent poolSize (handled (d :: ds))) : Holds (d :: ds) m i := by
  obtain ⟨s, hrun, hfits, htracks⟩ := dhcpRun_tracks h.tail
  obtain ⟨s₁, hrun₁, l, hl, hlm⟩ := hholds
  obtain rfl : s = s₁ := Except.ok.inj (hrun.symm.trans hrun₁)
  obtain ⟨⟨s', answer⟩, hturn, -, hr⟩ := dhcpTurn_receive hfits (h.fits d List.mem_cons_self)
  refine ⟨s', by rw [dhcpRun, hrun, Rust.ok_bind, hturn]; rfl, ?_⟩
  cases hclient : clientOf d with
  | none =>
    rw [hclient] at hr
    exact ⟨l, hr.1 ▸ hl, hlm⟩
  | some c =>
    rw [hclient] at hr
    obtain ⟨h240, hc, -⟩ := clientOf_some hclient
    have hne : c ≠ Mac.zero := hc ▸ h.nonzero d List.mem_cons_self h240
    rw [handled, List.filterMap_cons_some hclient] at hstays
    obtain ⟨l', hl', hlm'⟩ := htracks.slot_stays hne hl hlm hm hstays (s.leaseSeq + 1)
    exact ⟨l', hr.1 ▸ hl', hlm'⟩

/-- **A client keeps its slot** while it stays among the last eight. -/
theorem Holds.run {later ds : List Bytes} {m : Mac} {i : ℕ} (hm : m ≠ Mac.zero)
    (h : Received (later ++ ds)) (hholds : Holds ds m i)
    (hstays : ∀ part, part <:+ later → m ∈ Lib.Lru.recent poolSize (handled (part ++ ds))) :
    Holds (later ++ ds) m i := by
  induction later with
  | nil => exact hholds
  | cons d later ih =>
    have hbefore : Holds (later ++ ds) m i :=
      ih h.tail fun part hpart => hstays part (hpart.trans (List.suffix_cons d later))
    exact hbefore.step hm h (hstays (d :: later) (List.suffix_refl _))

theorem StaysRecent.mem_recent {m : Mac} {later ds : List Bytes} (h : StaysRecent m later ds)
    (hmem : m ∈ handled ds) (part : List Bytes) (hpart : part <:+ later) :
    m ∈ Lib.Lru.recent poolSize (handled (part ++ ds)) := by
  refine Lib.Lru.mem_recent.2 ⟨?_, h part hpart⟩
  rw [handled, List.filterMap_append]
  exact List.mem_append_right _ hmem

/-- The reply to a client that asks for the address of its own slot. -/
theorem ack_of_holds {before : List Bytes} {d : Bytes} {m : Mac} {i : ℕ} (hm : m ≠ Mac.zero)
    (h : Received (d :: before)) (hholds : Holds before m i)
    (h240 : 240 ≤ d.length) (hmac : cut d 28 34 = m)
    (hmsg : dhcpMsgType d = .ok (some dhcpRequest))
    (hwant : requestedIp d = .ok (some (address i))) :
    ∃ reply, dhcpReply before d = .ok (some reply) ∧
      dhcpMsgType reply = .ok (some dhcpAck) ∧ Grants reply m (address i) := by
  obtain ⟨s, hrun, hfits, htracks⟩ := dhcpRun_tracks h.tail
  obtain ⟨s₁, hrun₁, l, hl, hlm⟩ := hholds
  obtain rfl : s = s₁ := Except.ok.inj (hrun.symm.trans hrun₁)
  have hpick : pickSlot s.leases m = i := htracks.pickSlot_eq hl hlm hm
  have hclient : clientOf d = some m := by rw [clientOf, if_pos h240, hmsg, hmac]
  obtain ⟨⟨s', answer⟩, hturn, -, hr⟩ := dhcpTurn_receive hfits (h.fits d List.mem_cons_self)
  rw [hclient] at hr
  obtain ⟨-, -, msg, kind, hmsg', hkind, hanswer, hcarries⟩ := hr
  dsimp only at hanswer hcarries
  obtain rfl : dhcpRequest = msg := by
    rw [hmsg] at hmsg'
    exact Option.some.inj (Except.ok.inj hmsg')
  have hack : replyType d dhcpRequest (address i) = .ok (some dhcpAck) := by
    rw [replyType, if_neg (by decide), if_pos rfl, hwant, Rust.ok_bind]
    simp
  rw [hpick, hack] at hkind
  obtain rfl : some dhcpAck = kind := Except.ok.inj hkind
  obtain ⟨answer, rfl, hanswerkind⟩ := Option.map_eq_some_iff.1 hanswer
  obtain ⟨htype, hyiaddr, hchaddr⟩ := hcarries answer rfl
  rw [hanswerkind] at htype hyiaddr
  rw [if_pos (by decide), hpick] at hyiaddr
  refine ⟨answer.reply, ?_, htype, .inr htype, hchaddr, hyiaddr⟩
  rw [dhcpReply, hrun, Rust.ok_bind, hturn]
  rfl

/-- **Leases over whole runs.** Every address that is granted is one of the pool and goes to the
client that asks. A client that was granted one keeps it, has its REQUEST for it ACKed, and keeps it
alone, while it `StaysRecent`. -/
theorem lease_is_kept {d : Bytes} {before : List Bytes} (h : Received (d :: before)) :
    (∀ reply m ip, dhcpReply before d = .ok (some reply) → Grants reply m ip →
      cut d 28 34 = m ∧ ∃ k : UInt8, 10 ≤ k ∧ k ≤ 17 ∧ ip = [192, 168, 0, k]) ∧
    ∀ later d₀ older reply₀ m ip, before = later ++ d₀ :: older →
      dhcpReply older d₀ = .ok (some reply₀) → Grants reply₀ m ip →
      StaysRecent m (d :: later) (d₀ :: older) →
      (∀ reply ip', dhcpReply before d = .ok (some reply) → Grants reply m ip' → ip' = ip) ∧
      (240 ≤ d.length → cut d 28 34 = m → dhcpMsgType d = .ok (some dhcpRequest) →
        requestedIp d = .ok (some ip) →
        ∃ reply, dhcpReply before d = .ok (some reply) ∧
          dhcpMsgType reply = .ok (some dhcpAck) ∧ Grants reply m ip) ∧
      (∀ reply m' ip', dhcpReply before d = .ok (some reply) → Grants reply m' ip' → m' ≠ m →
        ip' ≠ ip) := by
  constructor
  · intro reply m ip hreply hgrants
    obtain ⟨hclient, i, hi, rfl, -⟩ := slot_of_grants h hreply hgrants
    obtain ⟨-, hmac, -⟩ := clientOf_some hclient
    exact ⟨hmac, address_range hi⟩
  · rintro later d₀ older reply₀ m ip rfl hreply₀ hgrants₀ hstays
    have hbefore₀ : Received (d₀ :: older) := h.tail.append
    obtain ⟨hclient₀, i, hi, rfl, hholds₀, -⟩ := slot_of_grants hbefore₀ hreply₀ hgrants₀
    obtain ⟨h240₀, hmac₀, -⟩ := clientOf_some hclient₀
    have hm : m ≠ Mac.zero := hmac₀ ▸ hbefore₀.nonzero d₀ List.mem_cons_self h240₀
    have hmem : m ∈ handled (d₀ :: older) := by
      rw [handled, List.filterMap_cons_some hclient₀]
      exact List.mem_cons_self
    have hrecent := hstays.mem_recent hmem
    have hholds : Holds (later ++ d₀ :: older) m i :=
      hholds₀.run hm h.tail fun part hpart =>
        hrecent part (hpart.trans (List.suffix_cons d later))
    refine ⟨?_, ?_, ?_⟩
    · intro reply ip' hreply hgrants
      obtain ⟨-, j, -, rfl, -, s, hrun, rfl⟩ := slot_of_grants h hreply hgrants
      obtain ⟨s', hrun', hfits, htracks⟩ := dhcpRun_tracks h.tail
      obtain ⟨s'', hrun'', l, hl, hlm⟩ := hholds
      obtain rfl : s' = s := Except.ok.inj (hrun'.symm.trans hrun)
      obtain rfl : s' = s'' := Except.ok.inj (hrun'.symm.trans hrun'')
      rw [htracks.pickSlot_eq hl hlm hm]
    · intro h240 hmac hmsg hwant
      exact ack_of_holds hm h hholds h240 hmac hmsg hwant
    · -- both have the slot after `d`
      intro reply m' ip' hreply hgrants hne
      obtain ⟨-, j, hj, rfl, ⟨s, hrun, l, hl, hlm⟩, -⟩ := slot_of_grants h hreply hgrants
      obtain ⟨s', hrun', l', hl', hlm'⟩ : Holds (d :: (later ++ d₀ :: older)) m i :=
        hholds.step hm h (hrecent (d :: later) (List.suffix_refl _))
      obtain rfl : s = s' := Except.ok.inj (hrun.symm.trans hrun')
      intro haddress
      obtain rfl := address_inj hj hi haddress
      rw [hl] at hl'
      obtain rfl := Option.some.inj hl'
      exact hne (hlm.symm.trans hlm')

/-- A datagram of the client with the options, to the end mark. -/
def clientDatagram (mac : Mac) (options : List (UInt8 × Bytes)) : Bytes :=
  List.replicate 28 0 ++ mac ++ List.replicate 202 0 ++ dhcpMagic ++ encodeOptions options ++ [255]

/-- Two clients find the server, and the first then asks for what it was offered. -/
theorem lease_is_kept_two_clients :
    ∃ reply,
      dhcpReply [clientDatagram [2, 0, 0, 0, 0, 2] [(53, [dhcpDiscover])],
          clientDatagram [2, 0, 0, 0, 0, 1] [(53, [dhcpDiscover])]]
        (clientDatagram [2, 0, 0, 0, 0, 1] [(53, [dhcpRequest]), (50, [192, 168, 0, 10])]) =
          .ok (some reply) ∧
      dhcpMsgType reply = .ok (some dhcpAck) ∧
      Grants reply [2, 0, 0, 0, 0, 1] [192, 168, 0, 10] := by
  have hreceived : Received
      [clientDatagram [2, 0, 0, 0, 0, 1] [(53, [dhcpRequest]), (50, [192, 168, 0, 10])],
        clientDatagram [2, 0, 0, 0, 0, 2] [(53, [dhcpDiscover])],
        clientDatagram [2, 0, 0, 0, 0, 1] [(53, [dhcpDiscover])]] :=
    ⟨by decide +kernel, by decide +kernel, by decide +kernel⟩
  refine ((lease_is_kept hreceived).2 [clientDatagram [2, 0, 0, 0, 0, 2] [(53, [dhcpDiscover])]]
    (clientDatagram [2, 0, 0, 0, 0, 1] [(53, [dhcpDiscover])]) []
    (replyBody (clientDatagram [2, 0, 0, 0, 0, 1] [(53, [dhcpDiscover])]) (address 0) dhcpOffer)
    [2, 0, 0, 0, 0, 1] [192, 168, 0, 10] rfl (by decide +kernel)
    ⟨.inl (by decide +kernel), by decide +kernel, by decide +kernel⟩ ?_).2.1
    (by decide +kernel) (by decide +kernel) (by decide +kernel) (by decide +kernel)
  intro part hpart
  rcases List.suffix_cons_iff.1 hpart with rfl | hpart
  · decide +kernel
  rcases List.suffix_cons_iff.1 hpart with rfl | hpart
  · decide +kernel
  · obtain rfl := List.suffix_nil.1 hpart
    decide +kernel

end ScoreboardCtrl.Net
