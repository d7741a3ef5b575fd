import ScoreboardCtrl.Net.DhcpRun
import ScoreboardCtrl.Net.Slots

/-!
# What a DHCP message does to the leases, and what its answer says

* `dhcpRun_slotRun` — the leases of a run are those of `slotRun` for the clients that were handled;
* `unanswered_keeps_leases_iff` — a message without an answer leaves the leases alone, unless its type
  is one that `dhcp_task` does not know: the slot is assigned before the type is looked at;
* `ack_agrees_iff` — an ACK is for the address the client claims, unless the client claims it by
  `ciaddr`, which is not read.
-/

namespace ScoreboardCtrl.Net

open Lib (Rust)
open Lib.Dns

/-! ### The leases of a run -/

/-- **The leases of a run** are what the calls of `slot_for_mac` for its clients leave. -/
theorem dhcpRun_slotRun {ds : List Bytes} (h : ∀ d ∈ ds, d.length ≤ 600) :
    (dhcpRun ds).Returns fun s => s.Fits ∧
      ∃ slots, slotRun (handled ds) = .ok (slots, s.leases, s.leaseSeq) := by
  induction ds with
  | nil => exact .pure ⟨⟨rfl, List.length_replicate, List.length_replicate⟩, [], rfl⟩
  | cons d older ih =>
    obtain ⟨hd, holder⟩ := List.forall_mem_cons.1 h
    unfold dhcpRun
    refine .bind (ih holder) ?_
    intro s hs
    obtain ⟨hfits, slots, hslots⟩ := hs
    refine .bind (dhcpTurn_receive hfits hd) fun r hr => .pure ⟨hr.1, ?_⟩
    obtain ⟨-, hr⟩ := hr
    cases hclient : clientOf d with
    | none =>
      rw [hclient] at hr
      rw [handled, List.filterMap_cons_none hclient, hr.1, hr.2.1]
      exact ⟨slots, hslots⟩
    | some m =>
      rw [hclient] at hr
      obtain ⟨hleases, hseq, -⟩ := hr
      rw [handled, List.filterMap_cons_some hclient, hleases, hseq]
      exact ⟨_, slotRun_cons hslots hfits.leases m⟩

/-! ### Messages without an answer -/

theorem clientOf_eq_none_iff {d : Bytes} (hd : Rust.Sized d) :
    clientOf d = none ↔ d.length < 240 ∨ dhcpMsgType d = .ok none := by
  obtain ⟨msg, hmsg, -⟩ := dhcpMsgType_returns hd
  unfold clientOf
  rw [hmsg]
  by_cases h240 : 240 ≤ d.length
  · rw [if_pos h240]
    cases msg with
    | none => simp
    | some msg => simpa using h240
  · rw [if_neg h240]
    simp [Nat.lt_of_not_le h240]

theorem length_of_dhcpMsgType {d : Bytes} {msg : UInt8} (h : dhcpMsgType d = .ok (some msg)) :
    240 ≤ d.length := by
  by_contra hshort
  have hnone : findOption d 53 = .ok none := if_pos (Nat.lt_of_not_le hshort)
  rw [dhcpMsgType, hnone] at h
  cases h

/-- Every DISCOVER and every REQUEST has a reply, and nothing else has. -/
theorem replyType_eq_none_iff {req yi : Bytes} {msg : UInt8} {kind : Option UInt8}
    (h : replyType req msg yi = .ok kind) :
    kind = none ↔ msg ≠ dhcpDiscover ∧ msg ≠ dhcpRequest := by
  unfold replyType at h
  by_cases hdiscover : msg = dhcpDiscover
  · rw [if_pos hdiscover] at h
    cases h
    simp [hdiscover]
  rw [if_neg hdiscover] at h
  by_cases hrequest : msg = dhcpRequest
  · rw [if_pos hrequest] at h
    cases hwant : requestedIp req with
    | error e =>
      rw [hwant] at h
      cases h
    | ok want =>
      rw [hwant, Rust.ok_bind] at h
      cases want with
      | none =>
        cases h
        simp [hrequest]
      | some want =>
        cases h
        simp [hrequest]
  · rw [if_neg hrequest] at h
    cases h
    simp [hdiscover, hrequest]

/-- A message of another type has no answer, and its client gets its slot all the same. -/
theorem dhcpTurn_unanswered {s : Dhcp} (hs : s.Fits) {d : Bytes} (hd : d.length ≤ 600) {m : Mac}
    {msg : UInt8} (hclient : clientOf d = some m) (hmsg : dhcpMsgType d = .ok (some msg))
    (hother : msg ≠ dhcpDiscover ∧ msg ≠ dhcpRequest) :
    ∃ s', dhcpTurn (s.receive d) d.length = .ok (s', none) ∧
      s'.leases = s.leases.set (pickSlot s.leases m) ⟨m, s.leaseSeq + 1⟩ ∧
      s'.leaseSeq = s.leaseSeq + 1 := by
  obtain ⟨⟨s', answer⟩, hturn, -, hr⟩ := dhcpTurn_receive hs hd
  rw [hclient] at hr
  obtain ⟨hleases, hseq, msg', kind, hmsg', hkind, hanswer, -⟩ := hr
  obtain rfl : msg = msg' := Option.some.inj (Except.ok.inj (hmsg.symm.trans hmsg'))
  obtain rfl : kind = none := (replyType_eq_none_iff hkind).2 hother
  obtain rfl : answer = none := Option.map_eq_none_iff.1 hanswer
  exact ⟨s', hturn, hleases, hseq⟩

/-- **A message without an answer leaves the leases alone** exactly where it is malformed. -/
theorem unanswered_keeps_leases_iff {d : Bytes} {older : List Bytes}
    (h : ∀ x ∈ d :: older, x.length ≤ 600) :
    ∃ s s' answer, dhcpRun older = .ok s ∧ dhcpTurn (s.receive d) d.length = .ok (s', answer) ∧
      ((answer = none → s'.leases = s.leases ∧ s'.leaseSeq = s.leaseSeq) ↔
        d.length < 240 ∨ dhcpMsgType d = .ok none ∨ dhcpMsgType d = .ok (some dhcpDiscover) ∨
          dhcpMsgType d = .ok (some dhcpRequest)) := by
  obtain ⟨hd, holder⟩ := List.forall_mem_cons.1 h
  obtain ⟨s, hrun, hfits, -⟩ := dhcpRun_slotRun holder
  obtain ⟨⟨s', answer⟩, hturn, -, hr⟩ := dhcpTurn_receive hfits hd
  have hsized : Rust.Sized d := by
    rw [Rust.Sized]
    omega
  refine ⟨s, s', answer, hrun, hturn, ?_⟩
  cases hclient : clientOf d with
  | none =>
    -- malformed: the turn ends before the table is written
    rw [hclient] at hr
    obtain ⟨hleases, hseq, -⟩ : s'.leases = s.leases ∧ s'.leaseSeq = s.leaseSeq ∧ answer = none := hr
    have hcond := (clientOf_eq_none_iff hsized).1 hclient
    exact ⟨fun _ => by rcases hcond with hcond | hcond <;> simp [hcond], fun _ _ => ⟨hleases, hseq⟩⟩
  | some m =>
    rw [hclient] at hr
    obtain ⟨h240, -, -⟩ := clientOf_some hclient
    obtain ⟨-, hseq, msg, kind, hmsg, hkind, hanswer, -⟩ := hr
    have hkindnone := replyType_eq_none_iff hkind
    have hnone : answer = none ↔ msg ≠ dhcpDiscover ∧ msg ≠ dhcpRequest := by
      rw [← hkindnone, ← hanswer, Option.map_eq_none_iff]
    have hmoves : s'.leaseSeq ≠ s.leaseSeq := by
      intro heq
      have hsum : s.leaseSeq + 1 = s.leaseSeq := hseq.symm.trans heq
      simp at hsum
    rw [hnone, hmsg]
    constructor
    · intro hkeeps
      by_contra hcond
      have hother : msg ≠ dhcpDiscover ∧ msg ≠ dhcpRequest := by
        constructor
        · rintro rfl
          exact hcond (.inr (.inr (.inl rfl)))
        · rintro rfl
          exact hcond (.inr (.inr (.inr rfl)))
      exact hmoves (hkeeps hother).2
    · rintro hcond ⟨hdiscover, hrequest⟩
      rcases hcond with hshort | hcond | hcond | hcond
      · omega
      · cases hcond
      · exact absurd (Option.some.inj (Except.ok.inj hcond)) hdiscover
      · exact absurd (Option.some.inj (Except.ok.inj hcond)) hrequest

/-- Eight clients find the server, the oldest of them with the address ending in 1. -/
def eightClients : List Bytes :=
  [8, 7, 6, 5, 4, 3, 2, 1].map fun k => clientDatagram [2, 0, 0, 0, 0, k] [(53, [dhcpDiscover])]

/-- An INFORM. -/
def informFrom (mac : Mac) : Bytes := clientDatagram mac [(53, [8])]

/-- The INFORM of a ninth client takes the lease of the first one, and has no answer. -/
theorem inform_takes_a_lease :
    ∃ s s', dhcpRun eightClients = .ok s ∧
      dhcpTurn (s.receive (informFrom [2, 0, 0, 0, 0, 9])) (informFrom [2, 0, 0, 0, 0, 9]).length =
        .ok (s', none) ∧
      s.leases[0]? = some ⟨[2, 0, 0, 0, 0, 1], 1⟩ ∧ s'.leases[0]? = some ⟨[2, 0, 0, 0, 0, 9], 9⟩ := by
  obtain ⟨s, hrun, hfits, slots, hslots⟩ :=
    dhcpRun_slotRun (show ∀ d ∈ eightClients, d.length ≤ 600 by decide +kernel)
  have hhandled : handled eightClients = [8, 7, 6, 5, 4, 3, 2, 1].map fun k => [2, 0, 0, 0, 0, k] := by
    decide +kernel
  have htable : slotRun ([8, 7, 6, 5, 4, 3, 2, 1].map fun k => [2, 0, 0, 0, 0, k]) =
      .ok ([7, 6, 5, 4, 3, 2, 1, 0],
        [1, 2, 3, 4, 5, 6, 7, 8].map fun k : ℕ =>
          ⟨[2, 0, 0, 0, 0, UInt8.ofNat k], UInt32.ofNat k⟩, 8) := by
    decide +kernel
  rw [hhandled, htable] at hslots
  obtain ⟨-, hleases, hseq⟩ := by simpa only [Except.ok.injEq, Prod.mk.injEq] using hslots
  have hclient : clientOf (informFrom [2, 0, 0, 0, 0, 9]) = some [2, 0, 0, 0, 0, 9] := by
    decide +kernel
  have hmsg : dhcpMsgType (informFrom [2, 0, 0, 0, 0, 9]) = .ok (some 8) := by decide +kernel
  obtain ⟨s', hturn, hleases', -⟩ := dhcpTurn_unanswered hfits
    (show (informFrom [2, 0, 0, 0, 0, 9]).length ≤ 600 by decide +kernel) hclient hmsg (by decide)
  rw [← hleases, ← hseq] at hleases'
  exact ⟨s, s', hrun, hturn, by rw [← hleases]; rfl, by rw [hleases']; decide +kernel⟩

/-- An INFORM is the first datagram. -/
theorem unanswered_keeps_leases_iff_inform :
    ∃ s s' answer, dhcpRun [] = .ok s ∧
      dhcpTurn (s.receive (informFrom [2, 0, 0, 0, 0, 9])) (informFrom [2, 0, 0, 0, 0, 9]).length =
        .ok (s', answer) ∧
      ¬ (answer = none → s'.leases = s.leases ∧ s'.leaseSeq = s.leaseSeq) := by
  obtain ⟨s, s', answer, hrun, hturn, hiff⟩ :=
    unanswered_keeps_leases_iff
      (show ∀ x ∈ [informFrom [2, 0, 0, 0, 0, 9]], x.length ≤ 600 by decide +kernel)
  exact ⟨s, s', answer, hrun, hturn, fun hkeeps => absurd (hiff.1 hkeeps) (by decide +kernel)⟩

/-! ### What an ACK says -/

/-- The address a REQUEST is for: the one it asks for, and without that the one the client has. -/
def Claims (d ip : Bytes) : Prop :=
  requestedIp d = .ok (some ip) ∨
    requestedIp d = .ok none ∧ cut d 12 16 ≠ [0, 0, 0, 0] ∧ cut d 12 16 = ip

/-- An ACK is for the address that is claimed, and what is not the address of the slot is NAKed. -/
def Agrees (d reply slotIp : Bytes) : Prop :=
  ∀ ip, Claims d ip →
    (dhcpMsgType reply = .ok (some dhcpAck) → cut reply 16 20 = ip) ∧
      (ip ≠ slotIp → dhcpMsgType reply = .ok (some dhcpNak))

theorem agrees_of_requestedIp {d reply slotIp want : Bytes} {kind : UInt8} {mac : Mac}
    (hwant : requestedIp d = .ok (some want))
    (hkind : kind = if want ≠ slotIp then dhcpNak else dhcpAck)
    (hcarries : Carries reply kind (if kind ≠ dhcpNak then slotIp else [0, 0, 0, 0]) mac) :
    Agrees d reply slotIp := by
  rintro ip (hclaim | ⟨hclaim, -⟩)
  · obtain rfl : want = ip := Option.some.inj (Except.ok.inj (hwant.symm.trans hclaim))
    by_cases hne : want = slotIp
    · rw [if_neg (by simpa using hne)] at hkind
      subst hkind
      refine ⟨fun _ => ?_, fun h => absurd hne h⟩
      rw [hcarries.yiaddr, if_pos (by decide), hne]
    · rw [if_pos hne] at hkind
      subst hkind
      refine ⟨fun hack => ?_, fun _ => hcarries.kind⟩
      rw [hcarries.kind] at hack
      exact absurd hack (by decide)
  · rw [hwant] at hclaim
    cases hclaim

/-- The reply to a REQUEST that asks for no address is an ACK, whatever address the client has. -/
theorem agrees_iff_of_ciaddr {d reply slotIp : Bytes} {mac : Mac}
    (hwant : requestedIp d = .ok none) (hcarries : Carries reply dhcpAck slotIp mac) :
    Agrees d reply slotIp ↔ cut d 12 16 = [0, 0, 0, 0] ∨ cut d 12 16 = slotIp := by
  constructor
  · intro hagrees
    by_cases hzero : cut d 12 16 = [0, 0, 0, 0]
    · exact .inl hzero
    · have hip := (hagrees _ (.inr ⟨hwant, hzero, rfl⟩)).1 hcarries.kind
      exact .inr (hip.symm.trans hcarries.yiaddr)
  · rintro hciaddr ip (hclaim | ⟨-, hzero, rfl⟩)
    · rw [hwant] at hclaim
      cases hclaim
    · have hslot : cut d 12 16 = slotIp := hciaddr.resolve_left hzero
      exact ⟨fun _ => hcarries.yiaddr.trans hslot.symm, fun hne => absurd hslot hne⟩

/-- **An ACK agrees with the client** exactly where the client asks for the address by its option,
or has none, or has that of its slot. -/
theorem ack_agrees_iff {d : Bytes} {older : List Bytes} (h : ∀ x ∈ d :: older, x.length ≤ 600)
    (hmsg : dhcpMsgType d = .ok (some dhcpRequest)) :
    ∃ s reply, dhcpRun older = .ok s ∧ dhcpReply older d = .ok (some reply) ∧
      (Agrees d reply (address (pickSlot s.leases (cut d 28 34))) ↔
        (∃ ip, requestedIp d = .ok (some ip)) ∨ cut d 12 16 = [0, 0, 0, 0] ∨
          cut d 12 16 = address (pickSlot s.leases (cut d 28 34))) := by
  obtain ⟨hd, holder⟩ := List.forall_mem_cons.1 h
  obtain ⟨s, hrun, hfits, -⟩ := dhcpRun_slotRun holder
  obtain ⟨⟨s', answer⟩, hturn, -, hr⟩ := dhcpTurn_receive hfits hd
  have hclient : clientOf d = some (cut d 28 34) := by
    rw [clientOf, if_pos (length_of_dhcpMsgType hmsg), hmsg]
  rw [hclient] at hr
  obtain ⟨-, -, msg, kind, hmsg', hkind, hanswer, hcarries⟩ := hr
  obtain rfl : dhcpRequest = msg := Option.some.inj (Except.ok.inj (hmsg.symm.trans hmsg'))
  generalize hslot : address (pickSlot s.leases (cut d 28 34)) = slotIp at *
  rw [replyType, if_neg (by decide), if_pos rfl] at hkind
  have hsized : Rust.Sized d := by
    rw [Rust.Sized]
    omega
  obtain ⟨want, hwant, -⟩ := requestedIp_returns hsized
  rw [hwant, Rust.ok_bind] at hkind
  cases want with
  | some want =>
    obtain rfl : some (if want ≠ slotIp then dhcpNak else dhcpAck) = kind := Except.ok.inj hkind
    obtain ⟨answer, rfl, hanswerkind⟩ := Option.map_eq_some_iff.1 hanswer
    refine ⟨s, answer.reply, hrun, by rw [dhcpReply, hrun, Rust.ok_bind, hturn]; rfl, ?_⟩
    have hagrees := agrees_of_requestedIp hwant hanswerkind (hcarries answer rfl)
    rw [hslot]
    exact ⟨fun _ => .inl ⟨want, hwant⟩, fun _ => hagrees⟩
  | none =>
    obtain rfl : some dhcpAck = kind := Except.ok.inj hkind
    obtain ⟨answer, rfl, hanswerkind⟩ := Option.map_eq_some_iff.1 hanswer
    refine ⟨s, answer.reply, hrun, by rw [dhcpReply, hrun, Rust.ok_bind, hturn]; rfl, ?_⟩
    have hack := hcarries answer rfl
    rw [hanswerkind, if_pos (by decide)] at hack
    rw [hslot, agrees_iff_of_ciaddr hwant hack, hwant]
    simp

/-- A REQUEST without options but its type, from a client that has the address. -/
def renewal (mac : Mac) (ciaddr : Bytes) : Bytes :=
  List.replicate 12 0 ++ ciaddr ++ List.replicate 12 0 ++ mac ++ List.replicate 202 0 ++ dhcpMagic ++
    encodeOption (53, [dhcpRequest]) ++ [255]

/-- After a restart a client renews 192.168.0.12, and the ACK is for 192.168.0.10. -/
theorem renewal_is_acked_elsewhere :
    ∃ reply, dhcpReply [] (renewal [2, 0, 0, 0, 0, 3] [192, 168, 0, 12]) = .ok (some reply) ∧
      Claims (renewal [2, 0, 0, 0, 0, 3] [192, 168, 0, 12]) [192, 168, 0, 12] ∧
      dhcpMsgType reply = .ok (some dhcpAck) ∧ cut reply 16 20 = [192, 168, 0, 10] :=
  ⟨replyBody (renewal [2, 0, 0, 0, 0, 3] [192, 168, 0, 12]) (address 0) dhcpAck,
    by decide +kernel, .inr ⟨by decide +kernel, by decide +kernel, by decide +kernel⟩,
    by decide +kernel, by decide +kernel⟩

/-- The same for the address of the slot. -/
theorem ack_agrees_iff_renewal :
    ∃ s reply, dhcpRun [] = .ok s ∧
      dhcpReply [] (renewal [2, 0, 0, 0, 0, 3] [192, 168, 0, 10]) = .ok (some reply) ∧
      Agrees (renewal [2, 0, 0, 0, 0, 3] [192, 168, 0, 10]) reply
        (address (pickSlot s.leases [2, 0, 0, 0, 0, 3])) := by
  obtain ⟨s, reply, hrun, hreply, hiff⟩ :=
    ack_agrees_iff
      (show ∀ x ∈ [renewal [2, 0, 0, 0, 0, 3] [192, 168, 0, 10]], x.length ≤ 600 by decide +kernel)
      (by decide +kernel)
  obtain rfl : Dhcp.init = s := Except.ok.inj hrun
  exact ⟨Dhcp.init, reply, hrun, hreply, hiff.2 (.inr (.inr (by decide +kernel)))⟩

end ScoreboardCtrl.Net
