import ScoreboardCtrl.Net.Dns

/-!
# What resolvers get from the DNS hijack

* `dns_hijack_round_trip` — the reply to a query of one question, read by an RFC 1035 parser;
* `dns_reply_unanswered_iff` — a reply is itself a packet with a complete question, so it is
  answered in turn, and with the same bytes: `dnsTurn_echo`.
-/

namespace ScoreboardCtrl.Net

open Lib (Rust)
open Lib.Dns

/-! ### Queries of one question -/

/-- A query of one question, and whatever follows the question. -/
structure Query where
  id : UInt16
  flags : UInt16
  ancount : UInt16
  nscount : UInt16
  arcount : UInt16
  name : Name
  qtype : UInt16
  qclass : UInt16
  trailing : Bytes
  deriving DecidableEq, Repr

namespace Query

def header (m : Query) : Bytes :=
  u16 m.id ++ u16 m.flags ++ u16 1 ++ u16 m.ancount ++ u16 m.nscount ++ u16 m.arcount

/-- The packet. -/
def encode (m : Query) : Bytes :=
  m.header ++ encodeName m.name ++ (u16 m.qtype ++ u16 m.qclass ++ m.trailing)

/-- An `A` query for `a.com` with an EDNS record behind it. -/
def aCom : Query :=
  ⟨0x1234, 0x0100, 0, 0, 1, [[97], [99, 111, 109]], 1, 1, [0, 0, 41, 2, 0, 0, 0, 0, 0, 0, 0]⟩

end Query

/-! ### A reply is a question -/

section Echo

variable {q : Bytes} {e : ℕ}

/-- The reply: twelve bytes, the question of `q` and what may follow. -/
theorem replyBytes_shape (q : Bytes) (e room : ℕ) :
    ∃ an tail, replyBytes q e room = replyHeader q an ++ cut q 12 (e + 4) ++ tail := by
  unfold replyBytes
  split
  · exact ⟨1, aRecord, rfl⟩
  · exact ⟨0, [], by rw [List.append_nil]⟩

theorem getElem?_reply (h : Asks q e) (an : UInt8) (tail : Bytes) {j : ℕ} (hj : 12 ≤ j)
    (hje : j < e + 4) : (replyHeader q an ++ cut q 12 (e + 4) ++ tail)[j]? = q[j]? := by
  have hlt := h.lt
  have hle := h.le
  have hhead := length_replyHeader (show 12 ≤ q.length by omega) an
  have hcut : (cut q 12 (e + 4)).length = e + 4 - 12 := length_cut hle
  obtain ⟨k, rfl⟩ := Nat.exists_eq_add_of_le hj
  have hindex := getElem?_length_add (replyHeader q an) (cut q 12 (e + 4) ++ tail) k
  rw [hhead] at hindex
  rw [List.append_assoc, hindex, List.getElem?_append_left (by omega), getElem?_cut hje]

theorem Asks.reply (h : Asks q e) (room : ℕ) : Asks (replyBytes q e room) e := by
  have hlt := h.lt
  have hle := h.le
  obtain ⟨an, tail, hshape⟩ := replyBytes_shape q e room
  rw [hshape]
  refine ⟨h.name.congr fun j hj hje => getElem?_reply h an tail hj (by omega), ?_⟩
  rw [List.length_append, List.length_append, length_replyHeader (by omega), length_cut hle]
  omega

/-- The reply to a reply is that reply. -/
theorem replyBytes_reply (h : Asks q e) (room : ℕ) :
    replyBytes (replyBytes q e room) e room = replyBytes q e room := by
  have hlt := h.lt
  have hle := h.le
  obtain ⟨an, tail, hshape⟩ := replyBytes_shape q e room
  have hhead : replyHeader (replyBytes q e room) = replyHeader q := by
    obtain ⟨b₀, b₁, b₂, b₃, b₄, b₅, b₆, b₇, b₈, b₉, b₁₀, b₁₁, t, rfl⟩ :=
      exists_header (show 12 ≤ q.length by omega)
    rw [hshape]
    funext an'
    simp [replyHeader, cut]
  have hquestion : cut (replyBytes q e room) 12 (e + 4) = cut q 12 (e + 4) := by
    have hmiddle := cut_middle (replyHeader q an) (cut q 12 (e + 4)) tail
    rw [length_replyHeader (by omega), length_cut hle,
      show 12 + (e + 4 - 12) = e + 4 by omega] at hmiddle
    rw [hshape, hmiddle]
  have hqtype : qtypeAt (replyBytes q e room) e = qtypeAt q e := by
    rw [hshape]
    simp only [qtypeAt, List.getD_eq_getElem?_getD]
    rw [getElem?_reply h an tail (by omega) (by omega),
      getElem?_reply h an tail (by omega) (by omega)]
  generalize hr : replyBytes q e room = r at hhead hquestion hqtype
  rw [replyBytes, hhead, hquestion, hqtype]
  exact hr

end Echo

/-- **A reply is answered in turn.** For buffers of one length: the reply to `p` gets no reply of
its own exactly when there is no reply to `p`, its first `n` bytes not being a header and a complete
question that the buffer holds. -/
theorem dns_reply_unanswered_iff {p out out₂ : Bytes} {n : ℕ} (hp : Rust.Sized p)
    (hout : Rust.Sized out) (hout₂ : out₂.length = out.length) :
    (∀ len out', buildDnsReply p n out = .ok (some len, out') →
        buildDnsReply (out'.take len) len out₂ = .ok (none, out₂)) ↔
      ¬ ∃ e, 12 ≤ n ∧ n ≤ p.length ∧ skipName (p.take n) 12 = .ok (some e) ∧ e + 4 ≤ n ∧
        e + 4 ≤ out.length := by
  have hp' : p.length < 2 ^ 31 := hp
  have hout' : out.length < 2 ^ 31 := hout
  have hsized : Rust.Sized (p.take n) := by
    rw [Rust.Sized, List.length_take]
    omega
  obtain ⟨r, hskip, hr⟩ := skipName_returns hsized 12
  constructor
  · rintro hnone ⟨e, -, hn, hname, hle, hroom⟩
    obtain rfl : r = some e := by
      rw [hskip] at hname
      cases hname
      rfl
    have hlen : (p.take n).length = n := by rw [List.length_take, Nat.min_eq_left hn]
    have hasks : Asks (p.take n) e := ⟨(hr e).1 rfl, by omega⟩
    obtain ⟨out', hreply, hlen', htake⟩ := buildDnsReply_of_asks hp hout hn hasks hroom
    have hquiet := hnone _ _ hreply
    rw [htake] at hquiet
    have hagain := hasks.reply out.length
    have hsize : Rust.Sized (replyBytes (p.take n) e out.length) := by
      have := congrArg List.length htake
      rw [List.length_take] at this
      rw [Rust.Sized]
      omega
    obtain ⟨out'', hreply', -⟩ := buildDnsReply_of_asks hsize (show Rust.Sized out₂ by
      rw [Rust.Sized, hout₂]; exact hout') (Nat.le_refl _) (by rw [List.take_length]; exact hagain)
      (by rw [hout₂]; exact hroom)
    rw [hquiet] at hreply'
    cases hreply'
  · intro hnot len out' hreply
    obtain ⟨hlen, hreply'⟩ := (buildDnsReply_returns hp hout).post hreply
    obtain ⟨e, hn, hasks, hroom, -⟩ := hreply' len rfl
    have hlt := hasks.lt
    have hle := hasks.le
    rw [List.length_take, Nat.min_eq_left hn] at hle
    have hname := (hr e).2 hasks.name
    exact absurd ⟨e, by omega, hn, by rw [hskip, hname], hle, hroom⟩ hnot

theorem dns_reply_unanswered_iff_aCom :
    ¬ ∀ len out', buildDnsReply Query.aCom.encode 34 (List.replicate 512 0) = .ok (some len, out') →
      buildDnsReply (out'.take len) len (List.replicate 512 1) = .ok (none, List.replicate 512 1) := by
  intro hquiet
  refine (dns_reply_unanswered_iff ?_ ?_ ?_).1 hquiet ⟨19, ?_⟩
  all_goals decide +kernel

/-- The reply to the query for `a.com`, sent back, gets that reply again. -/
theorem dns_reply_is_answered :
    ¬ ∀ (p out out₂ : Bytes) (n len : ℕ) (out' : Bytes), out.length = 512 → out₂.length = 512 →
      buildDnsReply p n out = .ok (some len, out') →
      buildDnsReply (out'.take len) len out₂ = .ok (none, out₂) := by
  intro h
  have hreply : buildDnsReply Query.aCom.encode 34 (List.replicate 512 0) =
      .ok (some 39, replyBytes Query.aCom.encode 19 512 ++ List.replicate 473 0) := by decide +kernel
  have hquiet := h Query.aCom.encode (List.replicate 512 0) (List.replicate 512 0) 34 39 _
    List.length_replicate List.length_replicate hreply
  exact absurd hquiet (by decide +kernel)

/-- The exchange goes on: `dns_task` answers its own answer with the same bytes, whatever the
buffer held behind them. -/
theorem dnsTurn_echo {pkt reply leftover : Bytes} {n : ℕ} (hpkt : Rust.Sized pkt)
    (hsized : Rust.Sized (reply ++ leftover))
    (h : (dnsTurn pkt n).Returns fun r => r.map DnsAnswer.reply = some reply) :
    (dnsTurn (reply ++ leftover) reply.length).Returns fun r =>
      r.map DnsAnswer.reply = some reply := by
  obtain ⟨r, hturn, hr⟩ := dnsTurn_returns hpkt n
  obtain ⟨e, -, hasks, hroom, rfl⟩ := (hr reply).1 (h.post hturn)
  refine (dnsTurn_returns hsized _).mono fun r hr => (hr _).2 ⟨e, ?_⟩
  rw [List.take_left, replyBytes_reply hasks]
  refine ⟨?_, hasks.reply 512, hroom, rfl⟩
  rw [List.length_append]
  omega

/-! ### The round trip -/

namespace Query

variable (m : Query)

/-- Where the name of the question ends. -/
def nameEnd : ℕ := 12 + (encodeName m.name).length

theorem length_header : m.header.length = 12 := rfl

theorem length_name : (m.header ++ encodeName m.name).length = m.nameEnd := by
  rw [List.length_append]
  rfl

theorem asks (hname : m.name.Valid) : Asks m.encode m.nameEnd := by
  refine ⟨.of_inPlace (inPlace_encode hname m.header _), ?_⟩
  rw [encode, List.length_append, length_name]
  simp only [u16, List.length_append, List.length_cons, List.length_nil]
  omega

theorem qtypeAt_encode : qtypeAt m.encode m.nameEnd = m.qtype.toNat := by
  have h₀ := getElem?_length_add (m.header ++ encodeName m.name)
    (u16 m.qtype ++ u16 m.qclass ++ m.trailing) 0
  have h₁ := getElem?_length_add (m.header ++ encodeName m.name)
    (u16 m.qtype ++ u16 m.qclass ++ m.trailing) 1
  rw [length_name] at h₀ h₁
  rw [qtypeAt, encode, List.getD_eq_getElem?_getD, List.getD_eq_getElem?_getD, h₁,
    ← Nat.add_zero m.nameEnd, h₀]
  exact u16_toNat m.qtype

end Query

/-- The header of a reply with `an` answers. -/
def answerHeader (id : UInt16) (an : UInt8) : Bytes := u16 id ++ [0x81, 0x80, 0, 1, 0, an, 0, 0, 0, 0]

theorem Query.reply (m : Query) (hlen : (encodeName m.name).length ≤ 255) :
    replyBytes m.encode m.nameEnd 512 =
      answerHeader m.id (if m.qtype = 1 then 1 else 0) ++ encodeName m.name ++
        (u16 m.qtype ++ u16 m.qclass ++ if m.qtype = 1 then aRecord else []) := by
  have hhead (an : UInt8) : replyHeader m.encode an = answerHeader m.id an := by
    simp [replyHeader, encode, header, answerHeader, u16, cut]
  have hquestion : cut m.encode 12 (m.nameEnd + 4) =
      encodeName m.name ++ (u16 m.qtype ++ u16 m.qclass) := by
    have hmiddle := cut_middle m.header (encodeName m.name ++ (u16 m.qtype ++ u16 m.qclass))
      m.trailing
    have hlen' : (encodeName m.name ++ (u16 m.qtype ++ u16 m.qclass)).length =
        (encodeName m.name).length + 4 := by simp [u16]
    rw [hlen', length_header, ← Nat.add_assoc] at hmiddle
    rw [encode]
    simpa only [nameEnd, List.append_assoc] using hmiddle
  have hqtype : m.qtype.toNat = 1 ↔ m.qtype = 1 := UInt16.toNat_inj (b := 1)
  have hroom : m.nameEnd + 4 + 16 ≤ 512 := by
    unfold nameEnd
    omega
  unfold replyBytes
  rw [qtypeAt_encode, hquestion]
  by_cases h1 : m.qtype = 1
  · rw [if_pos ⟨hqtype.2 h1, hroom⟩, if_pos h1, if_pos h1, hhead]
    simp only [List.append_assoc]
  · rw [if_neg fun h => h1 (hqtype.1 h.1), if_neg h1, if_neg h1, hhead]
    simp only [List.append_assoc, List.append_nil]

section RoundTrip

variable {id qtype qclass : UInt16} {ls : Name}

theorem decode_reply (hls : ls.Valid) {an : UInt8} {rest : Bytes} {answers : List Record}
    (hrest : many (record (answerHeader id an ++ encodeName ls ++ (u16 qtype ++ u16 qclass ++ rest)))
      an.toNat (12 + (encodeName ls).length + 4) =
        some (answers, 12 + (encodeName ls).length + 4 + rest.length)) :
    decode (answerHeader id an ++ encodeName ls ++ (u16 qtype ++ u16 qclass ++ rest)) =
      some ⟨id.toNat, 0x8180, [⟨ls, qtype.toNat, qclass.toNat⟩], answers, [], []⟩ := by
  have hname := nameAt_encode hls (answerHeader id an) (u16 qtype ++ u16 qclass ++ rest)
  have hplace := inPlace_encode hls (answerHeader id an) (u16 qtype ++ u16 qclass ++ rest)
  have hpre : (answerHeader id an ++ encodeName ls).length = 12 + (encodeName ls).length := by
    rw [List.length_append]
    rfl
  have hlen : (answerHeader id an ++ encodeName ls ++ (u16 qtype ++ u16 qclass ++ rest)).length =
      12 + (encodeName ls).length + 4 + rest.length := by
    rw [List.length_append, hpre, List.length_append]
    simp only [u16, List.length_append, List.length_cons, List.length_nil]
    omega
  have hqtype : be16 _ _ = some _ := be16_add (answerHeader id an ++ encodeName ls) 0
    (show (u16 qtype ++ u16 qclass ++ rest)[0]? = some _ from rfl) rfl
  have hqclass : be16 _ _ = some _ := be16_add (answerHeader id an ++ encodeName ls) 2
    (show (u16 qtype ++ u16 qclass ++ rest)[2]? = some _ from rfl) rfl
  rw [hpre, u16_toNat] at hqtype hqclass
  have hfuel : ls.length ≤
      (answerHeader id an ++ encodeName ls ++ (u16 qtype ++ u16 qclass ++ rest)).length := by
    have := length_lt_encode ls
    omega
  have hquestion := question_some hname hfuel hplace hqtype hqclass
  have hid : be16 (answerHeader id an ++ encodeName ls ++ (u16 qtype ++ u16 qclass ++ rest)) 0 =
      some id.toNat := by
    rw [← u16_toNat id]
    rfl
  have hancount :
      be16 (answerHeader id an ++ encodeName ls ++ (u16 qtype ++ u16 qclass ++ rest)) 6 =
        some an.toNat := by
    rw [← Nat.zero_add an.toNat]
    rfl
  rw [← hlen] at hrest
  exact decode_some hid rfl rfl hancount rfl rfl (many_one hquestion) hrest (many_zero _ _)
    (many_zero _ _)

/-- The answer, read behind a message with the name at offset 12. -/
theorem record_aRecord {pre : Bytes} {k : ℕ} (hname : NameAt (pre ++ aRecord) 12 k ls)
    (hk : k < (pre ++ aRecord).length) :
    record (pre ++ aRecord) pre.length = some (⟨ls, 1, 1, 30, serverIp⟩, pre.length + 16) := by
  have hpointer : PointerAt (pre ++ aRecord) pre.length 12 :=
    ⟨0xC0, 12, getElem?_length_add pre aRecord 0, by decide, getElem?_length_add pre aRecord 1, rfl⟩
  have htype : be16 (pre ++ aRecord) (pre.length + 2) = some 1 := (be16_add pre 2 rfl rfl).trans rfl
  have hclass : be16 (pre ++ aRecord) (pre.length + 4) = some 1 := (be16_add pre 4 rfl rfl).trans rfl
  have httlhi : be16 (pre ++ aRecord) (pre.length + 6) = some 0 := (be16_add pre 6 rfl rfl).trans rfl
  have httllo : be16 (pre ++ aRecord) (pre.length + 8) = some 30 := (be16_add pre 8 rfl rfl).trans rfl
  have httl : be32 (pre ++ aRecord) (pre.length + 6) = some 30 := by
    rw [be32, httlhi, httllo]
    rfl
  have hrdlength : be16 (pre ++ aRecord) (pre.length + 10) = some 4 :=
    (be16_add pre 10 rfl rfl).trans rfl
  have hrdata : cut (pre ++ aRecord) (pre.length + 12) (pre.length + 16) = serverIp := by
    rw [cut, show pre.length + 16 = (pre ++ aRecord).length by simp [aRecord], List.take_length,
      List.drop_append, List.drop_of_length_le (by omega), Nat.add_sub_cancel_left]
    rfl
  have hrecord := record_some (.pointer hpointer hname) hk (.pointer hpointer) htype hclass httl
    hrdlength (by rw [List.length_append]; exact Nat.le_refl _)
  rw [hrecord, hrdata]

end RoundTrip

/-- The reply to a query is a message with its id and its question, and one answer for type `A`. -/
theorem Query.decode_reply (m : Query) (hname : m.name.Valid)
    (hlen : (encodeName m.name).length ≤ 255) :
    decode (replyBytes m.encode m.nameEnd 512) =
      some ⟨m.id.toNat, 0x8180, [⟨m.name, m.qtype.toNat, m.qclass.toNat⟩],
        if m.qtype = 1 then [⟨m.name, 1, 1, 30, serverIp⟩] else [], [], []⟩ := by
  rw [m.reply hlen]
  by_cases h1 : m.qtype = 1
  · simp only [if_pos h1]
    refine Net.decode_reply hname (many_one ?_)
    have hsplit : answerHeader m.id 1 ++ encodeName m.name ++
        (u16 m.qtype ++ u16 m.qclass ++ aRecord) =
          answerHeader m.id 1 ++ encodeName m.name ++ (u16 m.qtype ++ u16 m.qclass) ++ aRecord := by
      simp only [List.append_assoc]
    have hpre : (answerHeader m.id 1 ++ encodeName m.name ++ (u16 m.qtype ++ u16 m.qclass)).length =
        12 + (encodeName m.name).length + 4 := by
      rw [List.length_append, List.length_append]
      rfl
    have hat := nameAt_encode hname (answerHeader m.id 1) (u16 m.qtype ++ u16 m.qclass ++ aRecord)
    have hlabels := length_lt_encode m.name
    rw [hsplit] at hat ⊢
    rw [← hpre]
    refine record_aRecord hat ?_
    rw [List.length_append, hpre]
    omega
  · simp only [if_neg h1]
    exact Net.decode_reply hname (many_zero _ _)

/-- **The round trip.** The reply to a query of one question decodes to a message with the id and
the question of the query, and for type `A` with one answer, the address of the scoreboard. -/
theorem dns_hijack_round_trip (m : Query) (hname : m.name.Valid)
    (hlen : (encodeName m.name).length ≤ 255) {leftover out : Bytes}
    (hsize : Rust.Sized (m.encode ++ leftover)) (hout : out.length = 512) :
    ∃ len out' reply,
      buildDnsReply (m.encode ++ leftover) m.encode.length out = .ok (some len, out') ∧
      decode (out'.take len) = some reply ∧
      reply.id = m.id.toNat ∧ reply.isResponse = true ∧ reply.rcode = 0 ∧
      reply.questions = [⟨m.name, m.qtype.toNat, m.qclass.toNat⟩] ∧
      reply.answers = (if m.qtype = 1 then [⟨m.name, 1, 1, 30, serverIp⟩] else []) ∧
      reply.authority = [] ∧ reply.additional = [] ∧
      dnsQtype (m.encode ++ leftover) m.encode.length = .ok (some m.qtype.toNat) := by
  have hasks := m.asks hname
  have htype := m.qtypeAt_encode
  have hdecode := m.decode_reply hname hlen
  have hroom : m.nameEnd + 4 ≤ out.length := by
    unfold Query.nameEnd
    omega
  have htake : (m.encode ++ leftover).take m.encode.length = m.encode := List.take_left
  have hle : m.encode.length ≤ (m.encode ++ leftover).length := by
    rw [List.length_append]
    exact Nat.le_add_right _ _
  rw [← htake] at hasks htype hdecode
  obtain ⟨out', hbuild, -, hbytes⟩ := buildDnsReply_of_asks hsize
    (show Rust.Sized out by rw [Rust.Sized, hout]; decide) hle hasks hroom
  obtain ⟨r, hqtype, hr⟩ := dnsQtype_returns hsize
  rw [hr _ hle hasks, htype] at hqtype
  rw [hout] at hbuild hbytes
  rw [← hbytes] at hdecode
  exact ⟨_, out', _, hbuild, hdecode, rfl, by simp [Message.isResponse], by simp [Message.rcode], rfl,
    rfl, rfl, rfl, hqtype⟩

theorem dns_hijack_round_trip_aCom :
    ∃ len out' reply,
      buildDnsReply (Query.aCom.encode ++ []) Query.aCom.encode.length (List.replicate 512 0xAA) =
        .ok (some len, out') ∧
      decode (out'.take len) = some reply ∧
      reply.id = Query.aCom.id.toNat ∧ reply.isResponse = true ∧ reply.rcode = 0 ∧
      reply.questions =
        [⟨Query.aCom.name, Query.aCom.qtype.toNat, Query.aCom.qclass.toNat⟩] ∧
      reply.answers = (if Query.aCom.qtype = 1 then [⟨Query.aCom.name, 1, 1, 30, serverIp⟩] else []) ∧
      reply.authority = [] ∧ reply.additional = [] ∧
      dnsQtype (Query.aCom.encode ++ []) Query.aCom.encode.length =
        .ok (some Query.aCom.qtype.toNat) :=
  dns_hijack_round_trip Query.aCom (by decide) (by decide) (by decide) List.length_replicate

end ScoreboardCtrl.Net
