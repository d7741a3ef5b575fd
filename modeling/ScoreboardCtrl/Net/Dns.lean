import ScoreboardCtrl.Net.ApLog

/-!
# The DNS hijack (`build_dns_reply`, `dns_qtype` and `dns_task`)

The reply is the question sent back under a new header, with an `A` record behind it for a
question of that type.

* `Asks` — a packet starts with a complete question; `replyBytes` — the reply to it;
* `buildDnsReply_of_asks` and `buildDnsReply_none` — `buildDnsReply` returns on every packet, with
  that reply or without one.
-/

namespace ScoreboardCtrl.Net

open Lib (Rust)
open Lib.Dns

abbrev serverIp : Bytes := [192, 168, 0, 1]

/-- `u16::from_be_bytes` -/
def fromBeBytes (hi lo : UInt8) : ℕ := hi.toNat * 256 + lo.toNat

/-- `qtype == 1 && len + 16 <= out.len()` -/
def takesAnswer (qtype len : ℕ) (out : Bytes) : Rust Bool :=
  if qtype = 1 then return decide ((← Rust.add len 16) ≤ out.length) else pure false

/-- Returns the length of the reply, if there is one, and the buffer it was written to. -/
def buildDnsReply (query : Bytes) (n : ℕ) (out : Bytes) : Rust (Option ℕ × Bytes) :=
  if n < 12 ∨ query.length < n then pure (none, out)
  else do
    let q ← Rust.slice query 0 n
    match ← skipName q 12 with
    | none => return (none, out)
    | some nameEnd =>
      let qend ← Rust.add nameEnd 4
      if n < qend then return (none, out)
      else
        let hi ← Rust.index q nameEnd
        let lo ← Rust.index q (← Rust.add nameEnd 1)
        let qtype := fromBeBytes hi lo
        if out.length < qend then return (none, out)
        else
          let out ← Rust.copyFrom out 0 qend (← Rust.slice q 0 qend)
          let out ← Rust.writeEach out
            [(2, 0x81), (3, 0x80), (6, 0), (8, 0), (9, 0), (10, 0), (11, 0)]
          if ← takesAnswer qtype qend out then
            let out ← Rust.write out 7 1
            let out ← Rust.writeFrom out qend 0 [0xC0, 12, 0, 1, 0, 1, 0, 0, 0, 30, 0, 4]
            let rdata ← Rust.add qend 12
            let len ← Rust.add qend 16
            let out ← Rust.copyFrom out rdata len serverIp
            return (some len, out)
          else
            let out ← Rust.write out 7 0
            return (some qend, out)

def dnsQtype (query : Bytes) (n : ℕ) : Rust (Option ℕ) :=
  if n < 12 ∨ query.length < n then pure none
  else do
    match ← skipName (← Rust.slice query 0 n) 12 with
    | none => return none
    | some nameEnd =>
      if n < (← Rust.add nameEnd 4) then return none
      else
        let hi ← Rust.index query nameEnd
        let lo ← Rust.index query (← Rust.add nameEnd 1)
        return some (fromBeBytes hi lo)

/-- What `dns_task` logs and sends. -/
structure DnsAnswer where
  qtype : String
  name : String
  an : UInt8
  reply : Bytes
  deriving DecidableEq, Repr

/-- What `dns_task` does with `n` received bytes in `pkt`. -/
def dnsTurn (pkt : Bytes) (n : ℕ) : Rust (Option DnsAnswer) := do
  let (len, out) ← buildDnsReply pkt n (List.replicate 512 0)
  match len with
  | none => return none
  | some len =>
    let qtype := (← dnsQtype pkt n).getD 0
    let (nlen, name) ← formatQname pkt (List.replicate 80 0)
    let name := textOr (← Rust.slice name 0 nlen)
    let an ← Rust.index out 7
    return some ⟨qtypeName qtype, name, an, ← Rust.slice out 0 len⟩

/-! ### The reply -/

/-- The packet starts with a header and a complete question, the name of which ends before `e`. -/
structure Asks (q : Bytes) (e : ℕ) : Prop where
  name : Skips q 12 e
  le : e + 4 ≤ q.length

/-- The type of the question. -/
def qtypeAt (q : Bytes) (e : ℕ) : ℕ := fromBeBytes (q.getD e 0) (q.getD (e + 1) 0)

/-- The record of the answer, for the name at offset 12. -/
def aRecord : Bytes := [0xC0, 12, 0, 1, 0, 1, 0, 0, 0, 30, 0, 4] ++ serverIp

/-- The header of `q` with the flags and the counts of the reply. -/
def replyHeader (q : Bytes) (an : UInt8) : Bytes :=
  q.take 2 ++ [0x81, 0x80] ++ cut q 4 6 ++ [0, an, 0, 0, 0, 0]

/-- The reply to the question in `q` where there are `room` bytes for it. -/
def replyBytes (q : Bytes) (e room : ℕ) : Bytes :=
  if qtypeAt q e = 1 ∧ e + 4 + 16 ≤ room then
    replyHeader q 1 ++ cut q 12 (e + 4) ++ aRecord
  else replyHeader q 0 ++ cut q 12 (e + 4)

theorem Asks.lt {q : Bytes} {e : ℕ} (h : Asks q e) : 12 < e := (h.name.bounds).1

theorem Asks.unique {q : Bytes} (hq : Rust.Sized q) {e e' : ℕ} (h : Asks q e) (h' : Asks q e') :
    e = e' := by
  obtain ⟨r, -, hr⟩ := skipName_returns hq 12
  have he := (hr e).2 h.name
  have he' := (hr e').2 h'.name
  exact Option.some.inj (he.symm.trans he')

theorem exists_header {q : Bytes} (h : 12 ≤ q.length) :
    ∃ b₀ b₁ b₂ b₃ b₄ b₅ b₆ b₇ b₈ b₉ b₁₀ b₁₁ rest,
      q = b₀ :: b₁ :: b₂ :: b₃ :: b₄ :: b₅ :: b₆ :: b₇ :: b₈ :: b₉ :: b₁₀ :: b₁₁ :: rest := by
  match q, h with
  | _ :: _ :: _ :: _ :: _ :: _ :: _ :: _ :: _ :: _ :: _ :: _ :: _, _ =>
    exact ⟨_, _, _, _, _, _, _, _, _, _, _, _, _, rfl⟩

theorem takesAnswer_ok {qtype len : ℕ} {out : Bytes} (h : len + 16 < 2 ^ 32) :
    takesAnswer qtype len out = .ok (decide (qtype = 1 ∧ len + 16 ≤ out.length)) := by
  unfold takesAnswer
  by_cases hq : qtype = 1
  · rw [if_pos hq, Rust.add_ok h, Rust.ok_bind, Rust.pure_eq]
    simp [hq]
  · rw [if_neg hq, Rust.pure_eq]
    simp [hq]

theorem qtypeAt_eq {q : Bytes} {e : ℕ} {hi lo : UInt8} (hhi : q[e]? = some hi)
    (hlo : q[e + 1]? = some lo) : fromBeBytes hi lo = qtypeAt q e := by
  rw [qtypeAt, List.getD_eq_getElem?_getD, List.getD_eq_getElem?_getD, hhi, hlo]
  rfl

/-- The patches of the header leave the fields of `replyHeader`, but for the answer count. -/
theorem writeEach_header {q : Bytes} (h : 12 ≤ q.length) {m : ℕ} (hm : 12 ≤ m) (rest : Bytes) :
    ∃ out, Rust.writeEach (q.take m ++ rest)
        [(2, 0x81), (3, 0x80), (6, 0), (8, 0), (9, 0), (10, 0), (11, 0)] = .ok out ∧
      out.length = (q.take m ++ rest).length ∧
      ∀ an, Rust.write out 7 an = .ok (replyHeader q an ++ cut q 12 m ++ rest) := by
  obtain ⟨b₀, b₁, b₂, b₃, b₄, b₅, b₆, b₇, b₈, b₉, b₁₀, b₁₁, t, rfl⟩ := exists_header h
  obtain ⟨m, rfl⟩ := Nat.exists_eq_add_of_le' hm
  simp [Rust.writeEach, Rust.write, replyHeader, cut]

theorem length_replyHeader {q : Bytes} (h : 12 ≤ q.length) (an : UInt8) :
    (replyHeader q an).length = 12 := by
  simp only [replyHeader, List.length_append, List.length_take, List.length_cons, List.length_nil,
    length_cut (show 6 ≤ q.length by omega)]
  omega

theorem write_aRecord {a : Bytes} {len : ℕ} (ha : Rust.Sized a) (h : len + 16 ≤ a.length) :
    ∃ a₁ a₂, Rust.writeFrom a len 0 [0xC0, 12, 0, 1, 0, 1, 0, 0, 0, 30, 0, 4] = .ok a₁ ∧
      Rust.copyFrom a₁ (len + 12) (len + 16) serverIp = .ok a₂ ∧ a₂.length = a.length ∧
      a₂.take (len + 16) = a.take len ++ aRecord := by
  generalize hxs : ([0xC0, 12, 0, 1, 0, 1, 0, 0, 0, 30, 0, 4] : Bytes) = xs
  have hxs' : xs.length = 12 := by rw [← hxs]; rfl
  have h₁ : (Rust.splice a len xs).length = a.length := Rust.length_splice (by omega)
  have h₂ : (Rust.splice (Rust.splice a len xs) (len + 12) serverIp).length = a.length := by
    rw [Rust.length_splice (by rw [h₁]; exact h), h₁]
  have hfrom : Rust.writeFrom a len 0 xs = .ok (Rust.splice a len xs) :=
    Rust.writeFrom_ok ha (by omega)
  refine ⟨_, _, hfrom, Rust.copyFrom_ok (by omega) (by rw [h₁]; exact h) ?_, h₂, ?_⟩
  · rw [Nat.add_sub_add_left]
    rfl
  · have htake : (Rust.splice (Rust.splice a len xs) (len + 12) serverIp).take
        (len + 12 + serverIp.length) = (Rust.splice a len xs).take (len + 12) ++ serverIp :=
      Rust.take_splice (by omega)
    have htake' : (Rust.splice a len xs).take (len + xs.length) = a.take len ++ xs :=
      Rust.take_splice (by omega)
    rw [hxs'] at htake'
    rw [show len + 16 = len + 12 + serverIp.length from rfl, htake, htake',
      List.append_assoc, aRecord, hxs]

/-- **The reply**: a complete question is answered, in the first bytes of the buffer. -/
theorem buildDnsReply_of_asks {query out : Bytes} {n e : ℕ} (hquery : Rust.Sized query)
    (hout : Rust.Sized out) (hn : n ≤ query.length) (h : Asks (query.take n) e)
    (hroom : e + 4 ≤ out.length) :
    ∃ out', buildDnsReply query n out =
        .ok (some (replyBytes (query.take n) e out.length).length, out') ∧
      out'.length = out.length ∧
      out'.take (replyBytes (query.take n) e out.length).length =
        replyBytes (query.take n) e out.length := by
  have hquery' : query.length < 2 ^ 31 := hquery
  have hout' : out.length < 2 ^ 31 := hout
  have hlen : (query.take n).length = n := by rw [List.length_take, Nat.min_eq_left hn]
  have h12 := h.lt
  have hle := h.le
  generalize hq : query.take n = q at *
  have hqsize : Rust.Sized q := by
    show q.length < 2 ^ 31
    omega
  have hslice : Rust.slice query 0 n = .ok q := by
    rw [Rust.slice_ok (Nat.zero_le _) hn, hq, List.drop_zero]
  obtain ⟨r, hskip, hr⟩ := skipName_returns hqsize 12
  obtain rfl := (hr e).2 h.name
  obtain ⟨hi, hhi, hhi'⟩ := Rust.Returns.index (show e < q.length by omega)
  obtain ⟨lo, hlo, hlo'⟩ := Rust.Returns.index (show e + 1 < q.length by omega)
  have hsplice : Rust.splice out 0 (q.take (e + 4)) = q.take (e + 4) ++ out.drop (e + 4) := by
    have : (q.take (e + 4)).length = e + 4 := by
      rw [List.length_take, Nat.min_eq_left (by omega)]
    rw [Rust.splice, List.take_zero, List.nil_append, this, Nat.zero_add]
  obtain ⟨out₁, heach, hlen₁, hpatch⟩ :=
    writeEach_header (show 12 ≤ q.length by omega) (show 12 ≤ e + 4 by omega) (out.drop (e + 4))
  have hlen₁' : out₁.length = out.length := by
    rw [hlen₁, List.length_append, List.length_take, List.length_drop]
    omega
  have hhead (an : UInt8) : (replyHeader q an ++ cut q 12 (e + 4)).length = e + 4 := by
    rw [List.length_append, length_replyHeader (by omega), length_cut (by omega)]
    omega
  have hlen₂ (an : UInt8) :
      (replyHeader q an ++ cut q 12 (e + 4) ++ out.drop (e + 4)).length = out.length := by
    rw [List.length_append, hhead, List.length_drop]
    omega
  simp only [buildDnsReply, hslice, hskip, Rust.ok_bind]
  rw [if_neg (by omega), Rust.add_ok (by omega), Rust.ok_bind, if_neg (by omega), hhi,
    Rust.ok_bind, Rust.add_ok (by omega), Rust.ok_bind, hlo, Rust.ok_bind, if_neg (by omega),
    Rust.slice_ok (by omega) (by omega), Rust.ok_bind, List.drop_zero,
    Rust.copyFrom_ok (by omega) hroom (by rw [List.length_take]; omega), Rust.ok_bind, hsplice,
    heach, Rust.ok_bind, takesAnswer_ok (by omega), Rust.ok_bind, hlen₁', qtypeAt_eq hhi' hlo']
  unfold replyBytes
  by_cases ha : qtypeAt q e = 1 ∧ e + 4 + 16 ≤ out.length
  · obtain ⟨a₁, a₂, h₁, h₂, hlen, htake⟩ :=
      write_aRecord (show Rust.Sized (replyHeader q 1 ++ cut q 12 (e + 4) ++ out.drop (e + 4)) by
        rw [Rust.Sized, hlen₂]; exact hout') (show e + 4 + 16 ≤ _ by rw [hlen₂]; exact ha.2)
    rw [List.take_left' (hhead 1)] at htake
    have htotal : (replyHeader q 1 ++ cut q 12 (e + 4) ++ aRecord).length = e + 4 + 16 := by
      rw [List.length_append, hhead]
      rfl
    rw [if_pos ha, if_pos (by simpa using ha), hpatch, Rust.ok_bind, h₁, Rust.ok_bind,
      Rust.add_ok (by omega), Rust.ok_bind, Rust.add_ok (by omega), Rust.ok_bind, h₂, Rust.ok_bind,
      Rust.pure_eq, htotal]
    exact ⟨_, rfl, hlen.trans (hlen₂ 1), htake⟩
  · rw [if_neg ha, if_neg (by simpa using ha), hpatch, Rust.ok_bind, Rust.pure_eq, hhead]
    exact ⟨_, rfl, hlen₂ 0, List.take_left' (hhead 0)⟩

/-- Any other packet gets no reply, and a buffer too short for the question gets none. -/
theorem buildDnsReply_none {query out : Bytes} {n : ℕ} (hquery : Rust.Sized query)
    (h : ∀ e, n ≤ query.length → Asks (query.take n) e → out.length < e + 4) :
    buildDnsReply query n out = .ok (none, out) := by
  have hquery' : query.length < 2 ^ 31 := hquery
  unfold buildDnsReply
  by_cases hn : n < 12 ∨ query.length < n
  · rw [if_pos hn, Rust.pure_eq]
  have hlen : (query.take n).length = n := by rw [List.length_take]; omega
  have hslice : Rust.slice query 0 n = .ok (query.take n) := by
    rw [Rust.slice_ok (Nat.zero_le _) (by omega), List.drop_zero]
  rw [if_neg hn, hslice, Rust.ok_bind]
  replace h : ∀ e, Asks (query.take n) e → out.length < e + 4 := fun e => h e (by omega)
  generalize query.take n = q at *
  obtain ⟨r, hskip, hr⟩ := skipName_returns (show Rust.Sized q by rw [Rust.Sized]; omega) 12
  rw [hskip, Rust.ok_bind]
  cases r with
  | none => rfl
  | some e =>
    have hname := (hr e).1 rfl
    have hbounds := hname.bounds
    dsimp only
    rw [Rust.add_ok (by omega), Rust.ok_bind]
    by_cases hend : n < e + 4
    · rw [if_pos hend, Rust.pure_eq]
    · have hout := h e ⟨hname, by omega⟩
      obtain ⟨hi, hhi, -⟩ := Rust.Returns.index (show e < q.length by omega)
      obtain ⟨lo, hlo, -⟩ := Rust.Returns.index (show e + 1 < q.length by omega)
      rw [if_neg hend, hhi, Rust.ok_bind, Rust.add_ok (by omega), Rust.ok_bind, hlo, Rust.ok_bind,
        if_pos hout, Rust.pure_eq]

theorem buildDnsReply_returns {query out : Bytes} {n : ℕ} (hquery : Rust.Sized query)
    (hout : Rust.Sized out) :
    (buildDnsReply query n out).Returns fun r => r.2.length = out.length ∧
      ∀ len, r.1 = some len → ∃ e, n ≤ query.length ∧ Asks (query.take n) e ∧
        e + 4 ≤ out.length ∧ len = (replyBytes (query.take n) e out.length).length ∧
        r.2.take len = replyBytes (query.take n) e out.length := by
  by_cases h : ∃ e, n ≤ query.length ∧ Asks (query.take n) e ∧ e + 4 ≤ out.length
  · obtain ⟨e, hn, he, hroom⟩ := h
    obtain ⟨out', hreply, hlen, htake⟩ := buildDnsReply_of_asks hquery hout hn he hroom
    refine ⟨_, hreply, hlen, ?_⟩
    rintro _ ⟨⟩
    exact ⟨e, hn, he, hroom, rfl, htake⟩
  · refine ⟨_, buildDnsReply_none hquery fun e hn he => ?_, rfl, by rintro _ ⟨⟩⟩
    by_contra hroom
    exact h ⟨e, hn, he, by omega⟩

/-! ### The type of the question -/

theorem dnsQtype_returns {query : Bytes} {n : ℕ} (hquery : Rust.Sized query) :
    (dnsQtype query n).Returns fun r =>
      ∀ e, n ≤ query.length → Asks (query.take n) e → r = some (qtypeAt (query.take n) e) := by
  have hquery' : query.length < 2 ^ 31 := hquery
  unfold dnsQtype
  by_cases hn : n < 12 ∨ query.length < n
  · rw [if_pos hn]
    refine .pure ?_
    intro e hle he
    have := he.lt
    have := he.le
    rw [List.length_take] at this
    omega
  have hlen : (query.take n).length = n := by rw [List.length_take]; omega
  have hslice : Rust.slice query 0 n = .ok (query.take n) := by
    rw [Rust.slice_ok (Nat.zero_le _) (by omega), List.drop_zero]
  rw [if_neg hn, hslice, Rust.ok_bind]
  refine .bind (skipName_returns (show Rust.Sized (query.take n) by rw [Rust.Sized]; omega) 12)
    fun r hr => ?_
  cases r with
  | none => exact .pure fun e _ he => by simpa using (hr e).2 he.name
  | some e =>
    have hname := (hr e).1 rfl
    have hbounds := hname.bounds
    have hunique (e' : ℕ) (he' : Asks (query.take n) e') : e = e' :=
      Option.some.inj ((hr e').2 he'.name)
    dsimp only
    refine .bind (.add (by omega)) ?_
    intro c hc
    rw [hc]
    by_cases hend : n < e + 4
    · rw [if_pos hend]
      refine .pure ?_
      intro e' _ he'
      have := he'.le
      have := hunique e' he'
      omega
    · rw [if_neg hend]
      refine .bind (.index (by omega)) ?_
      intro hi hhi
      refine .bind (.add (by omega)) ?_
      intro c hc
      rw [hc]
      refine .bind (.index (by omega)) fun lo hlo => .pure ?_
      intro e' _ he'
      have hhi' : (query.take n)[e]? = some hi := by rw [List.getElem?_take_of_lt (by omega), hhi]
      have hlo' : (query.take n)[e + 1]? = some lo := by
        rw [List.getElem?_take_of_lt (by omega), hlo]
      rw [← hunique e' he', qtypeAt_eq hhi' hlo']

/-! ### A turn of `dns_task` -/

/-- **`dns_task` takes any packet**, and answers those with a complete question. -/
theorem dnsTurn_returns {pkt : Bytes} (hpkt : Rust.Sized pkt) (n : ℕ) :
    (dnsTurn pkt n).Returns fun r => ∀ reply, r.map DnsAnswer.reply = some reply ↔
      ∃ e, n ≤ pkt.length ∧ Asks (pkt.take n) e ∧ e + 4 ≤ 512 ∧
        reply = replyBytes (pkt.take n) e 512 := by
  have hout : Rust.Sized (List.replicate 512 (0 : UInt8)) := by
    rw [Rust.Sized, List.length_replicate]
    omega
  have hlen : (List.replicate 512 (0 : UInt8)).length = 512 := List.length_replicate
  unfold dnsTurn
  by_cases h : ∃ e, n ≤ pkt.length ∧ Asks (pkt.take n) e ∧ e + 4 ≤ 512
  · obtain ⟨e, hn, hasks, hroom⟩ := h
    obtain ⟨out, hreply, hlen', htake⟩ :=
      buildDnsReply_of_asks hpkt hout hn hasks (by rw [hlen]; exact hroom)
    rw [hlen] at hreply hlen' htake
    generalize hbytes : replyBytes (pkt.take n) e 512 = bytes at hreply htake
    have hfits : bytes.length ≤ out.length := by
      have := congrArg List.length htake
      rw [List.length_take] at this
      omega
    rw [hreply, Rust.ok_bind]
    refine .bind (dnsQtype_returns hpkt) ?_
    intro qtype _
    refine .bind (formatQname_returns hpkt (by decide +kernel)) ?_
    intro name hname
    refine .bind (.slice (Nat.zero_le _) hname.1) ?_
    intro text _
    refine .bind (.index (by omega)) ?_
    intro an _
    refine .bind (.slice (Nat.zero_le _) hfits) fun sent hsent => .pure ?_
    intro reply
    rw [hsent, htake, List.drop_zero, Option.map_some, Option.some.injEq]
    constructor
    · rintro rfl
      exact ⟨e, hn, hasks, hroom, hbytes.symm⟩
    · rintro ⟨e', -, hasks', -, rfl⟩
      have hsized : Rust.Sized (pkt.take n) := by
        have : pkt.length < 2 ^ 31 := hpkt
        rw [Rust.Sized, List.length_take]
        omega
      rw [← hbytes, hasks.unique hsized hasks']
  · rw [buildDnsReply_none hpkt fun e hn hasks => ?_, Rust.ok_bind]
    · refine .pure fun reply => ⟨by rintro ⟨⟩, ?_⟩
      rintro ⟨e, hn, hasks, hroom, -⟩
      exact absurd ⟨e, hn, hasks, hroom⟩ h
    · by_contra hroom
      exact h ⟨e, hn, hasks, by omega⟩

end ScoreboardCtrl.Net
