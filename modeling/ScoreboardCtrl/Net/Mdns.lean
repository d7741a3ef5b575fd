import ScoreboardCtrl.Net.Dns

/-!
# The mDNS responder (`mdns_task`)

It answers the first question of a query, if that asks for the address of `scoreboard.local` or
`sb.local`, with a message of one record.

* `mdnsTurn_returns` — `mdnsTurn` returns on every packet, and what it sends is `mdnsReply` of the
  name spelt at offset 12;
* `mdns_reply_sound` — what a reply says about the packet it is sent for.
-/

namespace ScoreboardCtrl.Net

open Lib (Rust)
open Lib.Dns

def scoreboardLocal : Name := [Rust.byteStr "scoreboard", Rust.byteStr "local"]

def sbLocal : Name := [Rust.byteStr "sb", Rust.byteStr "local"]

/-- The names the responder answers to. -/
def ourNames : List Name := [scoreboardLocal, sbLocal]

def mdnsNameIsOurs (q : Bytes) : Rust Bool := do
  if ← qnameMatches q 12 scoreboardLocal then return true
  else qnameMatches q 12 sbLocal

/-- Returns the length of the message, if it fits, and the buffer it was written to. -/
def writeMdnsA (out name : Bytes) : Rust (Option ℕ × Bytes) := do
  let need ← Rust.add (← Rust.add 12 name.length) 16
  if out.length < need then return (none, out)
  else
    let out ← Rust.fill out 0 12 0
    let out ← Rust.writeEach out [(2, 0x84), (3, 0x00), (7, 1)]
    let i ← Rust.add 12 name.length
    let out ← Rust.copyFrom out 12 i name
    let out ← Rust.writeFrom out i 0 [0, 1, 0x80, 1, 0, 0, 0, 120, 0, 4]
    let rdata ← Rust.add i 10
    let len ← Rust.add i 14
    let out ← Rust.copyFrom out rdata len serverIp
    return (some len, out)

def longName : Bytes := 0x0a :: Rust.byteStr "scoreboard" ++ 0x05 :: Rust.byteStr "local" ++ [0]

def shortName : Bytes := 0x02 :: Rust.byteStr "sb" ++ 0x05 :: Rust.byteStr "local" ++ [0]

/-- What `mdns_task` logs and sends, to the asker and to the group. -/
structure MdnsAnswer where
  qtype : String
  name : String
  reply : Bytes
  deriving DecidableEq, Repr

/-- What `mdns_task` does with `n` received bytes in `pkt`. -/
def mdnsTurn (pkt : Bytes) (n : ℕ) : Rust (Option MdnsAnswer) :=
  if n < 12 then pure none
  else do
    if (← Rust.index pkt 2) &&& 0x80 ≠ 0 then return none
    else
      match ← skipName pkt 12 with
      | none => return none
      | some nameEnd =>
        if n < (← Rust.add nameEnd 4) then return none
        else if !(← mdnsNameIsOurs pkt) then return none
        else
          let hi ← Rust.index pkt nameEnd
          let lo ← Rust.index pkt (← Rust.add nameEnd 1)
          let qtype := fromBeBytes hi lo
          if qtype ≠ 1 ∧ qtype ≠ 255 then return none
          else
            let name := if ← qnameMatches pkt 12 sbLocal then shortName else longName
            let (len, out) ← writeMdnsA (List.replicate 64 0) name
            match len with
            | none => return none
            | some len =>
              let (nlen, qn) ← formatQname pkt (List.replicate 40 0)
              let qn := textOr (← Rust.slice qn 0 nlen)
              return some ⟨qtypeName qtype, qn, ← Rust.slice out 0 len⟩

/-! ### The name that is spelt -/

/-- The name in lower case. -/
def lower (ls : Name) : Name := ls.map (List.map toAsciiLowercase)

/-- `labels` is spelt at offset 12, as `qname_matches` sees it. -/
def SpeltFirst (q : Bytes) (labels : Name) : Prop := ∃ k ≤ 8, Spells q 12 k labels

theorem eqLabel_iff {a b : Bytes} :
    eqLabel a b = true ↔ a.map toAsciiLowercase = b.map toAsciiLowercase := by
  unfold eqLabel eqIgnoreAsciiCase
  induction a generalizing b with
  | nil => cases b <;> simp
  | cons x a ih =>
    cases b with
    | nil => simp
    | cons y b =>
      have := @ih b
      simp only [Bool.and_eq_true, beq_iff_eq] at this ⊢
      simp only [List.length_cons, Nat.add_right_cancel_iff, List.zip_cons_cons, List.all_cons,
        Bool.and_eq_true, beq_iff_eq, List.map_cons, List.cons.injEq, ← this]
      tauto

/-- What is spelt is the name there, up to case. -/
theorem Spells.nameAt {q : Bytes} {i k : ℕ} {labels : Name} (h : Spells q i k labels) :
    ∃ ls, NameAt q i k ls ∧ lower ls = lower labels := by
  induction h with
  | root hb => exact ⟨[], .root hb, rfl⟩
  | label hl heq _ ih =>
    obtain ⟨ls, hls, hlower⟩ := ih
    refine ⟨_, .label hl hls, ?_⟩
    rw [lower, List.map_cons, eqLabel_iff.1 heq]
    exact congrArg _ hlower
  | pointer _ hp _ ih =>
    obtain ⟨ls, hls, hlower⟩ := ih
    exact ⟨ls, .pointer hp hls, hlower⟩

theorem Spells.inPlace {q : Bytes} {i k : ℕ} {labels : Name} (h : Spells q i k labels) :
    ∃ e, InPlace q i e := by
  induction h with
  | root hb => exact ⟨_, .root hb⟩
  | label hl _ _ ih =>
    obtain ⟨e, he⟩ := ih
    exact ⟨e, .label hl he⟩
  | pointer _ hp _ _ => exact ⟨_, .pointer hp⟩

/-- One name is spelt at most, and in one number of steps. -/
theorem Spells.unique {q : Bytes} {i k k' : ℕ} {labels labels' : Name} (h : Spells q i k labels)
    (h' : Spells q i k' labels') : k = k' ∧ lower labels = lower labels' := by
  obtain ⟨ls, hls, hlower⟩ := h.nameAt
  obtain ⟨ls', hls', hlower'⟩ := h'.nameAt
  obtain ⟨rfl, rfl⟩ := hls.unique hls'
  exact ⟨rfl, hlower.symm.trans hlower'⟩

theorem lower_ourNames : ∀ labels ∈ ourNames, lower labels = labels := by decide +kernel

theorem SpeltFirst.unique {q : Bytes} {labels labels' : Name} (h : SpeltFirst q labels)
    (h' : SpeltFirst q labels') (hours : labels ∈ ourNames) (hours' : labels' ∈ ourNames) :
    labels = labels' := by
  obtain ⟨k, -, hk⟩ := h
  obtain ⟨k', -, hk'⟩ := h'
  rw [← lower_ourNames labels hours, ← lower_ourNames labels' hours', (hk.unique hk').2]

/-! ### A turn of `mdns_task` -/

/-- The message with the address of `labels`. -/
def mdnsReply (labels : Name) : Bytes :=
  [0, 0, 0x84, 0, 0, 0, 0, 1, 0, 0, 0, 0] ++ encodeName labels ++
    [0, 1, 0x80, 1, 0, 0, 0, 120, 0, 4] ++ serverIp

theorem writeMdnsA_ourNames : ∀ labels ∈ ourNames,
    writeMdnsA (List.replicate 64 0) (encodeName labels) =
      .ok (some (mdnsReply labels).length,
        mdnsReply labels ++ List.replicate (64 - (mdnsReply labels).length) 0) := by decide +kernel

/-- Of `n` bytes in `pkt`: no response, and a complete question for an address, the name of which
ends before `e`. -/
structure AsksAddress (pkt : Bytes) (n e : ℕ) : Prop where
  query : pkt.getD 2 0 &&& 0x80 = 0
  name : Skips pkt 12 e
  le : e + 4 ≤ n
  qtype : qtypeAt pkt e = 1 ∨ qtypeAt pkt e = 255

theorem AsksAddress.lt {pkt : Bytes} {n e : ℕ} (h : AsksAddress pkt n e) : 12 < e :=
  (h.name.bounds).1

theorem mdnsNameIsOurs_returns {q : Bytes} (hq : Rust.Sized q) :
    (mdnsNameIsOurs q).Returns fun r => r = true ↔ ∃ labels ∈ ourNames, SpeltFirst q labels := by
  unfold mdnsNameIsOurs
  refine .bind (qnameMatches_returns hq 12 (by decide +kernel)) ?_
  intro long hlong
  have hours : (∃ labels ∈ ourNames, SpeltFirst q labels) ↔
      SpeltFirst q scoreboardLocal ∨ SpeltFirst q sbLocal := by simp [ourNames]
  rw [hours]
  cases long with
  | true => exact .pure ⟨fun _ => .inl (hlong.1 rfl), fun _ => rfl⟩
  | false =>
    refine (qnameMatches_returns hq 12 (by decide +kernel)).mono ?_
    intro short hshort
    constructor
    · exact fun h => .inr (hshort.1 h)
    · rintro (h | h)
      · exact absurd (hlong.2 h) (by simp)
      · exact hshort.2 h

theorem chosen_name {q : Bytes} {labels : Name} (hours : labels ∈ ourNames)
    (hspelt : SpeltFirst q labels) {short : Bool} (hshort : short = true ↔ SpeltFirst q sbLocal) :
    (if short = true then shortName else longName) = encodeName labels := by
  cases short with
  | true =>
    rw [SpeltFirst.unique hspelt (hshort.1 rfl) hours (by simp [ourNames])]
    decide +kernel
  | false =>
    rcases List.mem_pair.1 hours with rfl | rfl
    · decide +kernel
    · exact absurd (hshort.2 hspelt) (by simp)

/-- **`mdns_task` takes any packet**, and answers those that ask for the address of our name first. -/
theorem mdnsTurn_returns {pkt : Bytes} (hpkt : Rust.Sized pkt) {n : ℕ} (hn : n ≤ pkt.length) :
    (mdnsTurn pkt n).Returns fun r => ∀ reply, r.map MdnsAnswer.reply = some reply ↔
      ∃ e labels, AsksAddress pkt n e ∧ labels ∈ ourNames ∧ SpeltFirst pkt labels ∧
        reply = mdnsReply labels := by
  have hsize : pkt.length < 2 ^ 31 := hpkt
  -- whatever leads to `none` says that the packet asks for no address of ours
  have hnone (h : ∀ e labels, AsksAddress pkt n e → labels ∈ ourNames → ¬ SpeltFirst pkt labels) :
      ∀ reply, (none : Option MdnsAnswer).map MdnsAnswer.reply = some reply ↔
        ∃ e labels, AsksAddress pkt n e ∧ labels ∈ ourNames ∧ SpeltFirst pkt labels ∧
          reply = mdnsReply labels := by
    refine fun reply => ⟨by rintro ⟨⟩, ?_⟩
    rintro ⟨e, labels, hasks, hours, hspelt, -⟩
    exact absurd hspelt (h e labels hasks hours)
  unfold mdnsTurn
  by_cases h12 : n < 12
  · rw [if_pos h12]
    refine .pure (hnone fun e labels hasks => ?_)
    have := hasks.lt
    have := hasks.le
    omega
  rw [if_neg h12]
  refine .bind (.index (by omega)) ?_
  intro flags hflags
  have hget : pkt.getD 2 0 = flags := by rw [List.getD_eq_getElem?_getD, hflags]; rfl
  by_cases hqr : flags &&& 0x80 ≠ 0
  · rw [if_pos hqr]
    refine .pure (hnone fun e labels hasks => absurd hasks.query ?_)
    rw [hget]
    exact hqr
  rw [if_neg hqr]
  refine .bind (skipName_returns hpkt 12) ?_
  intro r hr
  cases r with
  | none => exact .pure (hnone fun e labels hasks => by simpa using (hr e).2 hasks.name)
  | some e =>
    have hname := (hr e).1 rfl
    have hbounds := hname.bounds
    have hunique (e' : ℕ) (h : AsksAddress pkt n e') : e = e' := Option.some.inj ((hr e').2 h.name)
    dsimp only
    refine .bind (.add (by omega)) ?_
    intro c hc
    rw [hc]
    by_cases hend : n < e + 4
    · rw [if_pos hend]
      refine .pure (hnone fun e' labels hasks => ?_)
      have := hasks.le
      have := hunique e' hasks
      omega
    rw [if_neg hend]
    refine .bind (mdnsNameIsOurs_returns hpkt) ?_
    intro ours hours
    cases ours with
    | false =>
      refine .pure (hnone fun e' labels _ hmem hspelt => ?_)
      simpa using hours.2 ⟨labels, hmem, hspelt⟩
    | true =>
      obtain ⟨labels, hmem, hspelt⟩ := hours.1 rfl
      rw [if_neg (by simp)]
      refine .bind (.index (by omega)) ?_
      intro hi hhi
      refine .bind (.add (by omega)) ?_
      intro c hc
      rw [hc]
      refine .bind (.index (by omega)) ?_
      intro lo hlo
      rw [qtypeAt_eq hhi hlo]
      by_cases hqtype : qtypeAt pkt e ≠ 1 ∧ qtypeAt pkt e ≠ 255
      · rw [if_pos hqtype]
        refine .pure (hnone fun e' labels hasks => ?_)
        have := hasks.qtype
        rw [← hunique e' hasks] at this
        omega
      rw [if_neg hqtype]
      have hasks : AsksAddress pkt n e := ⟨by rw [hget]; simpa using hqr, hname, by omega, by omega⟩
      refine .bind (qnameMatches_returns hpkt 12 (by decide +kernel)) ?_
      intro short hshort
      rw [chosen_name hmem hspelt hshort, writeMdnsA_ourNames labels hmem, Rust.ok_bind]
      refine .bind (formatQname_returns hpkt (by decide +kernel)) ?_
      intro name hlog
      refine .bind (.slice (Nat.zero_le _) hlog.1) ?_
      intro text _
      refine .bind (.slice (Nat.zero_le _) ?_) fun sent hsent => .pure fun reply => ?_
      · rw [List.length_append]
        exact Nat.le_add_right _ _
      · rw [hsent, List.take_left, List.drop_zero, Option.map_some, Option.some.injEq]
        constructor
        · rintro rfl
          exact ⟨e, labels, hasks, hmem, hspelt, rfl⟩
        · rintro ⟨e', labels', -, hmem', hspelt', rfl⟩
          rw [hspelt.unique hspelt' hmem hmem']

/-- `mdns_task` sends `reply` for `n` bytes in `pkt`. -/
def Sends (pkt : Bytes) (n : ℕ) (reply : Bytes) : Prop :=
  ∃ answer, mdnsTurn pkt n = .ok (some answer) ∧ answer.reply = reply

theorem sends_iff {pkt : Bytes} (hpkt : Rust.Sized pkt) {n : ℕ} (hn : n ≤ pkt.length)
    (reply : Bytes) : Sends pkt n reply ↔ ∃ e labels, AsksAddress pkt n e ∧ labels ∈ ourNames ∧
      SpeltFirst pkt labels ∧ reply = mdnsReply labels := by
  obtain ⟨r, hturn, hr⟩ := mdnsTurn_returns hpkt hn
  rw [← hr reply, Option.map_eq_some_iff]
  constructor
  · rintro ⟨answer, hanswer, hreply⟩
    rw [hturn] at hanswer
    exact ⟨answer, Except.ok.inj hanswer, hreply⟩
  · rintro ⟨answer, rfl, hreply⟩
    exact ⟨answer, hturn, hreply⟩

/-! ### What a reply says -/

theorem decode_mdnsReply : ∀ labels ∈ ourNames,
    decode (mdnsReply labels) =
      some ⟨0, 0x8400, [], [⟨labels, 1, 0x8001, 120, serverIp⟩], [], []⟩ := by decide +kernel

/-- The two walkers agree: a spelt name ends where `skip_name` says. -/
theorem SpeltFirst.inPlace {q : Bytes} {e : ℕ} {labels : Name} (hq : Rust.Sized q)
    (h : SpeltFirst q labels) (he : Skips q 12 e) : InPlace q 12 e := by
  obtain ⟨k, -, hk⟩ := h
  obtain ⟨e', he'⟩ := hk.inPlace
  obtain ⟨r, -, hr⟩ := skipName_returns hq 12
  have hend := (hr e').2 (.of_inPlace he')
  rw [(hr e).2 he] at hend
  rw [Option.some.inj hend]
  exact he'

/-- **Soundness.** If a reply is sent, the packet is a query whose first question has type `A` or
`ANY`, the name at offset 12 is ours up to case, and the reply is one address record for it. -/
theorem mdns_reply_sound {pkt reply : Bytes} {n : ℕ} (hpkt : pkt.length = 512) (hn : n ≤ 512)
    (h : Sends pkt n reply) :
    pkt.getD 2 0 &&& 0x80 = 0 ∧
    ∃ e k ls qtype, InPlace pkt 12 e ∧ e + 4 ≤ n ∧ be16 pkt e = some qtype ∧
      (qtype = 1 ∨ qtype = 255) ∧ NameAt pkt 12 k ls ∧
      (lower ls = scoreboardLocal ∨ lower ls = sbLocal) ∧
      decode reply = some ⟨0, 0x8400, [], [⟨lower ls, 1, 0x8001, 120, serverIp⟩], [], []⟩ := by
  have hsized : Rust.Sized pkt := by
    rw [Rust.Sized, hpkt]
    decide
  obtain ⟨e, labels, hasks, hmem, hspelt, rfl⟩ := (sends_iff hsized (by omega) reply).1 h
  have hle := hasks.le
  obtain ⟨k, -, hk⟩ := id hspelt
  obtain ⟨ls, hls, hlower⟩ := hk.nameAt
  rw [lower_ourNames labels hmem] at hlower
  have hqtype : be16 pkt e = some (qtypeAt pkt e) := by
    obtain ⟨hi, -, hhi⟩ := Rust.Returns.index (show e < pkt.length by omega)
    obtain ⟨lo, -, hlo⟩ := Rust.Returns.index (show e + 1 < pkt.length by omega)
    rw [be16_some hhi hlo, ← qtypeAt_eq hhi hlo]
    rfl
  refine ⟨hasks.query, e, k, ls, _, hspelt.inPlace hsized hasks.name, hle, hqtype, hasks.qtype, hls,
    ?_, ?_⟩
  · rw [hlower]
    exact List.mem_pair.1 hmem
  · rw [hlower]
    exact decode_mdnsReply labels hmem

/-- A query for `ScoreBoard.local`, the second label of which stands behind the question. -/
def scoreBoardQuery : Bytes :=
  [0, 0, 0, 0, 0, 1, 0, 0, 0, 0, 0, 0] ++ 10 :: Rust.byteStr "ScoreBoard" ++ [0xC0, 29, 0, 1, 0, 1] ++
    5 :: Rust.byteStr "local" ++ [0]

theorem mdns_reply_sound_scoreBoard :
    (scoreBoardQuery ++ List.replicate 476 7).getD 2 0 &&& 0x80 = 0 ∧
    ∃ e k ls qtype, InPlace (scoreBoardQuery ++ List.replicate 476 7) 12 e ∧ e + 4 ≤ 36 ∧
      be16 (scoreBoardQuery ++ List.replicate 476 7) e = some qtype ∧ (qtype = 1 ∨ qtype = 255) ∧
      NameAt (scoreBoardQuery ++ List.replicate 476 7) 12 k ls ∧
      (lower ls = scoreboardLocal ∨ lower ls = sbLocal) ∧
      decode (mdnsReply scoreboardLocal) =
        some ⟨0, 0x8400, [], [⟨lower ls, 1, 0x8001, 120, serverIp⟩], [], []⟩ :=
  mdns_reply_sound (by decide +kernel) (by decide)
    ⟨⟨"A", "ScoreBoard.local", mdnsReply scoreboardLocal⟩, by decide +kernel, rfl⟩

end ScoreboardCtrl.Net
