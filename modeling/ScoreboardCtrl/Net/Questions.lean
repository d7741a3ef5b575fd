import ScoreboardCtrl.Net.Leftover

/-!
# Which questions the mDNS responder answers

`mdns_first_question_iff`: of the questions of a query only the first one counts.
-/

namespace ScoreboardCtrl.Net

open Lib (Rust)
open Lib.Dns

/-- The packet is a query with these questions, and whatever follows them. -/
structure WellFormedQuery (q : Bytes) (questions : List (ℕ × Question)) : Prop where
  query : q.getD 2 0 &&& 0x80 = 0
  count : be16 q 4 = some questions.length
  questions : QuestionsAt q 12 questions

/-- The question asks for the address of `labels`, in whatever case. -/
def AsksFor (x : Question) (labels : Name) : Prop :=
  (x.qtype = 1 ∨ x.qtype = 255) ∧ lower x.name = labels

/-- The name of the question has no pointer. -/
def Uncompressed (q : Bytes) (x : ℕ × Question) : Prop :=
  cut q x.1 (x.1 + (encodeName x.2.name).length) = encodeName x.2.name

/-! ### The first question -/

theorem qtypeAt_of_be16 {q : Bytes} {e t : ℕ} (h : be16 q e = some t) :
    qtypeAt q e = t ∧ e + 1 < q.length := by
  unfold be16 at h
  cases hhi : q[e]? with
  | none => rw [hhi] at h; cases h
  | some hi =>
    cases hlo : q[e + 1]? with
    | none => rw [hhi, hlo] at h; cases h
    | some lo =>
      rw [hhi, hlo] at h
      rw [← qtypeAt_eq hhi hlo]
      exact ⟨Option.some.inj h, (List.getElem?_eq_some_iff.1 hlo).1⟩

theorem mdnsReply_inj : ∀ labels ∈ ourNames, ∀ labels' ∈ ourNames,
    mdnsReply labels = mdnsReply labels' → labels = labels' := by decide +kernel

theorem length_ourNames : ∀ labels ∈ ourNames, labels.length = 2 := by decide

/-- A query gets the record for `labels` if and only if its first question asks for that. -/
theorem sends_iff_first {p x : Bytes} (hbuf : (p ++ x).length = 512) {first : ℕ × Question}
    {rest : List (ℕ × Question)} (hwf : WellFormedQuery p (first :: rest)) {labels : Name}
    (hours : labels ∈ ourNames) :
    Sends (p ++ x) p.length (mdnsReply labels) ↔ AsksFor first.2 labels := by
  have hsized : Rust.Sized (p ++ x) := by
    rw [Rust.Sized, hbuf]
    decide
  have hpsized : Rust.Sized p := by
    rw [List.length_append] at hbuf
    rw [Rust.Sized]
    omega
  have hle : p.length ≤ (p ++ x).length := by
    rw [List.length_append]
    exact Nat.le_add_right _ _
  obtain ⟨hquery, -, hquestions⟩ := hwf
  cases hquestions with
  | @cons _ e t c ls _ hname htype hclass _ =>
    obtain ⟨hqtype, -⟩ := qtypeAt_of_be16 htype
    obtain ⟨-, hend⟩ := qtypeAt_of_be16 hclass
    have hskips : Skips p 12 e := .of_inPlace hname.inPlace
    rw [sends_iff hsized hle]
    simp only [asksAddress_append]
    constructor
    · rintro ⟨e', labels', hasks, hmem, ⟨k, -, hk⟩, hreply⟩
      obtain rfl := mdnsReply_inj labels hours labels' hmem hreply
      obtain ⟨k', hls⟩ := hname.nameAt
      obtain ⟨ls', hls', hlower⟩ := hk.nameAt
      obtain ⟨-, rfl⟩ := (hls.append x).unique hls'
      have hsame : e' = e := by
        have h₁ := (skipName_iff hpsized).2 hasks.name
        rw [(skipName_iff hpsized).2 hskips] at h₁
        exact (Option.some.inj (Except.ok.inj h₁)).symm
      refine ⟨?_, hlower.trans (lower_ourNames labels hours)⟩
      have hkind := hasks.qtype
      rw [hsame, hqtype] at hkind
      exact hkind
    · rintro ⟨hkind, hlower⟩
      dsimp only at hkind hlower
      have hspells := (spells_of_wireName (Nat.le_refl 12) hname).append x
      rw [hlower] at hspells
      have hlen : ls.length = 2 := by
        rw [← length_ourNames labels hours, ← hlower, lower, List.length_map]
      refine ⟨e, labels, ⟨hquery, hskips, by omega, by rw [hqtype]; exact hkind⟩, hours,
        ⟨_, by omega, hspells⟩, rfl⟩

/-- **Only the first question counts.** Every uncompressed question for an address of ours is
answered exactly when each of them asks for what the first question asks for. -/
theorem mdns_first_question_iff {p x : Bytes} (hbuf : (p ++ x).length = 512)
    {questions : List (ℕ × Question)} (hwf : WellFormedQuery p questions) :
    (∀ y ∈ questions, ∀ labels ∈ ourNames, AsksFor y.2 labels → Uncompressed p y →
      Sends (p ++ x) p.length (mdnsReply labels)) ↔
    ∀ y ∈ questions, ∀ labels ∈ ourNames, AsksFor y.2 labels → Uncompressed p y →
      ∃ first, questions.head? = some first ∧ AsksFor first.2 labels := by
  cases questions with
  | nil => simp
  | cons first rest =>
    have hiff (labels : Name) (hours : labels ∈ ourNames) :
        Sends (p ++ x) p.length (mdnsReply labels) ↔
          ∃ first', (first :: rest).head? = some first' ∧ AsksFor first'.2 labels := by
      rw [sends_iff_first hbuf hwf hours]
      simp
    constructor
    · intro h y hy labels hours hasks hplain
      exact (hiff labels hours).1 (h y hy labels hours hasks hplain)
    · intro h y hy labels hours hasks hplain
      exact (hiff labels hours).2 (h y hy labels hours hasks hplain)

/-! ### A resolver that asks for the IPv6 address first -/

def queryHeader : Bytes := [0, 0, 0, 0, 0, 2, 0, 0, 0, 0, 0, 0]

/-- `AAAA scoreboard.local`, then `A scoreboard.local`. -/
def twoQuestions : Bytes :=
  queryHeader ++ encodeName scoreboardLocal ++
    ([0, 28, 0, 1] ++ encodeName scoreboardLocal ++ [0, 1, 0, 1])

def bothQuestions : List (ℕ × Question) :=
  [(12, ⟨scoreboardLocal, 28, 1⟩), (34, ⟨scoreboardLocal, 1, 1⟩)]

theorem wellFormed_twoQuestions : WellFormedQuery twoQuestions bothQuestions := by
  have hvalid : scoreboardLocal.Valid := by decide +kernel
  have hfirst : WireName twoQuestions 12 12 scoreboardLocal 30 :=
    wireName_encode hvalid 12 queryHeader _
  have hsplit : twoQuestions = (queryHeader ++ encodeName scoreboardLocal ++ [0, 28, 0, 1]) ++
      encodeName scoreboardLocal ++ [0, 1, 0, 1] := by
    simp only [twoQuestions, List.append_assoc]
  have hsecond : WireName twoQuestions 34 34 scoreboardLocal 52 := by
    rw [hsplit]
    exact wireName_encode hvalid 34 (queryHeader ++ encodeName scoreboardLocal ++ [0, 28, 0, 1]) _
  exact ⟨by decide +kernel, by decide +kernel, .cons hfirst (by decide +kernel) (by decide +kernel)
    (.cons hsecond (by decide +kernel) (by decide +kernel) .nil)⟩

theorem mdns_first_question_iff_two :
    (∀ y ∈ bothQuestions, ∀ labels ∈ ourNames, AsksFor y.2 labels → Uncompressed twoQuestions y →
      Sends (twoQuestions ++ List.replicate 456 0) twoQuestions.length (mdnsReply labels)) ↔
    ∀ y ∈ bothQuestions, ∀ labels ∈ ourNames, AsksFor y.2 labels → Uncompressed twoQuestions y →
      ∃ first, bothQuestions.head? = some first ∧ AsksFor first.2 labels :=
  mdns_first_question_iff (by decide +kernel) wellFormed_twoQuestions

/-- The second question is for our address and gets no answer. -/
theorem mdns_second_question_unanswered :
    ¬ ∀ (p x : Bytes) (questions : List (ℕ × Question)), (p ++ x).length = 512 →
      WellFormedQuery p questions → ∀ y ∈ questions, ∀ labels ∈ ourNames, AsksFor y.2 labels →
        Uncompressed p y → Sends (p ++ x) p.length (mdnsReply labels) := by
  intro h
  obtain ⟨answer, hturn, -⟩ := h twoQuestions (List.replicate 456 0) bothQuestions
    (by decide +kernel) wellFormed_twoQuestions (34, ⟨scoreboardLocal, 1, 1⟩) (by simp [bothQuestions])
    scoreboardLocal (by simp [ourNames]) ⟨.inl rfl, by decide +kernel⟩
    (show cut _ _ _ = _ by decide +kernel)
  have hquiet : mdnsTurn (twoQuestions ++ List.replicate 456 0) twoQuestions.length = .ok none := by
    decide +kernel
  rw [hquiet] at hturn
  cases hturn

end ScoreboardCtrl.Net
