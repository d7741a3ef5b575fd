import ScoreboardCtrl.Phone.Network

/-!
# Phones and the Pico converge, while no news is lost

`Owed` says that news of the scores is still certain to come to a phone: a message its stream has
not seen, an event under way, or a command in the channel or in a POST of its own that will move
the scores. A phone with an open stream shows the Pico's scores or is owed news (`NetInv`). Three
moves can break this, each by losing or undoing the last news there was: `NetAction.Fine` is the
condition under which they do not.

* `phones_converge` — in a run of fine moves, a phone with nothing under way shows the Pico's scores;
* `dropped_event_diverges` — two phones, one tap each, no failure and no poll.
-/

namespace ScoreboardCtrl

/-- News of the scores is certain to come. -/
def Owed (g : Shared) (channel : List Command) (st : Stream) (posts : List Inflight) : Prop :=
  st.seen ≠ some g.sent ∨ st.fifo ≠ [] ∨
    (∃ c ∈ channel, c.applyScores g.board.scores ≠ g.board.scores) ∨
    ∃ x ∈ posts, x.arrived = false ∧
      x.button.command.applyScores g.board.scores ≠ g.board.scores

instance (g : Shared) (channel : List Command) (st : Stream) (posts : List Inflight) :
    Decidable (Owed g channel st posts) := inferInstanceAs (Decidable (_ ∨ _ ∨ _ ∨ _))

section Fine

variable {ι : Type}

/-- The moves that lose no news. An event that comes while a score POST is in flight is ignored:
the page must show already what it says. A POST that fails is taken back, or a poll is applied: the
page must then show what the last event said. Or else, more news is owed. -/
def NetAction.Fine : NetAction ι → Net ι → Prop
  | .deliver i, s =>
    ∀ st ∈ (s.phone i).stream, ∀ e ∈ st.fifo.head?, 0 < (s.phone i).page.scoreInflight →
      (s.phone i).page.Shows e.scores ∨
        Owed s.pico s.channel ⟨st.fifo.tail, st.seen, some e⟩ (s.phone i).page.posts
  | .fail i k, s =>
    ∀ st ∈ (s.phone i).stream, ∀ x ∈ (s.phone i).page.posts[k]?,
      (∃ e ∈ st.heard, ((s.phone i).page.rollback x).Shows e.scores) ∨
        Owed s.pico s.channel st ((s.phone i).page.posts.eraseIdx k)
  | .applyPoll i k, s =>
    ∀ st ∈ (s.phone i).stream, ∀ data ∈ (s.phone i).polls[k]?.join,
      (s.phone i).page.scoreInflight = 0 →
        (∃ e ∈ st.heard, ((s.phone i).page.applyStatus data).Shows e.scores) ∨
          Owed s.pico s.channel st (s.phone i).page.posts
  | _, _ => True

instance (a : NetAction ι) (s : Net ι) : Decidable (a.Fine s) :=
  match a with
  | .deliver i => inferInstanceAs (Decidable (∀ st ∈ (s.phone i).stream, ∀ e ∈ st.fifo.head?,
      0 < (s.phone i).page.scoreInflight → (s.phone i).page.Shows e.scores ∨
        Owed s.pico s.channel ⟨st.fifo.tail, st.seen, some e⟩ (s.phone i).page.posts))
  | .fail i k => inferInstanceAs (Decidable (∀ st ∈ (s.phone i).stream,
      ∀ x ∈ (s.phone i).page.posts[k]?, (∃ e ∈ st.heard, ((s.phone i).page.rollback x).Shows e.scores) ∨
        Owed s.pico s.channel st ((s.phone i).page.posts.eraseIdx k)))
  | .applyPoll i k => inferInstanceAs (Decidable (∀ st ∈ (s.phone i).stream,
      ∀ data ∈ (s.phone i).polls[k]?.join, (s.phone i).page.scoreInflight = 0 →
        (∃ e ∈ st.heard, ((s.phone i).page.applyStatus data).Shows e.scores) ∨
          Owed s.pico s.channel st (s.phone i).page.posts))
  | .elapse _ | .visit _ | .request _ | .arriveStray _ | .tap _ _ | .arrive _ _ | .board
  | .succeed _ _ | .connect _ | .disconnect _ | .write _ | .poll _ | .answer _ _
  | .failPoll _ _ => .isTrue trivial

/-- The channel is empty, and phone `i` has an open stream and nothing under way. -/
structure Quiet (i : ι) (s : Net ι) : Prop where
  channel : s.channel = []
  inflight : (s.phone i).page.scoreInflight = 0
  polls : (s.phone i).polls = []
  delivered : ∃ st ∈ (s.phone i).stream, st.fifo = [] ∧ st.seen = some s.pico.sent

instance (i : ι) (s : Net ι) : Decidable (Quiet i s) :=
  decidable_of_iff (s.channel = [] ∧ (s.phone i).page.scoreInflight = 0 ∧
      (s.phone i).polls = [] ∧ ∃ st ∈ (s.phone i).stream, st.fifo = [] ∧ st.seen = some s.pico.sent)
    ⟨fun h => ⟨h.1, h.2.1, h.2.2.1, h.2.2.2⟩, fun h => ⟨h.1, h.2, h.3, h.4⟩⟩

end Fine

/-! ### The invariant -/

/-- The newest event written. -/
def Stream.newest (st : Stream) : Option StatusJson := st.fifo.getLast?.or st.heard

/-- With nothing unseen, the newest event says what the scores are. -/
structure Stream.Current (g : Shared) (st : Stream) : Prop where
  seen : ∀ n, st.seen = some n → n ≤ g.sent
  newest : st.seen = some g.sent → ∃ e, st.newest = some e ∧ e.scores = g.board.scores

structure PhoneInv (g : Shared) (channel : List Command) (ph : Phone) : Prop where
  inflight : ph.page.scoreInflight = ph.page.posts.length
  current : ∀ st, ph.stream = some st → st.Current g
  shows : ∀ st, ph.stream = some st →
    ph.page.Shows g.board.scores ∨ Owed g channel st ph.page.posts

structure NetInv {ι : Type} (s : Net ι) : Prop where
  announced : Announced s.pico
  home : s.pico.board.home ≤ 99
  away : s.pico.board.away ≤ 99
  phones : ∀ i, PhoneInv s.pico s.channel (s.phone i)

/-! ### The Pico moves -/

variable {g g' : Shared} {channel channel' : List Command} {ph : Phone} {st : Stream}

theorem Follows.scores (h : Follows g g') (hsent : g'.sent = g.sent) :
    g'.board.scores = g.board.scores := by
  have hvis := h.visible hsent
  exact Prod.ext (congrArg Visible.home hvis) (congrArg Visible.away hvis)

theorem Stream.Current.follows (h : st.Current g) (hg : Follows g g') : st.Current g' := by
  have hsent := hg.sent
  refine ⟨fun n hn => Nat.le_trans (h.seen n hn) hsent, fun hn => ?_⟩
  have hle := h.seen _ hn
  have hsame : g'.sent = g.sent := by omega
  rw [hg.scores hsame]
  exact h.newest (by rw [← hsame]; exact hn)

/-- What is unseen stays unseen, and new scores are unseen. -/
theorem Stream.Current.unseen (h : st.Current g) (hg : Follows g g')
    (hnew : st.seen ≠ some g.sent ∨ g'.board.scores ≠ g.board.scores) :
    st.seen ≠ some g'.sent := by
  intro hn
  have hle := h.seen _ hn
  have hsent := hg.sent
  have hsame : g'.sent = g.sent := by omega
  rcases hnew with hunseen | hscores
  · exact hunseen (by rw [← hsame]; exact hn)
  · exact hscores (hg.scores hsame)

/-- The Pico moves and the channel changes; a command is gone from it only if it moved the scores
or could not. -/
theorem PhoneInv.follows (h : PhoneInv g channel ph) (hg : Follows g g')
    (hchannel : g'.board.scores = g.board.scores → ∀ c ∈ channel,
      c.applyScores g.board.scores ≠ g.board.scores → c ∈ channel') : PhoneInv g' channel' ph where
  inflight := h.inflight
  current st hst := (h.current st hst).follows hg
  shows st hst := by
    have hcur := h.current st hst
    by_cases hsame : g'.board.scores = g.board.scores
    · rw [Owed, hsame]
      rcases h.shows st hst with hshows | hunseen | hfifo | ⟨c, hc, heff⟩ | hpost
      · exact .inl hshows
      · exact .inr (.inl (hcur.unseen hg (.inl hunseen)))
      · exact .inr (.inr (.inl hfifo))
      · exact .inr (.inr (.inr (.inl ⟨c, hchannel hsame c hc heff, heff⟩)))
      · exact .inr (.inr (.inr (.inr hpost)))
    · exact .inr (.inl (hcur.unseen hg (.inr hsame)))

/-! ### The phone moves -/

theorem Owed.posts {posts posts' : List Inflight} (h : Owed g channel st posts)
    (hposts : ∀ x ∈ posts, x.arrived = false → x ∈ posts') : Owed g channel st posts' := by
  rcases h with hunseen | hfifo | hchannel | ⟨x, hx, harrived, heff⟩
  · exact .inl hunseen
  · exact .inr (.inl hfifo)
  · exact .inr (.inr (.inl hchannel))
  · exact .inr (.inr (.inr ⟨x, hposts x hx harrived, harrived, heff⟩))

/-- The last event delivered says what the scores are, or there is more to come. -/
theorem Stream.Current.last (h : st.Current g) (channel : List Command) (posts : List Inflight)
    {e : StatusJson} (hheard : st.heard = some e) : e.scores = g.board.scores ∨ Owed g channel st posts := by
  by_cases hseen : st.seen = some g.sent
  · by_cases hfifo : st.fifo = []
    · obtain ⟨e', hnewest, hscores⟩ := h.newest hseen
      rw [Stream.newest, hfifo, hheard] at hnewest
      cases hnewest
      exact .inl hscores
    · exact .inr (.inr (.inl hfifo))
  · exact .inr (.inl hseen)

/-- The page shows what the last event said: then it shows the scores, or is owed news. -/
theorem shows_or_owed {page : Page} {posts : List Inflight} {e : StatusJson} (hcur : st.Current g)
    (hheard : st.heard = some e) (hshows : page.Shows e.scores) :
    page.Shows g.board.scores ∨ Owed g channel st posts := by
  rcases hcur.last channel posts hheard with hsame | howed
  · rw [← hsame]
    exact .inl hshows
  · exact .inr howed

/-- What the page shows after it applied a snapshot of scores in range. -/
theorem Page.applyStatus_shows {p : Page} {data : StatusJson} (h : p.scoreInflight = 0)
    (hhome : data.scores.1 ≤ 99) (haway : data.scores.2 ≤ 99) :
    (p.applyStatus data).Shows data.scores := by
  rw [applyStatus, if_pos h]
  exact ⟨clampScore_of_le hhome, clampScore_of_le haway⟩

theorem applyStatus_shows_or_owed {p : Page} {posts : List Inflight} {e : StatusJson}
    (hcur : st.Current g) (hheard : st.heard = some e) (h : p.scoreInflight = 0)
    (hhome : g.board.home ≤ 99) (haway : g.board.away ≤ 99) :
    (p.applyStatus e).Shows g.board.scores ∨ Owed g channel st posts := by
  rcases hcur.last channel posts hheard with hsame | howed
  · have hshows : (p.applyStatus e).Shows e.scores :=
      Page.applyStatus_shows h (by rw [hsame]; exact hhome) (by rw [hsame]; exact haway)
    rw [hsame] at hshows
    exact .inl hshows
  · exact .inr howed

@[simp] theorem Page.applyStatus_posts (p : Page) (data : StatusJson) :
    (p.applyStatus data).posts = p.posts := by
  unfold applyStatus
  split <;> rfl

@[simp] theorem Page.applyStatus_scoreInflight (p : Page) (data : StatusJson) :
    (p.applyStatus data).scoreInflight = p.scoreInflight := by
  unfold applyStatus
  split <;> rfl

theorem Page.setScore_posts (p : Page) (team : Team) (x : ℤ) :
    (p.setScore team x).posts = p.posts := by cases team <;> rfl

theorem Page.setScore_scoreInflight (p : Page) (team : Team) (x : ℤ) :
    (p.setScore team x).scoreInflight = p.scoreInflight := by cases team <;> rfl

theorem Page.rollback_posts (p : Page) (x : Inflight) : (p.rollback x).posts = p.posts := by
  unfold rollback
  split
  · exact setScore_posts ..
  · rfl

theorem Page.rollback_scoreInflight (p : Page) (x : Inflight) :
    (p.rollback x).scoreInflight = p.scoreInflight := by
  unfold rollback
  split
  · exact setScore_scoreInflight ..
  · rfl

/-- A tap that does something puts one POST in flight. -/
theorem Page.tap_cases (button : ScoreButton) (p : Page) : p.tap button = p ∨
    (p.tap button).scoreInflight = p.scoreInflight + 1 ∧
      (p.tap button).posts = p.posts ++ [⟨button, p.home, p.away, false⟩] := by
  unfold tap
  split
  · next team delta _ =>
    simp only
    split
    · exact .inl rfl
    · refine .inr ⟨?_, ?_⟩
      · exact congrArg (· + 1) (setScore_scoreInflight ..)
      · exact congrArg (· ++ _) (setScore_posts ..)
  · exact .inr ⟨rfl, rfl⟩

/-- `next === cur`: the tap does nothing. -/
theorem Page.tap_same {button : ScoreButton} {team : Team} {delta : ℤ} {p : Page}
    (hbind : button.bindScore = some (team, delta))
    (hsame : clampScore (p.score team + delta) = p.score team) : p.tap button = p := by
  simp only [tap, hbind, hsame, if_true]

/-- A tap on a page that shows the scores moves them, or leaves the page as they are. -/
theorem Page.tap_effective {scores : ℕ × ℕ} {p : Page} (button : ScoreButton)
    (h : p.Shows scores) (hhome : scores.1 ≤ 99) (haway : scores.2 ≤ 99) :
    (p.tap button).Shows scores ∨ button.command.applyScores scores ≠ scores := by
  obtain ⟨home, away⟩ := scores
  obtain ⟨hh, ha⟩ := h
  simp only at hh ha hhome haway
  cases button with
  | homeInc =>
    by_cases hmax : home < 99
    · exact .inr (by simp [ScoreButton.command, Command.applyScores, scoreMax, hmax])
    · refine .inl ?_
      have hsame : clampScore (p.home + 1) = p.home := by unfold clampScore; omega
      have htap : p.tap .homeInc = p :=
        tap_same (show ScoreButton.homeInc.bindScore = some (.home, 1) from rfl) hsame
      rw [htap]
      exact ⟨hh, ha⟩
  | homeDec =>
    by_cases hmin : 0 < home
    · exact .inr (by simp [ScoreButton.command, Command.applyScores]; omega)
    · refine .inl ?_
      have hsame : clampScore (p.home + -1) = p.home := by unfold clampScore; omega
      have htap : p.tap .homeDec = p :=
        tap_same (show ScoreButton.homeDec.bindScore = some (.home, -1) from rfl) hsame
      rw [htap]
      exact ⟨hh, ha⟩
  | awayInc =>
    by_cases hmax : away < 99
    · exact .inr (by simp [ScoreButton.command, Command.applyScores, scoreMax, hmax])
    · refine .inl ?_
      have hsame : clampScore (p.away + 1) = p.away := by unfold clampScore; omega
      have htap : p.tap .awayInc = p :=
        tap_same (show ScoreButton.awayInc.bindScore = some (.away, 1) from rfl) hsame
      rw [htap]
      exact ⟨hh, ha⟩
  | awayDec =>
    by_cases hmin : 0 < away
    · exact .inr (by simp [ScoreButton.command, Command.applyScores]; omega)
    · refine .inl ?_
      have hsame : clampScore (p.away + -1) = p.away := by unfold clampScore; omega
      have htap : p.tap .awayDec = p :=
        tap_same (show ScoreButton.awayDec.bindScore = some (.away, -1) from rfl) hsame
      rw [htap]
      exact ⟨hh, ha⟩
  | scoresZero =>
    by_cases hzero : (0, 0) = (home, away)
    · cases hzero
      exact .inl ⟨rfl, rfl⟩
    · exact .inr hzero

/-- A tap: the page still shows the scores, or the new POST will move them. -/
theorem PhoneInv.tap (h : PhoneInv g channel ph) (hhome : g.board.home ≤ 99)
    (haway : g.board.away ≤ 99) (button : ScoreButton) :
    PhoneInv g channel { ph with page := ph.page.tap button } := by
  rcases ph.page.tap_cases button with hsame | ⟨hinflight, hposts⟩
  · rw [hsame]
    exact h
  · refine ⟨?_, h.current, fun st hst => ?_⟩
    · rw [hinflight, hposts, List.length_append, h.inflight]
      rfl
    · rcases h.shows st hst with hshows | howed
      · rcases ph.page.tap_effective button hshows hhome haway with hstill | heff
        · exact .inl hstill
        · refine .inr (.inr (.inr (.inr ⟨⟨button, ph.page.home, ph.page.away, false⟩, ?_, rfl, heff⟩)))
          rw [hposts]
          exact List.mem_append_right _ (List.mem_singleton_self _)
      · refine .inr (howed.posts fun x hx _ => ?_)
        rw [hposts]
        exact List.mem_append_left _ hx

/-- A POST of the phone is processed: its command is in the channel now. -/
theorem PhoneInv.arrive (h : PhoneInv g channel ph) {k : ℕ} {x : Inflight}
    (hk : ph.page.posts[k]? = some x) :
    PhoneInv g (channel ++ [x.button.command]) { ph with page := ph.page.arrive k x } where
  inflight := h.inflight.trans (List.length_set ..).symm
  current := h.current
  shows st hst := by
    rcases h.shows st hst with hshows | hunseen | hfifo | ⟨c, hc, heff⟩ | ⟨y, hy, harrived, heff⟩
    · exact .inl hshows
    · exact .inr (.inl hunseen)
    · exact .inr (.inr (.inl hfifo))
    · exact .inr (.inr (.inr (.inl ⟨c, List.mem_append_left _ hc, heff⟩)))
    · obtain ⟨j, hj⟩ := List.mem_iff_getElem?.1 hy
      by_cases hjk : k = j
      · -- the POST that news was owed from is the one that arrives
        subst hjk
        rw [hk] at hj
        cases hj
        exact .inr (.inr (.inr (.inl
          ⟨_, List.mem_append_right _ (List.mem_singleton_self _), heff⟩)))
      · refine .inr (.inr (.inr (.inr ⟨y, List.mem_iff_getElem?.2 ⟨j, ?_⟩, harrived, heff⟩)))
        show (ph.page.posts.set k _)[j]? = some y
        rw [List.getElem?_set_ne hjk]
        exact hj

theorem Page.settle_inflight {p : Page} {k : ℕ} {x : Inflight}
    (h : p.scoreInflight = p.posts.length) (hk : p.posts[k]? = some x) :
    (p.settle k).scoreInflight = (p.settle k).posts.length := by
  have hlt : k < p.posts.length := (List.getElem?_eq_some_iff.1 hk).1
  show p.scoreInflight - 1 = (p.posts.eraseIdx k).length
  rw [h, List.length_eraseIdx_of_lt hlt]

/-- A POST is settled: the page may have changed, but shows the scores or is owed news. -/
theorem PhoneInv.settle (h : PhoneInv g channel ph) {k : ℕ} {x : Inflight}
    (hk : ph.page.posts[k]? = some x) {page : Page} (hpage : page.posts = ph.page.posts)
    (hinflight : page.scoreInflight = ph.page.scoreInflight)
    (hshows : ∀ st, ph.stream = some st →
      page.Shows g.board.scores ∨ Owed g channel st (ph.page.posts.eraseIdx k)) :
    PhoneInv g channel { ph with page := page.settle k } where
  inflight := by
    refine Page.settle_inflight ?_ (by rw [hpage]; exact hk)
    rw [hinflight, hpage]
    exact h.inflight
  current := h.current
  shows st hst := by
    show page.Shows _ ∨ Owed g channel st (page.posts.eraseIdx k)
    rw [hpage]
    exact hshows st hst

theorem PhoneInv.succeed (h : PhoneInv g channel ph) {k : ℕ} {x : Inflight}
    (hk : ph.page.posts[k]? = some x) (hx : x.arrived = true) :
    PhoneInv g channel { ph with page := ph.page.settle k } := by
  refine h.settle hk rfl rfl fun st hst => (h.shows st hst).imp_right ?_
  intro howed
  refine howed.posts ?_
  intro y hy hyarrived
  obtain ⟨j, hj⟩ := List.mem_iff_getElem?.1 hy
  refine List.mem_eraseIdx_iff_getElem?.2 ⟨j, ?_, hj⟩
  rintro rfl
  rw [hk] at hj
  cases hj
  rw [hx] at hyarrived
  exact absurd hyarrived (by decide)

theorem PhoneInv.fail (h : PhoneInv g channel ph) {k : ℕ} {x : Inflight}
    (hk : ph.page.posts[k]? = some x)
    (hfine : ∀ st, ph.stream = some st →
      (∃ e, st.heard = some e ∧ (ph.page.rollback x).Shows e.scores) ∨
        Owed g channel st (ph.page.posts.eraseIdx k)) :
    PhoneInv g channel { ph with page := (ph.page.rollback x).settle k } := by
  refine h.settle hk (Page.rollback_posts ..) (Page.rollback_scoreInflight ..) ?_
  intro st hst
  rcases hfine st hst with ⟨e, hheard, hshows⟩ | howed
  · exact shows_or_owed (h.current st hst) hheard hshows
  · exact .inr howed

theorem Stream.Current.deliver {e : StatusJson} {rest : List StatusJson} {seen : Option ℕ}
    {heard : Option StatusJson} (h : Stream.Current g ⟨e :: rest, seen, heard⟩) :
    Stream.Current g ⟨rest, seen, some e⟩ := by
  refine ⟨h.seen, fun hseen => ?_⟩
  have hnewest := h.newest hseen
  rw [Stream.newest, List.getLast?_cons] at hnewest
  rw [Stream.newest]
  cases hlast : rest.getLast? with
  | none =>
    rw [hlast] at hnewest
    exact hnewest
  | some e' =>
    rw [hlast] at hnewest
    exact hnewest

theorem PhoneInv.deliver (h : PhoneInv g channel ph) (hhome : g.board.home ≤ 99)
    (haway : g.board.away ≤ 99) {e : StatusJson} {rest : List StatusJson} {seen : Option ℕ}
    {heard : Option StatusJson} (hst : ph.stream = some ⟨e :: rest, seen, heard⟩)
    (hfine : 0 < ph.page.scoreInflight →
      ph.page.Shows e.scores ∨ Owed g channel ⟨rest, seen, some e⟩ ph.page.posts) :
    PhoneInv g channel
      { ph with page := ph.page.applyStatus e, stream := some ⟨rest, seen, some e⟩ } := by
  have hcur := (h.current _ hst).deliver
  refine ⟨?_, by rintro _ ⟨⟩; exact hcur, ?_⟩
  · simp only [Page.applyStatus_scoreInflight, Page.applyStatus_posts]
    exact h.inflight
  · rintro _ ⟨⟩
    simp only [Page.applyStatus_posts]
    by_cases hidle : ph.page.scoreInflight = 0
    · exact applyStatus_shows_or_owed hcur rfl hidle hhome haway
    · rw [Page.applyStatus, if_neg hidle]
      rcases hfine (Nat.pos_of_ne_zero hidle) with hshows | howed
      · exact shows_or_owed hcur rfl hshows
      · exact .inr howed

theorem PhoneInv.applyPoll (h : PhoneInv g channel ph) {data : StatusJson}
    {polls : List (Option StatusJson)}
    (hfine : ∀ st, ph.stream = some st → ph.page.scoreInflight = 0 →
      (∃ e, st.heard = some e ∧ (ph.page.applyStatus data).Shows e.scores) ∨
        Owed g channel st ph.page.posts) :
    PhoneInv g channel { ph with page := ph.page.applyStatus data, polls := polls } := by
  refine ⟨?_, h.current, fun st hst => ?_⟩
  · simp only [Page.applyStatus_scoreInflight, Page.applyStatus_posts]
    exact h.inflight
  · simp only [Page.applyStatus_posts]
    by_cases hidle : ph.page.scoreInflight = 0
    · rcases hfine st hst hidle with ⟨e, hheard, hshows⟩ | howed
      · exact shows_or_owed (h.current st hst) hheard hshows
      · exact .inr howed
    · rw [Page.applyStatus, if_neg hidle]
      exact h.shows st hst

/-! ### Every move keeps the invariant -/

section System

variable {ι : Type} {s s' : Net ι} {i : ι} {rel : Release}

theorem NetInv.visit (h : NetInv s) (sec : Section) (hother : sec.ofScores = false)
    (hrange : sec.inRange) : NetInv { s with pico := (sec.run s.now s.pico).2 } := by
  have hrun := Section.run_announces hrange h.announced s.now
  have hscores := Section.run_other hother s.now s.pico
  refine ⟨hrun.1, ?_, ?_, fun i => (h.phones i).follows hrun.2 fun _ _ hc _ => hc⟩
  · exact Nat.le_trans (Nat.le_of_eq (congrArg Prod.fst hscores)) h.home
  · exact Nat.le_trans (Nat.le_of_eq (congrArg Prod.snd hscores)) h.away

theorem Command.runOn_spec (c : Command) (now : ℕ) (hg : Announced g) :
    Announces g (c.runOn now g) ∧ (c.runOn now g).board.scores = c.applyScores g.board.scores := by
  unfold runOn
  split
  · next sec hsec =>
    have hrange : sec.inRange := by cases c <;> cases hsec <;> trivial
    exact ⟨Section.run_announces hrange hg now, Section.run_scores hsec now g⟩
  · next hnone =>
    refine ⟨⟨hg, .refl g⟩, ?_⟩
    cases c <;> first | rfl | cases hnone

theorem NetInv.board (h : NetInv s) {cmd : Command} {channel : List Command}
    (hch : s.channel = cmd :: channel) :
    NetInv { s with pico := cmd.runOn s.now s.pico, channel := channel } := by
  obtain ⟨hrun, hscores⟩ := cmd.runOn_spec s.now h.announced
  have hle := cmd.applyScores_le (s := s.pico.board.scores) ⟨h.home, h.away⟩
  rw [← hscores] at hle
  refine ⟨hrun.1, hle.1, hle.2, fun i => (h.phones i).follows hrun.2 fun hsame c hc heff => ?_⟩
  rw [hch, List.mem_cons] at hc
  rcases hc with rfl | hc
  · exact absurd (hscores.symm.trans hsame) heff
  · exact hc

theorem NetInv.send (h : NetInv s) (cmd : Command) (strays : List Command) :
    NetInv { s with channel := s.channel ++ [cmd], strays := strays } :=
  ⟨h.announced, h.home, h.away, fun i => (h.phones i).follows (.refl s.pico)
    fun _ _ hc _ => List.mem_append_left _ hc⟩

variable [DecidableEq ι]

theorem NetInv.setPhone (h : NetInv s) (hph : PhoneInv s.pico s.channel ph) :
    NetInv (s.setPhone i ph) where
  announced := h.announced
  home := h.home
  away := h.away
  phones := (Function.forall_update_iff s.phone
    (p := fun _ ph => PhoneInv s.pico s.channel ph)).2 ⟨hph, fun j _ => h.phones j⟩

theorem PhoneInv.write (h : PhoneInv g channel ph) (hg : Follows g g') {body : StatusJson}
    (hbody : body.scores = g'.board.scores) :
    PhoneInv g' channel { ph with stream := some (st.written g.sent body) } where
  inflight := h.inflight
  current := by
    rintro _ ⟨⟩
    refine ⟨?_, fun _ => ⟨body, ?_, hbody⟩⟩
    · rintro _ ⟨⟩
      exact hg.sent
    · rw [Stream.newest, Stream.written, List.getLast?_concat]
      rfl
  shows := by
    rintro _ ⟨⟩
    exact .inr (.inr (.inl (by simp [Stream.written])))

/-- **A fine move keeps the invariant.** -/
theorem NetAction.apply_inv {a : NetAction ι} (h : NetInv s) (hfine : a.Fine s)
    (ha : a.apply rel s = some s') : NetInv s' := by
  cases a with
  | elapse us =>
    cases ha
    exact ⟨h.announced, h.home, h.away, h.phones⟩
  | visit sec =>
    simp only [apply] at ha
    split at ha
    · next hsec =>
      cases ha
      exact h.visit sec hsec.1 hsec.2
    · cases ha
  | request cmd =>
    cases ha
    exact ⟨h.announced, h.home, h.away, h.phones⟩
  | arriveStray k =>
    simp only [apply] at ha
    split at ha
    · obtain ⟨cmd, -, rfl⟩ := Option.map_eq_some_iff.1 ha
      exact h.send cmd _
    · cases ha
  | tap i button =>
    cases ha
    exact h.setPhone ((h.phones i).tap h.home h.away button)
  | arrive i k =>
    simp only [apply] at ha
    split at ha
    · next x hk =>
      split at ha
      · cases ha
        have hsend := h.send x.button.command s.strays
        exact hsend.setPhone ((h.phones i).arrive hk)
      · cases ha
    · cases ha
  | board =>
    simp only [apply] at ha
    split at ha
    · next cmd channel hch =>
      cases ha
      exact h.board hch
    · cases ha
  | succeed i k =>
    simp only [apply] at ha
    split at ha
    · next x hk =>
      split at ha
      · next hx =>
        cases ha
        exact h.setPhone ((h.phones i).succeed hk hx)
      · cases ha
    · cases ha
  | fail i k =>
    simp only [apply] at ha
    split at ha
    · next x hk =>
      cases ha
      have hset := h.setPhone (i := i) ((h.phones i).fail hk fun st hst => hfine st hst x hk)
      exact ⟨hset.announced, hset.home, hset.away, hset.phones⟩
    · cases ha
  | connect i =>
    simp only [apply] at ha
    split at ha
    · cases ha
    · cases ha
      refine h.setPhone ⟨(h.phones i).inflight, ?_, ?_⟩
      · rintro _ ⟨⟩
        exact ⟨nofun, nofun⟩
      · rintro _ ⟨⟩
        exact .inr (.inl nofun)
  | disconnect i =>
    cases ha
    exact h.setPhone ⟨(h.phones i).inflight, nofun, nofun⟩
  | write i =>
    simp only [apply] at ha
    obtain ⟨st, -, rfl⟩ := Option.map_eq_some_iff.1 ha
    have hvisit := h.visit .status rfl trivial
    have hrange : Section.status.inRange := trivial
    have hrun := Section.run_announces hrange h.announced s.now
    exact hvisit.setPhone ((h.phones i).write hrun.2 rfl)
  | deliver i =>
    simp only [apply] at ha
    split at ha
    · next e rest seen heard hst =>
      cases ha
      exact h.setPhone ((h.phones i).deliver h.home h.away hst (hfine _ hst e rfl))
    · cases ha
  | poll i =>
    cases ha
    exact h.setPhone ⟨(h.phones i).inflight, (h.phones i).current, (h.phones i).shows⟩
  | answer i k =>
    simp only [apply] at ha
    split at ha
    · cases ha
      have hvisit := h.visit .status rfl trivial
      exact hvisit.setPhone ⟨(hvisit.phones i).inflight, (hvisit.phones i).current,
        (hvisit.phones i).shows⟩
    · cases ha
  | applyPoll i k =>
    simp only [apply] at ha
    split at ha
    · next data hk =>
      cases ha
      refine h.setPhone ((h.phones i).applyPoll fun st hst => hfine st hst data ?_)
      rw [hk]
      rfl
    · cases ha
  | failPoll i k =>
    cases ha
    exact h.setPhone ⟨(h.phones i).inflight, (h.phones i).current, (h.phones i).shows⟩

omit [DecidableEq ι] in
theorem Net.boot_inv : NetInv (Net.boot (ι := ι)) :=
  ⟨Shared.boot_announced, Nat.zero_le 99, Nat.zero_le 99, fun _ => ⟨rfl, nofun, nofun⟩⟩

omit [DecidableEq ι] in
/-- With nothing under way, no news is owed. -/
theorem NetInv.quiet (h : NetInv s) (hq : Quiet i s) : (s.phone i).page.Shows s.pico.board.scores := by
  obtain ⟨st, hst, hfifo, hseen⟩ := hq.delivered
  have hposts : (s.phone i).page.posts = [] := by
    rw [← List.length_eq_zero_iff, ← (h.phones i).inflight]
    exact hq.inflight
  rcases (h.phones i).shows st hst with hshows | hunseen | hnonempty | ⟨c, hc, -⟩ | ⟨x, hx, -⟩
  · exact hshows
  · exact absurd hseen hunseen
  · exact absurd hfifo hnonempty
  · rw [hq.channel] at hc
    cases hc
  · rw [hposts] at hx
    cases hx

/-- **Phones and the Pico converge** in every run that loses no news: any number of phones, any
order of taps, POSTs and their outcomes, events, polls and reconnections. -/
theorem phones_converge {as : List (NetAction ι)}
    (hfine : (netSystem ι rel).Guarded NetAction.Fine as Net.boot)
    (hrun : (netSystem ι rel).run as Net.boot = some s) (hq : Quiet i s) :
    (s.phone i).page.Shows s.pico.board.scores := by
  have hstep : ∀ (a : NetAction ι) (s s' : Net ι), NetInv s → a.Fine s →
      (netSystem ι rel).step a s = some s' → NetInv s' :=
    fun a s s' h hfine ha => NetAction.apply_inv h hfine ha
  have hinv : NetInv s := Lib.Lts.inv_run hstep Net.boot_inv hfine hrun
  exact hinv.quiet hq

end System

/-! ### Two phones -/

/-- Both phones are connected; each taps + once; the first phone is told of both taps before its
own POST is answered. -/
def twoTaps : List (NetAction Bool) :=
  [.connect false, .write false, .deliver false, .connect true, .write true, .deliver true,
    .tap false .homeInc, .tap true .homeInc,
    .arrive false 0, .board, .write false, .deliver false,
    .arrive true 0, .board, .write false, .deliver false, .succeed false 0]

/-- The first phone ignored the event of the other's tap, and nothing more comes. -/
theorem dropped_event_diverges :
    ¬ ∀ (as : List (NetAction Bool)) (s : Net Bool),
      (netSystem Bool firstRelease).run as Net.boot = some s →
        ∀ i, Quiet i s → (s.phone i).page.Shows s.pico.board.scores := by
  intro hall
  have hend : ((netSystem Bool firstRelease).run twoTaps Net.boot).any
      (fun s => decide (Quiet false s ∧ ¬ (s.phone false).page.Shows s.pico.board.scores)) := by
    decide
  obtain ⟨s, hrun, hquiet, hbad⟩ := Lib.Lts.run_any hend
  exact hbad (hall twoTaps s hrun false hquiet)

/-- A phone connects, taps +, and hears of its own tap after the answer to its POST. -/
def oneTap : List (NetAction Bool) :=
  [.connect false, .write false, .deliver false, .tap false .homeInc, .arrive false 0, .board,
    .write false, .succeed false 0, .deliver false]

theorem phones_converge_one_tap :
    ∃ s : Net Bool, (netSystem Bool firstRelease).run oneTap Net.boot = some s ∧
      s.pico.board.scores = (1, 0) ∧ (s.phone false).page.Shows s.pico.board.scores := by
  have hend : ((netSystem Bool firstRelease).run oneTap Net.boot).any
      (fun s => decide (s.pico.board.scores = (1, 0) ∧ Quiet false s)) := by decide
  obtain ⟨s, hrun, hscores, hquiet⟩ := Lib.Lts.run_any hend
  exact ⟨s, hrun, hscores, phones_converge (by decide) hrun hquiet⟩

end ScoreboardCtrl
