import ScoreboardCtrl.Phone.Converge

/-!
# Lost news stays lost

The converse of `phones_converge`: after a move that is not fine, everything under way can come to
its end without the phone ever being told, and it then shows wrong scores for good
(`lost_news_diverges`). So the condition on the moves leaves out no run but those.
-/

namespace ScoreboardCtrl

/-! ### Commands that cannot move the scores -/

theorem Shared.publish_same {g : Shared} (h : g.board.announced = g.board.visible) :
    g.publish = g := by
  simp only [publish, h, ne_eq, not_true_eq_false, if_false]

theorem Section.score_same {may : ScoreboardState → Bool}
    {move : ScoreboardState → ScoreboardState} {g : Shared} (h : may g.board = false) :
    (score may move g).2 = g := by
  simp only [score, h, Bool.false_eq_true, if_false]

/-- A command that does not move the scores does nothing at all. -/
theorem Command.runOn_same {c : Command} {g : Shared} (hg : Announced g) (now : ℕ)
    (h : c.applyScores g.board.scores = g.board.scores) : c.runOn now g = g := by
  have hhome := congrArg Prod.fst h
  have haway := congrArg Prod.snd h
  cases c with
  | homeInc =>
    refine Section.score_same (decide_eq_false fun hlt => ?_)
    have hmoved : g.board.scores.1 + 1 = g.board.scores.1 := (if_pos hlt).symm.trans hhome
    omega
  | homeDec =>
    refine Section.score_same (decide_eq_false fun hlt => ?_)
    have hmoved : g.board.home - 1 = g.board.home := hhome
    omega
  | awayInc =>
    refine Section.score_same (decide_eq_false fun hlt => ?_)
    have hmoved : g.board.scores.2 + 1 = g.board.scores.2 := (if_pos hlt).symm.trans haway
    omega
  | awayDec =>
    refine Section.score_same (decide_eq_false fun hlt => ?_)
    have hmoved : g.board.away - 1 = g.board.away := haway
    omega
  | scoresZero =>
    have hboard : ∀ b : ScoreboardState, 0 = b.home → 0 = b.away →
        { b with home := 0, away := 0 } = b := by
      rintro ⟨⟩ ⟨⟩ ⟨⟩
      rfl
    show Shared.publish { g with board := { g.board with home := 0, away := 0 } } = g
    rw [hboard g.board hhome haway]
    exact Shared.publish_same hg.announced
  | startStop | start | stop | reset | ledOn | ledOff | setTimer _ _ | aux => rfl

/-! ### The end of everything under way -/

section System

variable {ι : Type} {s s' : Net ι} {i : ι}

/-- Phone `i` shows wrong scores, and no news is owed. -/
structure Stale (i : ι) (s : Net ι) : Prop where
  announced : Announced s.pico
  inflight : (s.phone i).page.scoreInflight = (s.phone i).page.posts.length
  wrong : ¬ (s.phone i).page.Shows s.pico.board.scores
  owed : ∃ st ∈ (s.phone i).stream, ¬ Owed s.pico s.channel st (s.phone i).page.posts

/-- What is not owed: nothing unseen or under way, and only commands that cannot move the scores. -/
theorem not_owed {g : Shared} {channel : List Command} {st : Stream} {posts : List Inflight} :
    ¬ Owed g channel st posts ↔ st.seen = some g.sent ∧ st.fifo = [] ∧
      (∀ c ∈ channel, c.applyScores g.board.scores = g.board.scores) ∧
      ∀ x ∈ posts, x.arrived = false →
        x.button.command.applyScores g.board.scores = g.board.scores := by
  unfold Owed
  push Not
  rfl

variable [DecidableEq ι]

@[simp] theorem Net.setPhone_self (s : Net ι) (i : ι) (ph : Phone) :
    (s.setPhone i ph).phone i = ph := Function.update_self ..

theorem Stale.update (hg : Announced s.pico) {ph : Phone} {channel strays : List Command}
    (hinflight : ph.page.scoreInflight = ph.page.posts.length)
    (hwrong : ¬ ph.page.Shows s.pico.board.scores)
    (howed : ∃ st ∈ ph.stream, ¬ Owed s.pico channel st ph.page.posts) :
    Stale i { s.setPhone i ph with channel := channel, strays := strays } := by
  have hself : ({ s.setPhone i ph with channel := channel, strays := strays } : Net ι).phone i = ph :=
    Function.update_self ..
  refine ⟨hg, ?_, ?_, ?_⟩
  · rw [hself]
    exact hinflight
  · rw [hself]
    exact hwrong
  · rw [hself]
    exact howed

/-- What is in the channel runs out and does nothing. -/
theorem Stale.drain (h : Stale i s) (rel : Release) : ∃ s', (netSystem ι rel).Reach s s' ∧ Stale i s' ∧
    s'.channel = [] ∧ s'.phone = s.phone := by
  generalize hch : s.channel = channel
  induction channel generalizing s with
  | nil => exact ⟨s, .refl s, h, hch, rfl⟩
  | cons cmd channel ih =>
    obtain ⟨st, hst, howed⟩ := h.owed
    obtain ⟨hseen, hfifo, hcommands, hposts⟩ := not_owed.1 howed
    rw [hch] at hcommands
    have hstep : (netSystem ι rel).step .board s = some { s with channel := channel } := by
      show NetAction.apply rel .board s = _
      rw [NetAction.apply, hch]
      simp only [Command.runOn_same h.announced s.now (hcommands cmd List.mem_cons_self)]
    have hstale : Stale i { s with channel := channel } := by
      refine ⟨h.announced, h.inflight, h.wrong, st, hst, not_owed.2 ⟨hseen, hfifo, ?_, hposts⟩⟩
      exact fun c hc => hcommands c (List.mem_cons_of_mem _ hc)
    obtain ⟨s', hreach, hs', hempty, hphone⟩ := ih hstale rfl
    exact ⟨s', hreach.head hstep, hs', hempty, hphone⟩

/-- The oldest POST of the phone arrives, if it has not, and its command does nothing. -/
theorem Stale.arrive (h : Stale i s) (rel : Release) (hch : s.channel = []) {x : Inflight}
    {rest : List Inflight}
    (hposts : (s.phone i).page.posts = x :: rest) :
    ∃ s', (netSystem ι rel).Reach s s' ∧ Stale i s' ∧ s'.channel = [] ∧
      (s'.phone i).page.posts = { x with arrived := true } :: rest := by
  by_cases hx : x.arrived = true
  · refine ⟨s, .refl s, h, hch, ?_⟩
    rw [hposts, ← hx]
  · obtain ⟨st, hst, howed⟩ := h.owed
    obtain ⟨hseen, hfifo, hcommands, hpending⟩ := not_owed.1 howed
    rw [hposts] at hpending
    have hx : x.arrived = false := by simpa using hx
    have hstep : (netSystem ι rel).step (.arrive i 0) s =
        some { s.setPhone i { s.phone i with page := (s.phone i).page.arrive 0 x } with
          channel := [x.button.command] } := by
      show NetAction.apply rel (.arrive i 0) s = _
      simp [NetAction.apply, hposts, hx, hch, channelSize]
    have hstale : Stale i { s.setPhone i { s.phone i with page := (s.phone i).page.arrive 0 x } with
        channel := [x.button.command] } := by
      refine Stale.update h.announced ?_ h.wrong ⟨st, hst, not_owed.2 ⟨hseen, hfifo, ?_, ?_⟩⟩
      · simp [Page.arrive, h.inflight]
      · exact List.forall_mem_singleton.2 (hpending x List.mem_cons_self hx)
      · simp only [Page.arrive, hposts, List.set_cons_zero]
        refine List.forall_mem_cons.2 ⟨by simp, ?_⟩
        exact fun y hy => hpending y (List.mem_cons_of_mem _ hy)
    obtain ⟨s', hreach, hs', hempty, hphone⟩ := hstale.drain rel
    refine ⟨s', hreach.head hstep, hs', hempty, ?_⟩
    rw [hphone]
    simp [Page.arrive, hposts]

theorem Stale.answered (h : Stale i s) (rel : Release) (hch : s.channel = []) :
    ∃ s', (netSystem ι rel).Reach s s' ∧ Stale i s' ∧ s'.channel = [] ∧
      (s'.phone i).page.posts = [] := by
  generalize hposts : (s.phone i).page.posts = posts
  induction posts generalizing s with
  | nil => exact ⟨s, .refl s, h, hch, hposts⟩
  | cons x rest ih =>
    obtain ⟨s₁, hreach₁, h₁, hch₁, hposts₁⟩ := h.arrive rel hch hposts
    have hstep : (netSystem ι rel).step (.succeed i 0) s₁ =
        some (s₁.setPhone i { s₁.phone i with page := (s₁.phone i).page.settle 0 }) := by
      show NetAction.apply rel (.succeed i 0) s₁ = _
      simp [NetAction.apply, hposts₁]
    have hstale : Stale i
        (s₁.setPhone i { s₁.phone i with page := (s₁.phone i).page.settle 0 }) := by
      obtain ⟨st, hst, howed⟩ := h₁.owed
      obtain ⟨hseen, hfifo, hcommands, hpending⟩ := not_owed.1 howed
      refine Stale.update h₁.announced ?_ h₁.wrong
        ⟨st, hst, not_owed.2 ⟨hseen, hfifo, hcommands, ?_⟩⟩
      · simp [Page.settle, h₁.inflight, hposts₁]
      · exact fun y hy => hpending y (List.mem_of_mem_eraseIdx hy)
    obtain ⟨s₂, hreach₂, hs₂, hch₂, hposts₂⟩ := ih hstale hch₁ (by simp [Page.settle, hposts₁])
    exact ⟨s₂, hreach₁.trans (hreach₂.head hstep), hs₂, hch₂, hposts₂⟩

/-- Every poll of the phone fails: then it is quiet, and wrong. -/
theorem Stale.quiet (h : Stale i s) (rel : Release) (hch : s.channel = [])
    (hposts : (s.phone i).page.posts = []) :
    ∃ s', (netSystem ι rel).Reach s s' ∧ Quiet i s' ∧
      ¬ (s'.phone i).page.Shows s'.pico.board.scores := by
  generalize hpolls : (s.phone i).polls = polls
  induction polls generalizing s with
  | nil =>
    obtain ⟨st, hst, howed⟩ := h.owed
    obtain ⟨hseen, hfifo, -⟩ := not_owed.1 howed
    have hinflight := h.inflight
    rw [hposts] at hinflight
    exact ⟨s, .refl s, ⟨hch, hinflight, hpolls, st, hst, hfifo, hseen⟩, h.wrong⟩
  | cons poll polls ih =>
    have hstep : (netSystem ι rel).step (.failPoll i 0) s =
        some (s.setPhone i { s.phone i with polls := (s.phone i).polls.eraseIdx 0 }) := rfl
    have hstale : Stale i
        (s.setPhone i { s.phone i with polls := (s.phone i).polls.eraseIdx 0 }) :=
      Stale.update h.announced h.inflight h.wrong h.owed
    obtain ⟨s', hreach, hquiet⟩ := ih hstale hch (by simpa using hposts) (by simp [hpolls])
    exact ⟨s', hreach.head hstep, hquiet⟩

theorem Stale.diverges (h : Stale i s) (rel : Release) : ∃ s', (netSystem ι rel).Reach s s' ∧ Quiet i s' ∧
    ¬ (s'.phone i).page.Shows s'.pico.board.scores := by
  obtain ⟨s₁, hreach₁, h₁, hch₁, -⟩ := h.drain rel
  obtain ⟨s₂, hreach₂, h₂, hch₂, hposts₂⟩ := h₁.answered rel hch₁
  obtain ⟨s₃, hreach₃, hquiet⟩ := h₂.quiet rel hch₂ hposts₂
  exact ⟨s₃, hreach₁.trans (hreach₂.trans hreach₃), hquiet⟩

/-- The last event delivered, where nothing is unseen or under way. -/
theorem Stream.Current.heard {g : Shared} {st : Stream} (h : st.Current g)
    (hseen : st.seen = some g.sent) (hfifo : st.fifo = []) :
    ∃ e ∈ st.heard, e.scores = g.board.scores := by
  obtain ⟨e, hnewest, hscores⟩ := h.newest hseen
  rw [Stream.newest, hfifo] at hnewest
  exact ⟨e, hnewest, hscores⟩

/-- **Lost news stays lost.** After a move that is not fine there is a way on to a phone that has
nothing under way and shows wrong scores. -/
theorem lost_news_diverges {rel : Release} {a : NetAction ι} (h : NetInv s) (hfine : ¬ a.Fine s)
    (ha : a.apply rel s = some s') :
    ∃ i s'', (netSystem ι rel).Reach s' s'' ∧ Quiet i s'' ∧
      ¬ (s''.phone i).page.Shows s''.pico.board.scores := by
  suffices hstale : ∃ i, Stale i s' by
    obtain ⟨i, hi⟩ := hstale
    exact ⟨i, hi.diverges rel⟩
  cases a with
  | deliver i =>
    simp only [NetAction.Fine] at hfine
    push Not at hfine
    obtain ⟨⟨fifo, seen, heard⟩, hst, e, he, hinflight, hshows, howed⟩ := hfine
    obtain ⟨rest, rfl⟩ : ∃ rest, fifo = e :: rest := List.head?_eq_some_iff.1 he
    have happly : s' = s.setPhone i { s.phone i with
        page := (s.phone i).page.applyStatus e
        stream := some ⟨rest, seen, some e⟩ } := by
      rw [NetAction.apply, hst] at ha
      exact (Option.some.inj ha).symm
    have hpage : (s.phone i).page.applyStatus e = (s.phone i).page := if_neg (by omega)
    have hcur := ((h.phones i).current _ hst).deliver
    rcases hcur.last s.channel (s.phone i).page.posts rfl with hsame | hmore
    · rw [happly, hpage]
      rw [hsame] at hshows
      exact ⟨i, Stale.update h.announced (h.phones i).inflight hshows ⟨_, rfl, howed⟩⟩
    · exact absurd hmore howed
  | fail i k =>
    simp only [NetAction.Fine] at hfine
    push Not at hfine
    obtain ⟨st, hst, x, hx, hshows, howed⟩ := hfine
    obtain ⟨hseen, hfifo, -⟩ := not_owed.1 howed
    obtain ⟨e, hheard, hscores⟩ := ((h.phones i).current st hst).heard hseen hfifo
    have hwrong := hshows e hheard
    rw [hscores] at hwrong
    have happly : s' = { s.setPhone i { s.phone i with
        page := ((s.phone i).page.rollback x).settle k } with strays := s.strays ++ x.stray } := by
      rw [NetAction.apply, Option.mem_def.1 hx] at ha
      exact (Option.some.inj ha).symm
    have hposts : (((s.phone i).page.rollback x).settle k).posts = (s.phone i).page.posts.eraseIdx k :=
      congrArg (List.eraseIdx · k) (Page.rollback_posts ..)
    rw [happly]
    refine ⟨i, Stale.update h.announced ?_ hwrong ⟨st, hst, ?_⟩⟩
    · refine Page.settle_inflight ?_ (by rw [Page.rollback_posts]; exact hx)
      rw [Page.rollback_scoreInflight, Page.rollback_posts]
      exact (h.phones i).inflight
    · rw [hposts]
      exact howed
  | applyPoll i k =>
    simp only [NetAction.Fine] at hfine
    push Not at hfine
    obtain ⟨st, hst, data, hdata, -, hshows, howed⟩ := hfine
    obtain ⟨hseen, hfifo, -⟩ := not_owed.1 howed
    obtain ⟨e, hheard, hscores⟩ := ((h.phones i).current st hst).heard hseen hfifo
    have hwrong := hshows e hheard
    rw [hscores] at hwrong
    have hk : (s.phone i).polls[k]? = some (some data) := Option.join_eq_some_iff.1 hdata
    have happly : s' = s.setPhone i { s.phone i with
        page := (s.phone i).page.applyStatus data
        polls := (s.phone i).polls.eraseIdx k } := by
      rw [NetAction.apply, hk] at ha
      exact (Option.some.inj ha).symm
    rw [happly]
    refine ⟨i, Stale.update h.announced ?_ hwrong ⟨st, hst, ?_⟩⟩
    · rw [Page.applyStatus_scoreInflight, Page.applyStatus_posts]
      exact (h.phones i).inflight
    · rw [Page.applyStatus_posts]
      exact howed
  | _ => exact absurd trivial hfine

end System

end ScoreboardCtrl
