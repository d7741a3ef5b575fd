import ScoreboardCtrl.Board.InHand
import ScoreboardCtrl.Board.WellFormed
import ScoreboardCtrl.Phone.Converge

/-!
# Phones around the real `board_task`

`Net` lets `board_task` take a command and run its section in one move. Here it makes one operation at a
time, between any two of which phones and the other tasks may move: `FullNet`. A command in hand counts
as still in the channel (`FullNet.view`), and an operation of `board_task` is then one of the moves of
`Net`, or none. So phones converge here too: `phones_converge_interleaved`.
-/

namespace ScoreboardCtrl

/-! ### The system -/

/-- The phones `ι`, and the Pico with `board_task` anywhere in its turn. -/
structure FullNet (ι : Type) where
  net : Net ι
  /-- when `board_task` made its last operation -/
  since : ℕ
  hist : List Entry
  task : BoardProg Pending

inductive FullAction (ι : Type) where
  /-- `board_task` starts a turn or makes its next operation -/
  | poll
  /-- time passes, another task enters a section, the physical clock counts down -/
  | other (a : Action)
  /-- a phone or another client moves, or its stream or poll is served -/
  | net (a : NetAction ι)

def Action.sends : Action → Bool
  | .send _ => true
  | _ => false

section System

variable {ι : Type}

def FullNet.boot : FullNet ι := ⟨Net.boot, 0, [], .ret .zero⟩

/-- What `board_task` and its environment are. -/
def FullNet.board (f : FullNet ι) : BoardConf :=
  ⟨⟨f.net.now, f.net.pico, f.net.channel, f.since, f.hist⟩, f.task⟩

def FullNet.setBoard (f : FullNet ι) (c : BoardConf) : FullNet ι :=
  ⟨{ f.net with now := c.state.now, pico := c.state.shared, channel := c.state.queue },
    c.state.since, c.state.hist, c.task⟩

/-- The moves that are not those of the Pico's tasks. -/
def NetAction.ofPhones : NetAction ι → Bool
  | .elapse _ | .visit _ | .board => false
  | _ => true

/-- What such a move adds to the history of the Pico. -/
def NetAction.event (s : Net ι) : NetAction ι → Option Event
  | .arriveStray k => s.strays[k]?.map Event.sent
  | .arrive i k => (s.phone i).page.posts[k]?.map fun x => .sent x.button.command
  | .write _ | .answer _ _ => some (.lock .status)
  | _ => none

/-- Every command counts that has not run its section, in the channel or in hand. -/
def FullNet.view (f : FullNet ι) : Net ι :=
  { f.net with channel := (inHand f.hist).toList ++ f.net.channel }

variable [DecidableEq ι]

def FullAction.apply (sim : Bool) (rel : Release) : FullAction ι → FullNet ι → Option (FullNet ι)
  | .poll, f => (boardPoll sim f.board).map f.setBoard
  | .other a, f => if a.sends then none else (playOne sim (some a) f.board).map f.setBoard
  | .net a, f =>
    if a.ofPhones then
      (a.apply rel f.net).map fun s =>
        { f with net := s, hist := ((a.event f.net).map fun event => ⟨f.net.now, event⟩).toList ++ f.hist }
    else none

/-- The system of the phones `ι` around one Pico, whose tasks interleave. -/
def fullSystem (ι : Type) [DecidableEq ι] (sim : Bool) (rel : Release) :
    Lib.Lts (FullNet ι) (FullAction ι) where
  step := FullAction.apply sim rel

omit [DecidableEq ι] in
/-- The moves that lose no news, where a command in hand is news too. -/
def FullAction.Fine : FullAction ι → FullNet ι → Prop
  | .net a, f => a.Fine f.view
  | _, _ => True

instance (a : FullAction ι) (f : FullNet ι) : Decidable (a.Fine f) :=
  match a with
  | .net a => inferInstanceAs (Decidable (a.Fine f.view))
  | .poll | .other _ => .isTrue trivial

/-! ### What a phone's move does to the Pico -/

variable {rel : Release} {a : NetAction ι} {s s' : Net ι}

/-- **The moves of the phones.** The Pico does not notice, or a status is taken, or a command is sent. -/
theorem NetAction.apply_phones (h : a.ofPhones = true) (ha : a.apply rel s = some s') :
    s'.now = s.now ∧
      ((a.event s = none ∧ s'.pico = s.pico ∧ s'.channel = s.channel) ∨
        (a.event s = some (.lock .status) ∧ s'.pico = (Section.status.run s.now s.pico).2 ∧
          s'.channel = s.channel) ∨
        ∃ cmd, a.event s = some (.sent cmd) ∧ s.channel.length < channelSize ∧ s'.pico = s.pico ∧
          s'.channel = s.channel ++ [cmd]) := by
  cases a with
  | elapse us => cases h
  | visit sec => cases h
  | board => cases h
  | request cmd =>
    cases ha
    exact ⟨rfl, .inl ⟨rfl, rfl, rfl⟩⟩
  | arriveStray k =>
    simp only [apply] at ha
    split at ha
    · rename_i hroom
      obtain ⟨cmd, hk, rfl⟩ := Option.map_eq_some_iff.1 ha
      exact ⟨rfl, .inr (.inr ⟨cmd, by rw [event, hk]; rfl, hroom, rfl, rfl⟩)⟩
    · cases ha
  | tap i button =>
    cases ha
    exact ⟨rfl, .inl ⟨rfl, rfl, rfl⟩⟩
  | arrive i k =>
    simp only [apply] at ha
    split at ha
    · rename_i x hk
      split at ha
      · rename_i hroom
        cases ha
        exact ⟨rfl, .inr (.inr ⟨_, by rw [event, hk]; rfl, hroom.2, rfl, rfl⟩)⟩
      · cases ha
    · cases ha
  | succeed i k =>
    simp only [apply] at ha
    split at ha
    · split at ha
      · cases ha
        exact ⟨rfl, .inl ⟨rfl, rfl, rfl⟩⟩
      · cases ha
    · cases ha
  | fail i k =>
    simp only [apply] at ha
    split at ha
    · cases ha
      exact ⟨rfl, .inl ⟨rfl, rfl, rfl⟩⟩
    · cases ha
  | connect i =>
    simp only [apply] at ha
    split at ha
    · cases ha
    · cases ha
      exact ⟨rfl, .inl ⟨rfl, rfl, rfl⟩⟩
  | disconnect i =>
    cases ha
    exact ⟨rfl, .inl ⟨rfl, rfl, rfl⟩⟩
  | write i =>
    obtain ⟨st, -, rfl⟩ := Option.map_eq_some_iff.1 ha
    exact ⟨rfl, .inr (.inl ⟨rfl, rfl, rfl⟩)⟩
  | deliver i =>
    simp only [apply] at ha
    split at ha
    · cases ha
      exact ⟨rfl, .inl ⟨rfl, rfl, rfl⟩⟩
    · cases ha
  | poll i =>
    cases ha
    exact ⟨rfl, .inl ⟨rfl, rfl, rfl⟩⟩
  | answer i k =>
    simp only [apply] at ha
    split at ha
    · cases ha
      exact ⟨rfl, .inr (.inl ⟨rfl, rfl, rfl⟩)⟩
    · cases ha
  | applyPoll i k =>
    simp only [apply] at ha
    split at ha
    · cases ha
      exact ⟨rfl, .inl ⟨rfl, rfl, rfl⟩⟩
    · cases ha
  | failPoll i k =>
    cases ha
    exact ⟨rfl, .inl ⟨rfl, rfl, rfl⟩⟩

/-- A move that sends nothing does not look at the channel. -/
theorem NetAction.apply_channel (h : a.ofPhones = true) (hstray : ∀ k, a ≠ .arriveStray k)
    (harrive : ∀ i k, a ≠ .arrive i k) (channel : List Command) :
    a.apply rel { s with channel := channel } =
      (a.apply rel s).map fun s' => { s' with channel := channel } := by
  cases a with
  | elapse us => cases h
  | visit sec => cases h
  | board => cases h
  | arriveStray k => exact absurd rfl (hstray k)
  | arrive i k => exact absurd rfl (harrive i k)
  | request cmd | tap i button | disconnect i | poll i | failPoll i k => rfl
  | succeed i k =>
    simp only [apply]
    cases (s.phone i).page.posts[k]? with
    | none => rfl
    | some x => by_cases hx : x.arrived <;> simp only [hx] <;> rfl
  | fail i k =>
    simp only [apply]
    cases (s.phone i).page.posts[k]? <;> rfl
  | connect i =>
    simp only [apply]
    cases (s.phone i).stream <;> rfl
  | write i =>
    simp only [apply]
    cases (s.phone i).stream <;> rfl
  | deliver i =>
    simp only [apply]
    rcases (s.phone i).stream with _ | ⟨_ | ⟨e, rest⟩, seen, heard⟩ <;> rfl
  | answer i k =>
    simp only [apply]
    rcases (s.phone i).polls[k]? with _ | _ | data <;> rfl
  | applyPoll i k =>
    simp only [apply]
    rcases (s.phone i).polls[k]? with _ | _ | data <;> rfl

/-! ### Every move keeps the invariant -/

/-- **A fine move of the phones keeps the invariant**, with `hand` in front of the channel. -/
theorem NetAction.apply_inv_hand {hand : List Command} (hofPhones : a.ofPhones = true)
    (h : NetInv { s with channel := hand ++ s.channel })
    (hfine : a.Fine { s with channel := hand ++ s.channel }) (ha : a.apply rel s = some s') :
    NetInv { s' with channel := hand ++ s'.channel } := by
  by_cases hstray : ∃ k, a = .arriveStray k
  · obtain ⟨k, rfl⟩ := hstray
    simp only [apply] at ha
    split at ha
    · obtain ⟨cmd, -, rfl⟩ := Option.map_eq_some_iff.1 ha
      have hsend := h.send cmd (s.strays.eraseIdx k)
      rwa [List.append_assoc] at hsend
    · cases ha
  by_cases harrive : ∃ i k, a = .arrive i k
  · obtain ⟨i, k, rfl⟩ := harrive
    simp only [apply] at ha
    split at ha
    · rename_i x hk
      split at ha
      · cases ha
        have hsend := (h.send x.button.command s.strays).setPhone (i := i) ((h.phones i).arrive hk)
        rw [List.append_assoc] at hsend
        exact hsend
      · cases ha
    · cases ha
  have hchannel (channel : List Command) : a.apply rel { s with channel := channel } =
      some { s' with channel := channel } := by
    rw [NetAction.apply_channel hofPhones (fun k hk => hstray ⟨k, hk⟩)
      (fun i k hk => harrive ⟨i, k, hk⟩), ha, Option.map_some]
  have hself : a.apply rel s = some { s' with channel := s.channel } := hchannel s.channel
  have hnet : s' = { s' with channel := s.channel } := Option.some.inj (ha.symm.trans hself)
  have hsame : s'.channel = s.channel := by rw [hnet]
  rw [hsame]
  exact NetAction.apply_inv h hfine (hchannel _)

omit [DecidableEq ι] in
/-- The invariant is about the Pico, the channel and the phones. -/
theorem NetInv.same (h : NetInv s) (hpico : s'.pico = s.pico) (hchannel : s'.channel = s.channel)
    (hphone : s'.phone = s.phone) : NetInv s' where
  announced := hpico ▸ h.announced
  home := hpico ▸ h.home
  away := hpico ▸ h.away
  phones := by
    rw [hpico, hchannel, hphone]
    exact h.phones

variable {sim : Bool} {f f' : FullNet ι}

omit [DecidableEq ι] in
/-- An entry that takes no command and moves no score. -/
theorem FullNet.view_apart {w' : World} {t : BoardProg Pending} {event : Event}
    (hapart : event.apart = true) (hhist : w'.hist = ⟨f.net.now, event⟩ :: f.hist)
    (hqueue : w'.queue = f.net.channel) : (f.setBoard ⟨w', t⟩).view.channel = f.view.channel := by
  show (inHand w'.hist).toList ++ w'.queue = _
  rw [hhist, inHand_apart hapart, hqueue]
  rfl

omit [DecidableEq ι] in
/-- A command is taken: it is in hand now, or its handler moves no score. -/
theorem NetInv.take (h : NetInv f.view) {cmd : Command} {queue : List Command} {w' : World}
    {idle : Bool} {t : BoardProg Pending} (hnone : inHand f.hist = none)
    (hchannel : f.net.channel = cmd :: queue) (hshared : w'.shared = f.net.pico)
    (hqueue : w'.queue = queue) (hhist : w'.hist = ⟨f.net.now, .received cmd idle⟩ :: f.hist) :
    NetInv (f.setBoard ⟨w', t⟩).view := by
  have hview : f.view.channel = cmd :: queue := by
    rw [FullNet.view, hnone, hchannel]
    rfl
  have hhand : (f.setBoard ⟨w', t⟩).view.channel = cmd.toHand.toList ++ queue := by
    show (inHand w'.hist).toList ++ w'.queue = _
    rw [hhist, hqueue]
    rfl
  cases hsec : cmd.scoreSection with
  | some sec =>
    refine h.same hshared ?_ rfl
    rw [hhand, hview, Command.toHand, hsec]
    rfl
  | none =>
    refine (h.board hview).same ?_ ?_ rfl
    · show w'.shared = cmd.runOn _ _
      rw [Command.runOn, hsec]
      exact hshared
    · rw [hhand, Command.toHand, hsec]
      rfl

omit [DecidableEq ι] in
/-- **An operation of `board_task`** is a move of `Net`, or none. -/
theorem NetInv.exec {o : BoardOp} {r : o.Ret} {w' : World} {t : BoardProg Pending} (h : NetInv f.view)
    (he : o.exec f.board.state = some (r, w')) (hkept : (handLaw sim).Kept w'.hist)
    (hrange : ∀ e ∈ w'.hist, ∀ sec, e.event = .lock sec → sec.inRange) :
    NetInv (f.setBoard ⟨w', t⟩).view := by
  cases o with
  | lock sec =>
    cases he
    obtain ⟨(hok : HandOk _ _), -⟩ := hkept
    cases hsec : sec.ofScores with
    | false =>
      have hvisit := h.visit sec hsec (hrange _ List.mem_cons_self sec rfl)
      have hapart : (Event.lock sec).apart = true := by
        rw [Event.apart, hsec]
        rfl
      exact hvisit.same rfl (FullNet.view_apart hapart rfl rfl) rfl
    | true =>
      obtain ⟨cmd, hhand, hcmd⟩ := hok.run sec rfl hsec
      have hview : f.view.channel = cmd :: f.net.channel := by
        rw [FullNet.view, show inHand f.hist = some cmd from hhand]
        rfl
      refine (h.board hview).same ?_ ?_ rfl
      · show (sec.run f.net.now f.net.pico).2 = cmd.runOn _ _
        rw [Command.runOn, hcmd]
        rfl
      · show (if sec.ofScores then none else inHand f.hist).toList ++ f.net.channel = f.net.channel
        rw [if_pos hsec]
        rfl
  | setPin pin high =>
    cases he
    exact h.same rfl (FullNet.view_apart rfl rfl rfl) rfl
  | gpioSet on =>
    cases he
    exact h.same rfl (FullNet.view_apart rfl rfl rfl) rfl
  | afterMillis ms =>
    simp only [BoardOp.exec] at he
    split at he
    · cases he
      exact h.same rfl (FullNet.view_apart rfl rfl rfl) rfl
    · cases he
  | receive =>
    simp only [BoardOp.exec] at he
    split at he
    · cases he
    · rename_i cmd queue hqueue
      cases he
      exact h.take (hkept.1.take _ true rfl) hqueue rfl rfl rfl
  | tryReceive =>
    simp only [BoardOp.exec] at he
    split at he
    · cases he
      exact h.same rfl rfl rfl
    · rename_i cmd queue hqueue
      cases he
      exact h.take (hkept.1.take _ false rfl) hqueue rfl rfl rfl

/-! ### Runs -/

/-- The Pico's side is a run of the board system, and the phones show its scores or are owed news. -/
structure FullInv (sim : Bool) (f : FullNet ι) : Prop where
  reach : (boardSystem sim fun _ => True).Reach ⟨World.boot, .ret .zero⟩ f.board
  net : NetInv f.view

omit [DecidableEq ι] in
theorem FullInv.kept (h : FullInv sim f) : (handLaw sim).Kept f.hist := hand_reach h.reach

omit [DecidableEq ι] in
theorem FullNet.boot_inv : FullInv sim (FullNet.boot (ι := ι)) := ⟨.refl, Net.boot_inv⟩

omit [DecidableEq ι] in
theorem hist_inRange {w : World} {k : BoardProg Pending}
    (h : (boardSystem sim fun _ => True).Reach ⟨World.boot, .ret .zero⟩ ⟨w, k⟩) :
    ∀ e ∈ w.hist, ∀ sec, e.event = .lock sec → sec.inRange :=
  entered_reach (boardTask_inRange sim) (fun _ => Section.visitor_inRange) h
    fun _ he => by cases he

omit [DecidableEq ι] in
theorem FullInv.poll {c : BoardConf} (h : FullInv sim f) (hc : boardPoll sim f.board = some c) :
    FullInv sim (f.setBoard c) := by
  have hreach : (boardSystem sim fun _ => True).Reach ⟨World.boot, .ret .zero⟩ c :=
    h.reach.tail (playOne_step (a := none) (by simp) hc)
  refine ⟨hreach, ?_⟩
  obtain ⟨net, since, hist, task⟩ := f
  cases task with
  | ret p =>
    cases hc
    exact h.net.same rfl rfl rfl
  | op o k =>
    obtain ⟨⟨r, w'⟩, he, rfl⟩ := Option.map_eq_some_iff.1 hc
    exact h.net.exec he (hand_reach hreach) (hist_inRange hreach)

omit [DecidableEq ι] in
theorem FullInv.other {a : Action} {w' : World} (h : FullInv sim f) (hsends : a.sends = false)
    (ha : a.apply sim f.board.state = some w') : FullInv sim (f.setBoard ⟨w', f.task⟩) := by
  refine ⟨h.reach.tail (.env ⟨a, by cases a <;> trivial, ha⟩), ?_⟩
  rcases Action.apply_cases ha with
    ⟨hh, hs, hq⟩ | ⟨sec, hsec, hh, hs, hq⟩ | ⟨cmd, rfl, -⟩ | ⟨hh, hs, hq⟩
  · refine h.net.same hs ?_ rfl
    show (inHand w'.hist).toList ++ w'.queue = _
    rw [hh, hq]
    rfl
  · have hapart : (Event.lock sec).apart = true := (handLaw sim).calm_visit hsec
    have hother : sec.ofScores = false := by simpa [Event.apart] using hapart
    have hvisit := h.net.visit sec hother (Section.visitor_inRange hsec)
    exact hvisit.same hs (FullNet.view_apart hapart hh hq) rfl
  · cases hsends
  · exact h.net.same hs (FullNet.view_apart rfl hh hq) rfl

theorem FullInv.phones (h : FullInv sim f) (hofPhones : a.ofPhones = true) (hfine : a.Fine f.view)
    (ha : a.apply rel f.net = some s') : FullInv sim { f with
      net := s'
      hist := ((a.event f.net).map fun event => ⟨f.net.now, event⟩).toList ++ f.hist } := by
  have hnet := NetAction.apply_inv_hand hofPhones h.net hfine ha
  obtain ⟨net, since, hist, task⟩ := f
  obtain ⟨now, pico, channel, strays, phone⟩ := s'
  obtain ⟨hnow, hcases⟩ := NetAction.apply_phones hofPhones ha
  obtain rfl : now = net.now := hnow
  rcases hcases with ⟨hevent, hpico, hchannel⟩ | ⟨hevent, hpico, hchannel⟩ |
    ⟨cmd, hevent, hroom, hpico, hchannel⟩
  · obtain rfl : pico = net.pico := hpico
    obtain rfl : channel = net.channel := hchannel
    rw [hevent]
    exact ⟨h.reach, hnet⟩
  · obtain rfl : pico = _ := hpico
    obtain rfl : channel = net.channel := hchannel
    rw [hevent]
    refine ⟨h.reach.tail (.env ⟨.visit .status, trivial, rfl⟩), hnet⟩
  · obtain rfl : pico = net.pico := hpico
    obtain rfl : channel = _ := hchannel
    rw [hevent]
    refine ⟨h.reach.tail (.env ⟨.send cmd, trivial, if_pos hroom⟩), hnet⟩

theorem FullInv.step {a : FullAction ι} (h : FullInv sim f) (hfine : a.Fine f)
    (ha : (fullSystem ι sim rel).step a f = some f') : FullInv sim f' := by
  cases a with
  | poll =>
    obtain ⟨c, hc, rfl⟩ := Option.map_eq_some_iff.1 ha
    exact h.poll hc
  | other a =>
    simp only [fullSystem, FullAction.apply] at ha
    split at ha
    · cases ha
    · rename_i hsends
      obtain ⟨c, hc, rfl⟩ := Option.map_eq_some_iff.1 ha
      obtain ⟨w', hw, rfl⟩ := Option.map_eq_some_iff.1 hc
      exact h.other (by simpa using hsends) hw
  | net a =>
    simp only [fullSystem, FullAction.apply] at ha
    split at ha
    · rename_i hofPhones
      obtain ⟨s', hs, rfl⟩ := Option.map_eq_some_iff.1 ha
      exact h.phones hofPhones hfine hs
    · cases ha

/-- **Phones and the Pico converge around the real `board_task`.** In either build, with any number of
phones, and whatever moves between two operations of the task: in a run of moves that lose no news, a
phone with nothing under way shows the Pico's scores. -/
theorem phones_converge_interleaved {as : List (FullAction ι)} {i : ι}
    (hfine : (fullSystem ι sim rel).Guarded FullAction.Fine as FullNet.boot)
    (hrun : (fullSystem ι sim rel).run as FullNet.boot = some f) (hq : Quiet i f.view) :
    (f.net.phone i).page.Shows f.net.pico.board.scores := by
  have hstep : ∀ (a : FullAction ι) (f f' : FullNet ι), FullInv sim f → a.Fine f →
      (fullSystem ι sim rel).step a f = some f' → FullInv sim f' :=
    fun a f f' h hfine ha => h.step hfine ha
  have hinv : FullInv sim f := Lib.Lts.inv_run hstep FullNet.boot_inv hfine hrun
  exact hinv.net.quiet hq

end System

/-- A phone taps +, and is told of the scores while its command is in hand and again after its
section. -/
def tapInHand : List (FullAction Bool) :=
  [.net (.connect false), .net (.write false), .net (.deliver false), .net (.tap false .homeInc),
    .net (.arrive false 0), .poll, .poll, .net (.write false), .poll, .net (.write false),
    .net (.succeed false 0), .net (.deliver false), .net (.deliver false)]

theorem phones_converge_interleaved_tap : ∃ f : FullNet Bool,
    (fullSystem Bool false firstRelease).run tapInHand FullNet.boot = some f ∧
      f.net.pico.board.scores = (1, 0) ∧ (f.net.phone false).page.Shows f.net.pico.board.scores := by
  have hend : ((fullSystem Bool false firstRelease).run tapInHand FullNet.boot).any
      (fun f => decide (f.net.pico.board.scores = (1, 0) ∧ Quiet false f.view)) := by decide
  obtain ⟨f, hrun, hscores, hquiet⟩ := Lib.Lts.run_any hend
  exact ⟨f, hrun, hscores, phones_converge_interleaved (by decide) hrun hquiet⟩

end ScoreboardCtrl
