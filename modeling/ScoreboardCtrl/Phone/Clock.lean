import ScoreboardCtrl.Clock.Countdown
import ScoreboardCtrl.Clock.Simulated
import ScoreboardCtrl.Phone.Page
import Mathlib.Data.Char
import Mathlib.Data.List.TakeWhile

/-!
# The clock on the page (`src/index.html`), and the routes of its POSTs

What the script reads from the two input fields of the timer, the paths it POSTs and their routes, what it
shows of the time of a status, and when it starts the horn. Texts are lists of characters; a number
that `parseInt` reads is not rounded, which nothing notices that is clamped to two digits.
-/

namespace ScoreboardCtrl

/-! ### Numbers and texts in the script -/

/-- `WhiteSpace` and `LineTerminator` of the language -/
def isJsSpace (c : Char) : Bool :=
  [9, 10, 11, 12, 13, 32, 0xa0, 0x1680, 0x2028, 0x2029, 0x202f, 0x205f, 0x3000, 0xfeff].contains c.toNat ||
    (decide (0x2000 ≤ c.toNat) && decide (c.toNat ≤ 0x200a))

/-- The sign of a number, and what is behind it. -/
def jsSign : List Char → Bool × List Char
  | '-' :: s => (true, s)
  | '+' :: s => (false, s)
  | s => (false, s)

/-- `parseInt(text, 10)`, or none for `NaN` -/
def parseInt (text : List Char) : Option ℤ :=
  let s := jsSign (text.dropWhile isJsSpace)
  let digits := s.2.takeWhile Char.isDigit
  let value : ℤ := Nat.ofDigitChars 10 digits 0
  if digits = [] then none else some (if s.1 then -value else value)

/-- `parseInt(text, 10) || 0` -/
def parseIntOr0 (text : List Char) : ℤ := (parseInt text).getD 0

/-- `String(n)` -/
def jsText (n : ℕ) : List Char := Nat.toDigits 10 n

def pad (n : ℕ) : List Char := List.leftpad 2 '0' (jsText n)
def fmt (min sec : ℕ) : List Char := pad min ++ ':' :: pad sec

/-- `Math.max(0, Math.min(hi, parseInt(text, 10) || 0))` -/
def readField (hi : ℤ) (text : List Char) : ℕ := (max 0 (min hi (parseIntOr0 text))).toNat

/-- `readSet()`, of what is in the two fields -/
def readSet (minutes seconds : List Char) : ℕ × ℕ := (readField 99 minutes, readField 59 seconds)

theorem readSet_le (minutes seconds : List Char) :
    (readSet minutes seconds).1 ≤ 99 ∧ (readSet minutes seconds).2 ≤ 59 := by
  unfold readSet readField
  omega

/-! ### The POSTs of the page -/

/-- The POSTs the script makes. -/
inductive PagePost where
  | start
  | stop
  | score (button : ScoreButton)
  | ledOn
  | ledOff
  | aux
  | reset
  /-- of what is in the two fields -/
  | set (minutes seconds : List Char)

def ScoreButton.path : ScoreButton → String
  | .homeInc => "/api/ctrl/home-inc"
  | .homeDec => "/api/ctrl/home-dec"
  | .awayInc => "/api/ctrl/away-inc"
  | .awayDec => "/api/ctrl/away-dec"
  | .scoresZero => "/api/ctrl/scores-zero"

def PagePost.path : PagePost → List Char
  | .start => "/api/ctrl/start".toList
  | .stop => "/api/ctrl/stop".toList
  | .score button => button.path.toList
  | .ledOn => "/led/on".toList
  | .ledOff => "/led/off".toList
  | .aux => "/api/ctrl/aux".toList
  | .reset => "/api/ctrl/reset".toList
  | .set minutes seconds =>
    let set := readSet minutes seconds
    "/api/timer/set/".toList ++ jsText set.1 ++ '/' :: jsText set.2

/-- What a POST stands for. -/
def PagePost.command : PagePost → Command
  | .start => .start
  | .stop => .stop
  | .score button => button.command
  | .ledOn => .ledOn
  | .ledOff => .ledOff
  | .aux => .aux
  | .reset => .reset
  | .set minutes seconds => .setTimer (readSet minutes seconds).1 (readSet minutes seconds).2

/-! ### The routes -/

/-- The routes of `build_app` whose path is fixed and whose handler sends a command. -/
def ctrlRoutes : List (String × Command) :=
  [("/led/on", .ledOn), ("/led/off", .ledOff), ("/api/ctrl/start-stop", .startStop),
    ("/api/ctrl/start", .start), ("/api/ctrl/stop", .stop), ("/api/ctrl/reset", .reset),
    ("/api/ctrl/home-inc", .homeInc), ("/api/ctrl/home-dec", .homeDec),
    ("/api/ctrl/away-inc", .awayInc), ("/api/ctrl/away-dec", .awayDec),
    ("/api/ctrl/scores-zero", .scoresZero), ("/api/ctrl/aux", .aux)]

/-- Behind a plus sign, if there is one. -/
def unsigned : List Char → List Char
  | '+' :: rest => rest
  | text => text

/-- `u8::from_str` -/
def parseU8 (text : List Char) : Option ℕ :=
  let digits := unsigned text
  if digits ≠ [] ∧ digits.all Char.isDigit ∧ Nat.ofDigitChars 10 digits 0 ≤ 255 then
    some (Nat.ofDigitChars 10 digits 0)
  else none

def timerPath : List Char := "/api/timer/set/".toList

/-- What a POST to a path sends, as far as the page needs the router: a fixed path has its own handler, and
behind `/api/timer/set` two segments of digits are each read as a `u8`. -/
structure Routes (route : List Char → Option Command) : Prop where
  fixed : ∀ r ∈ ctrlRoutes, route r.1.toList = some r.2
  timer : ∀ a b : List Char, (∀ c ∈ a, c.isDigit = true) → (∀ c ∈ b, c.isDigit = true) →
    route (timerPath ++ (a ++ '/' :: b)) =
      (parseU8 a).bind fun min => (parseU8 b).map fun sec => .setTimer min sec

/-! ### Decimal texts -/

theorem jsText_digits (n : ℕ) : ∀ c ∈ jsText n, c.isDigit = true :=
  fun _ hc => Nat.isDigit_of_mem_toDigits (by decide) (by decide) hc

theorem jsText_value (n : ℕ) : Nat.ofDigitChars 10 (jsText n) 0 = n := Nat.ofDigitChars_ten_toDigits

theorem digit_toNat {c : Char} (h : c.isDigit = true) : 48 ≤ c.toNat ∧ c.toNat ≤ 57 :=
  Char.isDigit_iff_toNat.1 h

/-- A digit is neither white space nor a sign nor a separator. -/
theorem digit_plain {c : Char} (h : c.isDigit = true) :
    isJsSpace c = false ∧ c ≠ '-' ∧ c ≠ '+' ∧ c ≠ ':' ∧ c ≠ '/' := by
  obtain ⟨hlo, hhi⟩ := digit_toNat h
  refine ⟨?_, ?_, ?_, ?_, ?_⟩
  · simp [isJsSpace]
    omega
  all_goals
    rintro rfl
    simp at hlo hhi

theorem jsSign_digit {c : Char} (h : c.isDigit = true) (s : List Char) :
    jsSign (c :: s) = (false, c :: s) := by
  obtain ⟨-, hminus, hplus, -⟩ := digit_plain h
  rw [jsSign]
  · rintro _ ⟨⟩
    exact hminus rfl
  · rintro _ ⟨⟩
    exact hplus rfl

/-- A text of digits, with anything behind it that is none. -/
theorem parseInt_digits {digits : List Char} (hne : digits ≠ [])
    (hdigits : ∀ c ∈ digits, c.isDigit = true) :
    parseInt digits = some (Nat.ofDigitChars 10 digits 0 : ℤ) := by
  cases digits with
  | nil => exact absurd rfl hne
  | cons c s =>
    have hc := hdigits c List.mem_cons_self
    have hspace : (c :: s).dropWhile isJsSpace = c :: s := by
      rw [List.dropWhile_cons_of_neg]
      simp [(digit_plain hc).1]
    have hall : (c :: s).takeWhile Char.isDigit = c :: s := by
      rw [List.takeWhile_eq_self_iff]
      exact hdigits
    simp [parseInt, hspace, jsSign_digit hc, hall]

theorem parseU8_jsText {n : ℕ} (hn : n ≤ 255) : parseU8 (jsText n) = some n := by
  have hplus : unsigned (jsText n) = jsText n := by
    rw [unsigned]
    rintro rest heq
    have hc : '+' ∈ jsText n := heq ▸ List.mem_cons_self
    exact absurd (jsText_digits n _ hc) (by decide)
  have hvalue : Nat.ofDigitChars 10 (jsText n) 0 ≤ 255 := by rwa [jsText_value]
  rw [parseU8, hplus, if_pos ⟨Nat.toDigits_ne_nil, List.all_eq_true.2 (jsText_digits n), hvalue⟩,
    jsText_value]

/-! ### Every POST of the page has its route -/

section Routing

variable {route : List Char → Option Command}

/-- **Every POST of the page finds the route of its command**, whatever is typed into the two fields. -/
theorem Routes.page (h : Routes route) (p : PagePost) : route p.path = some p.command := by
  cases p with
  | set minutes seconds =>
    obtain ⟨hmin, hsec⟩ := readSet_le minutes seconds
    have hpath : (PagePost.set minutes seconds).path =
        timerPath ++ (jsText (readSet minutes seconds).1 ++ '/' :: jsText (readSet minutes seconds).2) :=
      List.append_assoc _ _ _
    rw [hpath, h.timer _ _ (jsText_digits _) (jsText_digits _), parseU8_jsText (by omega),
      parseU8_jsText (by omega)]
    rfl
  | score button =>
    cases button with
    | homeInc => exact h.fixed ("/api/ctrl/home-inc", .homeInc) (by decide)
    | homeDec => exact h.fixed ("/api/ctrl/home-dec", .homeDec) (by decide)
    | awayInc => exact h.fixed ("/api/ctrl/away-inc", .awayInc) (by decide)
    | awayDec => exact h.fixed ("/api/ctrl/away-dec", .awayDec) (by decide)
    | scoresZero => exact h.fixed ("/api/ctrl/scores-zero", .scoresZero) (by decide)
  | start => exact h.fixed ("/api/ctrl/start", .start) (by decide)
  | stop => exact h.fixed ("/api/ctrl/stop", .stop) (by decide)
  | ledOn => exact h.fixed ("/led/on", .ledOn) (by decide)
  | ledOff => exact h.fixed ("/led/off", .ledOff) (by decide)
  | aux => exact h.fixed ("/api/ctrl/aux", .aux) (by decide)
  | reset => exact h.fixed ("/api/ctrl/reset", .reset) (by decide)

end Routing

/-! ### The time of a status -/

/-- The text in the JSON. -/
def TimeStr.text (t : TimeStr) : List Char := t.buf.toList.map fun b => Char.ofNat b.toNat

/-- `lastMin` and `lastSec` after `applyStatus` -/
def clockOf (time : List Char) : ℤ × ℤ :=
  let parts := time.takeWhile (· ≠ ':')
  let behind := (time.dropWhile (· ≠ ':')).drop 1
  (parseIntOr0 parts, parseIntOr0 (behind.takeWhile (· ≠ ':')))

theorem pad_digits (n : ℕ) : ∀ c ∈ pad n, c.isDigit = true := by
  intro c hc
  rw [pad, List.leftpad] at hc
  rcases List.mem_append.1 hc with hc | hc
  · rw [List.eq_of_mem_replicate hc]
    rfl
  · exact jsText_digits n c hc

theorem pad_value (n : ℕ) : Nat.ofDigitChars 10 (pad n) 0 = n := by
  rw [pad, List.leftpad, Nat.ofDigitChars_append, Nat.ofDigitChars_replicate_zero, Nat.mul_zero,
    jsText_value]

theorem parseIntOr0_pad (n : ℕ) : parseIntOr0 (pad n) = n := by
  have hne : pad n ≠ [] := by
    rw [pad, List.leftpad]
    exact List.append_ne_nil_of_right_ne_nil _ Nat.toDigits_ne_nil
  rw [parseIntOr0, parseInt_digits hne (pad_digits n), pad_value]
  rfl

theorem pad_no_colon (n : ℕ) : ∀ c ∈ pad n, decide (c ≠ ':') = true :=
  fun c hc => decide_eq_true (digit_plain (pad_digits n c hc)).2.2.2.1

theorem clockOf_fmt (min sec : ℕ) : clockOf (fmt min sec) = ((min : ℤ), (sec : ℤ)) := by
  have htake : (fmt min sec).takeWhile (· ≠ ':') = pad min := by
    rw [fmt, List.takeWhile_append_of_pos (pad_no_colon min), List.takeWhile_cons_of_neg (by simp),
      List.append_nil]
  have hdrop : (fmt min sec).dropWhile (· ≠ ':') = ':' :: pad sec := by
    rw [fmt, List.dropWhile_append_of_pos (pad_no_colon min), List.dropWhile_cons_of_neg (by simp)]
  have hsec : (pad sec).takeWhile (· ≠ ':') = pad sec := List.takeWhile_eq_self_iff.2 (pad_no_colon sec)
  rw [clockOf, htake, hdrop]
  simp only [List.drop_succ_cons, List.drop_zero, hsec, parseIntOr0_pad]

theorem pad_two {n : ℕ} (h : n < 100) : pad n = [Nat.digitChar (n / 10), Nat.digitChar (n % 10)] := by
  rw [pad, jsText]
  by_cases hten : n < 10
  · rw [Nat.toDigits_of_lt_base hten, Nat.div_eq_of_lt hten, Nat.mod_eq_of_lt hten]
    rfl
  · rw [Nat.toDigits_of_base_le (by decide) (by omega), Nat.toDigits_of_lt_base (by omega)]
    rfl

theorem char_digit {n : ℕ} (h : n < 10) : Char.ofNat (TimeStr.digit n).toNat = Nat.digitChar n := by
  have hall : ∀ k < 10, Char.ofNat (TimeStr.digit k).toNat = Nat.digitChar k := by decide
  exact hall n h

theorem text_fromParts (min sec : ℕ) :
    (TimeStr.fromParts min sec).text = fmt (Min.min min 99) (Min.min sec 59) := by
  have hmin : Min.min min 99 < 100 := by omega
  have hsec : Min.min sec 59 < 100 := by omega
  rw [fmt, pad_two hmin, pad_two hsec, ← char_digit (by omega : Min.min min 99 / 10 < 10),
    ← char_digit (by omega : Min.min min 99 % 10 < 10), ← char_digit (by omega : Min.min sec 59 / 10 < 10),
    ← char_digit (by omega : Min.min sec 59 % 10 < 10)]
  rfl

/-! ### What is typed is shown -/

section TypedTime

variable {allow : Command → Prop} {route : List Char → Option Command} {w : World} {p : Pending}
  {minutes seconds : List Char} {cmd : Command} {idle : Bool}

/-- **What is typed is shown.** In the simulate build, whatever is typed into the two fields: once
`board_task` is done with the command that the POST of "set" has sent, and has taken no start and no other
time since, every status shows the time that `readSet` made of the two texts, to the page as to a reader, and
a stopped clock. -/
theorem typed_time_shown (hroute : Routes route)
    (h : (boardSystem true allow).Reach ⟨World.boot, .ret .zero⟩ ⟨w, .ret p⟩)
    (hpost : route (PagePost.set minutes seconds).path = some cmd)
    (hlast : (commandsTaken w.hist).find? (·.1.moves) = some (cmd, idle)) (rel : Release) (now : ℕ) :
    let set := readSet minutes seconds
    let data := statusOf rel (Section.run .status now w.shared).1 now
    data.time.text = fmt set.1 set.2 ∧ clockOf data.time.text = ((set.1 : ℤ), (set.2 : ℤ)) ∧
      data.running = false := by
  intro set data
  obtain ⟨hmin, hsec⟩ : set.1 ≤ 99 ∧ set.2 ≤ 59 := readSet_le minutes seconds
  obtain rfl : cmd = .setTimer set.1 set.2 := Option.some.inj (hpost.symm.trans (hroute.page _))
  have hset : SetAt (min set.1 99) (min set.2 59) w.shared := by
    refine obeyed_reach h (min set.1 99, min set.2 59) ?_
    rw [lastSet_eq, hlast]
    rfl
  rw [Nat.min_eq_left hmin, Nat.min_eq_left hsec] at hset
  have hserved : SetAt set.1 set.2 (Section.run .status now w.shared).2 := hset.run rfl now
  have htime : data.time = .fromParts set.1 set.2 :=
    congrArg₂ TimeStr.fromParts (congrArg Uart.minutes hserved.uart) (congrArg Uart.seconds hserved.uart)
  have htext : data.time.text = fmt set.1 set.2 := by
    rw [htime, text_fromParts, Nat.min_eq_left hmin, Nat.min_eq_left hsec]
  exact ⟨htext, by rw [htext, clockOf_fmt], hserved.running⟩

end TypedTime

/-- A router that does no more than that. -/
def plainRoute (path : List Char) : Option Command :=
  match ctrlRoutes.find? fun r => r.1.toList == path with
  | some r => some r.2
  | none =>
    if timerPath.isPrefixOf path then
      let rest := path.drop timerPath.length
      (parseU8 (rest.takeWhile (· ≠ '/'))).bind fun min =>
        (parseU8 ((rest.dropWhile (· ≠ '/')).drop 1)).map fun sec => .setTimer min sec
    else none

/-- No fixed path begins like the path of a time. -/
theorem ctrlRoutes_timer (rest : List Char) :
    ctrlRoutes.find? (fun r => r.1.toList == timerPath ++ rest) = none := by
  have hother : ∀ r ∈ ctrlRoutes, r.1.toList.take timerPath.length ≠ timerPath := by decide
  refine List.find?_eq_none.2 fun r hr heq => hother r hr ?_
  rw [eq_of_beq heq, List.take_left]

theorem plainRoute_routes : Routes plainRoute where
  fixed := by decide
  timer := by
    intro a b ha hb
    have hplain : ∀ c ∈ a, decide (c ≠ '/') = true :=
      fun c hc => decide_eq_true (digit_plain (ha c hc)).2.2.2.2
    have htake : (a ++ '/' :: b).takeWhile (· ≠ '/') = a := by
      rw [List.takeWhile_append_of_pos hplain, List.takeWhile_cons_of_neg (by simp), List.append_nil]
    have hdrop : (a ++ '/' :: b).dropWhile (· ≠ '/') = '/' :: b := by
      rw [List.dropWhile_append_of_pos hplain, List.dropWhile_cons_of_neg (by simp)]
    have hpath : timerPath.isPrefixOf (timerPath ++ (a ++ '/' :: b)) = true :=
      List.isPrefixOf_iff_prefix.2 (List.prefix_append _ _)
    rw [plainRoute, ctrlRoutes_timer]
    simp only [hpath, if_true, List.drop_left, htake, hdrop, List.drop_succ_cons, List.drop_zero]

/-- `" 3"` and `"75x"` are typed, and a status is polled before `board_task` is there. -/
def typedTap : List (Option Action) :=
  [none, some (.send (.setTimer 3 59)), some (.visit .status), some (.elapse 40), none, none]

def typedTapEnd : World × Pending := (playHead true typedTap World.boot .zero).get rfl

theorem typed_time_shown_typedTap :
    let set := readSet " 3".toList "75x".toList
    let data := statusOf firstRelease (Section.run .status 90 typedTapEnd.1.shared).1 90
    data.time.text = fmt set.1 set.2 ∧ clockOf data.time.text = ((set.1 : ℤ), (set.2 : ℤ)) ∧
      data.running = false := by
  have hplay : playHead true typedTap World.boot .zero = some typedTapEnd := (Option.some_get _).symm
  have hreach : (boardSystem true fun _ => True).Reach ⟨World.boot, .ret .zero⟩
      ⟨typedTapEnd.1, .ret typedTapEnd.2⟩ := playHead_reach (fun _ _ a _ => by cases a <;> trivial) hplay
  exact typed_time_shown plainRoute_routes hreach
    (by decide +kernel : plainRoute (PagePost.set " 3".toList "75x".toList).path =
      some (.setTimer 3 59)) (by decide +kernel :
      (commandsTaken typedTapEnd.1.hist).find? (·.1.moves) = some (.setTimer 3 59, true)) _ _

/-! ### The horn -/

/-- What comes to a page: a `pointerdown` anywhere in the document, or a status that it applies. -/
inductive PageEvent where
  | pointerdown
  | status (data : StatusJson)
  deriving DecidableEq, Repr

/-- `lastMin` and `lastSec`, null before the first status, and whether `audioCtx` is set. -/
structure HornState where
  last : Option (ℤ × ℤ)
  audioCtx : Bool
  deriving DecidableEq, Repr

/-- `unlockAudio`; `ac` says whether the browser has an `AudioContext`. -/
def unlockAudio (ac : Bool) (p : HornState) : HornState :=
  if !ac then p else { p with audioCtx := true }

/-- How many horns `buzz` starts. -/
def buzz (p : HornState) : ℕ := if !p.audioCtx then 0 else 1

/-- Whether `applyStatus` calls `buzz`. -/
def buzzes (last : Option (ℤ × ℤ)) (time : ℤ × ℤ) : Bool :=
  match last with
  | some (lastMin, lastSec) =>
    decide (lastMin = 0 ∧ lastSec > 0 ∧ lastSec ≤ 2 ∧ time.1 = 0 ∧ time.2 = 0)
  | none => false

/-- How many horns a page starts. -/
def horns (ac : Bool) : HornState → List PageEvent → ℕ
  | _, [] => 0
  | p, .pointerdown :: rest => horns ac (unlockAudio ac p) rest
  | p, .status data :: rest =>
    let time := clockOf data.time.text
    (if buzzes p.last time then buzz p else 0) + horns ac { p with last := some time } rest

def PageEvent.data? : PageEvent → Option StatusJson
  | .pointerdown => none
  | .status data => some data

/-- The statuses that a page applies. -/
def applied (events : List PageEvent) : List StatusJson := events.filterMap PageEvent.data?

/-- Whether the page is touched before it applies a first status with `00:00`. -/
def touchedInTime : List PageEvent → Bool
  | [] => false
  | .pointerdown :: _ => true
  | .status data :: rest => clockOf data.time.text != (0, 0) && touchedInTime rest

/-- The statuses that the sections of a run hand out. -/
def served (rel : Release) : List (ℕ × Section) → Shared → List StatusJson
  | [], _ => []
  | e :: run, g =>
    match e.2 with
    | .status => statusOf rel (Section.run .status e.1 g).1 e.1 :: served rel run (Section.run .status e.1 g).2
    | sec => served rel run (sec.run e.1 g).2

/-- The time that a page shows where `n` seconds are left. -/
def shownTime (n : ℕ) : ℤ × ℤ := (((minSec n).1 : ℤ), ((minSec n).2 : ℤ))

/-- The seconds left at the statuses of a run that begins with `n`. -/
def leftServed : ℕ → List (ℕ × Section) → List ℕ
  | _, [] => []
  | n, e :: run =>
    match e.2 with
    | .status => n :: leftServed n run
    | .timerTick => leftServed (n - 1) run
    | _ => leftServed n run

theorem buzzes_shownTime (last : Option ℕ) (n : ℕ) :
    buzzes (last.map shownTime) (shownTime n) = true ↔ n = 0 ∧ (last = some 1 ∨ last = some 2) := by
  cases last with
  | none => simp [buzzes]
  | some k =>
    refine decide_eq_true_iff.trans ?_
    simp only [shownTime, minSec, Option.some.injEq]
    omega

theorem shownTime_eq_zero {n : ℕ} : shownTime n = (0, 0) ↔ n = 0 := by
  simp only [shownTime, minSec, Prod.mk.injEq]
  omega

/-- The last seconds seen before the end are one or two, and the end is seen. -/
def EndsShort (last : Option ℕ) (left : List ℕ) : Prop :=
  0 ∈ left ∧ ((last.toList ++ left).filter (· > 0)).getLast?.any (· ≤ 2)

instance (last : Option ℕ) (left : List ℕ) : Decidable (EndsShort last left) :=
  inferInstanceAs (Decidable (0 ∈ left ∧ _))

theorem endsShort_cons_pos {last : Option ℕ} {n : ℕ} (hn : 0 < n) (left : List ℕ) :
    EndsShort last (n :: left) ↔ EndsShort (some n) left := by
  have hseen : (last.toList ++ n :: left).filter (· > 0) =
      last.toList.filter (· > 0) ++ n :: left.filter (· > 0) := by simp [hn]
  have hnow : ((some n).toList ++ left).filter (· > 0) = n :: left.filter (· > 0) := by simp [hn]
  have hne : 0 ≠ n := by omega
  rw [EndsShort, EndsShort, hseen, hnow, List.getLast?_append, List.getLast?_cons, Option.some_or]
  simp [hne]

/-- At the end it is the last time that counts, for nothing but zeros follows. -/
theorem endsShort_cons_zero {last : Option ℕ} {left : List ℕ}
    (h : (last.toList ++ 0 :: left).Pairwise (· ≥ ·)) :
    (EndsShort last (0 :: left) ↔ last = some 1 ∨ last = some 2) ∧ ¬ EndsShort (some 0) left := by
  have hrest : (0 :: left).Pairwise (· ≥ ·) := h.sublist (List.sublist_append_right _ _)
  have hzero : left.filter (· > 0) = [] := by
    rw [List.filter_eq_nil_iff]
    intro k hk
    have hle := (List.pairwise_cons.1 hrest).1 k hk
    simp
    omega
  refine ⟨?_, by simp [EndsShort, hzero]⟩
  cases last with
  | none => simp [EndsShort, hzero]
  | some k => cases k with
    | zero => simp [EndsShort, hzero]
    | succ k =>
      have hfinal : k + 1 ≤ 2 ↔ k + 1 = 1 ∨ k + 1 = 2 := by omega
      simp [EndsShort, hzero, hfinal]

/-- **The horn of a countdown** is started once if the end is seen right after the last two seconds by a
page that was touched before, and else not at all. -/
theorem horns_descending (ac : Bool) {events : List PageEvent} {last : Option ℕ} {audio : Bool}
    {left : List ℕ} (hdesc : (last.toList ++ left).Pairwise (· ≥ ·))
    (h : (applied events).map (fun data => clockOf data.time.text) = left.map shownTime) :
    horns ac ⟨last.map shownTime, audio⟩ events =
      if EndsShort last left ∧ (audio || ac && touchedInTime events) = true then 1 else 0 := by
  induction events generalizing last audio left with
  | nil =>
    obtain rfl : left = [] := List.map_eq_nil_iff.1 h.symm
    simp [horns, EndsShort]
  | cons event rest ih =>
    cases event with
    | pointerdown =>
      rw [horns, touchedInTime]
      cases ac with
      | false => exact ih hdesc h
      | true => exact (ih hdesc h).trans (by simp)
    | status data =>
      cases left with
      | nil => cases h
      | cons n left =>
        obtain ⟨htime, hrest⟩ := List.cons.inj h
        dsimp only at htime
        have hafter := @ih (some n) audio left (hdesc.sublist (List.sublist_append_right _ _)) hrest
        rw [horns, touchedInTime, htime]
        simp only [buzzes_shownTime]
        rcases Nat.eq_zero_or_pos n with rfl | hn
        · obtain ⟨hnow, hnever⟩ := endsShort_cons_zero hdesc
          rw [if_neg fun hshort => hnever hshort.1] at hafter
          have hzero : (shownTime 0 != (0, 0)) = false := rfl
          rw [hzero, Bool.false_and, Bool.and_false, Bool.or_false]
          refine (congrArg _ hafter).trans ?_
          simp only [hnow, true_and, Nat.add_zero]
          cases audio with
          | false => simp [buzz]
          | true => simp [buzz]
        · have hpos : (shownTime n != (0, 0)) = true := by
            rw [bne_iff_ne, ne_eq, shownTime_eq_zero]
            omega
          rw [if_neg (by omega), hpos, Bool.true_and, Nat.zero_add]
          refine hafter.trans ?_
          simp only [endsShort_cons_pos hn]

theorem leftServed_descending (n : ℕ) (run : List (ℕ × Section)) :
    (n :: leftServed n run).Pairwise (· ≥ ·) := by
  induction run generalizing n with
  | nil => simp [leftServed]
  | cons e run ih =>
    obtain ⟨now, sec⟩ := e
    cases sec with
    | status => exact List.pairwise_cons.2 ⟨by simpa [leftServed] using (List.pairwise_cons.1 (ih n)).1, ih n⟩
    | timerTick =>
      obtain ⟨hle, hrest⟩ := List.pairwise_cons.1 (ih (n - 1))
      refine List.pairwise_cons.2 ⟨fun k hk => ?_, hrest⟩
      have hk := hle k hk
      omega
    | _ => exact ih n

section CountdownHorn

variable {n last t : ℕ} {g : Shared} {run : List (ℕ × Section)}

theorem Counting.step {sec : Section} (h : Counting n last g) (hvisit : sec.visitor true = true)
    (ht : t < last + 2000 * 1000) :
    Counting (if sec = .timerTick then n - 1 else n) (if sec = .timerTick then t else last)
      (sec.run t g).2 := by
  by_cases htick : sec = .timerTick
  · rw [if_pos htick, if_pos htick, htick]
    cases n with
    | succ n => exact h.tick t
    | zero =>
      rw [h.done t]
      exact ⟨h.time, h.running, fun hn => absurd hn (Nat.lt_irrefl 0)⟩
  · rw [if_neg htick, if_neg htick]
    exact h.visit hvisit htick ht

theorem clockOf_counting (rel : Release) (hn : n < 6000) (h : Counting n last g) :
    clockOf (statusOf rel g.board t).time.text = shownTime n := by
  obtain ⟨hmin, hsec⟩ := Prod.mk.inj h.time
  have htext : (statusOf rel g.board t).time.text = fmt (minSec n).1 (minSec n).2 := by
    show (TimeStr.fromParts g.board.minutes g.board.seconds).text = _
    rw [hmin, hsec, text_fromParts, Nat.min_eq_left (by omega), Nat.min_eq_left (by omega)]
    rfl
  rw [htext, clockOf_fmt, shownTime]

/-- Every status of a countdown shows the seconds that are left. -/
theorem served_left (rel : Release) (hn : n < 6000) (hrun : Ticking last run) (h : Counting n last g) :
    (served rel run g).map (fun data => clockOf data.time.text) =
      (leftServed n run).map shownTime := by
  induction run generalizing n last g with
  | nil => rfl
  | cons e run ih =>
    obtain ⟨now, sec⟩ := e
    obtain ⟨hvisit, -, hlt, hrest⟩ := hrun
    have hnext := h.step hvisit hlt
    cases sec with
    | status => exact congrArg₂ List.cons (clockOf_counting rel hn hnext) (ih hn hrest hnext)
    | timerTick => exact ih (by omega : n - 1 < 6000) hrest hnext
    | readLed | heartbeat | refresh | stopWait => exact ih hn hrest hnext
    | _ => cases hvisit

/-- Polled at `00:02` and, two ticks later, twice at `00:00`. -/
def lastSeconds : List (ℕ × Section) :=
  [(5700000, .timerTick), (5800000, .status), (6700000, .timerTick), (7700000, .timerTick),
    (7800000, .status), (8150000, .status)]

/-- The page is touched before the last second. -/
def touchedPage : List PageEvent :=
  let shown := served firstRelease lastSeconds
    ((Section.simStartStop (some true)).run 5000000 (Shared.boot.setClock 0 3 0)).2
  (shown.take 1).map .status ++ .pointerdown :: (shown.drop 1).map .status

end CountdownHorn

end ScoreboardCtrl
