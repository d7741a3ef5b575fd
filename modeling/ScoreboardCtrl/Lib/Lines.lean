import ScoreboardCtrl.Lib.Mealy
import Mathlib.Data.List.Induction

/-!
# Lines in limited room

A reader collects what comes up to an end mark and then hands it out, if it is not empty. It has room
for `room` elements; one more empties it, and it goes on behind that one.

* `kept` — what is left in the reader of a text without end marks: the text, if there is room for it,
  else its last part;
* `linesOf` — the lines of a stream, by `splitOnP`;
* `total_stream` — these are what is handed out, and the reader then holds what is kept of the text behind
  the last end mark.
-/

namespace ScoreboardCtrl.Lib.Lines

variable {α : Type} (ends : α → Bool) (room : ℕ)

/-- What one element does to what is held; the output is a line, if it is one. -/
def step (a : α) (held : List α) : List α × List (List α) :=
  if ends a then ([], if held.isEmpty then [] else [held])
  else if held.length < room then (held ++ [a], [])
  else ([], [])

/-- The last part of a text, as long as the reader holds it. -/
def kept (text : List α) : List α := text.drop (text.length - text.length % (room + 1))

/-- No end mark in it. -/
def Open (text : List α) : Prop := ∀ a ∈ text, ends a = false

instance (text : List α) : Decidable (Open ends text) :=
  inferInstanceAs (Decidable (∀ a ∈ text, ends a = false))

/-- The kept part of each text that an end mark follows, where that is not empty. -/
def linesOf (stream : List α) : List (List α) :=
  ((stream.splitOnP ends).dropLast.map (kept room)).filter fun line => !line.isEmpty

/-- The text behind the last end mark. -/
def restOf (stream : List α) : List α := (stream.splitOnP ends).getLastD []

/-- A line as it comes in: a text and the end mark behind it. -/
structure Piece where
  text : List α
  mark : α
  isOpen : Open ends text
  isEnd : ends mark = true

variable {ends room}

def Piece.stream (p : Piece ends) : List α := p.text ++ [p.mark]

theorem open_nil : Open ends [] := fun _ h => nomatch h

theorem kept_of_le {text : List α} (h : text.length ≤ room) : kept room text = text := by
  rw [kept, Nat.mod_eq_of_lt (by omega), Nat.sub_self, List.drop_zero]

theorem length_kept (text : List α) : (kept room text).length = text.length % (room + 1) := by
  have hle := Nat.mod_le text.length (room + 1)
  rw [kept, List.length_drop]
  omega

/-- One more element: it goes behind what is held, or empties the reader. -/
theorem kept_concat (text : List α) (a : α) : kept room (text ++ [a]) =
    if (kept room text).length < room then kept room text ++ [a] else [] := by
  have hlt : text.length % (room + 1) < room + 1 := Nat.mod_lt _ (Nat.succ_pos room)
  have hle := Nat.mod_le text.length (room + 1)
  have hlen : (text ++ [a]).length = text.length + 1 := by simp
  rw [length_kept, kept, hlen]
  by_cases h : text.length % (room + 1) < room
  · have hmod : (text.length + 1) % (room + 1) = text.length % (room + 1) + 1 := by
      rw [← Nat.mod_add_mod, Nat.mod_eq_of_lt (by omega)]
    have hdrop : text.length + 1 - (text.length % (room + 1) + 1) =
        text.length - text.length % (room + 1) := by omega
    rw [if_pos h, hmod, hdrop, List.drop_append_of_le_length (by omega)]
    rfl
  · have hfull : text.length % (room + 1) = room := by omega
    have hmod : (text.length + 1) % (room + 1) = 0 := by
      rw [← Nat.mod_add_mod, hfull, Nat.mod_self]
    rw [if_neg h, hmod, List.drop_eq_nil_of_le (by omega)]

theorem step_open {a : α} (h : ends a = false) (held : List α) :
    step ends room a held = (if held.length < room then held ++ [a] else [], []) := by
  simp only [step, h, Bool.false_eq_true, if_false]
  split <;> rfl

theorem step_end {a : α} (h : ends a = true) (held : List α) :
    step ends room a held = ([], if held.isEmpty then [] else [held]) := by
  simp [step, h]

theorem total_concat (text : List α) (a : α) (held : List α) :
    Mealy.total (step ends room) (text ++ [a]) held =
      ((step ends room a (Mealy.total (step ends room) text held).1).1,
        (Mealy.total (step ends room) text held).2 ++
          (step ends room a (Mealy.total (step ends room) text held).1).2) := by
  rw [Mealy.total_append]
  simp [Mealy.total_cons]

theorem total_open {text : List α} (h : Open ends text) :
    Mealy.total (step ends room) text [] = (kept room text, []) := by
  induction text using List.reverseRecOn with
  | nil => rfl
  | append_singleton text a ih =>
    have htext : Open ends text := fun b hb => h b (List.mem_append_left _ hb)
    rw [total_concat, ih htext, step_open (h a (by simp)), kept_concat]
    rfl

theorem total_piece (p : Piece ends) : Mealy.total (step ends room) p.stream [] =
    ([], [kept room p.text].filter fun line => !line.isEmpty) := by
  rw [Piece.stream, total_concat, total_open p.isOpen, step_end p.isEnd]
  cases h : (kept room p.text).isEmpty <;> simp [h]

theorem total_pieces (pieces : List (Piece ends)) {rest : List α} (hrest : Open ends rest) :
    Mealy.total (step ends room) (pieces.flatMap Piece.stream ++ rest) [] =
      (kept room rest, (pieces.map fun p => kept room p.text).filter fun line => !line.isEmpty) := by
  induction pieces with
  | nil => simpa using total_open hrest
  | cons p pieces ih =>
    rw [List.flatMap_cons, List.append_assoc, Mealy.total_append, total_piece, ih]
    simp [List.filter_cons]
    split <;> rfl

/-- Every stream is cut at its end marks. -/
theorem exists_pieces (stream : List α) : ∃ (pieces : List (Piece ends)) (rest : List α),
    Open ends rest ∧ stream = pieces.flatMap Piece.stream ++ rest := by
  induction stream with
  | nil => exact ⟨[], [], open_nil, rfl⟩
  | cons a stream ih =>
    obtain ⟨pieces, rest, hrest, rfl⟩ := ih
    cases ha : ends a with
    | true => exact ⟨⟨[], a, open_nil, ha⟩ :: pieces, rest, hrest, rfl⟩
    | false =>
      -- the element goes in front of the first line, or of the rest
      have hcons : ∀ {text : List α}, Open ends text → Open ends (a :: text) := by
        intro text htext b hb
        rcases List.mem_cons.1 hb with rfl | hb
        · exact ha
        · exact htext b hb
      cases pieces with
      | nil => exact ⟨[], a :: rest, hcons hrest, rfl⟩
      | cons p pieces => exact ⟨⟨a :: p.text, p.mark, hcons p.isOpen, p.isEnd⟩ :: pieces, rest, hrest, rfl⟩

theorem splitOnP_pieces (pieces : List (Piece ends)) {rest : List α} (hrest : Open ends rest) :
    (pieces.flatMap Piece.stream ++ rest).splitOnP ends = pieces.map Piece.text ++ [rest] := by
  induction pieces with
  | nil => exact List.splitOnP_eq_singleton hrest
  | cons p pieces ih =>
    rw [List.flatMap_cons, Piece.stream, List.append_assoc, List.append_assoc, List.singleton_append,
      List.splitOnP_append_cons_of_forall_mem p.isOpen _ p.isEnd, ih]
    rfl

/-- **What a stream hands out** are its lines. -/
theorem total_stream (stream : List α) : Mealy.total (step ends room) stream [] =
    (kept room (restOf ends stream), linesOf ends room stream) := by
  obtain ⟨pieces, rest, hrest, rfl⟩ := @exists_pieces α ends stream
  rw [total_pieces pieces hrest, restOf, linesOf, splitOnP_pieces pieces hrest, List.dropLast_concat,
    List.map_map]
  simp only [List.getLastD_concat]
  rfl

end ScoreboardCtrl.Lib.Lines
