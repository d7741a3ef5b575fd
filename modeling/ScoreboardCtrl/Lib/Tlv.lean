import ScoreboardCtrl.Lib.SelfDelimiting

/-!
# Lists of tagged values

A byte string of items: a padding byte, or a code, a length byte and as many bytes of data. One code
is the padding, and one ends the list.

* `exists_parses` — every byte string is the encoding of items, and a rest at which no further one
  can be read (`Stops`);
* `selfDelimiting_encode` — no item's encoding starts another's;
* `Parses.longest` — the items parsed are the longest that the byte string starts with.
-/

namespace ScoreboardCtrl.Lib.Tlv

/-- One item; the codes of the padding and of the end mark are no codes of values, and the length
of a value is one byte. -/
inductive Item (pad stop : UInt8) where
  | pad
  | value (code : UInt8) (data : List UInt8) (ne_pad : code ≠ pad) (ne_stop : code ≠ stop)
      (short : data.length ≤ 255)
  deriving DecidableEq, Repr

variable {pad stop : UInt8}

def Item.encode : Item pad stop → List UInt8
  | .pad => [pad]
  | .value code data _ _ _ => code :: UInt8.ofNat data.length :: data

def encode (items : List (Item pad stop)) : List UInt8 := items.flatMap Item.encode

/-- The data of the first value with the code. -/
def lookup (code : UInt8) : List (Item pad stop) → Option (List UInt8)
  | [] => none
  | .pad :: items => lookup code items
  | .value c data _ _ _ :: items => if c = code then some data else lookup code items

/-- No item can be read: the bytes are over, the end mark stands here, or a code whose length byte
or data are not all there. -/
inductive Stops (pad stop : UInt8) : List UInt8 → Prop
  | nil : Stops pad stop []
  | mark (rest : List UInt8) : Stops pad stop (stop :: rest)
  | code {c : UInt8} : c ≠ pad → c ≠ stop → Stops pad stop [c]
  | cut {c len : UInt8} {data : List UInt8} : c ≠ pad → c ≠ stop → data.length < len.toNat →
      Stops pad stop (c :: len :: data)

/-- The items at the start of `area`, as far as items can be read. -/
structure Parses (area : List UInt8) (items : List (Item pad stop)) (rest : List UInt8) : Prop where
  area_eq : area = encode items ++ rest
  stops : Stops pad stop rest

theorem encode_cons (x : Item pad stop) (items : List (Item pad stop)) :
    encode (x :: items) = x.encode ++ encode items := rfl

theorem toNat_short {data : List UInt8} (h : data.length ≤ 255) :
    (UInt8.ofNat data.length).toNat = data.length := by
  rw [UInt8.toNat_ofNat']
  exact Nat.mod_eq_of_lt (by omega)

/-! ### Items in a byte string -/

/-- **No item starts another.** -/
theorem selfDelimiting_encode : SelfDelimiting (Item.encode : Item pad stop → List UInt8) := by
  intro x y r s h
  cases x with
  | pad =>
    cases y with
    | pad => exact ⟨rfl, (List.cons.inj h).2⟩
    | value c data hpad => exact absurd (List.cons.inj h).1.symm hpad
  | value c data hpad hstop hshort =>
    cases y with
    | pad => exact absurd (List.cons.inj h).1 hpad
    | value c' data' hpad' hstop' hshort' =>
      obtain ⟨rfl, htail⟩ := List.cons.inj h
      obtain ⟨hlen, hdata⟩ := List.cons.inj htail
      have hlength : data.length = data'.length := by
        rw [← toNat_short hshort, ← toNat_short hshort', hlen]
      obtain ⟨rfl, rfl⟩ := List.append_inj hdata hlength
      exact ⟨rfl, rfl⟩

/-- An item stands at the start, or none can be read. -/
theorem item_or_stops (pad stop : UInt8) (area : List UInt8) :
    (∃ (x : Item pad stop) (rest : List UInt8), area = x.encode ++ rest) ∨ Stops pad stop area := by
  rcases area with _ | ⟨c, area⟩
  · exact .inr .nil
  by_cases hpad : c = pad
  · rw [hpad]
    exact .inl ⟨.pad, area, rfl⟩
  by_cases hstop : c = stop
  · rw [hstop]
    exact .inr (.mark area)
  rcases area with _ | ⟨len, data⟩
  · exact .inr (.code hpad hstop)
  by_cases hfits : data.length < len.toNat
  · exact .inr (.cut hpad hstop hfits)
  · have hlt := len.toNat_lt
    have hlength : (data.take len.toNat).length = len.toNat := by
      rw [List.length_take]
      omega
    refine .inl ⟨.value c (data.take len.toNat) hpad hstop (by omega), data.drop len.toNat, ?_⟩
    simp only [Item.encode, hlength, UInt8.ofNat_toNat, List.cons_append, List.take_append_drop]

/-- Where items stop, none is left to read. -/
theorem Stops.noneStarts {rest : List UInt8} (h : Stops pad stop rest) (hne : pad ≠ stop) :
    NoneStarts (Item.encode : Item pad stop → List UInt8) rest := by
  intro x r heq
  cases x with
  | pad =>
    cases h with
    | nil => cases heq
    | mark => exact hne (List.cons.inj heq).1.symm
    | code hpad => exact hpad (List.cons.inj heq).1
    | cut hpad => exact hpad (List.cons.inj heq).1
  | value c data hpad hstop hshort =>
    cases h with
    | nil => cases heq
    | mark => exact hstop (List.cons.inj heq).1.symm
    | code => cases (List.cons.inj heq).2
    | @cut _ len rest _ _ hlt =>
      obtain ⟨hlen, hrest⟩ : len = UInt8.ofNat data.length ∧ rest = data ++ r :=
        List.cons.inj (List.cons.inj heq).2
      rw [hlen, toNat_short hshort, hrest, List.length_append] at hlt
      omega

/-- **Every byte string parses.** -/
theorem exists_parses (pad stop : UInt8) (area : List UInt8) :
    ∃ (items : List (Item pad stop)) (rest : List UInt8), Parses area items rest := by
  induction hn : area.length using Nat.strongRecOn generalizing area with
  | _ n ih =>
    rcases item_or_stops pad stop area with ⟨x, tail, rfl⟩ | hstops
    · have hpos : 1 ≤ x.encode.length := by cases x <;> simp [Item.encode]
      rw [List.length_append] at hn
      obtain ⟨items, rest, hparses⟩ := ih tail.length (by omega) tail rfl
      refine ⟨x :: items, rest, ?_, hparses.stops⟩
      rw [encode_cons, List.append_assoc, ← hparses.area_eq]
    · exact ⟨[], area, rfl, hstops⟩

/-- **The items parsed are the longest** that the byte string starts with. -/
theorem Parses.longest {area rest : List UInt8} {items items' : List (Item pad stop)}
    (h : Parses area items rest) (hne : pad ≠ stop) (h' : encode items' <+: area) :
    items' <+: items := by
  obtain ⟨tail, htail⟩ := h'
  exact selfDelimiting_encode.longest (h.stops.noneStarts hne) (htail.trans h.area_eq)

end ScoreboardCtrl.Lib.Tlv
