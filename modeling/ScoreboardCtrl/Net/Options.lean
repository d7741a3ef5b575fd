import ScoreboardCtrl.Lib.Tlv
import ScoreboardCtrl.Net.Dhcp

/-!
# The options of a DHCP packet

The option area is a list of tagged values (`Lib/Tlv.lean`) with the padding 0 and the end mark 255;
`find_option` looks a code up in what can be parsed of it.

* `optionAt_iff_lookup` — the walk over the packet and the items agree;
* `find_option_grammar` — `find_option` returns on every packet, and is the look-up.
-/

namespace ScoreboardCtrl.Net

open Lib (Rust)
open Lib.Dns
open Lib.Tlv (Item Parses Stops)

/-- An item of the option area. -/
abbrev DhcpItem : Type := Item 0 255

section Walk

variable {packet rest : Bytes} {i : ℕ}

theorem not_optionAt {code : UInt8} {v : Bytes} (h : Stops 0 255 (packet.drop i)) :
    ¬ OptionAt packet code i v := by
  intro hat
  have hlt := hat.lt_length
  generalize hrest : packet.drop i = rest at h
  have hlen := congrArg List.length hrest
  rw [List.length_drop] at hlen
  cases h with
  | nil =>
    rw [List.length_nil] at hlen
    omega
  | mark => exact (hat.inv (getElem?_of_drop hrest) (by decide)).1 rfl
  | code h0 =>
    obtain ⟨-, len, hnext, -⟩ := hat.inv (getElem?_of_drop hrest) h0
    have hlt' : i + 1 < packet.length := (List.getElem?_eq_some_iff.1 hnext).1
    rw [List.length_singleton] at hlen
    omega
  | @cut c len data h0 _ hshort =>
    obtain ⟨-, len', hnext, hfits, -⟩ := hat.inv (getElem?_of_drop hrest) h0
    have hlen' : packet[i + 1]? = some len := getElem?_of_drop (drop_of_drop (l := [c]) hrest)
    obtain rfl := Option.some.inj (hlen'.symm.trans hnext)
    rw [List.length_cons, List.length_cons] at hlen
    omega

/-- At a value it is the one, or the walk goes on behind it. -/
theorem optionAt_value {code c : UInt8} {data v : Bytes} {h0 : c ≠ 0} {h255 : c ≠ 255}
    {hshort : data.length ≤ 255}
    (h : packet.drop i = (Item.value c data h0 h255 hshort).encode ++ rest) :
    OptionAt packet code i v ↔
      if c = code then data = v else OptionAt packet code (i + 2 + data.length) v := by
  have hlen := Lib.Tlv.toNat_short hshort
  have hcode : packet[i]? = some c := getElem?_of_drop h
  have hsize : packet[i + 1]? = some (UInt8.ofNat data.length) :=
    getElem?_of_drop (drop_of_drop (l := [c]) h)
  have hbody : packet.drop (i + 2) = data ++ rest :=
    drop_of_drop (l := [c, UInt8.ofNat data.length]) h
  have hcut : cut packet (i + 2) (i + 2 + data.length) = data := cut_of_drop hbody
  have hfits : i + 2 + data.length ≤ packet.length := by
    have hsum := congrArg List.length hbody
    have hlt := (List.getElem?_eq_some_iff.1 hsize).1
    rw [List.length_drop, List.length_append] at hsum
    omega
  constructor
  · intro hat
    obtain ⟨-, len, hlen', -, hvalue⟩ := hat.inv hcode h0
    obtain rfl := Option.some.inj (hsize.symm.trans hlen')
    rw [hlen, hcut] at hvalue
    rcases hvalue with ⟨heq, hv⟩ | ⟨hne, hrest⟩
    · rw [if_pos heq, hv]
    · rw [if_neg hne]
      exact hrest
  · intro hat
    rw [← hlen] at hfits hcut hat
    by_cases heq : c = code
    · rw [if_pos heq] at hat
      rw [← hat, ← hcut]
      exact .here (heq ▸ hcode) (heq ▸ h0) (heq ▸ h255) hsize hfits
    · rw [if_neg heq] at hat
      exact .other hcode h0 h255 heq hsize hfits hat

/-- From `i` on an option is found exactly where it stands in the items parsed. -/
theorem optionAt_iff_lookup {code : UInt8} {v : Bytes} {items : List DhcpItem}
    (h : Parses (packet.drop i) items rest) :
    OptionAt packet code i v ↔ Lib.Tlv.lookup code items = some v := by
  induction items generalizing i with
  | nil =>
    have hrest : packet.drop i = rest := h.area_eq
    constructor
    · intro hat
      exact absurd hat (not_optionAt (hrest ▸ h.stops))
    · intro hnone
      cases hnone
  | cons x items ih =>
    have harea : packet.drop i = x.encode ++ (Lib.Tlv.encode items ++ rest) := by
      rw [h.area_eq, Lib.Tlv.encode_cons, List.append_assoc]
    have hih := ih ⟨drop_of_drop harea, h.stops⟩
    cases x with
    | pad => exact (optionAt_pad (getElem?_of_drop harea)).trans hih
    | value c data h0 h255 hshort =>
      have hlength : (Item.value c data h0 h255 hshort).encode.length = 2 + data.length := by
        rw [Item.encode, List.length_cons, List.length_cons]
        omega
      rw [hlength, ← Nat.add_assoc] at hih
      rw [optionAt_value harea, Lib.Tlv.lookup, hih]
      split
      · exact Option.some_inj.symm
      · exact Iff.rfl

end Walk

/-- `find_option` looks the code up in what can be parsed. -/
theorem findOption_eq_lookup {packet rest : Bytes} (hpacket : Rust.Sized packet)
    (h240 : 240 ≤ packet.length) (hmagic : cut packet 236 240 = dhcpMagic) {items : List DhcpItem}
    (h : Parses (packet.drop 240) items rest) (code : UInt8) :
    findOption packet code = .ok (Lib.Tlv.lookup code items) := by
  obtain ⟨r, hr, hiff⟩ : (findOption packet code).Returns _ := findOption_returns hpacket
  rw [hr]
  congr 1
  refine Option.ext ?_
  intro v
  rw [hiff v, ← optionAt_iff_lookup h]
  exact ⟨fun hat => hat.2.2, fun hat => ⟨h240, hmagic, hat⟩⟩

/-- Where the items are over, or their end mark stands. -/
theorem stops_of_mark {tail : Bytes} (h : tail = [] ∨ tail.head? = some 255) :
    Stops 0 255 tail := by
  cases tail with
  | nil => exact .nil
  | cons c tail =>
    obtain h | h := h
    · cases h
    · obtain rfl := Option.some.inj h
      exact .mark tail

/-- **`find_option` parses the option grammar**: it returns on every packet. Behind the magic it
finds the first value with the code in the longest list of items that the option area starts with;
of any items, ended by the packet or the end mark, it finds the first value with the code. -/
theorem find_option_grammar {packet : Bytes} (hpacket : Rust.Sized packet) (code : UInt8) :
    (∃ r, findOption packet code = .ok r) ∧
    (240 ≤ packet.length → cut packet 236 240 = dhcpMagic →
      (∃ (items : List DhcpItem) (rest : Bytes), Parses (packet.drop 240) items rest ∧
        (∀ items' : List DhcpItem, Lib.Tlv.encode items' <+: packet.drop 240 → items' <+: items) ∧
        findOption packet code = .ok (Lib.Tlv.lookup code items)) ∧
      ∀ (items : List DhcpItem) (tail : Bytes), packet.drop 240 = Lib.Tlv.encode items ++ tail →
        tail = [] ∨ tail.head? = some 255 →
        findOption packet code = .ok (Lib.Tlv.lookup code items)) := by
  obtain ⟨r, hr, -⟩ : (findOption packet code).Returns _ := findOption_returns hpacket
  refine ⟨⟨r, hr⟩, fun h240 hmagic => ⟨?_, ?_⟩⟩
  · obtain ⟨items, rest, hparses⟩ := Lib.Tlv.exists_parses 0 255 (packet.drop 240)
    refine ⟨items, rest, hparses, fun items' => hparses.longest (by decide), ?_⟩
    exact findOption_eq_lookup hpacket h240 hmagic hparses code
  · intro items tail harea htail
    exact findOption_eq_lookup hpacket h240 hmagic ⟨harea, stops_of_mark htail⟩ code

/-- A DHCPREQUEST behind padding, with bytes behind its end mark. -/
theorem find_option_grammar_request :
    findOption (List.replicate 236 0 ++ dhcpMagic ++ [0, 53, 1, 3, 255, 50, 4]) 53 =
      .ok (some [3]) :=
  ((find_option_grammar (by decide +kernel) 53).2 (by decide +kernel) (by decide +kernel)).2
    [.pad, .value 53 [3] (by decide) (by decide) (by decide)] [255, 50, 4] (by decide +kernel)
    (.inr rfl)

end ScoreboardCtrl.Net
