import ScoreboardCtrl.Net.DhcpRun
import ScoreboardCtrl.Net.Mdns

/-!
# The three tasks together

A phone in the net sends what it likes to the ports 67, 53 and 5353.

* `Tasks.turn` — the turn of the task whose port a datagram reaches;
* `Tasks.turn_returns` — it returns, whatever the datagram, the buffers and the leases hold;
* `tasks_take_any_packet` — no datagram, and no run of them, ends a task.
-/

namespace ScoreboardCtrl.Net

open Lib (Rust)
open Lib.Dns

/-- A datagram at the port of a task. -/
inductive Packet where
  | dhcp (d : Bytes)
  | dns (d : Bytes)
  | mdns (d : Bytes)
  deriving DecidableEq, Repr

/-- `recv_from` gives no more bytes than the buffer of the task has. -/
def Packet.Fits : Packet → Prop
  | .dhcp d => d.length ≤ 600
  | .dns d => d.length ≤ 512
  | .mdns d => d.length ≤ 512

/-- What the tasks keep from one datagram to the next: `dns_task` and `mdns_task` only what is left
in their receive buffers. -/
structure Tasks where
  dhcp : Dhcp
  dns : Bytes
  mdns : Bytes
  deriving DecidableEq, Repr

def Tasks.init : Tasks where
  dhcp := .init
  dns := List.replicate 512 0
  mdns := List.replicate 512 0

structure Tasks.Fits (s : Tasks) : Prop where
  dhcp : s.dhcp.Fits
  dns : s.dns.length = 512
  mdns : s.mdns.length = 512

/-- What a task sends. -/
inductive Answer where
  | dhcp (a : DhcpAnswer)
  | dns (a : DnsAnswer)
  | mdns (a : MdnsAnswer)
  deriving DecidableEq, Repr

/-- One round of the loop of the task that receives the datagram. -/
def Tasks.turn (s : Tasks) : Packet → Rust (Tasks × Option Answer)
  | .dhcp d => do
    let (dhcp, answer) ← dhcpTurn (s.dhcp.receive d) d.length
    return ({ s with dhcp := dhcp }, answer.map .dhcp)
  | .dns d => do
    let pkt := Rust.splice s.dns 0 d
    let answer ← dnsTurn pkt d.length
    return ({ s with dns := pkt }, answer.map .dns)
  | .mdns d => do
    let pkt := Rust.splice s.mdns 0 d
    let answer ← mdnsTurn pkt d.length
    return ({ s with mdns := pkt }, answer.map .mdns)

/-- The state after the datagrams, the newest first. -/
def Tasks.run (s : Tasks) : List Packet → Rust Tasks
  | [] => pure s
  | p :: older => do
    let s ← s.run older
    let (s, _) ← s.turn p
    return s

theorem Tasks.fits_init : Tasks.init.Fits where
  dhcp := ⟨rfl, List.length_replicate, List.length_replicate⟩
  dns := List.length_replicate
  mdns := List.length_replicate

/-- **One datagram.** Its task neither leaves a range nor overflows nor hangs. -/
theorem Tasks.turn_returns {s : Tasks} (hs : s.Fits) {p : Packet} (hp : p.Fits) :
    (s.turn p).Returns fun r => r.1.Fits := by
  have hbuffer {pkt d : Bytes} (hpkt : pkt.length = 512) (hd : d.length ≤ 512) :
      (Rust.splice pkt 0 d).length = 512 := by
    rw [Rust.length_splice (by omega), hpkt]
  have hsized {pkt : Bytes} (hpkt : pkt.length = 512) : Rust.Sized pkt := by
    rw [Rust.Sized, hpkt]
    decide
  cases p with
  | dhcp d =>
    refine .bind (dhcpTurn_returns (hs.dhcp.receive hp) hp) fun r hr => .pure ?_
    exact ⟨hr, hs.dns, hs.mdns⟩
  | dns d =>
    have hpkt := hbuffer hs.dns hp
    refine .bind (dnsTurn_returns (hsized hpkt) d.length) fun answer _ => .pure ?_
    exact ⟨hs.dhcp, hpkt, hs.mdns⟩
  | mdns d =>
    have hpkt := hbuffer hs.mdns hp
    have hn : d.length ≤ (Rust.splice s.mdns 0 d).length := by rw [hpkt]; exact hp
    refine .bind (mdnsTurn_returns (hsized hpkt) hn) fun answer _ => .pure ?_
    exact ⟨hs.dhcp, hs.dns, hpkt⟩

theorem Tasks.run_returns {s : Tasks} (hs : s.Fits) {ps : List Packet} (hps : ∀ p ∈ ps, p.Fits) :
    (s.run ps).Returns Tasks.Fits := by
  induction ps with
  | nil => exact .pure hs
  | cons p older ih =>
    obtain ⟨hp, hps⟩ := List.forall_mem_cons.1 hps
    refine .bind (ih hps) ?_
    intro s' hs'
    exact .bind (Tasks.turn_returns hs' hp) fun r hr => .pure hr

/-- **Remote packets end no task.** A turn returns for every datagram that fits its buffer, from any
buffers of the right sizes and any table of eight leases, and so does every run from the start. -/
theorem tasks_take_any_packet :
    (∀ (s : Tasks) (p : Packet), s.Fits → p.Fits → ∃ s' answer, s.turn p = .ok (s', answer)) ∧
      ∀ ps : List Packet, (∀ p ∈ ps, p.Fits) → ∃ s, Tasks.init.run ps = .ok s ∧ s.Fits := by
  constructor
  · intro s p hs hp
    obtain ⟨⟨s', answer⟩, hturn, -⟩ := Tasks.turn_returns hs hp
    exact ⟨s', answer, hturn⟩
  · intro ps hps
    exact Tasks.run_returns Tasks.fits_init hps

/-- A name that is only a pointer to itself. -/
theorem tasks_take_any_packet_pointer_loop :
    ∃ s' answer, Tasks.init.turn (.mdns (List.replicate 12 0 ++ [0xC0, 12, 0, 1, 0, 1])) =
      .ok (s', answer) :=
  tasks_take_any_packet.1 Tasks.init _ Tasks.fits_init (show _ ≤ _ by decide)

end ScoreboardCtrl.Net
