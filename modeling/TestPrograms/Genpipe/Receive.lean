import TestPrograms.Genpipe.Module

/-! # The receive handlers

The four functions that `genpipe_init` puts in the place of the protocol handlers, as the
operations they do on a packet.
-/

namespace TestPrograms.Genpipe

-- `PACKET_OUTGOING`
def packetOutgoing : Nat := 4

structure Skb where
  addr : Nat
  pktType : Nat
  deriving DecidableEq, Repr

/-- The arguments of a handler but for its `packet_type`. -/
structure Packet where
  skb : Skb
  dev : Nat
  dev2 : Nat
  deriving DecidableEq, Repr

inductive Op where
  /-- The function at `func` gets the packet. -/
  | call (func : Addr) (packet : Packet) (pt : Addr)
  -- `++rx_count[smp_processor_id()]`
  | count
  | skbShareCheck (skb : Skb)
  | kfreeSkb (skb : Skb)
  -- `return skb->len`
  | readLen (skb : Skb)
  deriving DecidableEq, Repr

section

-- `genpipe_pack.dev`, and what `skb_share_check` returns.
variable (packDev : Nat) (shared : Option Skb)

/-- The last lines of every handler. -/
def dropSkb (skb : Skb) : List Op :=
  .skbShareCheck skb ::
    match shared with
    | none => []
    | some skb => [.kfreeSkb skb, .readLen skb]

/-- A handler that passes on the packets of other devices and drops the others. -/
def dropOwn (original : Addr) (packet : Packet) (pt : Addr) : List Op :=
  if packet.dev ≠ packDev then [.call original packet pt] else dropSkb shared packet.skb

def genpipeArprcv (symbols : Symbols) : Packet → Addr → List Op :=
  dropOwn packDev shared symbols.arprcv

def genpipeIprcv (symbols : Symbols) (packet : Packet) (pt : Addr) : List Op :=
  if packet.dev ≠ packDev then [.call symbols.iprcv packet pt]
  else if packet.skb.pktType = packetOutgoing then dropSkb shared packet.skb
  else .count :: dropSkb shared packet.skb

def genpipeIpv6rcv (symbols : Symbols) : Packet → Addr → List Op :=
  dropOwn packDev shared symbols.ipv6rcv

/-- The test of the device is commented out in the source. -/
def genpipeNop (packet : Packet) (_ : Addr) : List Op := dropSkb shared packet.skb

end

/-- Delivery to an entry of the tables: the handler of the module at that address, or the
    kernel's own. -/
def deliver (own : Own) (w : World) (shared : Option Skb) (packet : Packet) (ptype : PacketType) :
    List Op :=
  if ptype.func = own.genpipeArprcv then genpipeArprcv w.packDev shared w.symbols packet ptype.node
  else if ptype.func = own.genpipeIprcv then genpipeIprcv w.packDev shared w.symbols packet ptype.node
  else if ptype.func = own.genpipeIpv6rcv then
    genpipeIpv6rcv w.packDev shared w.symbols packet ptype.node
  else if ptype.func = own.genpipeNop then genpipeNop shared packet ptype.node
  else [.call ptype.func packet ptype.node]

/-- What the kernel does without the module. -/
def deliverPlain (packet : Packet) (ptype : PacketType) : List Op :=
  [.call ptype.func packet ptype.node]

def Own.handlers (own : Own) : List Addr :=
  [own.genpipeArprcv, own.genpipeIprcv, own.genpipeIpv6rcv, own.genpipeNop]

/-! ## Packets of another device -/

section

variable {own : Own} {w : World} {packet : Packet}

theorem deliver_foreign {ptype : PacketType} (shared : Option Skb)
    (foreign : ptype.func ∉ own.handlers) :
    deliver own w shared packet ptype = deliverPlain packet ptype := by
  simp only [Own.handlers, List.mem_cons, List.not_mem_nil, or_false, not_or] at foreign
  rw [deliver, if_neg foreign.1, if_neg foreign.2.1, if_neg foreign.2.2.1, if_neg foreign.2.2.2,
    deliverPlain]

/-- The handlers of the hash buckets pass the packets of other devices to what they replace. -/
theorem deliver_hookBase {ptype : PacketType} (shared : Option Skb) (distinct : own.handlers.Nodup)
    (foreign : ptype.func ∉ own.handlers) (other : packet.dev ≠ w.packDev) :
    deliver own w shared packet (hookBase w.symbols own ptype) = deliverPlain packet ptype := by
  simp only [Own.handlers, List.nodup_cons, List.mem_cons, List.not_mem_nil, or_false, not_or]
    at distinct
  obtain ⟨⟨arpIp, arpIpv6, -⟩, ⟨ipIpv6, -⟩, -⟩ := distinct
  unfold hookBase
  split
  · rename_i arp
    rw [deliver, if_pos rfl, genpipeArprcv, dropOwn, if_pos other, deliverPlain, arp]
  split
  · rename_i ip
    rw [deliver, if_neg (Ne.symm arpIp), if_pos rfl, genpipeIprcv, if_pos other, deliverPlain, ip]
  split
  · rename_i ipv6
    rw [deliver, if_neg (Ne.symm arpIpv6), if_neg (Ne.symm ipIpv6), if_pos rfl, genpipeIpv6rcv,
      dropOwn, if_pos other, deliverPlain, ipv6]
  · exact deliver_foreign shared foreign

theorem deliver_nop {ptype : PacketType} (shared : Option Skb) (distinct : own.handlers.Nodup)
    (hooked : ptype.func = own.genpipeNop) :
    deliver own w shared packet ptype = dropSkb shared packet.skb := by
  simp only [Own.handlers, List.nodup_cons, List.mem_cons, List.not_mem_nil, or_false, not_or]
    at distinct
  obtain ⟨⟨-, -, arp⟩, ⟨-, ip⟩, ipv6, -⟩ := distinct
  rw [deliver, hooked, if_neg (Ne.symm arp), if_neg (Ne.symm ip), if_neg (Ne.symm ipv6),
    if_pos rfl, genpipeNop]

theorem dropSkb_ne_plain {shared : Option Skb} {skb : Skb} {ptype : PacketType} :
    dropSkb shared skb ≠ deliverPlain packet ptype := by
  intro same
  cases (List.cons.inj same).1

end

end TestPrograms.Genpipe
