import Horse.Lib.PacketRoundTrip
import Horse.Sim.EventHandler

/-!
# The data of a packet-in

A packet-in carries the packet that `netflow_to_pkt` writes into a buffer of fixed size.
The headers of a packet are far smaller than the buffer.  The payload of an LLDP frame,
which a controller sends in a packet-out, need not be.
-/

namespace Horse.Sim

open Horse.Codec Horse.Lib Horse.Net Horse.Transition

/-- `MAX_PACKET_IN_DATA`. -/
def maxPacketInData : Nat := 1492

/-! ## How much is written -/

theorem length_tags_le (levels : List Tag) :
    (levels.flatMap tagToPkt).length ≤ 4 * levels.length := by
  induction levels with
  | nil => exact Nat.le_refl 0
  | cons t rest ih =>
    have one : (tagToPkt t).length ≤ 4 := by
      rw [tagToPkt]
      split
      · exact Nat.le_refl 4
      · split
        · exact Nat.le_refl 4
        · exact Nat.zero_le 4
    rw [List.flatMap_cons, List.length_append, List.length_cons]
    omega

/-- The Ethernet header and a full stack of tags. -/
theorem length_linkBytes_le (nf : Netflow) :
    (linkBytes nf).length ≤ ethHeader.size + 4 * maxStackSize := by
  have tags := length_tags_le nf.tags.levels.reverse
  have bounded := nf.tags.bounded
  rw [List.length_reverse] at tags
  rw [linkBytes, List.length_append, ethHeader.length_pack]
  omega

variable {nf : Netflow}

/-- The headers of a netflow, whatever its layers are. -/
theorem length_headers_le (notLldp : nf.key.ethType ≠ ethTypeLldp) :
    ∃ bytes, netflowToPkt nf = some bytes ∧ bytes.length ≤ 142 := by
  have link := length_linkBytes_le nf
  have transport := length_transportBytes_le nf
  simp only [ethHeader_size, maxStackSize] at link
  by_cases isIp : nf.key.ethType = ethTypeIp
  · refine ⟨_, netflowToPkt_ip isIp, ?_⟩
    rw [List.length_append, List.length_append, ipHeader.length_pack, ipHeader_size]
    omega
  by_cases isIpv6 : nf.key.ethType = ethTypeIpv6
  · refine ⟨_, netflowToPkt_ipv6 isIpv6, ?_⟩
    rw [List.length_append, List.length_append, ipv6Header.length_pack, ipv6Header_size]
    omega
  by_cases isArp : nf.key.ethType = ethTypeArp
  · refine ⟨_, netflowToPkt_arp isArp, ?_⟩
    rw [List.length_append, arpHeader.length_pack, arpHeader_size]
    omega
  refine ⟨linkBytes nf, ?_, by omega⟩
  simp only [netflowToPkt, beq_iff_eq, notLldp, isArp, isIp, isIpv6, if_false]

/-- The link layer and the payload of an LLDP frame. -/
theorem length_lldp_iff (isLldp : nf.key.ethType = ethTypeLldp) (bound : Nat) :
    (∃ bytes, netflowToPkt nf = some bytes ∧ bytes.length ≤ bound) ↔
      nf.payloadLen.toNat ≤ nf.payload.length ∧
        (linkBytes nf).length + nf.payloadLen.toNat ≤ bound := by
  rw [netflowToPkt_lldp isLldp, copyBytes, Nat.zero_add]
  by_cases held : nf.payloadLen.toNat ≤ nf.payload.length
  · rw [if_pos held]
    simp only [Option.map_some, Option.some.injEq, exists_eq_left', List.drop_zero,
      List.length_append, List.length_take_of_le held, held, true_and]
  · simp [held]

/-- The packet fits into the buffer of a packet-in. -/
def FitsPacketIn (nf : Netflow) : Prop :=
  ∃ bytes, netflowToPkt nf = some bytes ∧ bytes.length ≤ maxPacketInData

theorem fitsPacketIn_iff (nf : Netflow) :
    FitsPacketIn nf ↔ (nf.key.ethType = ethTypeLldp →
      nf.payloadLen.toNat ≤ nf.payload.length ∧
        (linkBytes nf).length + nf.payloadLen.toNat ≤ maxPacketInData) := by
  by_cases isLldp : nf.key.ethType = ethTypeLldp
  · rw [forall_prop_of_true isLldp]
    exact length_lldp_iff isLldp maxPacketInData
  · refine iff_of_true ?_ fun lldp => absurd lldp isLldp
    obtain ⟨bytes, written, small⟩ := length_headers_le isLldp
    exact ⟨bytes, written, Nat.le_trans small (by decide)⟩

/-- The payload that is read from an LLDP frame is in memory, up to its length. -/
theorem decoded_payload {data : List (BitVec 8)} {after : Netflow}
    (read : pktToNetflow data nf data.length = .ok after)
    (isLldp : after.key.ethType = ethTypeLldp) :
    after.payloadLen.toNat = (data.length - headerSize data) % 2 ^ 16 ∧
      after.payloadLen.toNat ≤ after.payload.length := by
  have long : ethHeader.size ≤ data.length := by
    by_contra short
    cases (pktToNetflow_short nf (Nat.lt_of_not_le short)).symm.trans read
  rcases pktToNetflow_cases nf long with ⟨-, other, readOther, -, payload⟩ | ⟨-, failed⟩
  · cases readOther.symm.trans read
    obtain ⟨isPayload, isLength⟩ := payload isLldp
    rw [isPayload, isLength, BitVec.toNat_ofNat, lldpPayload, List.length_take, List.length_drop]
    exact ⟨rfl, Nat.le_min.mpr ⟨Nat.le_refl _, Nat.mod_le _ _⟩⟩
  · cases failed.symm.trans read

/-- An LLDP frame with a payload of the given size. -/
def lldpFrame (size : Nat) : List (BitVec 8) :=
  ethHeader.pack ⟨0x0180c200000e, 0x11, ethTypeLldp⟩ ++ List.replicate size 0

/-- The packet of a packet-in fits into its buffer if and only if it is not an LLDP frame, or
one whose payload is in memory and leaves room for the headers.  What is read from the data
of a packet-out fits if and only if it is not an LLDP frame or a short one. -/
theorem packet_in_fits_iff (nf : Netflow) :
    (FitsPacketIn nf ↔ (nf.key.ethType = ethTypeLldp →
      nf.payloadLen.toNat ≤ nf.payload.length ∧
        (linkBytes nf).length + nf.payloadLen.toNat ≤ maxPacketInData)) ∧
    ∀ data before, pktToNetflow data before data.length = .ok nf →
      (FitsPacketIn nf ↔ (nf.key.ethType = ethTypeLldp →
        (linkBytes nf).length + (data.length - headerSize data) % 2 ^ 16 ≤ maxPacketInData)) := by
  refine ⟨fitsPacketIn_iff nf, fun data before read => ?_⟩
  rw [fitsPacketIn_iff]
  refine forall_congr' fun isLldp => ?_
  obtain ⟨isLength, held⟩ := decoded_payload read isLldp
  rw [and_iff_right held, isLength]

theorem packet_in_fits_short :
    ∃ after, pktToNetflow (lldpFrame 10) netflowNew (lldpFrame 10).length = .ok after ∧
      FitsPacketIn after := by
  have isOk : (pktToNetflow (lldpFrame 10) netflowNew (lldpFrame 10).length).toOption.isSome =
      true := by decide +kernel
  have size : (lldpFrame 10).length = 24 := by decide +kernel
  cases read : pktToNetflow (lldpFrame 10) netflowNew (lldpFrame 10).length with
  | error fault =>
    rw [read] at isOk
    cases isOk
  | ok after =>
    refine ⟨after, rfl, ((packet_in_fits_iff after).2 _ _ read).mpr fun _ => ?_⟩
    have link := length_linkBytes_le after
    have cut := Nat.mod_le ((lldpFrame 10).length - headerSize (lldpFrame 10)) (2 ^ 16)
    simp only [ethHeader_size, maxStackSize] at link
    rw [maxPacketInData]
    omega

/-! ## From a packet-out to a packet-in -/

/-- What `unpack_packet_out` reads from the data of a packet-out into a new netflow. -/
def unpackPacketOut (data : List (BitVec 8)) : Except ParseFault DecodedPacket :=
  (pktToNetflow data netflowNew data.length).map fun nf =>
    { key := nf.key
      tags := nf.tags
      icmpInfo := nf.icmpInfo
      payload := nf.payload
      payloadLen := nf.payloadLen
      bytes := data.length }

/-- A datapath with one port that sends everything to the controller. -/
def reportingDatapath (uuid : Nat) : Datapath :=
  { dpAddPort (dpNew uuid uuid) 1 0x11 1000000 with
    tables := (dpNew uuid uuid).tables.set 0 (addFlow (flowTableNew 0)
      { flowNew with insts := addApplyActions instructionSetInit [.output ofppController] } 0)
    tablesNum := by simp [dpNew] }

/-- Two such datapaths with a link between them, as a controller probes it. -/
def probedLink : Topology where
  nodes := [.datapath (reportingDatapath 2), .datapath (reportingDatapath 1)]
  links := [⟨⟨2, 1⟩, ⟨1, 1⟩, 10, 0⟩, ⟨⟨1, 1⟩, ⟨2, 1⟩, 10, 0⟩]
  dps := [(2, 2), (1, 1)]
  routers := []
  distinct := by
    simp [TopoNode.uuid, TopoNode.base, nodeAddPort, nodeInit, reportingDatapath, dpAddPort, dpNew]

/-- The controller sends a packet through the first datapath, which takes three events to
come back from the second. -/
def probeCalls (packet : DecodedPacket) : List SimCall :=
  let message := .ofMessage 1 (.packetOut 0xffffffff 0 (some packet) [.output 1])
  message :: ((simStep (setup probedLink) message).map (dispatchCalls 3)).getD []

/-- How many bytes are written for each pending packet-in. -/
def packetInSizes (sim : SimState) : List (Option Nat) :=
  sim.sch.evQueue.filterMap fun
    | .ofMsgOut _ _ (.packetIn nf) => some ((netflowToPkt nf).map List.length)
    | _ => none

/-- A frame of one byte more than the buffer is sent back to the controller. -/
theorem packet_in_overruns :
    ((unpackPacketOut (lldpFrame 1479)).toOption.bind fun packet =>
        (run simStep (setup probedLink) (probeCalls packet)).map packetInSizes) =
      some [some (maxPacketInData + 1)] := by
  decide +kernel

end Horse.Sim
