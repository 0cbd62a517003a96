import Ferrugem.Library.ByteWindows
import Ferrugem.Library.OnesComplement
import Ferrugem.Library.SliceWrites

/-!
# Network packets

`kernel/src/net`: the builders and parsers of Ethernet, ARP, IPv4, ICMP and UDP. A
builder fills a buffer of the caller and returns how many bytes it used; with too
short a buffer it returns 0 and writes nothing. The parsers take apart what the
builders put together, except that the total length of an IPv4 header is the one of
the packet and not the one in the header that was passed.
-/

namespace Ferrugem.NetworkPackets

open ByteWindows OnesComplement SliceWrites

set_option autoImplicit false

abbrev Octets (count : Nat) := { bytes : List UInt8 // bytes.length = count }

abbrev MacAddr := Octets 6

abbrev Ipv4Addr := Octets 4

def be16 (value : UInt16) : List UInt8 := toBe 2 value.toNat

def be16At (buf : List UInt8) (start : Nat) : UInt16 :=
  UInt16.ofNat (fromBe ((buf.drop start).take 2))

def be32At (buf : List UInt8) (start : Nat) : UInt32 :=
  UInt32.ofNat (fromBe ((buf.drop start).take 4))

def octetsAt (buf : List UInt8) (start count : Nat) (inside : start + count ≤ buf.length) :
    Octets count :=
  ⟨(buf.drop start).take count, by
    rw [List.length_take, List.length_drop]
    omega⟩

structure Built where
  used : Nat
  out : List UInt8

def Built.bytes (built : Built) : List UInt8 := built.out.take built.used

namespace Ethernet

def parse (buf : List UInt8) : Option (MacAddr × MacAddr × UInt16 × List UInt8) :=
  if long : 14 ≤ buf.length then
    some (octetsAt buf 0 6 (by omega), octetsAt buf 6 6 (by omega), be16At buf 12, buf.drop 14)
  else none

def build (dst src : MacAddr) (etype : UInt16) (payload out : List UInt8) : Built :=
  if out.length < 14 + payload.length then { used := 0, out := out }
  else
    let out := put out 0 dst.val
    let out := put out 6 src.val
    let out := put out 12 (be16 etype)
    let out := put out 14 payload
    { used := 14 + payload.length, out := out }

end Ethernet

namespace Arp

structure Packet where
  op : UInt16
  senderMac : MacAddr
  senderIp : Ipv4Addr
  targetMac : MacAddr
  targetIp : Ipv4Addr

def htypeEthernet : UInt16 := 1
def ptypeIpv4 : UInt16 := 0x0800
def hlen : UInt8 := 6
def plen : UInt8 := 4

def parse (buf : List UInt8) : Option Packet :=
  if long : 28 ≤ buf.length then
    some
      { op := be16At buf 6
        senderMac := octetsAt buf 8 6 (by omega)
        senderIp := octetsAt buf 14 4 (by omega)
        targetMac := octetsAt buf 18 6 (by omega)
        targetIp := octetsAt buf 24 4 (by omega) }
  else none

def build (packet : Packet) (out : List UInt8) : Built :=
  if out.length < 28 then { used := 0, out := out }
  else
    let out := put out 0 (be16 htypeEthernet)
    let out := put out 2 (be16 ptypeIpv4)
    let out := put out 4 [hlen]
    let out := put out 5 [plen]
    let out := put out 6 (be16 packet.op)
    let out := put out 8 packet.senderMac.val
    let out := put out 14 packet.senderIp.val
    let out := put out 18 packet.targetMac.val
    let out := put out 24 packet.targetIp.val
    { used := 28, out := out }

end Arp

namespace Ipv4

structure Header where
  src : Ipv4Addr
  dst : Ipv4Addr
  protocol : UInt8
  ttl : UInt8
  totalLen : UInt16

/-- The words of the data added to a `u32`. -/
def addWords : Nat → List UInt8 → Nat
  | sum, [] => sum
  | sum, [last] => (sum + last.toNat * 256) % 2 ^ 32
  | sum, high :: low :: rest => addWords ((sum + fromBe [high, low]) % 2 ^ 32) rest

def checksum (data : List UInt8) : UInt16 := ~~~UInt16.ofNat (foldCarries (addWords 0 data))

/-- The header length that the low half of the first byte gives. -/
def headerLength (buf : List UInt8) : Nat := (buf.headD 0 &&& 0x0F).toNat * 4

def parse (buf : List UInt8) : Option (Header × List UInt8) :=
  if long : 20 ≤ buf.length then
    if buf.length < headerLength buf then none
    else some
      ({ src := octetsAt buf 12 4 (by omega)
         dst := octetsAt buf 16 4 (by omega)
         protocol := buf.getD 9 0
         ttl := buf.getD 8 0
         totalLen := be16At buf 2 },
       buf.drop (headerLength buf))
  else none

def build (hdr : Header) (payload out : List UInt8) : Built :=
  let total := 20 + payload.length
  if out.length < total then { used := 0, out := out }
  else
    let out := put out 0 [0x45]
    let out := put out 1 [0]
    let out := put out 2 (be16 (UInt16.ofNat total))
    let out := put out 4 (be16 0)
    let out := put out 6 (be16 0)
    let out := put out 8 [hdr.ttl]
    let out := put out 9 [hdr.protocol]
    let out := put out 10 (be16 0)
    let out := put out 12 hdr.src.val
    let out := put out 16 hdr.dst.val
    let out := put out 20 payload
    let csum := checksum (out.take 20)
    let out := put out 10 (be16 csum)
    { used := total, out := out }

end Ipv4

namespace Icmp

def typeEchoReply : UInt8 := 0

def parseEcho (buf : List UInt8) : Option (UInt16 × UInt16 × List UInt8) :=
  if buf.length < 8 then none else some (be16At buf 4, be16At buf 6, buf.drop 8)

def buildReply (id seq : UInt16) (data out : List UInt8) : Built :=
  let len := 8 + data.length
  if out.length < len then { used := 0, out := out }
  else
    let out := put out 0 [typeEchoReply]
    let out := put out 1 [0]
    let out := put out 2 (be16 0)
    let out := put out 4 (be16 id)
    let out := put out 6 (be16 seq)
    let out := put out 8 data
    let csum := Ipv4.checksum (out.take len)
    let out := put out 2 (be16 csum)
    { used := len, out := out }

end Icmp

namespace Udp

def parse (buf : List UInt8) : Option (UInt16 × UInt16 × List UInt8) :=
  if buf.length < 8 then none else some (be16At buf 0, be16At buf 2, buf.drop 8)

def build (src dst : UInt16) (payload out : List UInt8) : Built :=
  let len := 8 + payload.length
  if out.length < len then { used := 0, out := out }
  else
    let out := put out 0 (be16 src)
    let out := put out 2 (be16 dst)
    let out := put out 4 (be16 (UInt16.ofNat len))
    let out := put out 6 (be16 0)
    let out := put out 8 payload
    { used := len, out := out }

end Udp

namespace Tcp

def dataOffset (buf : List UInt8) : Nat := (buf.getD 12 0 >>> 4).toNat * 4

def parse (buf : List UInt8) : Option (UInt16 × UInt16 × UInt32 × UInt32 × UInt8 × List UInt8) :=
  if buf.length < 20 then none
  else if buf.length < dataOffset buf then none
  else some (be16At buf 0, be16At buf 2, be32At buf 4, be32At buf 8, buf.getD 13 0,
    buf.drop (dataOffset buf))

end Tcp

@[simp] theorem length_be16 (value : UInt16) : (be16 value).length = 2 := length_to_be 2 _

@[simp] theorem length_octets {count : Nat} (octets : Octets count) :
    octets.val.length = count := octets.property

section

variable {payload data out : List UInt8}

theorem Ethernet.build_bytes (dst src : MacAddr) (etype : UInt16)
    (room : 14 + payload.length ≤ out.length) :
    (Ethernet.build dst src etype payload out).bytes =
      dst.val ++ src.val ++ be16 etype ++ payload := by
  rw [Ethernet.build, if_neg (by omega)]
  simp only [put_first]
  rw [put_next (by simp), put_next (by simp), put_next (by simp)]
  exact List.take_left' (by simp; omega)

theorem Arp.build_bytes (packet : Arp.Packet) (room : 28 ≤ out.length) :
    (Arp.build packet out).bytes =
      be16 Arp.htypeEthernet ++ be16 Arp.ptypeIpv4 ++ [Arp.hlen] ++ [Arp.plen] ++
        be16 packet.op ++ packet.senderMac.val ++ packet.senderIp.val ++ packet.targetMac.val ++
        packet.targetIp.val := by
  rw [Arp.build, if_neg (by omega)]
  simp only [put_first]
  rw [put_next (by simp), put_next (by simp), put_next (by simp), put_next (by simp),
    put_next (by simp), put_next (by simp), put_next (by simp), put_next (by simp)]
  exact List.take_left' (by simp)

theorem Udp.build_bytes (src dst : UInt16) (room : 8 + payload.length ≤ out.length) :
    (Udp.build src dst payload out).bytes =
      be16 src ++ be16 dst ++ be16 (UInt16.ofNat (8 + payload.length)) ++ be16 0 ++ payload := by
  rw [Udp.build, if_neg (by omega)]
  simp only [put_first]
  rw [put_next (by simp), put_next (by simp), put_next (by simp), put_next (by simp)]
  exact List.take_left' (by simp; omega)

def Ipv4.front (hdr : Ipv4.Header) (total : Nat) : List UInt8 :=
  [0x45] ++ [0] ++ be16 (UInt16.ofNat total) ++ be16 0 ++ be16 0 ++ [hdr.ttl] ++ [hdr.protocol]

def Ipv4.headerBytes (hdr : Ipv4.Header) (total : Nat) (csum : UInt16) : List UInt8 :=
  Ipv4.front hdr total ++ be16 csum ++ (hdr.src.val ++ hdr.dst.val)

theorem Ipv4.length_front (hdr : Ipv4.Header) (total : Nat) : (Ipv4.front hdr total).length = 10 := by
  simp [Ipv4.front]

theorem Ipv4.length_header_bytes (hdr : Ipv4.Header) (total : Nat) (csum : UInt16) :
    (Ipv4.headerBytes hdr total csum).length = 20 := by
  simp [Ipv4.headerBytes, Ipv4.length_front]

theorem Ipv4.put_checksum (hdr : Ipv4.Header) (total : Nat) (csum : UInt16) (rest : List UInt8) :
    put (Ipv4.headerBytes hdr total 0 ++ rest) 10 (be16 csum) =
      Ipv4.headerBytes hdr total csum ++ rest := by
  unfold Ipv4.headerBytes
  rw [List.append_assoc (Ipv4.front hdr total ++ be16 0),
    List.append_assoc (Ipv4.front hdr total ++ be16 csum),
    put_over (Ipv4.length_front hdr total) (by rw [length_be16, length_be16])]

theorem Ipv4.build_bytes (hdr : Ipv4.Header) (room : 20 + payload.length ≤ out.length) :
    (Ipv4.build hdr payload out).bytes =
      Ipv4.headerBytes hdr (20 + payload.length)
        (Ipv4.checksum (Ipv4.headerBytes hdr (20 + payload.length) 0)) ++ payload := by
  rw [Ipv4.build, if_neg (by omega)]
  simp only [put_first]
  rw [put_next (by simp), put_next (by simp), put_next (by simp), put_next (by simp),
    put_next (by simp), put_next (by simp), put_next (by simp), put_next (by simp),
    put_next (by simp), put_next (by simp)]
  generalize List.drop payload.length _ = tail
  have written : [0x45] ++ [0] ++ be16 (UInt16.ofNat (20 + payload.length)) ++ be16 0 ++
      be16 0 ++ [hdr.ttl] ++ [hdr.protocol] ++ be16 0 ++ hdr.src.val ++ hdr.dst.val ++ payload ++
      tail = Ipv4.headerBytes hdr (20 + payload.length) 0 ++ (payload ++ tail) := by
    simp only [Ipv4.headerBytes, Ipv4.front, List.append_assoc]
  rw [written, List.take_left' (Ipv4.length_header_bytes _ _ _), Ipv4.put_checksum,
    ← List.append_assoc]
  exact List.take_left' (by rw [List.length_append, Ipv4.length_header_bytes])

def Icmp.replyBytes (id seq : UInt16) (data : List UInt8) (csum : UInt16) : List UInt8 :=
  [Icmp.typeEchoReply] ++ [0] ++ be16 csum ++ (be16 id ++ be16 seq ++ data)

theorem Icmp.length_reply_bytes (id seq : UInt16) (data : List UInt8) (csum : UInt16) :
    (Icmp.replyBytes id seq data csum).length = 8 + data.length := by
  simp [Icmp.replyBytes]
  omega

theorem Icmp.build_bytes (id seq : UInt16) (room : 8 + data.length ≤ out.length) :
    (Icmp.buildReply id seq data out).bytes =
      Icmp.replyBytes id seq data (Ipv4.checksum (Icmp.replyBytes id seq data 0)) := by
  rw [Icmp.buildReply, if_neg (by omega)]
  simp only [put_first]
  rw [put_next (by simp), put_next (by simp), put_next (by simp), put_next (by simp),
    put_next (by simp)]
  generalize List.drop data.length _ = tail
  have written : [Icmp.typeEchoReply] ++ [0] ++ be16 0 ++ be16 id ++ be16 seq ++ data ++ tail =
      Icmp.replyBytes id seq data 0 ++ tail := by
    simp only [Icmp.replyBytes, List.append_assoc]
  rw [written, List.take_left' (Icmp.length_reply_bytes id seq data 0)]
  unfold Icmp.replyBytes
  rw [List.append_assoc _ _ tail, put_over (by simp) (by rw [length_be16, length_be16]),
    ← List.append_assoc]
  exact List.take_left' (Icmp.length_reply_bytes id seq data _)

end

theorem add_words_eq {sum : Nat} {data : List UInt8} (small : sum + wordSum data < 2 ^ 32) :
    Ipv4.addWords sum data = sum + wordSum data := by
  induction data using wordSum.induct generalizing sum with
  | case1 => rfl
  | case2 last =>
      rw [wordSum] at small ⊢
      rw [Ipv4.addWords, Nat.mod_eq_of_lt small]
  | case3 high low rest ih =>
      rw [wordSum] at small ⊢
      rw [← Nat.add_assoc] at small ⊢
      have fits : sum + (high.toNat * 256 + low.toNat) < 2 ^ 32 :=
        Nat.lt_of_le_of_lt (Nat.le_add_right _ _) small
      have word : fromBe [high, low] = high.toNat * 256 + low.toNat := by
        simp [fromBe]
      rw [Ipv4.addWords, word, Nat.mod_eq_of_lt fits, ih small]

theorem checksum_to_nat {data : List UInt8} (short : data.length ≤ 65535) :
    (Ipv4.checksum data).toNat = 65535 - foldCarries (wordSum data) := by
  have bound := word_sum_le data
  have sum : Ipv4.addWords 0 data = wordSum data := by
    rw [add_words_eq (by omega), Nat.zero_add]
  rw [Ipv4.checksum, UInt16.toNat_not, sum, UInt16.toNat_ofNat_of_lt' (fold_carries_lt _)]
  rfl

theorem word_sum_be16 (value : UInt16) : wordSum (be16 value) = value.toNat := by
  have bound := value.toNat_lt
  change (UInt8.ofNat (value.toNat / 256)).toNat * 256 + (UInt8.ofNat value.toNat).toNat + 0 = _
  rw [UInt8.toNat_ofNat', UInt8.toNat_ofNat']
  omega

theorem checksum_inserted {front rest : List UInt8} (even : front.length % 2 = 0)
    (short : front.length + 2 + rest.length ≤ 65535) :
    Ipv4.checksum (front ++ be16 (Ipv4.checksum (front ++ be16 0 ++ rest)) ++ rest) = 0 := by
  have sum (value : UInt16) : wordSum (front ++ be16 value ++ rest) =
      wordSum front + wordSum rest + value.toNat := by
    rw [word_sum_append (by simp; omega), word_sum_append even, word_sum_be16]
    omega
  have size (value : UInt16) : (front ++ be16 value ++ rest).length ≤ 65535 := by
    simp
    omega
  apply UInt16.toNat_inj.mp
  have zero : (0 : UInt16).toNat = 0 := rfl
  rw [checksum_to_nat (size _), sum, checksum_to_nat (size _), sum, zero, Nat.add_zero,
    fold_carries_complement]

section

variable {bytes part payload data : List UInt8} {start : Nat}

def Holds (bytes : List UInt8) (start : Nat) (part : List UInt8) : Prop :=
  Window.Has { base := 0, bytes := bytes } start part

theorem holds_self (bytes : List UInt8) : Holds bytes 0 bytes :=
  Window.has_self { base := 0, bytes := bytes }

theorem holds_append {first second : List UInt8} : Holds bytes start (first ++ second) ↔
    Holds bytes start first ∧ Holds bytes (start + first.length) second := Window.has_append

theorem Holds.take (holds : Holds bytes start part) :
    (bytes.drop start).take part.length = part := (Window.has_iff.mp holds).2

theorem Holds.be16At {value : UInt16} (holds : Holds bytes start (be16 value)) :
    be16At bytes start = value := by
  have same := holds.take
  rw [length_be16] at same
  rw [NetworkPackets.be16At, same, be16, from_be_small (show value.toNat < 256 ^ 2 from
    value.toNat_lt), UInt16.ofNat_toNat]

theorem Holds.octetsAt {count : Nat} {octets : Octets count}
    (holds : Holds bytes start octets.val) (inside : start + count ≤ bytes.length) :
    octetsAt bytes start count inside = octets := by
  have same := holds.take
  rw [length_octets] at same
  exact Subtype.ext same

theorem Holds.byteAt {byte : UInt8} (holds : Holds bytes start [byte]) :
    bytes.getD start 0 = byte := by
  have same := holds.take
  rw [List.length_singleton] at same
  have first := congrArg (fun found : List UInt8 => found.getD 0 0) same
  simp only [List.getD_cons_zero] at first
  rw [← first]
  simp [List.getD_eq_getElem?_getD, List.getElem?_drop]

theorem Holds.behind (holds : Holds bytes start part)
    (ends : start + part.length = bytes.length) : bytes.drop start = part := by
  have same := holds.take
  rwa [List.take_of_length_le (by rw [List.length_drop]; omega)] at same

theorem Ethernet.parse_bytes (dst src : MacAddr) (etype : UInt16) (payload : List UInt8) :
    Ethernet.parse (dst.val ++ src.val ++ be16 etype ++ payload) =
      some (dst, src, etype, payload) := by
  obtain ⟨frame, same⟩ : ∃ frame, dst.val ++ src.val ++ be16 etype ++ payload = frame := ⟨_, rfl⟩
  have whole := holds_self frame
  have size := congrArg List.length same
  nth_rewrite 2 [← same] at whole
  simp only [holds_append, List.length_append, length_octets, length_be16] at whole size
  obtain ⟨⟨⟨hasDst, hasSrc⟩, hasType⟩, hasPayload⟩ := whole
  rw [same, Ethernet.parse, dif_pos (by omega), hasDst.octetsAt, hasSrc.octetsAt, hasType.be16At,
    hasPayload.behind (by omega)]

theorem Arp.parse_build (packet : Arp.Packet) {out : List UInt8} (room : 28 ≤ out.length) :
    Arp.parse (Arp.build packet out).bytes = some packet := by
  obtain ⟨frame, same⟩ : ∃ frame, (Arp.build packet out).bytes = frame := ⟨_, rfl⟩
  have whole := holds_self frame
  rw [same]
  rw [Arp.build_bytes packet room] at same
  have size := congrArg List.length same
  nth_rewrite 2 [← same] at whole
  simp only [holds_append, List.length_append, List.length_singleton, length_octets,
    length_be16] at whole size
  obtain ⟨⟨⟨⟨⟨_, op⟩, senderMac⟩, senderIp⟩, targetMac⟩, targetIp⟩ := whole
  rw [Arp.parse, dif_pos (by omega), op.be16At, senderMac.octetsAt, senderIp.octetsAt,
    targetMac.octetsAt, targetIp.octetsAt]

theorem Udp.parse_bytes (src dst length csum : UInt16) (payload : List UInt8) :
    Udp.parse (be16 src ++ be16 dst ++ be16 length ++ be16 csum ++ payload) =
      some (src, dst, payload) := by
  obtain ⟨segment, same⟩ : ∃ segment,
    be16 src ++ be16 dst ++ be16 length ++ be16 csum ++ payload = segment := ⟨_, rfl⟩
  have whole := holds_self segment
  have size := congrArg List.length same
  nth_rewrite 2 [← same] at whole
  simp only [holds_append, List.length_append, length_be16] at whole size
  obtain ⟨⟨⟨⟨hasSrc, hasDst⟩, _⟩, _⟩, hasPayload⟩ := whole
  rw [same, Udp.parse, if_neg (by omega), hasSrc.be16At, hasDst.be16At,
    hasPayload.behind (by omega)]

theorem Icmp.parse_bytes (id seq csum : UInt16) (data : List UInt8) :
    Icmp.parseEcho (Icmp.replyBytes id seq data csum) = some (id, seq, data) := by
  obtain ⟨message, same⟩ : ∃ message, Icmp.replyBytes id seq data csum = message := ⟨_, rfl⟩
  have whole := holds_self message
  have size := congrArg List.length same
  nth_rewrite 2 [← same] at whole
  rw [Icmp.length_reply_bytes] at size
  simp only [Icmp.replyBytes, holds_append, List.length_append, List.length_singleton,
    length_be16] at whole
  obtain ⟨_, ⟨hasId, hasSeq⟩, hasData⟩ := whole
  rw [same, Icmp.parseEcho, if_neg (by omega), hasId.be16At, hasSeq.be16At,
    hasData.behind (by omega)]

/-- The header that a packet carries: its total length is that of the packet. -/
def Ipv4.Header.sent (hdr : Ipv4.Header) (total : Nat) : Ipv4.Header :=
  { hdr with totalLen := UInt16.ofNat total }

theorem Ipv4.parse_bytes (hdr : Ipv4.Header) (total : Nat) (csum : UInt16)
    (payload : List UInt8) :
    Ipv4.parse (Ipv4.headerBytes hdr total csum ++ payload) =
      some (hdr.sent total, payload) := by
  obtain ⟨packet, same⟩ : ∃ packet, Ipv4.headerBytes hdr total csum ++ payload = packet :=
    ⟨_, rfl⟩
  have first : packet.headD 0 = 0x45 := by
    rw [← same]
    rfl
  have length : Ipv4.headerLength packet = 20 := by
    rw [Ipv4.headerLength, first]
    decide
  have whole := holds_self packet
  have size := congrArg List.length same
  nth_rewrite 2 [← same] at whole
  rw [List.length_append, Ipv4.length_header_bytes] at size
  simp only [Ipv4.headerBytes, Ipv4.front, holds_append, List.length_append,
    List.length_singleton, length_octets, length_be16] at whole
  obtain ⟨⟨⟨⟨⟨⟨⟨⟨_, hasTotal⟩, _⟩, _⟩, hasTtl⟩, hasProtocol⟩, _⟩, hasSrc, hasDst⟩,
    hasPayload⟩ := whole
  rw [same, Ipv4.parse, dif_pos (by omega), length, if_neg (by omega), hasSrc.octetsAt,
    hasDst.octetsAt, hasTotal.be16At, hasTtl.byteAt, hasProtocol.byteAt,
    hasPayload.behind (by omega)]
  rfl

end

structure Link where
  dst : MacAddr
  src : MacAddr
  etype : UInt16

structure Buffers where
  transport : List UInt8
  network : List UInt8
  link : List UInt8

structure Buffers.Fit (buffers : Buffers) (payload : List UInt8) : Prop where
  transport : 8 + payload.length ≤ buffers.transport.length
  network : 20 + (8 + payload.length) ≤ buffers.network.length
  link : 14 + (20 + (8 + payload.length)) ≤ buffers.link.length

/-- What the parsers find in a frame, from the outside in. -/
structure Contents (Fields : Type) where
  link : Link
  hdr : Ipv4.Header
  fields : Fields
  payload : List UInt8

def frameOf (link : Link) (hdr : Ipv4.Header) (message : List UInt8) (buffers : Buffers) :
    List UInt8 :=
  (Ethernet.build link.dst link.src link.etype
    (Ipv4.build hdr message buffers.network).bytes buffers.link).bytes

def readFrame {Fields : Type} (parse : List UInt8 → Option (Fields × List UInt8))
    (frame : List UInt8) : Option (Contents Fields) := do
  let (dst, src, etype, packet) ← Ethernet.parse frame
  let (hdr, message) ← Ipv4.parse packet
  let (fields, payload) ← parse message
  pure { link := { dst := dst, src := src, etype := etype }, hdr, fields, payload }

def paired (parsed : Option (UInt16 × UInt16 × List UInt8)) :
    Option ((UInt16 × UInt16) × List UInt8) :=
  parsed.map fun (first, second, rest) => ((first, second), rest)

def udpFrame (link : Link) (hdr : Ipv4.Header) (ports : UInt16 × UInt16) (payload : List UInt8)
    (buffers : Buffers) : List UInt8 :=
  frameOf link hdr (Udp.build ports.1 ports.2 payload buffers.transport).bytes buffers

def echoFrame (link : Link) (hdr : Ipv4.Header) (echo : UInt16 × UInt16) (data : List UInt8)
    (buffers : Buffers) : List UInt8 :=
  frameOf link hdr (Icmp.buildReply echo.1 echo.2 data buffers.transport).bytes buffers

def readUdpFrame : List UInt8 → Option (Contents (UInt16 × UInt16)) :=
  readFrame fun message => paired (Udp.parse message)

def readEchoFrame : List UInt8 → Option (Contents (UInt16 × UInt16)) :=
  readFrame fun message => paired (Icmp.parseEcho message)

section

variable {link : Link} {hdr : Ipv4.Header} {message : List UInt8} {buffers : Buffers}

theorem frame_bytes (network : 20 + message.length ≤ buffers.network.length)
    (room : 14 + (20 + message.length) ≤ buffers.link.length) :
    frameOf link hdr message buffers =
      link.dst.val ++ link.src.val ++ be16 link.etype ++
        (Ipv4.headerBytes hdr (20 + message.length)
          (Ipv4.checksum (Ipv4.headerBytes hdr (20 + message.length) 0)) ++ message) := by
  rw [frameOf, Ipv4.build_bytes hdr network, Ethernet.build_bytes]
  rw [List.length_append, Ipv4.length_header_bytes]
  exact room

theorem read_frame_eq {Fields : Type} {parse : List UInt8 → Option (Fields × List UInt8)}
    {fields : Fields} {payload : List UInt8} (found : parse message = some (fields, payload))
    (network : 20 + message.length ≤ buffers.network.length)
    (room : 14 + (20 + message.length) ≤ buffers.link.length) :
    readFrame parse (frameOf link hdr message buffers) =
      some { link := link, hdr := hdr.sent (20 + message.length), fields, payload } := by
  rw [frame_bytes network room, readFrame, Ethernet.parse_bytes]
  simp only [Option.bind_eq_bind, Option.bind_some, Ipv4.parse_bytes, found]
  rfl

theorem read_udp_frame {ports : UInt16 × UInt16} {payload : List UInt8}
    (fit : buffers.Fit payload) :
    readUdpFrame (udpFrame link hdr ports payload buffers) =
      some { link := link, hdr := hdr.sent (28 + payload.length), fields := ports, payload } := by
  have built := Udp.build_bytes ports.1 ports.2 fit.transport
  have size := congrArg List.length built
  simp only [List.length_append, length_be16] at size
  have total : 20 + (Udp.build ports.1 ports.2 payload buffers.transport).bytes.length =
      28 + payload.length := by
    omega
  have network := fit.network
  have room := fit.link
  rw [← total]
  apply read_frame_eq
  · rw [built, Udp.parse_bytes]
    rfl
  · omega
  · omega

theorem read_echo_frame {echo : UInt16 × UInt16} {data : List UInt8} (fit : buffers.Fit data) :
    readEchoFrame (echoFrame link hdr echo data buffers) =
      some { link := link, hdr := hdr.sent (28 + data.length), fields := echo, payload := data } := by
  have built := Icmp.build_bytes echo.1 echo.2 fit.transport
  have size := congrArg List.length built
  rw [Icmp.length_reply_bytes] at size
  have total : 20 + (Icmp.buildReply echo.1 echo.2 data buffers.transport).bytes.length =
      28 + data.length := by
    omega
  have network := fit.network
  have room := fit.link
  rw [← total]
  apply read_frame_eq
  · rw [built, Icmp.parse_bytes]
    rfl
  · omega
  · omega

theorem built_header_checksum {out : List UInt8} (hdr : Ipv4.Header)
    (room : 20 + message.length ≤ out.length) :
    Ipv4.checksum ((Ipv4.build hdr message out).bytes.take 20) = 0 := by
  rw [Ipv4.build_bytes hdr room, List.take_left' (Ipv4.length_header_bytes _ _ _)]
  exact checksum_inserted (by rw [Ipv4.length_front]) (by
    rw [Ipv4.length_front, List.length_append, length_octets, length_octets]
    decide)

theorem built_message_checksum {data out : List UInt8} (id seq : UInt16)
    (small : data.length ≤ 65507) (room : 8 + data.length ≤ out.length) :
    Ipv4.checksum (Icmp.buildReply id seq data out).bytes = 0 := by
  rw [Icmp.build_bytes id seq room]
  exact checksum_inserted rfl (by
    simp only [List.length_append, List.length_singleton, length_be16]
    omega)

end

/-- What is parsed is what was built, with the length of the packet as the total length
of the IPv4 header; every built IPv4 header and ICMP message has checksum 0. -/
theorem packets_round_trip (link : Link) (hdr : Ipv4.Header) (ports echo : UInt16 × UInt16)
    (packet : Arp.Packet) {payload arpOut : List UInt8} {buffers : Buffers}
    (small : payload.length ≤ 65507) (fit : buffers.Fit payload) (room : 28 ≤ arpOut.length) :
    (readUdpFrame (udpFrame link hdr ports payload buffers) =
        some { link := link, hdr := hdr.sent (28 + payload.length), fields := ports, payload } ∧
      readEchoFrame (echoFrame link hdr echo payload buffers) =
        some { link := link, hdr := hdr.sent (28 + payload.length), fields := echo, payload } ∧
      (hdr.sent (28 + payload.length)).totalLen.toNat = 28 + payload.length ∧
      Arp.parse (Arp.build packet arpOut).bytes = some packet) ∧
    (∀ message : List UInt8, 20 + message.length ≤ buffers.network.length →
      Ipv4.checksum ((Ipv4.build hdr message buffers.network).bytes.take 20) = 0) ∧
    Ipv4.checksum (Icmp.buildReply echo.1 echo.2 payload buffers.transport).bytes = 0 := by
  have length : (hdr.sent (28 + payload.length)).totalLen.toNat = 28 + payload.length :=
    UInt16.toNat_ofNat_of_lt' (show 28 + payload.length < 65536 by omega)
  exact ⟨⟨read_udp_frame fit, read_echo_frame fit, length, Arp.parse_build packet room⟩,
    fun _ fits => built_header_checksum hdr fits,
    built_message_checksum echo.1 echo.2 small fit.transport⟩

def zeroOctets (count : Nat) : Octets count :=
  ⟨List.replicate count 0, List.length_replicate⟩

def zeroLink : Link where
  dst := zeroOctets 6
  src := zeroOctets 6
  etype := 0x0800

def zeroHeader : Ipv4.Header where
  src := zeroOctets 4
  dst := zeroOctets 4
  protocol := 17
  ttl := 64
  totalLen := 0

def smallBuffers : Buffers where
  transport := List.replicate 16 0
  network := List.replicate 36 0
  link := List.replicate 50 0

def zeroArpPacket : Arp.Packet where
  op := 1
  senderMac := zeroOctets 6
  senderIp := zeroOctets 4
  targetMac := zeroOctets 6
  targetIp := zeroOctets 4

theorem packets_round_trip_small :
    (readUdpFrame (udpFrame zeroLink zeroHeader (53, 1024) [1, 2, 3] smallBuffers) =
        some { link := zeroLink, hdr := zeroHeader.sent 31, fields := (53, 1024),
               payload := [1, 2, 3] } ∧
      readEchoFrame (echoFrame zeroLink zeroHeader (7, 1) [1, 2, 3] smallBuffers) =
        some { link := zeroLink, hdr := zeroHeader.sent 31, fields := (7, 1),
               payload := [1, 2, 3] } ∧
      (zeroHeader.sent 31).totalLen.toNat = 31 ∧
      Arp.parse (Arp.build zeroArpPacket (List.replicate 28 0)).bytes = some zeroArpPacket) ∧
    (∀ message : List UInt8, 20 + message.length ≤ smallBuffers.network.length →
      Ipv4.checksum ((Ipv4.build zeroHeader message smallBuffers.network).bytes.take 20) = 0) ∧
    Ipv4.checksum (Icmp.buildReply 7 1 [1, 2, 3] smallBuffers.transport).bytes = 0 :=
  packets_round_trip zeroLink zeroHeader (53, 1024) (7, 1) zeroArpPacket (by decide)
    ⟨by decide, by decide, by decide⟩ (by decide)

/-- A header that says 0 comes back with the 28 bytes of the packet. -/
theorem total_length_not_returned :
    readUdpFrame (udpFrame zeroLink zeroHeader (53, 1024) [] smallBuffers) ≠
      some { link := zeroLink, hdr := zeroHeader, fields := (53, 1024), payload := [] } := by
  rw [read_udp_frame ⟨by decide, by decide, by decide⟩]
  intro same
  have lengths := congrArg (fun contents => contents.hdr.totalLen) (Option.some.inj same)
  exact absurd lengths (by decide)

end Ferrugem.NetworkPackets
