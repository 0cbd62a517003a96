import Ferrugem.NetworkPackets

/-!
# Malformed network headers

`ipv4::parse` and `tcp::parse` reject a header that is longer than the buffer. They
do not look at the other ways in which the lengths may disagree: a header length
below that of the fixed fields, and, for IPv4, a total length that is not the length
of the buffer. What they return is right exactly if the fields agree.
-/

namespace Ferrugem.MalformedHeaders

open Ferrugem.NetworkPackets ByteWindows

set_option autoImplicit false

/-- The payload is the bytes that the packet declares, behind a whole header. -/
structure Declared (buf : List UInt8) (hdr : Ipv4.Header) (payload : List UInt8) : Prop where
  header : 20 ≤ Ipv4.headerLength buf
  within : hdr.totalLen.toNat ≤ buf.length
  size : Ipv4.headerLength buf + payload.length = hdr.totalLen.toNat
  place : payload = (buf.take hdr.totalLen.toNat).drop (Ipv4.headerLength buf)

def Ipv4Sound (buf : List UInt8) : Prop :=
  ∀ hdr payload, Ipv4.parse buf = some (hdr, payload) → Declared buf hdr payload

/-- The payload is the end of the segment, behind at least 20 bytes. -/
def TcpSound (buf : List UInt8) : Prop :=
  ∀ src dst seq ack flags payload, Tcp.parse buf = some (src, dst, seq, ack, flags, payload) →
    payload <:+ buf ∧ payload.length + 20 ≤ buf.length

/-- The low half of the first byte, the number of words of the header. -/
def headerWords (buf : List UInt8) : Nat := (buf.headD 0).toNat % 16

def totalLength (buf : List UInt8) : Nat := (buf.getD 2 0).toNat * 256 + (buf.getD 3 0).toNat

def offsetWords (buf : List UInt8) : Nat := (buf.getD 12 0).toNat / 16

/-- The buffer is shorter than a header, or the lengths agree. -/
def Ipv4Consistent (buf : List UInt8) : Prop :=
  buf.length < 20 ∨ buf.length < headerWords buf * 4 ∨
    5 ≤ headerWords buf ∧ totalLength buf = buf.length

def TcpConsistent (buf : List UInt8) : Prop :=
  buf.length < 20 ∨ buf.length < offsetWords buf * 4 ∨ 5 ≤ offsetWords buf

instance decidableIpv4Consistent (buf : List UInt8) : Decidable (Ipv4Consistent buf) :=
  inferInstanceAs (Decidable (_ ∨ _ ∨ _ ∧ _))

instance decidableTcpConsistent (buf : List UInt8) : Decidable (TcpConsistent buf) :=
  inferInstanceAs (Decidable (_ ∨ _ ∨ _))

section

variable {buf : List UInt8}

theorem header_length_eq (buf : List UInt8) : Ipv4.headerLength buf = headerWords buf * 4 := by
  unfold Ipv4.headerLength headerWords
  rw [UInt8.toNat_and]
  exact congrArg (· * 4) (Nat.and_two_pow_sub_one_eq_mod _ 4)

theorem data_offset_eq (buf : List UInt8) : Tcp.dataOffset buf = offsetWords buf * 4 := by
  unfold Tcp.dataOffset offsetWords
  rw [UInt8.toNat_shiftRight, Nat.shiftRight_eq_div_pow]
  rfl

theorem total_length_eq (long : 4 ≤ buf.length) : (be16At buf 2).toNat = totalLength buf := by
  match buf, long with
  | _ :: _ :: high :: low :: rest, _ =>
      have belowHigh := high.toNat_lt
      have belowLow := low.toNat_lt
      have word : fromBe [high, low] = high.toNat * 256 + low.toNat := by
        simp [fromBe]
      change (UInt16.ofNat (fromBe [high, low])).toNat = high.toNat * 256 + low.toNat
      rw [word]
      exact UInt16.toNat_ofNat_of_lt'
        (show high.toNat * 256 + low.toNat < 65536 by clear word; omega)

theorem ipv4_parse_eq (long : 20 ≤ buf.length) (room : headerWords buf * 4 ≤ buf.length) :
    ∃ hdr, Ipv4.parse buf = some (hdr, buf.drop (headerWords buf * 4)) ∧
      hdr.totalLen.toNat = totalLength buf := by
  rw [Ipv4.parse, dif_pos long, header_length_eq, if_neg (Nat.not_lt.mpr room)]
  exact ⟨_, rfl, total_length_eq (by omega)⟩

theorem ipv4_sound_iff (buf : List UInt8) : Ipv4Sound buf ↔ Ipv4Consistent buf := by
  unfold Ipv4Consistent
  by_cases long : 20 ≤ buf.length
  · by_cases room : headerWords buf * 4 ≤ buf.length
    · obtain ⟨hdr, parsed, total⟩ := ipv4_parse_eq long room
      constructor
      · intro sound
        have declared := sound _ _ parsed
        have header := declared.header
        have size := declared.size
        rw [header_length_eq] at header size
        rw [List.length_drop] at size
        exact .inr (.inr ⟨by omega, by omega⟩)
      · intro consistent other payload same
        rw [parsed] at same
        cases same
        obtain short | short | ⟨words, lengths⟩ := consistent
        · omega
        · omega
        · refine ⟨?_, ?_, ?_, ?_⟩
          · rw [header_length_eq]
            omega
          · omega
          · rw [header_length_eq, List.length_drop]
            omega
          · rw [total, lengths, List.take_length, header_length_eq]
    · refine iff_of_true ?_ (.inr (.inl (Nat.lt_of_not_le room)))
      intro hdr payload same
      rw [Ipv4.parse, dif_pos long, header_length_eq, if_pos (Nat.lt_of_not_le room)] at same
      cases same
  · refine iff_of_true ?_ (.inl (Nat.lt_of_not_le long))
    intro hdr payload same
    rw [Ipv4.parse, dif_neg long] at same
    cases same

theorem tcp_sound_iff (buf : List UInt8) : TcpSound buf ↔ TcpConsistent buf := by
  unfold TcpConsistent
  by_cases long : buf.length < 20
  · refine iff_of_true ?_ (.inl long)
    intro src dst seq ack flags payload same
    rw [Tcp.parse, if_pos long] at same
    cases same
  · by_cases room : buf.length < offsetWords buf * 4
    · refine iff_of_true ?_ (.inr (.inl room))
      intro src dst seq ack flags payload same
      rw [Tcp.parse, if_neg long, data_offset_eq, if_pos room] at same
      cases same
    · have parsed := Tcp.parse.eq_def buf
      rw [if_neg long, data_offset_eq, if_neg room] at parsed
      constructor
      · intro sound
        have behind := (sound _ _ _ _ _ _ parsed).2
        rw [List.length_drop] at behind
        exact .inr (.inr (by omega))
      · intro consistent src dst seq ack flags payload same
        rw [parsed] at same
        cases same
        refine ⟨List.drop_suffix _ _, ?_⟩
        rw [List.length_drop]
        omega

end

/-- What the parsers return is right exactly if the lengths that the bytes declare
agree with each other and with the buffer, or the buffer is rejected. -/
theorem headers_sound_iff (packet segment : List UInt8) :
    (Ipv4Sound packet ↔ Ipv4Consistent packet) ∧ (TcpSound segment ↔ TcpConsistent segment) :=
  ⟨ipv4_sound_iff packet, tcp_sound_iff segment⟩

def emptyHeader : List UInt8 := 0x40 :: List.replicate 19 0

/-- A packet of 20 bytes at the front of an Ethernet payload of 46. -/
def paddedPacket : List UInt8 := [0x45, 0, 0, 20] ++ List.replicate 42 0

def truncatedPacket : List UInt8 := [0x45, 0, 5, 220] ++ List.replicate 16 0

def noOffset : List UInt8 := List.replicate 20 0

theorem malformed_headers_accepted :
    ¬Ipv4Sound emptyHeader ∧ ¬Ipv4Sound paddedPacket ∧ ¬Ipv4Sound truncatedPacket ∧
      ¬TcpSound noOffset := by
  rw [ipv4_sound_iff, ipv4_sound_iff, ipv4_sound_iff, tcp_sound_iff]
  decide

end Ferrugem.MalformedHeaders
