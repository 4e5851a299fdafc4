import EuiccCrypto.Bsp
import EuiccCrypto.Lib.MacChain

/-!
# Runs of a BSP session

A session is a sequence of wrap calls on one side and of unwrap calls on the other, each side
threading its own MAC chaining value through them.

* `session_round_trip`: what the sender wraps and encodes, the receiver decodes and unwraps, and
  the two chaining values agree after every segment.
* `accepted_prefix`: whatever blocks are delivered to a receiver, the ones it accepts are the
  first ones the sender produced, short of a C-MAC forgery or a repeated chaining value.
-/

namespace EuiccCrypto
namespace Bsp

open Octets

/-- The two protection options. -/
inductive Protection
  | macAndEncrypt
  | macOnly
  deriving DecidableEq

/-- One call of the sender: what to protect, how, and under which block number. -/
structure Segment where
  protection : Protection
  tag : UInt32
  plaintext : Bytes
  blockNumber : UInt32

/-- One call of the receiver: the block that was delivered, and how to open it. -/
structure Delivery where
  protection : Protection
  blockNumber : UInt32
  tlv : ProtectedTlv

section Calls

variable (C : Ciphers) (keys : BspSessionKeys)

/-- The wrap call of a segment. -/
def Segment.wrap (s : Segment) : Chained ProtectedTlv :=
  match s.protection with
  | .macAndEncrypt => wrapEncrypt C keys s.tag s.plaintext s.blockNumber
  | .macOnly => wrapMacOnly C keys s.tag s.plaintext

/-- The unwrap call of a delivery. -/
def Delivery.unwrap (d : Delivery) : Chained Bytes :=
  match d.protection with
  | .macAndEncrypt => unwrapEncrypt C keys d.tlv d.blockNumber
  | .macOnly => unwrapMacOnly C keys d.tlv

/-- How many octets the block of a segment carries: the plaintext, or its ciphertext, which the
padding brings to the next multiple of the block length. -/
def Segment.carriedLength (s : Segment) : Nat :=
  match s.protection with
  | .macAndEncrypt => blockLen * (s.plaintext.length / blockLen + 1)
  | .macOnly => s.plaintext.length

/-- The sender: wrap the segments in order and send `encode` of each. Beside each message stands
the chaining value after it. -/
def send : List Segment → Chained (List (Bytes × Bytes))
  | [] => pure []
  | s :: segments => do
      let tlv ← s.wrap C keys
      let chaining ← Chained.read
      let sent ← send segments
      pure ((encode tlv, chaining) :: sent)

/-- The receiver: decode the messages in order and unwrap each as told. Beside each plaintext
stands the chaining value after it. -/
def receive : List (Protection × UInt32 × Bytes) → Chained (List (Bytes × Bytes))
  | [] => pure []
  | (protection, blockNumber, message) :: messages => do
      let tlv ← Chained.lift (decode message)
      let plaintext ← (Delivery.mk protection blockNumber tlv).unwrap C keys
      let chaining ← Chained.read
      let received ← receive messages
      pure ((plaintext, chaining) :: received)

end Calls

/-! ### One segment -/

section OneSegment

variable {C : Ciphers} {keys : BspSessionKeys} {chaining chaining' : Bytes}

/-- The field a segment's block carries. -/
def Segment.field (C : Ciphers) (keys : BspSessionKeys) (s : Segment) : Exec Bytes :=
  match s.protection with
  | .macAndEncrypt => Cbc128.encrypt C keys.sEnc s.plaintext s.blockNumber
  | .macOnly => .ok s.plaintext

/-- What is read out of the field a delivered block carries. -/
def Delivery.content (C : Ciphers) (keys : BspSessionKeys) (d : Delivery) : Exec Bytes :=
  match d.protection with
  | .macAndEncrypt => Cbc128.decrypt C keys.sEnc d.tlv.data d.blockNumber
  | .macOnly => .ok d.tlv.data

theorem Segment.wrap_eq_ok {s : Segment} {tlv : ProtectedTlv} :
    s.wrap C keys chaining = (.ok tlv, chaining') ↔
      tlv.tag = s.tag ∧ s.field C keys = .ok tlv.data ∧ Advances C keys chaining tlv chaining' := by
  cases hp : s.protection <;> simp only [Segment.wrap, Segment.field, hp]
  case macAndEncrypt => exact wrapEncrypt_eq_ok
  case macOnly => rw [wrapMacOnly_eq_ok, Exec.ok.injEq, eq_comm (a := s.plaintext)]

theorem Segment.wrap_atomic (s : Segment) : (s.wrap C keys).Atomic := by
  cases hp : s.protection <;> simp only [Segment.wrap, hp]
  case macAndEncrypt => exact wrapEncrypt_atomic _ _ _
  case macOnly => exact wrapMacOnly_atomic _ _

theorem Delivery.unwrap_eq_ok {d : Delivery} {plaintext : Bytes} :
    d.unwrap C keys chaining = (.ok plaintext, chaining') ↔
      Advances C keys chaining d.tlv chaining' ∧ d.content C keys = .ok plaintext := by
  cases hp : d.protection <;> simp only [Delivery.unwrap, Delivery.content, hp]
  case macAndEncrypt => exact unwrapEncrypt_eq_ok
  case macOnly => rw [unwrapMacOnly_eq_ok, Exec.ok.injEq]

theorem Delivery.unwrap_atomic (d : Delivery) : (d.unwrap C keys).Atomic := by
  cases hp : d.protection <;> simp only [Delivery.unwrap, hp]
  case macAndEncrypt => exact unwrapEncrypt_atomic _ _
  case macOnly => exact unwrapMacOnly_atomic _

/-- The field of a segment has `carriedLength` octets, and the matching unwrap reads the
plaintext back out of it. -/
theorem Segment.field_spec (s : Segment) (hEnc : keys.sEnc.length = keyLen) :
    ∃ data, s.field C keys = .ok data ∧ data.length = s.carriedLength ∧
      ∀ tag cmac, (Delivery.mk s.protection s.blockNumber ⟨tag, data, cmac⟩).content C keys =
        .ok s.plaintext := by
  cases hp : s.protection <;>
    simp only [Segment.field, Segment.carriedLength, Delivery.content, hp]
  case macAndEncrypt =>
    obtain ⟨ct, hct, hlen, hdec⟩ := Cbc128.encrypt_of_length C hEnc s.plaintext s.blockNumber
    exact ⟨ct, hct, hlen, fun _ _ => hdec⟩
  case macOnly => exact ⟨s.plaintext, rfl, rfl, fun _ _ => rfl⟩

theorem Segment.length_data {s : Segment} {tlv : ProtectedTlv} (hEnc : keys.sEnc.length = keyLen)
    (h : s.wrap C keys chaining = (.ok tlv, chaining')) :
    tlv.data.length = s.carriedLength := by
  obtain ⟨data, hfield, hlen, -⟩ := s.field_spec (C := C) hEnc
  have hdata := (wrap_eq_ok.mp h).2.1
  rw [hfield] at hdata
  cases hdata
  exact hlen

/-- A wrap succeeds exactly when what it carries and the C-MAC fit the two-octet long form. -/
theorem Segment.wrap_isOk (s : Segment) (hEnc : keys.sEnc.length = keyLen)
    (hMac : keys.sMac.length = keyLen) (hc : chaining.length = keyLen) :
    (∃ tlv chaining', s.wrap C keys chaining = (.ok tlv, chaining')) ↔
      s.carriedLength + cmacLen ≤ 0xFFFF := by
  constructor
  · rintro ⟨tlv, chaining', h⟩
    rw [← length_data hEnc h]
    exact (wrap_eq_ok.mp h).2.2.length_data_le
  · intro hlen
    obtain ⟨data, hfield, hdata, -⟩ := s.field_spec (C := C) hEnc
    let full := (C.cmac ⟨keys.sMac, hMac⟩ (macInput chaining s.tag data)).val
    have hfull : fullCmac C keys.sMac chaining s.tag (data.length + cmacLen) data = .ok full :=
      fullCmac_eq_ok.mpr ⟨hc, hdata ▸ hlen, ⟨keys.sMac, hMac⟩, rfl, rfl⟩
    exact ⟨⟨s.tag, data, full.take cmacLen⟩, full, wrap_eq_ok.mpr ⟨rfl, hfield, hfull, rfl⟩⟩

/-- Unwrapping undoes wrapping and takes the chain to the same value. -/
theorem Segment.unwrap_wrap {s : Segment} {tlv : ProtectedTlv} (hEnc : keys.sEnc.length = keyLen)
    (h : s.wrap C keys chaining = (.ok tlv, chaining')) :
    (Delivery.mk s.protection s.blockNumber tlv).unwrap C keys chaining =
      (.ok s.plaintext, chaining') := by
  obtain ⟨-, hfield, hadv⟩ := wrap_eq_ok.mp h
  obtain ⟨data, hdata, -, hcontent⟩ := s.field_spec (C := C) hEnc
  rw [hdata] at hfield
  cases hfield
  exact Delivery.unwrap_eq_ok.mpr ⟨hadv, hcontent tlv.tag tlv.cmac⟩

end OneSegment

/-! ### The session round trip -/

section RoundTrip

variable {C : Ciphers} {keys : BspSessionKeys}

theorem send_cons_eq_ok {s : Segment} {segments : List Segment} {sent : List (Bytes × Bytes)}
    {chaining last : Bytes} (h : send C keys (s :: segments) chaining = (.ok sent, last)) :
    ∃ tlv chaining' rest, s.wrap C keys chaining = (.ok tlv, chaining') ∧
      send C keys segments chaining' = (.ok rest, last) ∧
      sent = (encode tlv, chaining') :: rest := by
  rw [send] at h
  rcases s.wrap_atomic chaining with ⟨tlv, chaining', hw⟩ | ⟨e, hw⟩
  · rw [Chained.bind_ok hw, Chained.read_bind] at h
    obtain ⟨rest, chaining'', hs, h⟩ := Chained.bind_eq_ok.mp h
    cases h
    exact ⟨tlv, chaining', rest, hw, hs, rfl⟩
  · rw [Chained.bind_err hw] at h
    cases h

theorem send_cons {s : Segment} {segments : List Segment} {rest : List (Bytes × Bytes)}
    {tlv : ProtectedTlv} {chaining chaining' last : Bytes}
    (hw : s.wrap C keys chaining = (.ok tlv, chaining'))
    (hs : send C keys segments chaining' = (.ok rest, last)) :
    send C keys (s :: segments) chaining = (.ok ((encode tlv, chaining') :: rest), last) := by
  rw [send, Chained.bind_ok hw, Chained.read_bind, Chained.bind_ok hs, Chained.pure_apply]

/-- The sender gets through exactly when every segment fits. -/
theorem send_isOk (hEnc : keys.sEnc.length = keyLen) (hMac : keys.sMac.length = keyLen) :
    ∀ (segments : List Segment) {chaining : Bytes}, chaining.length = keyLen →
      ((∃ sent last, send C keys segments chaining = (.ok sent, last)) ↔
        ∀ s ∈ segments, s.carriedLength + cmacLen ≤ 0xFFFF)
  | [], chaining, _ => ⟨fun _ => by simp, fun _ => ⟨[], chaining, rfl⟩⟩
  | s :: segments, chaining, hc => by
      rw [List.forall_mem_cons, ← s.wrap_isOk (C := C) hEnc hMac hc]
      constructor
      · rintro ⟨sent, last, h⟩
        obtain ⟨tlv, chaining', rest, hw, hs, -⟩ := send_cons_eq_ok h
        have hc' := (Segment.wrap_eq_ok.mp hw).2.2.length_right
        exact ⟨⟨tlv, chaining', hw⟩, (send_isOk hEnc hMac segments hc').mp ⟨rest, last, hs⟩⟩
      · rintro ⟨⟨tlv, chaining', hw⟩, hrest⟩
        have hc' := (Segment.wrap_eq_ok.mp hw).2.2.length_right
        obtain ⟨rest, last, hs⟩ := (send_isOk hEnc hMac segments hc').mpr hrest
        exact ⟨_, last, send_cons hw hs⟩

/-- One segment sent and received, in front of a run. -/
theorem receive_cons {s : Segment} {tlv : ProtectedTlv} {chaining chaining' last : Bytes}
    {messages : List (Protection × UInt32 × Bytes)} {received : List (Bytes × Bytes)}
    (hEnc : keys.sEnc.length = keyLen) (htag : IsTag s.tag)
    (hw : s.wrap C keys chaining = (.ok tlv, chaining'))
    (hr : receive C keys messages chaining' = (.ok received, last)) :
    receive C keys ((s.protection, s.blockNumber, encode tlv) :: messages) chaining =
      (.ok ((s.plaintext, chaining') :: received), last) := by
  obtain ⟨ht, -, hadv⟩ := Segment.wrap_eq_ok.mp hw
  have hdec : decode (encode tlv) = .ok tlv := by
    simpa using decode_encode (ht ▸ htag) hadv.length_cmac hadv.length_data_le []
  rw [receive, hdec, Chained.lift_ok_bind, Chained.bind_ok (Segment.unwrap_wrap hEnc hw),
    Chained.read_bind, Chained.bind_ok hr, Chained.pure_apply]

theorem receive_send (hEnc : keys.sEnc.length = keyLen) :
    ∀ (segments : List Segment), (∀ s ∈ segments, IsTag s.tag) →
      ∀ {chaining last : Bytes} {sent : List (Bytes × Bytes)},
        send C keys segments chaining = (.ok sent, last) →
          ∃ received, receive C keys ((segments.zip sent).map fun p =>
              (p.1.protection, p.1.blockNumber, p.2.1)) chaining = (.ok received, last) ∧
            received.map Prod.fst = segments.map Segment.plaintext ∧
            received.map Prod.snd = sent.map Prod.snd
  | [], _, chaining, last, sent, h => by
      cases h
      exact ⟨[], rfl, rfl, rfl⟩
  | s :: segments, htags, chaining, last, sent, h => by
      obtain ⟨tlv, chaining', rest, hw, hs, rfl⟩ := send_cons_eq_ok h
      obtain ⟨htag, htags⟩ := List.forall_mem_cons.mp htags
      obtain ⟨received, hr, hplain, hchain⟩ := receive_send hEnc segments htags hs
      -- Both sides have come to `chaining'`, where the rest of the run starts.
      refine ⟨(s.plaintext, chaining') :: received, receive_cons hEnc htag hw hr, ?_, ?_⟩
      · rw [List.map_cons, List.map_cons, hplain]
      · rw [List.map_cons, List.map_cons, hchain]

/-- **Session round trip.** A wrap succeeds exactly when its carried length plus the C-MAC is
at most 65535; and whatever segments the sender wraps in order, the receiver that starts from
the same chaining value and opens the messages in order, each with the option and the block
number it was wrapped with, gets the plaintexts and passes through the same chaining values. -/
theorem session_round_trip (C : Ciphers) (keys : BspSessionKeys)
    (hEnc : keys.sEnc.length = keyLen) (hMac : keys.sMac.length = keyLen)
    (chaining : Bytes) (hc : chaining.length = keyLen) (segments : List Segment)
    (htags : ∀ s ∈ segments, IsTag s.tag) :
    (∀ (s : Segment) (c : Bytes), c.length = keyLen →
      ((∃ tlv c', s.wrap C keys c = (.ok tlv, c')) ↔ s.carriedLength + cmacLen ≤ 0xFFFF) ∧
      ∀ tlv c', s.wrap C keys c = (.ok tlv, c') → tlv.data.length = s.carriedLength) ∧
    ((∃ sent last, send C keys segments chaining = (.ok sent, last)) ↔
      ∀ s ∈ segments, s.carriedLength + cmacLen ≤ 0xFFFF) ∧
    ∀ sent last, send C keys segments chaining = (.ok sent, last) →
      ∃ received, receive C keys ((segments.zip sent).map fun p =>
          (p.1.protection, p.1.blockNumber, p.2.1)) chaining = (.ok received, last) ∧
        received.map Prod.fst = segments.map Segment.plaintext ∧
        received.map Prod.snd = sent.map Prod.snd := by
  refine ⟨fun s c hlen => ⟨s.wrap_isOk hEnc hMac hlen, fun tlv c' h => Segment.length_data hEnc h⟩,
    send_isOk hEnc hMac segments hc, fun sent last h => receive_send hEnc segments htags h⟩

end RoundTrip

/-! ### A session of two segments

One encrypted and one MAC-only segment under the keys `01 … 30`, with the values AES and CMAC
take there. -/

section Sample

def sampleKeys : BspSessionKeys where
  macChaining := [0x01, 0x02, 0x03, 0x04, 0x05, 0x06, 0x07, 0x08, 0x09, 0x0a, 0x0b, 0x0c, 0x0d,
    0x0e, 0x0f, 0x10]
  sEnc := [0x11, 0x12, 0x13, 0x14, 0x15, 0x16, 0x17, 0x18, 0x19, 0x1a, 0x1b, 0x1c, 0x1d, 0x1e,
    0x1f, 0x20]
  sMac := [0x21, 0x22, 0x23, 0x24, 0x25, 0x26, 0x27, 0x28, 0x29, 0x2a, 0x2b, 0x2c, 0x2d, 0x2e,
    0x2f, 0x30]

def sampleIcv : Block :=
  ⟨[0x15, 0xaf, 0xb2, 0xb5, 0x0c, 0xb4, 0x6e, 0xba, 0xb0, 0x34, 0xa7, 0x47, 0x19, 0x4e, 0xc4,
    0x02], rfl⟩

def sampleCipherInput : Block :=
  ⟨[0x74, 0x8f, 0xd1, 0xda, 0x61, 0xd9, 0x0f, 0xd4, 0xd4, 0xb4, 0xa7, 0x47, 0x19, 0x4e, 0xc4,
    0x02], rfl⟩

def sampleCiphertext : Block :=
  ⟨[0x53, 0x9d, 0x62, 0xcc, 0x56, 0xd3, 0x60, 0x3e, 0x72, 0xe9, 0xf5, 0xc0, 0xcd, 0x8a, 0x9f,
    0xde], rfl⟩

def sampleFirstCmac : Block :=
  ⟨[0x14, 0x56, 0xe1, 0x3b, 0xb2, 0x07, 0xb2, 0xae, 0xec, 0x9b, 0x88, 0x06, 0xce, 0xa6, 0x30,
    0xc2], rfl⟩

def sampleSecondCmac : Block :=
  ⟨[0xe3, 0x61, 0xc6, 0x91, 0x15, 0x6f, 0x54, 0x5f, 0x00, 0x78, 0x4b, 0x5a, 0xb9, 0xcc, 0xac,
    0x61], rfl⟩

def sampleEarlyCmac : Block :=
  ⟨[0xa5, 0x63, 0xb7, 0x55, 0xaf, 0x17, 0x75, 0xf7, 0x59, 0x99, 0xc6, 0x84, 0x1b, 0x6b, 0x48,
    0x31], rfl⟩

def sampleReplayCmac : Block :=
  ⟨[0xaa, 0xa7, 0x9c, 0x62, 0xc0, 0xd7, 0x80, 0x46, 0xb4, 0x53, 0x65, 0xc8, 0xaf, 0x09, 0x07,
    0x8b], rfl⟩

/-- The C-MACs of the two blocks, each under both chaining values. -/
def sampleCmacs : List (Bytes × Block) :=
  [(sampleKeys.macChaining ++ [0x86, 0x18] ++ sampleCiphertext.val, sampleFirstCmac),
    (sampleFirstCmac.val ++ [0xbf, 0x37, 0x10] ++ "metadata".toUTF8.toList, sampleSecondCmac),
    (sampleKeys.macChaining ++ [0xbf, 0x37, 0x10] ++ "metadata".toUTF8.toList, sampleEarlyCmac),
    (sampleFirstCmac.val ++ [0x86, 0x18] ++ sampleCiphertext.val, sampleReplayCmac)]

/-- AES and CMAC on the inputs of the sample session. -/
def sampleCiphers : Ciphers where
  aes key :=
    if key.val = sampleKeys.sEnc then
      (Equiv.swap (Cbc128.numberBlock 1) sampleIcv).trans
        (Equiv.swap sampleCipherInput sampleCiphertext)
    else Equiv.refl Block
  cmac key input :=
    if key.val = sampleKeys.sMac then
      (sampleCmacs.lookup input).getD ⟨List.replicate blockLen 0, rfl⟩
    else ⟨List.replicate blockLen 0, rfl⟩

def sampleSegments : List Segment :=
  [⟨.macAndEncrypt, 0x86, "a command".toUTF8.toList, 1⟩,
    ⟨.macOnly, 0xbf37, "metadata".toUTF8.toList, 2⟩]

/-- What the sender puts on the wire, and the chaining value after each message. -/
def sampleSent : List (Bytes × Bytes) :=
  [([0x86, 0x18] ++ sampleCiphertext.val ++ sampleFirstCmac.val.take 8, sampleFirstCmac.val),
    ([0xbf, 0x37, 0x10] ++ "metadata".toUTF8.toList ++ sampleSecondCmac.val.take 8,
      sampleSecondCmac.val)]

theorem session_round_trip_sample :
    send sampleCiphers sampleKeys sampleSegments sampleKeys.macChaining =
      (.ok sampleSent, sampleSecondCmac.val) ∧
    ∃ received, receive sampleCiphers sampleKeys ((sampleSegments.zip sampleSent).map fun p =>
        (p.1.protection, p.1.blockNumber, p.2.1)) sampleKeys.macChaining =
          (.ok received, sampleSecondCmac.val) ∧
      received.map Prod.fst = ["a command".toUTF8.toList, "metadata".toUTF8.toList] ∧
      received.map Prod.snd = [sampleFirstCmac.val, sampleSecondCmac.val] := by
  have hsend : send sampleCiphers sampleKeys sampleSegments sampleKeys.macChaining =
      (.ok sampleSent, sampleSecondCmac.val) := by decide +kernel
  exact ⟨hsend, (session_round_trip sampleCiphers sampleKeys rfl rfl sampleKeys.macChaining rfl
    sampleSegments (by decide)).2.2 _ _ hsend⟩

end Sample

/-! ### What a receiver accepts

A history is what an end of the session has done, without the calls that failed. Sender and
receiver walk the same chain (`history_spec`), so that the states of both are given by their
blocks, and `MacChain` compares the two lists of blocks. -/

/-- What a party did: the block of every call that returned, with the chaining value the call
started from, and the chaining value at the end. -/
structure History where
  blocks : List (Bytes × ProtectedTlv)
  last : Bytes

namespace History

/-- The chaining values a party passed through. -/
def chainingValues (h : History) : List Bytes := h.blocks.map Prod.fst ++ [h.last]

/-- What the C-MACs of its blocks are computed over. -/
def macInputs (h : History) : List Bytes :=
  h.blocks.map fun e => macInput e.1 e.2.tag e.2.data

end History

section Runs

variable {κ α : Type}

/-- Runs calls one after another on one buffer. `block` is the block a call is about. -/
def history (call : κ → Chained α) (block : κ → α → ProtectedTlv) : List κ → Bytes → History
  | [], chaining => ⟨[], chaining⟩
  | k :: ks, chaining =>
      match call k chaining with
      | (.ok a, chaining') =>
          let rest := history call block ks chaining'
          ⟨(chaining, block k a) :: rest.blocks, rest.last⟩
      -- A call that does not return leaves no block, only its buffer.
      | (_, chaining') => history call block ks chaining'

variable (C : Ciphers) (keys : BspSessionKeys)

/-- A sender's run: the blocks it produced. -/
def sendHistory : List Segment → Bytes → History :=
  history (Segment.wrap C keys) fun _ tlv => tlv

/-- A receiver's run: the blocks it accepted. -/
def receiveHistory : List Delivery → Bytes → History :=
  history (Delivery.unwrap C keys) fun d _ => d.tlv

/-- The chaining value a block leads to (any value will do for a block that fits nowhere). -/
def next (chaining : Bytes) (tlv : ProtectedTlv) : Bytes :=
  match fullCmac C keys.sMac chaining tlv.tag (tlv.data.length + cmacLen) tlv.data with
  | .ok full => full
  | _ => chaining

variable {C keys}

theorem Advances.next_eq {chaining chaining' : Bytes} {tlv : ProtectedTlv}
    (h : Advances C keys chaining tlv chaining') : next C keys chaining tlv = chaining' := by
  rw [next, h.1]

/-- Every run is a walk along the chain: failing calls leave no trace, and each block that is
produced or accepted fits the chaining value it meets. -/
theorem history_spec {call : κ → Chained α} {block : κ → α → ProtectedTlv}
    (hatomic : ∀ k, (call k).Atomic)
    (hadv : ∀ k a c c', call k c = (.ok a, c') → Advances C keys c (block k a) c') :
    ∀ (ks : List κ) (chaining : Bytes), let h := history call block ks chaining
      h.blocks = MacChain.log (next C keys) chaining (h.blocks.map Prod.snd) ∧
      h.last = (h.blocks.map Prod.snd).foldl (next C keys) chaining ∧
      ∀ e ∈ h.blocks, Advances C keys e.1 e.2 (next C keys e.1 e.2)
  | [], chaining => ⟨rfl, rfl, by simp [history]⟩
  | k :: ks, chaining => by
      rcases hatomic k chaining with ⟨a, chaining', hcall⟩ | ⟨e, hcall⟩
      · -- The call returned: the chain takes one step, from `chaining` to `chaining'`.
        obtain ⟨hlog, hlast, hall⟩ := history_spec hatomic hadv ks chaining'
        have hstep := hadv k a chaining chaining' hcall
        have hnext := hstep.next_eq
        simp only [history, hcall]
        refine ⟨?_, ?_, ?_⟩
        · rw [List.map_cons, MacChain.log, hnext, ← hlog]
        · rw [List.map_cons, List.foldl_cons, hnext, ← hlast]
        · rw [List.forall_mem_cons]
          exact ⟨hnext.symm ▸ hstep, hall⟩
      · simp only [history, hcall]
        exact history_spec hatomic hadv ks chaining

variable (C keys)

theorem sendHistory_spec (segments : List Segment) (chaining : Bytes) :
    let h := sendHistory C keys segments chaining
    h.blocks = MacChain.log (next C keys) chaining (h.blocks.map Prod.snd) ∧
    h.last = (h.blocks.map Prod.snd).foldl (next C keys) chaining ∧
    ∀ e ∈ h.blocks, Advances C keys e.1 e.2 (next C keys e.1 e.2) :=
  history_spec Segment.wrap_atomic (fun _ _ _ _ h => (Segment.wrap_eq_ok.mp h).2.2) segments
    chaining

theorem receiveHistory_spec (deliveries : List Delivery) (chaining : Bytes) :
    let h := receiveHistory C keys deliveries chaining
    h.blocks = MacChain.log (next C keys) chaining (h.blocks.map Prod.snd) ∧
    h.last = (h.blocks.map Prod.snd).foldl (next C keys) chaining ∧
    ∀ e ∈ h.blocks, Advances C keys e.1 e.2 (next C keys e.1 e.2) :=
  history_spec Delivery.unwrap_atomic (fun _ _ _ _ h => (Delivery.unwrap_eq_ok.mp h).1) deliveries
    chaining

/-- What holds of the block of every call that returns holds of every block of a run. -/
theorem history_forall_block (P : ProtectedTlv → Prop) (call : κ → Chained α)
    (block : κ → α → ProtectedTlv) :
    ∀ (ks : List κ) (chaining : Bytes),
      (∀ k ∈ ks, ∀ a c c', call k c = (.ok a, c') → P (block k a)) →
        ∀ e ∈ (history call block ks chaining).blocks, P e.2
  | [], _, _ => by simp [history]
  | k :: ks, chaining, hP => by
      obtain ⟨hk, hks⟩ := List.forall_mem_cons.mp hP
      rw [history]
      split
      · next a chaining' hcall =>
          exact List.forall_mem_cons.mpr
            ⟨hk a chaining chaining' hcall, history_forall_block P call block ks _ hks⟩
      · exact history_forall_block P call block ks _ hks

/-- **Accepted blocks are a prefix of the sent blocks, or the C-MAC was broken.** Sender and
receiver start from one chaining value, and the receiver is handed any blocks in any order.
Then the blocks it accepts are the first ones the sender produced, in order; or it accepted one
whose C-MAC input the sender never computed a C-MAC over; or two of the chaining values the
sender passed through are equal. -/
theorem accepted_prefix (C : Ciphers) (keys : BspSessionKeys) (chaining : Bytes)
    (segments : List Segment) (htags : ∀ s ∈ segments, IsTag s.tag)
    (deliveries : List Delivery) (htags' : ∀ d ∈ deliveries, IsTag d.tlv.tag) :
    let sent := sendHistory C keys segments chaining
    let accepted := receiveHistory C keys deliveries chaining
    accepted.blocks.map Prod.snd <+: sent.blocks.map Prod.snd ∨
      (∃ e ∈ accepted.blocks, macInput e.1 e.2.tag e.2.data ∉ sent.macInputs) ∨
      ∃ i j, i < j ∧ j ≤ sent.blocks.length ∧
        sent.chainingValues[i]? = sent.chainingValues[j]? := by
  intro sent accepted
  obtain ⟨hsent, hlast, hsentAdv⟩ := sendHistory_spec C keys segments chaining
  obtain ⟨haccepted, -, hacceptedAdv⟩ :=
    receiveHistory_spec C keys deliveries chaining
  have hsentTag : ∀ e ∈ sent.blocks, IsTag e.2.tag :=
    history_forall_block (fun tlv => IsTag tlv.tag) _ _ segments chaining fun s hs _ _ _ h =>
      (Segment.wrap_eq_ok.mp h).1 ▸ htags s hs
  have hacceptedTag : ∀ e ∈ accepted.blocks, IsTag e.2.tag :=
    history_forall_block (fun tlv => IsTag tlv.tag) _ _ deliveries chaining
      fun d hd _ _ _ _ => htags' d hd
  rcases MacChain.prefix_or_unseen_or_repeat (next C keys) chaining (sent.blocks.map Prod.snd)
    (accepted.blocks.map Prod.snd) with h | ⟨e, he, hunseen⟩ | ⟨i, j, hij, hj, heq⟩
  · exact .inl h
  · -- An input the sender did compute a C-MAC over would have been its own block.
    rw [← haccepted] at he
    rw [← hsent] at hunseen
    refine .inr (.inl ⟨e, he, ?_⟩)
    intro hmem
    apply hunseen
    obtain ⟨e', he', hinput⟩ := List.mem_map.mp hmem
    have hadv := hacceptedAdv e he
    have hadv' := hsentAdv e' he'
    obtain ⟨hchain, htag, hdata⟩ := macInput_inj (hadv'.length_left.trans hadv.length_left.symm)
      (hsentTag e' he') (hacceptedTag e he) hadv'.length_data_le hadv.length_data_le hinput
    rw [← hchain] at hadv
    have hblock := (hadv'.unique hadv htag hdata).2
    have heq : e = e' := Prod.ext hchain.symm hblock.symm
    rwa [heq]
  · refine .inr (.inr ⟨i, j, hij, by simpa using hj, ?_⟩)
    rw [MacChain.scanl_eq_log, ← hsent, ← hlast] at heq
    exact heq

theorem accepted_prefix_sample :
    let sent := sendHistory sampleCiphers sampleKeys sampleSegments sampleKeys.macChaining
    let deliveries : List Delivery :=
      [⟨.macOnly, 2, ⟨0xbf37, "metadata".toUTF8.toList, sampleSecondCmac.val.take 8⟩⟩,
        ⟨.macAndEncrypt, 1, ⟨0x86, sampleCiphertext.val, sampleFirstCmac.val.take 8⟩⟩,
        ⟨.macAndEncrypt, 1, ⟨0x86, sampleCiphertext.val, sampleFirstCmac.val.take 8⟩⟩,
        ⟨.macOnly, 2, ⟨0xbf37, "metadata".toUTF8.toList, sampleSecondCmac.val.take 8⟩⟩]
    let accepted := receiveHistory sampleCiphers sampleKeys deliveries sampleKeys.macChaining
    accepted.blocks.map Prod.snd <+: sent.blocks.map Prod.snd ∨
      (∃ e ∈ accepted.blocks, macInput e.1 e.2.tag e.2.data ∉ sent.macInputs) ∨
      ∃ i j, i < j ∧ j ≤ sent.blocks.length ∧
        sent.chainingValues[i]? = sent.chainingValues[j]? :=
  accepted_prefix sampleCiphers sampleKeys sampleKeys.macChaining sampleSegments (by decide) _
    (by decide)

end Runs
end Bsp
end EuiccCrypto
