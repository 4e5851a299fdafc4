import EuiccCrypto.Bsp.Calls
import EuiccCrypto.Bsp.Session
import EuiccCrypto.Lib.Channel

/-!
# A session on an open network

The two ends of a session and a network between them that delivers what it likes: messages of the
sender, in any order and as often as it wants, or any other octets, while the sender goes on
sending. An `Input` is what happens next at one of the ends, and a list of them is an interleaving.

* `channel_refines_queue`: what is wrapped at one end and accepted at the other is the trace of a
  queue, up to a forged C-MAC or a repeated chaining value.
* `channel_delivers`: as long as it is, accepted plaintexts are the ones sent, and the next message
  under way is accepted whatever was delivered before.
-/

namespace EuiccCrypto
namespace Bsp

open Octets Channel

deriving instance DecidableEq for Segment

/-! ### The two ends -/

/-- What happens next: a segment is sent, or some octets are delivered, to be opened as told. -/
inductive Input
  | send (s : Segment)
  | deliver (protection : Protection) (blockNumber : UInt32) (message : Bytes)

/-- What comes of it. -/
inductive Output
  | sent (s : Segment) (tlv : ProtectedTlv)
  | accepted (d : Delivery) (plaintext : Bytes)

/-- The chaining buffers of the two ends. -/
@[ext] structure Ends where
  sender : Bytes
  receiver : Bytes

section Calls

variable (C : Ciphers) (keys : BspSessionKeys)

/-- The sender wraps a segment, to send `encode` of the block. -/
def protect (s : Segment) : Chained Output := do
  let tlv ← s.wrap C keys
  pure (.sent s tlv)

/-- The receiver decodes a message and unwraps it. -/
def accept (protection : Protection) (blockNumber : UInt32) (message : Bytes) :
    Chained Output := do
  let tlv ← Chained.lift (decode message)
  let d : Delivery := { protection, blockNumber, tlv }
  let plaintext ← d.unwrap C keys
  pure (.accepted d plaintext)

def Input.perform : Input → Ends → Exec Output × Ends
  | .send s, ends =>
    let (outcome, sender) := protect C keys s ends.sender
    (outcome, { ends with sender })
  | .deliver protection blockNumber message, ends =>
    let (outcome, receiver) := accept C keys protection blockNumber message ends.receiver
    (outcome, { ends with receiver })

/-- A session under the keys: both ends start from one chaining value. -/
def session (inputs : List Input) (chaining : Bytes) : List (Exec Output) × Ends :=
  Runs.run (Input.perform C keys) inputs ⟨chaining, chaining⟩

end Calls

/-! ### What can be seen of a session -/

def Output.sent? : Output → Option (Segment × ProtectedTlv)
  | sent s tlv => some (s, tlv)
  | accepted _ _ => none

def Output.accepted? : Output → Option (Delivery × Bytes)
  | sent _ _ => none
  | accepted d plaintext => some (d, plaintext)

/-- The block is put into the channel, or taken out of it. -/
def Output.event : Output → Event ProtectedTlv
  | sent _ tlv => .put tlv
  | accepted d _ => .take d.tlv

/-- The segments that were sent, with their blocks. -/
def sentOf (outcomes : List (Exec Output)) : List (Segment × ProtectedTlv) :=
  (outcomes.filterMap Exec.ok?).filterMap Output.sent?

/-- The deliveries that were accepted, with their plaintexts. -/
def acceptedOf (outcomes : List (Exec Output)) : List (Delivery × Bytes) :=
  (outcomes.filterMap Exec.ok?).filterMap Output.accepted?

/-- The trace of the channel. -/
def traceOf (outcomes : List (Exec Output)) : List (Event ProtectedTlv) :=
  (outcomes.filterMap Exec.ok?).map Output.event

theorem puts_traceOf (outcomes : List (Exec Output)) :
    puts (traceOf outcomes) = (sentOf outcomes).map Prod.snd := by
  rw [puts, traceOf, sentOf, List.filterMap_map, List.map_filterMap]
  congr 1
  funext o
  cases o <;> rfl

theorem takes_traceOf (outcomes : List (Exec Output)) :
    takes (traceOf outcomes) = (acceptedOf outcomes).map fun a => a.1.tlv := by
  rw [takes, traceOf, acceptedOf, List.filterMap_map, List.map_filterMap]
  congr 1
  funext o
  cases o <;> rfl

/-! ### One step -/

section Step

variable {C : Ciphers} {keys : BspSessionKeys} {chaining chaining' : Bytes}

theorem protect_eq_ok {s : Segment} {o : Output} :
    protect C keys s chaining = (.ok o, chaining') ↔
      ∃ tlv, o = .sent s tlv ∧ s.wrap C keys chaining = (.ok tlv, chaining') := by
  rw [protect, Chained.bind_eq_ok]
  constructor
  · rintro ⟨tlv, buf, hw, h⟩
    cases h
    exact ⟨tlv, rfl, hw⟩
  · rintro ⟨tlv, rfl, hw⟩
    exact ⟨tlv, chaining', hw, rfl⟩

theorem accept_eq_ok {protection : Protection} {blockNumber : UInt32} {message : Bytes}
    {o : Output} :
    accept C keys protection blockNumber message chaining = (.ok o, chaining') ↔
      ∃ tlv plaintext, decode message = .ok tlv ∧
        o = .accepted ⟨protection, blockNumber, tlv⟩ plaintext ∧
        (Delivery.mk protection blockNumber tlv).unwrap C keys chaining =
          (.ok plaintext, chaining') := by
  rw [accept]
  cases decode message with
  | ok tlv =>
      rw [Chained.lift_ok_bind, Chained.bind_eq_ok]
      constructor
      · rintro ⟨plaintext, buf, hu, h⟩
        cases h
        exact ⟨tlv, plaintext, rfl, rfl, hu⟩
      · rintro ⟨_, plaintext, ⟨⟩, rfl, hu⟩
        exact ⟨plaintext, chaining', hu, rfl⟩
  | err e => simp
  | panic => simp

theorem protect_atomic (s : Segment) : (protect C keys s).Atomic := s.wrap_atomic.map _

theorem accept_atomic (protection : Protection) (blockNumber : UInt32) (message : Bytes) :
    (accept C keys protection blockNumber message).Atomic := by
  intro buf
  rw [accept]
  cases h : decode message with
  | ok tlv =>
      rw [Chained.lift_ok_bind]
      exact (Delivery.unwrap_atomic _).map _ buf
  | err e => exact .inr ⟨e, rfl⟩
  | panic => exact absurd h (decode_ne_panic message)

end Step

/-! ### The two ends as walks along the chain

A call that fails leaves the buffer as it is, so the calls of one end that return are a walk along
the chain, whatever is between them (`run_walk`, by induction on the inputs). This is what
separates the two ends of an interleaving. -/

section Walk

variable {κ α : Type} {call : κ → Chained α} {c c' : Bytes}

/-- Calls that return one after another, with what they return. -/
inductive Walk (call : κ → Chained α) : Bytes → List (κ × α) → Bytes → Prop
  | nil (c : Bytes) : Walk call c [] c
  | cons {c c₁ c₂ : Bytes} {k : κ} {a : α} {l : List (κ × α)} :
      call k c = (.ok a, c₁) → Walk call c₁ l c₂ → Walk call c ((k, a) :: l) c₂

/-- A walk is the history of its calls. -/
theorem Walk.history_eq {l : List (κ × α)} (h : Walk call c l c')
    (block : κ → α → ProtectedTlv) :
    (history call block (l.map Prod.fst) c).blocks.map Prod.snd = l.map (fun x => block x.1 x.2) ∧
      (history call block (l.map Prod.fst) c).last = c' := by
  induction h with
  | nil c => exact ⟨rfl, rfl⟩
  | cons hcall _ ih =>
      rw [List.map_cons, history, hcall]
      exact ⟨by rw [List.map_cons, ih.1, List.map_cons], ih.2⟩

/-- Every call of a walk starts where the calls before it ended. -/
theorem Walk.getElem? {l : List (κ × α)} (h : Walk call c l c') {i : Nat} {k : κ} {a : α}
    (hi : l[i]? = some (k, a)) :
    ∃ c₁ c₂, Walk call c (l.take i) c₁ ∧ call k c₁ = (.ok a, c₂) := by
  induction h generalizing i with
  | nil c => simp at hi
  | @cons c c₁ c₂ k' a' l hcall hl ih =>
      cases i with
      | zero =>
          obtain ⟨rfl, rfl⟩ : k' = k ∧ a' = a := by simpa using hi
          exact ⟨c, c₁, .nil c, hcall⟩
      | succ i =>
          obtain ⟨d, d', hwalk, hd⟩ := ih (by simpa using hi)
          exact ⟨d, d', .cons hcall hwalk, hd⟩

theorem walk_wrap_last {C : Ciphers} {keys : BspSessionKeys} {l : List (Segment × ProtectedTlv)}
    (h : Walk (Segment.wrap C keys) c l c') : c' = (l.map Prod.snd).foldl (next C keys) c := by
  induction h with
  | nil c => rfl
  | cons hcall _ ih =>
      rw [List.map_cons, List.foldl_cons, (Segment.wrap_eq_ok.mp hcall).2.2.next_eq]
      exact ih

end Walk

section Session

variable {C : Ciphers} {keys : BspSessionKeys}

/-- The ends do not disturb each other: each walks along its own chain. -/
theorem run_walk (inputs : List Input) (ends : Ends) :
    let r := Runs.run (Input.perform C keys) inputs ends
    Walk (Segment.wrap C keys) ends.sender (sentOf r.1) r.2.sender ∧
      Walk (Delivery.unwrap C keys) ends.receiver (acceptedOf r.1) r.2.receiver := by
  induction inputs generalizing ends with
  | nil => exact ⟨.nil _, .nil _⟩
  | cons input inputs ih =>
      cases input with
      | send s =>
          rcases @protect_atomic C keys s ends.sender with ⟨o, c, h⟩ | ⟨e, h⟩
          · obtain ⟨tlv, rfl, hw⟩ := protect_eq_ok.mp h
            have hrest := ih { ends with sender := c }
            simp only [Runs.run, Input.perform, h]
            exact ⟨.cons hw hrest.1, hrest.2⟩
          · simp only [Runs.run, Input.perform, h]
            exact ih ends
      | deliver protection blockNumber message =>
          rcases @accept_atomic C keys protection blockNumber message ends.receiver with ⟨o, c, h⟩ | ⟨e, h⟩
          · obtain ⟨tlv, plaintext, -, rfl, hu⟩ := accept_eq_ok.mp h
            have hrest := ih { ends with receiver := c }
            simp only [Runs.run, Input.perform, h]
            exact ⟨hrest.1, .cons hu hrest.2⟩
          · simp only [Runs.run, Input.perform, h]
            exact ih ends

theorem session_walk (inputs : List Input) (chaining : Bytes) :
    let r := session C keys inputs chaining
    Walk (Segment.wrap C keys) chaining (sentOf r.1) r.2.sender ∧
      Walk (Delivery.unwrap C keys) chaining (acceptedOf r.1) r.2.receiver :=
  run_walk inputs ⟨chaining, chaining⟩

/-- What is sent was given to be sent, and what is accepted has a tag that was read. -/
theorem mem_run {inputs : List Input} {ends : Ends} {o : Output}
    (h : .ok o ∈ (Runs.run (Input.perform C keys) inputs ends).1) :
    (∀ s tlv, o = .sent s tlv → .send s ∈ inputs ∧ tlv.tag = s.tag) ∧
      ∀ d plaintext, o = .accepted d plaintext → IsTag d.tlv.tag := by
  obtain ⟨input, hmem, ends', hperform⟩ := Runs.exists_of_mem_run _ h
  cases input with
  | send s' =>
      obtain ⟨tlv', rfl, hw⟩ := protect_eq_ok.mp (Prod.ext hperform rfl)
      refine ⟨?_, fun _ _ h => by cases h⟩
      rintro s tlv ⟨⟩
      exact ⟨hmem, (Segment.wrap_eq_ok.mp hw).1⟩
  | deliver protection blockNumber message =>
      obtain ⟨tlv', plaintext', hdec, rfl, -⟩ := accept_eq_ok.mp (Prod.ext hperform rfl)
      refine ⟨(fun _ _ h => by cases h), ?_⟩
      rintro d plaintext ⟨⟩
      exact decode_isTag hdec

theorem mem_sentOf {outcomes : List (Exec Output)} {x : Segment × ProtectedTlv}
    (h : x ∈ sentOf outcomes) : .ok (.sent x.1 x.2) ∈ outcomes := by
  obtain ⟨o, ho, hx⟩ := List.mem_filterMap.mp h
  obtain ⟨outcome, houtcome, hok⟩ := List.mem_filterMap.mp ho
  obtain rfl := Exec.ok?_eq_some.mp hok
  cases o with
  | sent s tlv =>
      cases hx
      exact houtcome
  | accepted d plaintext => cases hx

theorem mem_acceptedOf {outcomes : List (Exec Output)} {x : Delivery × Bytes}
    (h : x ∈ acceptedOf outcomes) : .ok (.accepted x.1 x.2) ∈ outcomes := by
  obtain ⟨o, ho, hx⟩ := List.mem_filterMap.mp h
  obtain ⟨outcome, houtcome, hok⟩ := List.mem_filterMap.mp ho
  obtain rfl := Exec.ok?_eq_some.mp hok
  cases o with
  | sent s tlv => cases hx
  | accepted d plaintext =>
      cases hx
      exact houtcome

end Session

/-! ### The session as a queue

Two blocks with one C-MAC input are one block, since the input has a fixed length in front and the
tag and the length next (`macInput_inj`). So a block that is accepted over an input the sender has
computed a C-MAC over is the sender's own, in the state in which the sender made it
(`Fits.mem_log`). For such blocks `queue_or_unseen_or_repeat` says that what is seen of the two
ends is the trace of a queue. -/

section Refinement

variable (C : Ciphers) (keys : BspSessionKeys) (chaining : Bytes)

/-- What the sender has computed C-MACs over when it has made these blocks. -/
def computedOver (blocks : List ProtectedTlv) : List Bytes :=
  (MacChain.log (next C keys) chaining blocks).map fun e => macInput e.1 e.2.tag e.2.data

/-- A block is accepted although the sender has not computed a C-MAC over its C-MAC input yet,
while the session was a queue up to then. -/
def Forged (trace : List (Event ProtectedTlv)) : Prop :=
  ∃ p tlv t, trace = p ++ .take tlv :: t ∧ (∃ q, Queue [] p q) ∧
    macInput ((takes p).foldl (next C keys) chaining) tlv.tag tlv.data ∉
      computedOver C keys chaining (puts p)

variable {C keys chaining}

/-- Blocks that fit the chain one after another. -/
structure Fits (C : Ciphers) (keys : BspSessionKeys) (chaining : Bytes)
    (blocks : List ProtectedTlv) : Prop where
  advances : ∀ e ∈ MacChain.log (next C keys) chaining blocks,
    Advances C keys e.1 e.2 (next C keys e.1 e.2)
  isTag : ∀ tlv ∈ blocks, IsTag tlv.tag

theorem Fits.left {blocks blocks' : List ProtectedTlv}
    (h : Fits C keys chaining (blocks ++ blocks')) : Fits C keys chaining blocks where
  advances e he := h.advances e (by rw [log_append]; exact List.mem_append_left _ he)
  isTag tlv htlv := h.isTag tlv (List.mem_append_left _ htlv)

/-- A block whose C-MAC input the sender computed a C-MAC over is the sender's own, in the same
state of the chain. -/
theorem Fits.mem_log {blocks : List ProtectedTlv} (h : Fits C keys chaining blocks)
    {c c' : Bytes} {tlv : ProtectedTlv} (hadv : Advances C keys c tlv c') (htag : IsTag tlv.tag)
    (hmem : macInput c tlv.tag tlv.data ∈ computedOver C keys chaining blocks) :
    (c, tlv) ∈ MacChain.log (next C keys) chaining blocks := by
  obtain ⟨e, he, hinput⟩ := List.mem_map.mp hmem
  have hadv' := h.advances e he
  have htag' : IsTag e.2.tag := by
    obtain ⟨p, t, hblocks, -⟩ := (MacChain.mem_log (next C keys)).mp he
    exact h.isTag _ (by rw [hblocks]; simp)
  obtain ⟨hchain, htagEq, hdata⟩ := macInput_inj (hadv'.length_left.trans hadv.length_left.symm)
    htag' htag hadv'.length_data_le hadv.length_data_le hinput
  rw [← hchain] at hadv
  have hblock := (hadv'.unique hadv htagEq hdata).2
  rwa [← hchain, ← hblock]

/-- The blocks of both ends fit the chain, and each end has come to where its blocks lead. -/
theorem session_spec {inputs : List Input} (htags : ∀ s, .send s ∈ inputs → IsTag s.tag) :
    let r := session C keys inputs chaining
    (Fits C keys chaining (puts (traceOf r.1)) ∧ Fits C keys chaining (takes (traceOf r.1))) ∧
      r.2.sender = (puts (traceOf r.1)).foldl (next C keys) chaining ∧
      r.2.receiver = (takes (traceOf r.1)).foldl (next C keys) chaining := by
  intro r
  obtain ⟨hsent, haccepted⟩ := @session_walk C keys inputs chaining
  obtain ⟨hblocks, hlast⟩ := hsent.history_eq fun _ tlv => tlv
  obtain ⟨hblocks', hlast'⟩ := haccepted.history_eq fun d _ => d.tlv
  obtain ⟨hlog, hfold, hadv⟩ := sendHistory_spec C keys ((sentOf r.1).map Prod.fst) chaining
  obtain ⟨hlog', hfold', hadv'⟩ :=
    receiveHistory_spec C keys ((acceptedOf r.1).map Prod.fst) chaining
  have hputs : ((sendHistory C keys ((sentOf r.1).map Prod.fst) chaining).blocks.map Prod.snd) =
      puts (traceOf r.1) := hblocks.trans (puts_traceOf _).symm
  have htakes : ((receiveHistory C keys ((acceptedOf r.1).map Prod.fst) chaining).blocks.map
      Prod.snd) = takes (traceOf r.1) := hblocks'.trans (takes_traceOf _).symm
  rw [hputs] at hlog hfold
  rw [htakes] at hlog' hfold'
  refine ⟨⟨⟨hlog ▸ hadv, ?_⟩, ⟨hlog' ▸ hadv', ?_⟩⟩, hlast.symm.trans hfold,
    hlast'.symm.trans hfold'⟩
  · intro tlv htlv
    rw [puts_traceOf] at htlv
    obtain ⟨x, hx, rfl⟩ := List.mem_map.mp htlv
    obtain ⟨hmem, htag⟩ := (mem_run (mem_sentOf hx)).1 x.1 x.2 rfl
    exact htag ▸ htags x.1 hmem
  · intro tlv htlv
    rw [takes_traceOf] at htlv
    obtain ⟨x, hx, rfl⟩ := List.mem_map.mp htlv
    exact (mem_run (mem_acceptedOf hx)).2 x.1 x.2 rfl

/-- **A session is a queue.** Whatever the network delivers and however that is interleaved with
the sender's calls, the blocks wrapped and the blocks accepted are the trace of a queue; or some
block is accepted whose C-MAC input the sender has not computed a C-MAC over by then; or two of the
sender's chaining values are equal. -/
theorem channel_refines_queue (C : Ciphers) (keys : BspSessionKeys) (chaining : Bytes)
    (inputs : List Input) (htags : ∀ s, .send s ∈ inputs → IsTag s.tag) :
    let trace := traceOf (session C keys inputs chaining).1
    (∃ q, Queue [] trace q) ∨ Forged C keys chaining trace ∨
      Repeats (next C keys) chaining (puts trace) := by
  intro trace
  obtain ⟨⟨hputs, htakes⟩, -⟩ := @session_spec C keys chaining inputs htags
  rcases queue_or_unseen_or_repeat (next C keys) chaining trace with
    hqueue | ⟨p, tlv, t, htrace, hp, hunseen⟩ | hrepeat
  · exact .inl hqueue
  · refine .inr (.inl ⟨p, tlv, t, htrace, hp, ?_⟩)
    intro hmem
    apply hunseen
    have hputs' : puts trace = puts p ++ puts (.take tlv :: t) := by rw [htrace, puts_append]
    have htakes' : takes trace = takes p ++ tlv :: takes t := by
      rw [htrace, takes_append]
      rfl
    change Fits C keys chaining (puts trace) at hputs
    change Fits C keys chaining (takes trace) at htakes
    rw [hputs'] at hputs
    rw [htakes'] at htakes
    have hadv := htakes.advances (((takes p).foldl (next C keys) chaining), tlv)
      ((MacChain.mem_log (next C keys)).mpr ⟨takes p, takes t, rfl, rfl⟩)
    exact hputs.left.mem_log hadv (htakes.isTag tlv (by simp)) hmem
  · exact .inr (.inr hrepeat)

/-- The two messages of the sample session, delivered early, late and twice. -/
def sampleInputs : List Input :=
  let first : Segment := ⟨.macAndEncrypt, 0x86, "a command".toUTF8.toList, 1⟩
  let second : Segment := ⟨.macOnly, 0xbf37, "metadata".toUTF8.toList, 2⟩
  let message : Bytes := [0x86, 0x18] ++ sampleCiphertext.val ++ sampleFirstCmac.val.take 8
  let message' : Bytes :=
    [0xbf, 0x37, 0x10] ++ "metadata".toUTF8.toList ++ sampleSecondCmac.val.take 8
  [.deliver .macOnly 2 message', .send first, .deliver .macOnly 2 message',
    .deliver .macAndEncrypt 1 message, .deliver .macAndEncrypt 1 message, .send second]

theorem isTag_sampleInputs : ∀ s, .send s ∈ sampleInputs → IsTag s.tag := by
  intro s hs
  simp only [sampleInputs, List.mem_cons, List.not_mem_nil, Input.send.injEq, reduceCtorEq,
    false_or, or_false] at hs
  rcases hs with rfl | rfl <;> decide

def sampleFirstBlock : ProtectedTlv where
  tag := 0x86
  data := sampleCiphertext.val
  cmac := sampleFirstCmac.val.take 8

def sampleSecondBlock : ProtectedTlv where
  tag := 0xbf37
  data := "metadata".toUTF8.toList
  cmac := sampleSecondCmac.val.take 8

/-- Of the deliveries, one is accepted. -/
theorem traceOf_sampleInputs :
    traceOf (session sampleCiphers sampleKeys sampleInputs sampleKeys.macChaining).1 =
      [.put sampleFirstBlock, .take sampleFirstBlock, .put sampleSecondBlock] := by
  decide +kernel

theorem channel_refines_queue_sample :
    let trace : List (Event ProtectedTlv) :=
      [.put sampleFirstBlock, .take sampleFirstBlock, .put sampleSecondBlock]
    (∃ q, Queue [] trace q) ∨ Forged sampleCiphers sampleKeys sampleKeys.macChaining trace ∨
      Repeats (next sampleCiphers sampleKeys) sampleKeys.macChaining (puts trace) := by
  have h := channel_refines_queue sampleCiphers sampleKeys sampleKeys.macChaining sampleInputs
    isTag_sampleInputs
  rwa [traceOf_sampleInputs] at h

/-! ### What is delivered

A queue says which blocks come out. That their plaintexts are the ones put in is
`Segment.unwrap_of_wrap`, and needs the receiver to be told how a segment was protected. -/

/-- Unwrapping undoes wrapping under any keys the wrap call returns under. -/
theorem Segment.unwrap_of_wrap {s : Segment} {tlv : ProtectedTlv} {c c' : Bytes}
    (h : s.wrap C keys c = (.ok tlv, c')) :
    (Delivery.mk s.protection s.blockNumber tlv).unwrap C keys c = (.ok s.plaintext, c') := by
  obtain ⟨-, hfield, hadv⟩ := Segment.wrap_eq_ok.mp h
  cases hp : s.protection with
  | macAndEncrypt =>
      rw [Segment.field, hp] at hfield
      rw [← hp]
      exact Segment.unwrap_wrap (Cbc128.length_of_encrypt C hfield) h
  | macOnly =>
      rw [Segment.field, hp, Exec.ok.injEq] at hfield
      exact Delivery.unwrap_eq_ok.mpr ⟨hadv, by rw [Delivery.content, hfield]⟩

/-- **What a queue delivers.** As long as a session is a queue, every block that is accepted is the
one sent at its place, and its plaintext the one sent if it is opened as it was wrapped; and
whatever has been delivered before, the next message under way is accepted. -/
theorem channel_delivers {C : Ciphers} {keys : BspSessionKeys} {chaining : Bytes}
    {inputs : List Input} (htags : ∀ s, .send s ∈ inputs → IsTag s.tag) {q : List ProtectedTlv}
    (hqueue : Queue [] (traceOf (session C keys inputs chaining).1) q) :
    let r := session C keys inputs chaining
    (∀ (i : Nat) (d : Delivery) (plaintext : Bytes), (acceptedOf r.1)[i]? = some (d, plaintext) →
      ∃ s, (sentOf r.1)[i]? = some (s, d.tlv) ∧
        (d.protection = s.protection → d.blockNumber = s.blockNumber →
          plaintext = s.plaintext)) ∧
    ∀ (s : Segment) (tlv : ProtectedTlv),
      (sentOf r.1)[(acceptedOf r.1).length]? = some (s, tlv) → ∀ rest,
        ((Input.deliver s.protection s.blockNumber (encode tlv ++ rest)).perform C keys r.2).1 =
          .ok (.accepted ⟨s.protection, s.blockNumber, tlv⟩ s.plaintext) := by
  obtain ⟨hsent, haccepted⟩ := @session_walk C keys inputs chaining
  obtain ⟨⟨hputs, -⟩, -, hreceiver⟩ :=
    @session_spec C keys chaining inputs htags
  dsimp only
  generalize session C keys inputs chaining = r at *
  -- What was accepted comes first among what was sent.
  have hcons : (sentOf r.1).map Prod.snd = ((acceptedOf r.1).map fun a => a.1.tlv) ++ q := by
    rw [← puts_traceOf, ← takes_traceOf]
    exact hqueue.conserves
  constructor
  · intro i d plaintext hi
    have hlt : i < (acceptedOf r.1).length := (List.getElem?_eq_some_iff.mp hi).1
    have htlv : ((sentOf r.1).map Prod.snd)[i]? = some d.tlv := by
      rw [hcons, List.getElem?_append_left (by simpa using hlt), List.getElem?_map, hi]
      rfl
    rw [List.getElem?_map, Option.map_eq_some_iff] at htlv
    obtain ⟨⟨s, _⟩, hs, rfl⟩ := htlv
    refine ⟨s, hs, ?_⟩
    intro hprotection hnumber
    obtain ⟨c₁, c₂, -, hw⟩ := hsent.getElem? hs
    obtain ⟨c₃, c₄, -, hu⟩ := haccepted.getElem? hi
    have hcontent := (Delivery.unwrap_eq_ok.mp hu).2
    have hcontent' := (Delivery.unwrap_eq_ok.mp (Segment.unwrap_of_wrap hw)).2
    rw [← hprotection, ← hnumber] at hcontent'
    exact Exec.ok.inj (hcontent.symm.trans hcontent')
  · intro s tlv hs rest
    obtain ⟨c₁, c₂, hwalk, hw⟩ := hsent.getElem? hs
    -- The receiver is where the sender was when it wrapped the segment.
    have hc₁ : r.2.receiver = c₁ := by
      rw [hreceiver, walk_wrap_last hwalk, takes_traceOf, List.map_take, hcons,
        List.take_left' (by rw [List.length_map])]
    have hadv := (Segment.wrap_eq_ok.mp hw).2.2
    have htag : IsTag tlv.tag := hputs.isTag tlv (by
      rw [puts_traceOf]
      exact List.mem_map.mpr ⟨_, List.mem_of_getElem? hs, rfl⟩)
    have hdec := decode_encode htag hadv.length_cmac hadv.length_data_le rest
    rw [Input.perform, hc₁, accept_eq_ok.mpr ⟨tlv, _, hdec, rfl, Segment.unwrap_of_wrap hw⟩]

/-- After the deliveries of `sampleInputs` the second message, with an octet behind it, is
accepted. -/
theorem channel_delivers_sample :
    ((Input.deliver .macOnly 2 (encode sampleSecondBlock ++ [0x00])).perform sampleCiphers
      sampleKeys (session sampleCiphers sampleKeys sampleInputs sampleKeys.macChaining).2).1 =
      .ok (.accepted ⟨.macOnly, 2, sampleSecondBlock⟩ "metadata".toUTF8.toList) := by
  have hqueue : Queue []
      (traceOf (session sampleCiphers sampleKeys sampleInputs sampleKeys.macChaining).1)
      [sampleSecondBlock] := by
    rw [traceOf_sampleInputs]
    exact (((Queue.nil []).put sampleFirstBlock).take).put sampleSecondBlock
  exact (channel_delivers isTag_sampleInputs hqueue).2
    ⟨.macOnly, 0xbf37, "metadata".toUTF8.toList, 2⟩ sampleSecondBlock (by decide +kernel) [0x00]

end Refinement

end Bsp
end EuiccCrypto
