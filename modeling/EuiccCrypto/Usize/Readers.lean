import EuiccCrypto.Usize
import EuiccCrypto.X509.Roles

/-!
# Searches on machine words

The readers of `x509.rs` that search the DER of a certificate, with the offset at which they have
arrived. A turn at offset `i` is the turn of the search on what is left at `i`, and none of the sums
is larger than the certificate and a short-form length (`searchLoop_eq`). So these readers return in
both widths what they return on natural numbers.
-/

namespace EuiccCrypto
namespace Usize

open Octets Search

variable {w : Width}

/-! ### Options

These readers return an `Option` in the source, and here they can fail to return besides. `bindSome`
is the question mark of such a function. -/

/-- `x?` in a function that returns an `Option`. -/
def bindSome {α β : Type} (x : Exec (Option α)) (f : α → Exec (Option β)) : Exec (Option β) := do
  match ← x with
  | some a => f a
  | none => .ok none

theorem bindSome_ok {α β : Type} {o : Option α} {f : α → Exec (Option β)} {g : α → Option β}
    (h : ∀ a, o = some a → f a = .ok (g a)) : bindSome (.ok o) f = .ok (o >>= g) := by
  cases o with
  | none => rfl
  | some a => exact h a rfl

theorem bindSome_ne_panic {α β : Type} {x : Exec (Option α)} {f : α → Exec (Option β)}
    (hx : x ≠ .panic) (hf : ∀ a, f a ≠ .panic) : bindSome x f ≠ .panic := by
  intro h
  rcases Exec.bind_eq_panic.mp h with h | ⟨o, -, h⟩
  · exact hx h
  · cases o with
    | none => cases h
    | some a => exact hf a h

/-! ### Short-form elements

A length in short form is at most 127, and the sums of these readers are of two and such a length.
So they are in both widths what they are on natural numbers. -/

/-- `read_tlv_consumed`. -/
def readTlvConsumed (w : Width) (buf : Bytes) : Exec (Option (UInt8 × Bytes × Nat)) :=
  bindSome (.ok buf[0]?) fun tag =>
    bindSome (.ok buf[1]?) fun len =>
      if len.toNat > 0x7F then .ok none
      else
        bindSome (.ok (checkedAdd w 2 len.toNat)) fun stop =>
          if stop > buf.length then .ok none
          else do
            let content ← slice buf 2 stop
            .ok (some (tag, content, stop))

/-- `read_tlv_consumed_checked`. -/
def readTlvConsumedChecked (w : Width) (buf : Bytes) : Exec (UInt8 × Bytes × Nat) := do
  let tag ← Exec.okOr (.certificate "truncated") buf[0]?
  let len ← Exec.okOr (.certificate "truncated") buf[1]?
  if len.toNat > 0x7F then .err (.certificate "long-form length")
  else do
    let stop ← Exec.okOr (.certificate "length overflow") (checkedAdd w 2 len.toNat)
    if stop > buf.length then .err (.certificate "truncated value")
    else do
      let content ← slice buf 2 stop
      .ok (tag, content, stop)

theorem slice_two {buf : Bytes} {n : Nat} (h : ¬ 2 + n > buf.length) :
    slice buf 2 (2 + n) = .ok ((buf.drop 2).take n) :=
  slice_eq_ok.mpr ⟨⟨by omega, by omega⟩, by rw [Nat.add_sub_cancel_left]⟩

theorem readTlvConsumed_eq (buf : Bytes) :
    readTlvConsumed w buf = .ok (X509.readTlvConsumed buf) := by
  rw [readTlvConsumed, X509.readTlvConsumed]
  refine bindSome_ok fun tag _ => bindSome_ok fun len _ => ?_
  have := len.toNat_lt
  rw [checkedAdd_small (by omega)]
  split
  · rfl
  · dsimp only
    rw [bindSome, Exec.ok_bind]
    dsimp only
    split
    · rfl
    · next h => rw [slice_two h, Exec.ok_bind]

theorem readTlvConsumedChecked_eq (buf : Bytes) :
    readTlvConsumedChecked w buf = X509.readTlvConsumedChecked buf := by
  rw [readTlvConsumedChecked, X509.readTlvConsumedChecked]
  congr 1
  funext tag
  congr 1
  funext len
  have := len.toNat_lt
  rw [checkedAdd_small (by omega), Exec.okOr_some, Exec.ok_bind]
  split
  · rfl
  · dsimp only
    split
    · rfl
    · next h => rw [slice_two h, Exec.ok_bind]

/-- `Certificate::read_tlv`. -/
def readShortTlv (w : Width) (buf : Bytes) : Exec (Option (UInt8 × Bytes)) :=
  bindSome (readTlvConsumed w buf) fun (tag, content, _) => .ok (some (tag, content))

/-- `unwrap_sequence`. -/
def unwrapSequence (w : Width) (buf : Bytes) : Exec (Option Bytes) :=
  bindSome (readShortTlv w buf) fun (tag, content) =>
    if tag = 0x30 then .ok (some content) else .ok none

theorem readShortTlv_eq (buf : Bytes) : readShortTlv w buf = .ok (X509.readShortTlv buf) := by
  rw [readShortTlv, readTlvConsumed_eq, X509.readShortTlv]
  exact bindSome_ok fun _ _ => rfl

theorem unwrapSequence_eq (buf : Bytes) :
    unwrapSequence w buf = .ok (X509.unwrapSequence buf) := by
  rw [unwrapSequence, readShortTlv_eq, X509.unwrapSequence]
  exact bindSome_ok fun _ _ => (apply_ite Exec.ok _ _ _).symm

/-! ### Searches

The loops of the source hold an offset into the certificate, and the searches of `X509` what is left
at the offset. One turn of a loop is compared with one turn of a search (`patternAt_eq`), from the
innermost read outwards: the value, the element, the critical flag, the OID. `searchLoop_eq` then
goes through all turns. What carries the induction is that the offset stays within the certificate,
which has at most `isize::MAX` octets. -/

/-- The loops over the offsets, with the number of turns they have left. -/
def searchLoop {α : Type} (w : Width) (window : Nat) (der : Bytes) (turn : Nat → Exec (Turn α)) :
    Nat → Nat → Exec (Option α)
  | turns, i => do
    let reach ← add w i window
    if reach < der.length then
      match turns with
      | 0 => .panic
      | turns + 1 => do
        match ← turn i with
        | .done r => .ok r
        | .next => do
          let i ← add w i 1
          searchLoop w window der turn turns i
    else .ok none

/-- A loop is the search, if its turns are those of the search. -/
theorem searchLoop_eq {α : Type} {window : Nat} {der : Bytes} {turn : Nat → Exec (Turn α)}
    {t : Bytes → Turn α} (hlen : der.length ≤ w.isizeMax) (hwindow : window ≤ w.isizeMax)
    (hturn : ∀ i, i + window < der.length → turn i = .ok (t (der.drop i))) {turns i : Nat}
    (hi : i ≤ der.length) (hturns : der.length ≤ i + turns) :
    searchLoop w window der turn turns i = .ok (scan window t (der.drop i)) := by
  have hmax := w.isizeMax_lt
  induction turns generalizing i with
  | zero =>
      rw [searchLoop, add_eq_ok (by omega), Exec.ok_bind, if_neg (by omega),
        scan_of_length_le (by rw [List.length_drop]; omega)]
  | succ turns ih =>
      rw [searchLoop, add_eq_ok (by omega), Exec.ok_bind]
      split
      · next hreach =>
          have hroom : window < (der.drop i).length := by rw [List.length_drop]; omega
          have hdrop : der.drop i = der[i] :: der.drop (i + 1) :=
            List.drop_eq_getElem_cons (by omega)
          rw [hturn i hreach, Exec.ok_bind]
          cases ht : t (der.drop i) with
          | done r => rw [scan_of_done hroom ht]
          | next =>
              dsimp only
              rw [add_eq_ok (by omega), Exec.ok_bind, ih (by omega) (by omega)]
              rw [hdrop] at ht ⊢
              rw [scan_cons_of_next ht]
      · next hreach => rw [scan_of_length_le (by rw [List.length_drop]; omega)]

/-- The turn of a loop that looks for `pat` at `i` and goes on at the offset behind it. -/
def patternAt {α : Type} (w : Width) (pat der : Bytes) (after : Nat → Exec (Turn α)) (i : Nat) :
    Exec (Turn α) := do
  let rest ← sliceFrom der i
  if ¬ pat <+: rest then .ok .next
  else do
    let next ← add w i pat.length
    after next

/-- The value of a short-form element at `k`, whose length octet is `len`; the search stops with it
if it is all there. -/
def valueAt (w : Width) (der : Bytes) (k : Nat) (len : UInt8) : Exec (Turn Bytes) := do
  let start ← add w k 2
  match checkedAdd w start len.toNat with
  | none => .ok (.done none)
  | some stop =>
    if stop ≤ der.length then do
      let value ← slice der start stop
      .ok (.done (some value))
    else .ok .next

/-- What `subject_serial_number` does behind an occurrence of the OID. -/
def serialAfter (w : Width) (der : Bytes) (after : Nat) : Exec (Turn Bytes) :=
  match der[after]? with
  | none => .ok (.done none)
  | some tag =>
    if tag ≠ 0x13 ∧ tag ≠ 0x0C then .ok .next
    else do
      let second ← add w after 1
      match der[second]? with
      | none => .ok (.done none)
      | some len => if len.toNat > 0x7F then .ok .next else valueAt w der after len

/-- What `extension_value` does from the extnValue on. -/
def extnValueAt (w : Width) (der : Bytes) (j : Nat) : Exec (Turn Bytes) :=
  match der[j]? with
  | none => .ok (.done none)
  | some tag =>
    if tag ≠ 0x04 then .ok .next
    else do
      let second ← add w j 1
      match der[second]? with
      | none => .ok (.done none)
      | some len => if len.toNat > 0x7F then .ok (.done none) else valueAt w der j len

/-- What `extension_value` does behind an occurrence of the OID. -/
def extensionAfter (w : Width) (der : Bytes) (j : Nat) : Exec (Turn Bytes) :=
  match der[j]? with
  | none => .ok (.done none)
  | some b =>
    if b = 0x01 then do
      let second ← add w j 1
      match der[second]? with
      | none => .ok (.done none)
      | some len =>
        if len.toNat > 0x7F then .ok (.done none)
        else do
          let skip ← add w 2 len.toNat
          let next ← add w j skip
          extnValueAt w der next
    else extnValueAt w der j

section Turns

variable {der : Bytes} {k : Nat}

theorem patternAt_eq {α : Type} {pat : Bytes} {after : Nat → Exec (Turn α)} {t : Bytes → Turn α}
    (hlen : der.length ≤ w.isizeMax) (hk : k + pat.length < der.length)
    (hafter : after (k + pat.length) = .ok (t (der.drop (k + pat.length)))) :
    patternAt w pat der after k = .ok (atPattern pat t (der.drop k)) := by
  have hmax := w.isizeMax_lt
  rw [patternAt, atPattern, sliceFrom_eq_ok.mpr ⟨by omega, rfl⟩, Exec.ok_bind]
  split
  · rfl
  · rw [add_eq_ok (by omega), Exec.ok_bind, hafter, List.drop_drop]

theorem valueAt_eq {tag len : UInt8} {value : Bytes} (hlen : der.length ≤ w.isizeMax)
    (hdrop : der.drop k = tag :: len :: value) :
    valueAt w der k len =
      .ok (if len.toNat ≤ value.length then .done (some (value.take len.toNat)) else .next) := by
  have hmax := w.isizeMax_lt
  have hlt := len.toNat_lt
  have hsize := congrArg List.length hdrop
  rw [List.length_drop, List.length_cons, List.length_cons] at hsize
  have hbits : 255 < 2 ^ w.bits / 2 := by
    have := w.le_bits
    omega
  have hvalue : der.drop (k + 2) = value := by
    rw [← List.drop_drop, hdrop]
    rfl
  rw [valueAt, add_eq_ok (by omega), Exec.ok_bind, checkedAdd, if_pos (by omega)]
  dsimp only
  split
  · next hfits =>
      rw [slice_eq_ok.mpr ⟨⟨by omega, hfits⟩, rfl⟩, Exec.ok_bind, if_pos (by omega),
        Nat.add_sub_cancel_left, hvalue]
  · next hfits => rw [if_neg (by omega)]

theorem getElem?_eq_of_drop {l : Bytes} (h : der.drop k = l) (j : Nat) : der[k + j]? = l[j]? := by
  rw [← h, List.getElem?_drop]

/-- What the octets at `k` and behind it are on what is left at `k`. -/
theorem octets_at (der : Bytes) (k : Nat) :
    (der.drop k = [] ∧ der[k]? = none) ∨ ∃ b rest, der.drop k = b :: rest ∧ k < der.length ∧
      der[k]? = some b ∧ der[k + 1]? = rest[0]? := by
  cases hdrop : der.drop k with
  | nil => exact .inl ⟨rfl, getElem?_eq_of_drop hdrop 0⟩
  | cons b rest =>
      have hfirst : der[k]? = some b := getElem?_eq_of_drop hdrop 0
      exact .inr ⟨b, rest, rfl, (List.getElem?_eq_some_iff.mp hfirst).1, hfirst,
        getElem?_eq_of_drop hdrop 1⟩

/-- Offsets behind an element that starts in the certificate. -/
theorem add_near {j : Nat} (hlen : der.length ≤ w.isizeMax) (hk : k ≤ der.length) (hj : j ≤ 255) :
    add w k j = .ok (k + j) := by
  have hmax := w.isizeMax_lt
  have := w.le_bits
  exact add_eq_ok (by omega)

theorem serialAfter_eq (hlen : der.length ≤ w.isizeMax) :
    serialAfter w der k = .ok (X509.serialAfter (der.drop k)) := by
  rw [serialAfter]
  rcases octets_at der k with ⟨hdrop, htag⟩ | ⟨tag, rest, hdrop, hk, htag, hlenOctet⟩
  · rw [hdrop, htag]
    rfl
  · rw [hdrop, htag, X509.serialAfter.eq_def]
    dsimp only
    split
    · rfl
    · rw [add_near hlen hk.le (by omega), Exec.ok_bind, hlenOctet]
      cases rest with
      | nil => rfl
      | cons len value =>
          show (if len.toNat > 0x7F then _ else _) = Exec.ok (if len.toNat > 0x7F then _ else _)
          split
          · rfl
          · exact valueAt_eq hlen hdrop

theorem extnValueAt_eq (hlen : der.length ≤ w.isizeMax) :
    extnValueAt w der k = .ok (X509.extnValueTurn (der.drop k)) := by
  rw [extnValueAt]
  rcases octets_at der k with ⟨hdrop, htag⟩ | ⟨tag, rest, hdrop, hk, htag, hlenOctet⟩
  · rw [hdrop, htag]
    rfl
  · rw [hdrop, htag, X509.extnValueTurn.eq_def]
    dsimp only
    split
    · rfl
    · rw [add_near hlen hk.le (by omega), Exec.ok_bind, hlenOctet]
      cases rest with
      | nil => rfl
      | cons len value =>
          show (if len.toNat > 0x7F then _ else _) = Exec.ok (if len.toNat > 0x7F then _ else _)
          split
          · rfl
          · exact valueAt_eq hlen hdrop

theorem extensionAfter_eq (hlen : der.length ≤ w.isizeMax) :
    extensionAfter w der k = .ok (X509.extensionAfter (der.drop k)) := by
  rw [extensionAfter, X509.extensionAfter]
  rcases octets_at der k with ⟨hdrop, htag⟩ | ⟨b, after, hdrop, hk, htag, hlenOctet⟩
  · rw [hdrop, htag]
    rfl
  · rw [hdrop, htag, X509.skipCritical.eq_def]
    dsimp only
    split
    · rw [add_near hlen hk.le (by omega), Exec.ok_bind, hlenOctet]
      cases after with
      | nil => rfl
      | cons len content =>
          have := len.toNat_lt
          show (if len.toNat > 0x7F then _ else _) = _
          dsimp only
          split
          · rfl
          · -- The value of `critical` is skipped.
            have hskip : der.drop (k + (2 + len.toNat)) = content.drop len.toNat := by
              rw [← List.drop_drop, hdrop, Nat.add_comm 2]
              rfl
            rw [add_small (by omega), Exec.ok_bind, add_near hlen hk.le (by omega), Exec.ok_bind,
              extnValueAt_eq hlen, hskip]
    · rw [extnValueAt_eq hlen, hdrop]

end Turns

/-- `subject_serial_number`. -/
def subjectSerialNumber (w : Width) (der : Bytes) : Exec (Option Bytes) :=
  searchLoop w X509.oidSerialNumber.length der
    (patternAt w X509.oidSerialNumber der (serialAfter w der)) der.length 0

/-- `extension_value`. -/
def extensionValue (w : Width) (der oid : Bytes) : Exec (Option Bytes) :=
  searchLoop w oid.length der (patternAt w oid der (extensionAfter w der)) der.length 0

theorem subjectSerialNumber_eq {der : Bytes} (hlen : der.length ≤ w.isizeMax) :
    subjectSerialNumber w der =
      .ok (scan X509.oidSerialNumber.length X509.serialTurn der) := by
  refine searchLoop_eq hlen ?_ (fun i hi => ?_) (Nat.zero_le _) (by omega)
  · cases w <;> decide
  · exact patternAt_eq hlen hi (serialAfter_eq hlen)

theorem extensionValue_eq {der oid : Bytes} (hlen : der.length ≤ w.isizeMax)
    (hoid : oid.length ≤ w.isizeMax) :
    extensionValue w der oid = .ok (X509.extensionValue der oid) :=
  searchLoop_eq hlen hoid (fun _ hi => patternAt_eq hlen hi (extensionAfter_eq hlen))
    (Nat.zero_le _) (by omega)

/-! ### The readers

What is read out of an extension is at most as long as the certificate, and the loops over it take
two octets off in every turn. With the searches this gives each reader, and `readers_eq` all of them. -/

/-- The loop of `authority_key_identifier`, with the number of turns it has left. -/
def keyIdentifierLoop (w : Width) : Nat → Bytes → Exec (Option Bytes)
  | turns, rest =>
    if rest.isEmpty then .ok none
    else
      match turns with
      | 0 => .panic
      | turns + 1 =>
        bindSome (readTlvConsumed w rest) fun (tag, content, consumed) =>
          if tag = 0x80 then .ok (some content)
          else do
            let rest ← sliceFrom rest consumed
            keyIdentifierLoop w turns rest

/-- What one PolicyInformation adds to the policies. -/
def policyOfInfo (w : Width) (info : Bytes) : Exec (List Bytes) := do
  match ← (readTlvConsumedChecked w info).toOption with
  | some (oidTag, oidContent, _) => .ok (if oidTag = 0x06 then [oidContent] else [])
  | none => .ok []

/-- The loop of `certificate_policies`, with the number of turns it has left. -/
def policiesLoop (w : Width) : Nat → Bytes → List Bytes → Exec (List Bytes)
  | turns, rest, out =>
    if rest.isEmpty then .ok out
    else
      match turns with
      | 0 => .panic
      | turns + 1 => do
        match ← (readTlvConsumedChecked w rest).toOption with
        | none => .ok out
        | some (tag, info, consumed) => do
          let rest ← sliceFrom rest consumed
          if tag ≠ 0x30 then policiesLoop w turns rest out
          else do
            let found ← policyOfInfo w info
            policiesLoop w turns rest (out ++ found)

/-- `subject_alt_name`. -/
def subjectAltName (w : Width) (der : Bytes) : Exec (Option Bytes) :=
  bindSome (extensionValue w der X509.oidSubjectAltName) fun ext =>
    bindSome (unwrapSequence w ext) fun inner =>
      if inner.isEmpty then .ok none
      else bindSome (readShortTlv w inner) fun (_, content) => .ok (some content)

/-- `subject_key_identifier`. -/
def subjectKeyIdentifier (w : Width) (der : Bytes) : Exec (Option Bytes) :=
  bindSome (extensionValue w der X509.oidSubjectKeyIdentifier) fun ext =>
    bindSome (readShortTlv w ext) fun (tag, keyId) =>
      if tag ≠ 0x04 then .ok none else .ok (some keyId)

/-- `authority_key_identifier`. -/
def authorityKeyIdentifier (w : Width) (der : Bytes) : Exec (Option Bytes) :=
  bindSome (extensionValue w der X509.oidAuthorityKeyIdentifier) fun ext =>
    bindSome (unwrapSequence w ext) fun seq => keyIdentifierLoop w seq.length seq

/-- `certificate_policies`. -/
def certificatePolicies (w : Width) (der : Bytes) : Exec (Option (List Bytes)) :=
  bindSome (extensionValue w der X509.oidCertificatePolicies) fun ext =>
    bindSome (unwrapSequence w ext) fun list => do
      let policies ← policiesLoop w list.length list []
      .ok (some policies)

/-- `rsp_roles`. -/
def rspRoles (w : Width) (der : Bytes) : Exec (Option (List Bytes)) :=
  bindSome (certificatePolicies w der) fun policies =>
    .ok (some (policies.filter fun p => X509.rspRoleOids.any fun r => r == p))

/-- `is_server_certificate_role`. -/
def isServerCertificateRole (w : Width) (der : Bytes) : Exec (Option Bool) :=
  bindSome (rspRoles w der) fun roles =>
    .ok (some (roles.any fun r => r == X509.oidRspRoleDpAuth || r == X509.oidRspRoleDpAuthV2 ||
      r == X509.oidRspRoleDsAuth || r == X509.oidRspRoleDsAuthV2))

/-- `indicates_dp_pb_role`. -/
def indicatesDpPbRole (w : Width) (der : Bytes) : Exec (Option Bool) :=
  bindSome (certificatePolicies w der) fun policies =>
    .ok (some (policies.any fun p => p == X509.oidRspRoleDpPb || p == X509.oidRspRoleDpPbV2))

/-- What a reader goes on behind lies in what it reads. -/
theorem readTlvConsumed_bounds {buf content : Bytes} {tag : UInt8} {consumed : Nat}
    (h : X509.readTlvConsumed buf = some (tag, content, consumed)) :
    2 ≤ consumed ∧ consumed ≤ buf.length := by
  obtain ⟨e, rest, rfl, he, rfl⟩ := X509.readTlvConsumed_eq_some h
  exact ⟨he.two_le_length, by rw [List.length_append]; omega⟩

theorem readTlvConsumedChecked_ne_panic (buf : Bytes) :
    X509.readTlvConsumedChecked buf ≠ .panic := by
  intro h
  simp only [X509.readTlvConsumedChecked, Exec.bind_eq_panic, Exec.okOr_ne_panic,
    Exec.ite_err_eq_panic, false_or] at h
  obtain ⟨_, -, _, -, -, -, h⟩ := h
  cases h

theorem readTlvConsumedChecked_toOption (buf : Bytes) :
    (readTlvConsumedChecked w buf).toOption = .ok (X509.readTlvConsumed buf) := by
  rw [readTlvConsumedChecked_eq, ← X509.readTlvConsumedChecked_ok?]
  cases h : X509.readTlvConsumedChecked buf with
  | ok a => rfl
  | err e => rfl
  | panic => exact absurd h (readTlvConsumedChecked_ne_panic buf)

theorem keyIdentifierLoop_eq {turns : Nat} {rest : Bytes} (h : rest.length ≤ turns) :
    keyIdentifierLoop w turns rest = .ok (X509.keyIdentifierLoop turns rest) := by
  induction turns generalizing rest with
  | zero =>
      obtain rfl : rest = [] := List.eq_nil_of_length_eq_zero (Nat.le_zero.mp h)
      rfl
  | succ turns ih =>
      rw [keyIdentifierLoop, X509.keyIdentifierLoop]
      split
      · rfl
      · dsimp only
        rw [readTlvConsumed_eq]
        apply bindSome_ok
        rintro ⟨tag, content, consumed⟩ hread
        obtain ⟨hpos, hle⟩ := readTlvConsumed_bounds hread
        dsimp only
        split
        · rfl
        · rw [sliceFrom_eq_ok.mpr ⟨hle, rfl⟩, Exec.ok_bind, ih (by rw [List.length_drop]; omega)]

theorem policyOfInfo_eq (info : Bytes) : policyOfInfo w info = .ok (X509.policyOfInfo info) := by
  rw [policyOfInfo, readTlvConsumedChecked_toOption, Exec.ok_bind, X509.policyOfInfo,
    X509.readTlvConsumedChecked_ok?]
  cases X509.readTlvConsumed info <;> rfl

theorem policiesLoop_eq {turns : Nat} {rest : Bytes} {out : List Bytes} (h : rest.length ≤ turns) :
    policiesLoop w turns rest out = .ok (X509.policiesLoop turns rest out) := by
  induction turns generalizing rest out with
  | zero =>
      obtain rfl : rest = [] := List.eq_nil_of_length_eq_zero (Nat.le_zero.mp h)
      rfl
  | succ turns ih =>
      rw [policiesLoop, X509.policiesLoop]
      split
      · rfl
      · rw [readTlvConsumedChecked_toOption, Exec.ok_bind, X509.readTlvConsumedChecked_ok?]
        cases hread : X509.readTlvConsumed rest with
        | none => rfl
        | some r =>
            obtain ⟨tag, info, consumed⟩ := r
            obtain ⟨hpos, hle⟩ := readTlvConsumed_bounds hread
            dsimp only
            rw [sliceFrom_eq_ok.mpr ⟨hle, rfl⟩, Exec.ok_bind]
            split
            · exact ih (by rw [List.length_drop]; omega)
            · rw [policyOfInfo_eq, Exec.ok_bind, ih (by rw [List.length_drop]; omega)]

section Readers

variable {der : Bytes}

/-- An OID with its header is short. -/
theorem oid_fits {oid : Bytes} (h : oid.length ≤ 255) : oid.length ≤ w.isizeMax := by
  apply Nat.le_trans h
  cases w <;> decide

/-- A reader of one extension is decided by what it makes of the value. -/
theorem reader_eq {α : Type} {oid : Bytes} {f : Bytes → Exec (Option α)} {g : Bytes → Option α}
    (hlen : der.length ≤ w.isizeMax) (hoid : oid.length ≤ 255) (hf : ∀ ext, f ext = .ok (g ext)) :
    bindSome (extensionValue w der oid) f = .ok (X509.extensionValue der oid >>= g) := by
  rw [extensionValue_eq hlen (oid_fits hoid)]
  exact bindSome_ok fun ext _ => hf ext

theorem subjectAltName_eq (hlen : der.length ≤ w.isizeMax) :
    subjectAltName w der =
      .ok (X509.extensionValue der X509.oidSubjectAltName >>= X509.altNameOf) := by
  apply reader_eq hlen (by decide)
  intro ext
  rw [unwrapSequence_eq]
  apply bindSome_ok
  intro inner _
  split
  · rfl
  · rw [readShortTlv_eq]
    exact bindSome_ok fun _ _ => rfl

theorem subjectKeyIdentifier_eq (hlen : der.length ≤ w.isizeMax) :
    subjectKeyIdentifier w der =
      .ok (X509.extensionValue der X509.oidSubjectKeyIdentifier >>= X509.subjectKeyIdOf) := by
  apply reader_eq hlen (by decide)
  intro ext
  rw [readShortTlv_eq]
  exact bindSome_ok fun _ _ => (apply_ite Exec.ok _ _ _).symm

theorem authorityKeyIdentifier_eq (hlen : der.length ≤ w.isizeMax) :
    authorityKeyIdentifier w der =
      .ok (X509.extensionValue der X509.oidAuthorityKeyIdentifier >>= X509.authorityKeyIdOf) := by
  apply reader_eq hlen (by decide)
  intro ext
  rw [unwrapSequence_eq]
  exact bindSome_ok fun seq _ => keyIdentifierLoop_eq Nat.le.refl

theorem certificatePolicies_eq (hlen : der.length ≤ w.isizeMax) :
    certificatePolicies w der =
      .ok (X509.extensionValue der X509.oidCertificatePolicies >>= X509.policiesOf) := by
  apply reader_eq hlen (by decide)
  intro ext
  rw [unwrapSequence_eq]
  apply bindSome_ok
  intro list _
  rw [policiesLoop_eq Nat.le.refl, Exec.ok_bind]

end Readers

/-- On a certificate that fits in memory the readers return what they return on natural numbers. -/
theorem readers_eq {E : EcLib} {c : X509.Certificate E} (hlen : c.der.length ≤ w.isizeMax) :
    subjectSerialNumber w c.der = .ok c.subjectSerialNumber ∧
      subjectAltName w c.der = .ok c.subjectAltName ∧
      subjectKeyIdentifier w c.der = .ok c.subjectKeyIdentifier ∧
      authorityKeyIdentifier w c.der = .ok c.authorityKeyIdentifier ∧
      certificatePolicies w c.der = .ok c.certificatePolicies ∧
      rspRoles w c.der = .ok c.rspRoles ∧
      isServerCertificateRole w c.der = .ok c.isServerCertificateRole ∧
      indicatesDpPbRole w c.der = .ok c.indicatesDpPbRole := by
  have hpolicies : certificatePolicies w c.der = .ok c.certificatePolicies :=
    certificatePolicies_eq hlen
  have hroles : rspRoles w c.der = .ok c.rspRoles := by
    rw [rspRoles, hpolicies]
    exact bindSome_ok fun _ _ => rfl
  refine ⟨subjectSerialNumber_eq hlen, subjectAltName_eq hlen, subjectKeyIdentifier_eq hlen,
    authorityKeyIdentifier_eq hlen, hpolicies, hroles, ?_, ?_⟩
  · rw [isServerCertificateRole, hroles]
    exact bindSome_ok fun _ _ => rfl
  · rw [indicatesDpPbRole, hpolicies]
    exact bindSome_ok fun _ _ => rfl

end Usize
end EuiccCrypto
