import EuiccCrypto.Lib.Selection
import EuiccCrypto.X509.Signed

/-!
# CI keys

`ci.rs`: the keys an eUICC trusts, and the selection of the one to verify a server certificate
with. `outcome_eq_verdict` says that the selection depends on which keys are in the set, and
`selection_order_free` what that means for the caller.
-/

namespace EuiccCrypto
namespace Ci

open Octets X509 Selection

/-! ### Keys and selection -/

/-- A CI public key together with the identifier the eUICC advertises for it. -/
structure CiKey where
  id : Bytes
  key : PublicKey
  deriving DecidableEq

/-- The set of CI keys an eUICC trusts for verification. -/
structure CiKeySet where
  keys : List CiKey

/-- Why a server certificate could not be accepted. -/
inductive CiSelection
  | noMatch
  | signatureInvalid
  | unspecified
  deriving DecidableEq

/-- The `Display` text of a selection failure. -/
def CiSelection.display : CiSelection → String
  | .noMatch => "no CI key matches the requested identifier"
  | .signatureInvalid => "the matching CI key did not verify the certificate"
  | .unspecified => "the server did not specify a CI key identifier"

/-- `From<CiSelection> for Error`. -/
def CiSelection.toError (s : CiSelection) : Error := .certificate s.display

namespace CiKeySet

/-- `CiKeySet::new`. -/
def new : CiKeySet := ⟨[]⟩

variable (set : CiKeySet)

/-- `CiKeySet::add`: a later key with a duplicate identifier is kept too. -/
def add (id : Bytes) (key : PublicKey) : CiKeySet := ⟨set.keys ++ [⟨id, key⟩]⟩

/-- `CiKeySet::identifiers`: in insertion order. -/
def identifiers : List Bytes := set.keys.map CiKey.id

/-- `CiKeySet::contains`. -/
def contains (id : Bytes) : Bool := set.keys.any fun k => k.id == id

end CiKeySet

/-- `ids_match`: one identifier is a truncation of the other, and neither is empty. -/
def idsMatch (stored requested : Bytes) : Bool :=
  if stored.isEmpty || requested.isEmpty then false
  else
    let n := min stored.length requested.length
    stored.take n == requested.take n

variable {E : EcLib}

/-- `CiKeySet::verify_server_certificate`: the first key named by `requested` that verifies the
certificate. Verification does not panic (`verifySignedByKey_ne_panic`). -/
def CiKeySet.verifyServerCertificate (set : CiKeySet) (requested : Bytes) (c : Certificate E) :
    Except CiSelection CiKey :=
  if requested.isEmpty then .error .unspecified
  else
    let candidates := set.keys.filter fun k => idsMatch k.id requested
    if candidates.isEmpty then .error .noMatch
    else
      match candidates.find? fun k => (c.verifySignedByKey k.key).ok?.isSome with
      | some k => .ok k
      | none => .error .signatureInvalid

/-! ### What identifiers match -/

/-- The stored identifier can be meant by the request: one is a prefix of the other. -/
def Names (requested stored : Bytes) : Prop :=
  stored ≠ [] ∧ requested ≠ [] ∧ (stored <+: requested ∨ requested <+: stored)

theorem take_min_eq_iff {a b : Bytes} :
    a.take (min a.length b.length) = b.take (min a.length b.length) ↔ a <+: b ∨ b <+: a := by
  rcases Nat.le_total a.length b.length with h | h
  · rw [Nat.min_eq_left h, List.take_length]
    constructor
    · intro heq
      exact .inl (List.prefix_iff_eq_take.mpr heq)
    · rintro (hab | hba)
      · exact List.prefix_iff_eq_take.mp hab
      · rw [hba.eq_of_length_le h, List.take_length]
  · rw [Nat.min_eq_right h, List.take_length]
    constructor
    · intro heq
      exact .inr (List.prefix_iff_eq_take.mpr heq.symm)
    · rintro (hab | hba)
      · rw [hab.eq_of_length_le h, List.take_length]
      · exact (List.prefix_iff_eq_take.mp hba).symm

theorem idsMatch_iff {stored requested : Bytes} :
    idsMatch stored requested ↔ Names requested stored := by
  rw [idsMatch, Names]
  split
  · next h =>
      rw [Bool.or_eq_true, List.isEmpty_iff, List.isEmpty_iff] at h
      refine iff_of_false Bool.false_ne_true ?_
      rintro ⟨hstored, hrequested, -⟩
      rcases h with h | h
      · exact hstored h
      · exact hrequested h
  · next h =>
      rw [Bool.or_eq_true, List.isEmpty_iff, List.isEmpty_iff, not_or] at h
      simp [h.1, h.2, take_min_eq_iff]

/-- A truncated request names everything the whole one does: what is comparable with a string is
comparable with its prefixes. -/
theorem Names.of_prefix {requested requested' stored : Bytes} (h : Names requested stored)
    (hne : requested' ≠ []) (hpre : requested' <+: requested) : Names requested' stored := by
  obtain ⟨hstored, -, hsr | hrs⟩ := h
  · exact ⟨hstored, hne, (List.prefix_or_prefix_of_prefix hsr hpre)⟩
  · exact ⟨hstored, hne, .inr (hpre.trans hrs)⟩

/-! ### The verdict -/

/-- The verdict of a selection that was made; there is none for an empty request. -/
def outcome : Except CiSelection CiKey → Option Verdict
  | .error .unspecified => none
  | .error .noMatch => some .noMatch
  | .error .signatureInvalid => some .rejected
  | .ok _ => some .accepted

/-- The certificate verifies under the key. -/
def Verifies (c : Certificate E) (k : CiKey) : Prop := c.verifySignedByKey k.key = .ok ()

theorem isSome_verify_iff {c : Certificate E} {k : CiKey} :
    (c.verifySignedByKey k.key).ok?.isSome ↔ Verifies c k := by
  rw [Option.isSome_iff_exists]
  exact ⟨fun ⟨_, h⟩ => Exec.ok?_eq_some.mp h, fun h => ⟨(), Exec.ok?_eq_some.mpr h⟩⟩

theorem verifies_of_find? {c : Certificate E} {candidates : List CiKey} {k : CiKey}
    (h : candidates.find? (fun k => (c.verifySignedByKey k.key).ok?.isSome) = some k) :
    Verifies c k := by
  have hsome := List.find?_some h
  exact isSome_verify_iff.mp hsome

variable {set : CiKeySet} {requested : Bytes} {c : Certificate E}

theorem verifyServerCertificate_eq_unspecified :
    set.verifyServerCertificate requested c = .error .unspecified ↔ requested = [] := by
  rw [CiKeySet.verifyServerCertificate]
  split
  · next h => exact iff_of_true rfl (List.isEmpty_iff.mp h)
  · next h =>
      rw [List.isEmpty_iff] at h
      dsimp only
      refine iff_of_false ?_ h
      split
      · simp
      · split <;> simp

/-- The key that is returned. -/
theorem verifyServerCertificate_eq_ok {k : CiKey}
    (h : set.verifyServerCertificate requested c = .ok k) :
    k ∈ set.keys ∧ Names requested k.id ∧ Verifies c k := by
  rw [CiKeySet.verifyServerCertificate] at h
  split at h
  · cases h
  · dsimp only at h
    split at h
    · cases h
    · split at h
      · next hfind =>
          cases h
          have hmem := List.mem_filter.mp (List.mem_of_find?_eq_some hfind)
          exact ⟨hmem.1, idsMatch_iff.mp hmem.2, verifies_of_find? hfind⟩
      · cases h

/-- The selection is the one from the set of keys: candidates are the keys the request names,
and those are taken that verify the certificate. -/
theorem outcome_eq_verdict (hne : requested ≠ []) :
    outcome (set.verifyServerCertificate requested c) =
      some (verdict {k | k ∈ set.keys} (fun k => Names requested k.id) (Verifies c)) := by
  have hmem : ∀ k, k ∈ set.keys.filter (fun k => idsMatch k.id requested) ↔
      k ∈ set.keys ∧ Names requested k.id := by
    intro k
    rw [List.mem_filter, idsMatch_iff]
  rw [CiKeySet.verifyServerCertificate, if_neg (by rwa [List.isEmpty_iff]), verdict]
  dsimp only
  generalize set.keys.filter (fun k => idsMatch k.id requested) = candidates at hmem
  by_cases hempty : candidates = []
  · -- No candidate: the other two cases of the verdict need one.
    subst hempty
    have hnone : ∀ k ∈ set.keys, ¬ Names requested k.id :=
      fun k hk hnames => List.not_mem_nil ((hmem k).mpr ⟨hk, hnames⟩)
    rw [if_pos List.isEmpty_nil, if_neg, if_neg]
    · rfl
    · rintro ⟨k, hk, hnames⟩
      exact hnone k hk hnames
    · rintro ⟨k, hk, hnames, -⟩
      exact hnone k hk hnames
  · rw [if_neg (by rwa [List.isEmpty_iff])]
    split
    · next k hfind =>
        obtain ⟨hk, hnames⟩ := (hmem k).mp (List.mem_of_find?_eq_some hfind)
        rw [if_pos ⟨k, hk, hnames, verifies_of_find? hfind⟩]
        rfl
    · next hfind =>
        obtain ⟨k, hk⟩ := List.exists_mem_of_ne_nil _ hempty
        rw [if_neg, if_pos ⟨k, (hmem k).mp hk⟩]
        · rfl
        · rintro ⟨k', hk', hnames, hverifies⟩
          exact List.find?_eq_none.mp hfind k' ((hmem k').mpr ⟨hk', hnames⟩)
            (isSome_verify_iff.mpr hverifies)

/-- A key that is named and verifies the certificate is enough. -/
theorem exists_verifyServerCertificate {k : CiKey} (hk : k ∈ set.keys)
    (hnames : Names requested k.id) (hverifies : Verifies c k) :
    ∃ k', set.verifyServerCertificate requested c = .ok k' := by
  have hverdict := @outcome_eq_verdict _ set _ c hnames.2.1
  rw [verdict, if_pos ⟨k, hk, hnames, hverifies⟩] at hverdict
  cases hresult : set.verifyServerCertificate requested c with
  | ok k' => exact ⟨k', rfl⟩
  | error e =>
      rw [hresult] at hverdict
      cases e <;> cases hverdict

/-! ### Sets of keys -/

/-- The set that calls of `add` build, one after another. -/
def CiKeySet.ofAdds (adds : List (Bytes × PublicKey)) : CiKeySet :=
  adds.foldl (fun set a => set.add a.1 a.2) .new

theorem CiKeySet.keys_foldl_add (adds : List (Bytes × PublicKey)) (set : CiKeySet) :
    (adds.foldl (fun set a => set.add a.1 a.2) set).keys =
      set.keys ++ adds.map fun a => ⟨a.1, a.2⟩ := by
  induction adds generalizing set with
  | nil => simp
  | cons a adds ih =>
      rw [List.foldl_cons, ih, CiKeySet.add, List.map_cons, List.append_assoc]
      rfl

theorem CiKeySet.keys_ofAdds (adds : List (Bytes × PublicKey)) :
    (CiKeySet.ofAdds adds).keys = adds.map fun a => ⟨a.1, a.2⟩ :=
  CiKeySet.keys_foldl_add adds .new

/-- Identifiers are reported in insertion order. -/
theorem CiKeySet.identifiers_ofAdds (adds : List (Bytes × PublicKey)) :
    (CiKeySet.ofAdds adds).identifiers = adds.map Prod.fst := by
  rw [identifiers, keys_ofAdds, List.map_map]
  rfl

theorem CiKeySet.contains_iff {set : CiKeySet} {id : Bytes} :
    set.contains id ↔ id ∈ set.identifiers := by
  simp [contains, identifiers]

/-- **CI key selection does not depend on the order of the keys and is monotone** in them and in
how far the request is truncated. -/
theorem selection_order_free (adds : List (Bytes × PublicKey)) (requested : Bytes)
    (c : Certificate E) :
    let set := CiKeySet.ofAdds adds
    let result := set.verifyServerCertificate requested c
    (result = .error .unspecified ↔ requested = []) ∧
    (∀ adds', adds'.Perm adds →
      outcome ((CiKeySet.ofAdds adds').verifyServerCertificate requested c) = outcome result) ∧
    (∀ id key, ∀ v ∈ outcome result,
      ∃ v' ∈ outcome ((set.add id key).verifyServerCertificate requested c), v ≤ v') ∧
    (∀ requested' ≠ [], requested' <+: requested → ∀ v ∈ outcome result,
      ∃ v' ∈ outcome (set.verifyServerCertificate requested' c), v ≤ v') ∧
    ∀ k, result = .ok k → k ∈ set.keys ∧ k.id ≠ [] ∧
      (k.id <+: requested ∨ requested <+: k.id) ∧ c.verifySignedByKey k.key = .ok () := by
  intro set result
  -- What a selection from more keys, or with a shorter request, has for a verdict.
  have hmono : ∀ (set' : CiKeySet) (requested' : Bytes), (∀ k ∈ set.keys, k ∈ set'.keys) →
      requested' ≠ [] → requested' <+: requested → ∀ v ∈ outcome result,
      ∃ v' ∈ outcome (set'.verifyServerCertificate requested' c), v ≤ v' := by
    intro set' requested' hset hne' hpre v hv
    have hne : requested ≠ [] := by
      rintro rfl
      exact hne' (List.prefix_nil.mp hpre)
    rw [Option.mem_def, outcome_eq_verdict hne, Option.some.injEq] at hv
    refine ⟨_, Option.mem_def.mpr (outcome_eq_verdict hne'), hv ▸ ?_⟩
    exact verdict_mono hset fun k hk => hk.of_prefix hne' hpre
  refine ⟨verifyServerCertificate_eq_unspecified, ?_, ?_, ?_, ?_⟩
  · intro adds' hperm
    by_cases hne : requested = []
    · subst hne
      rfl
    · rw [outcome_eq_verdict hne, outcome_eq_verdict hne]
      refine congrArg some (verdict_congr fun k => ?_)
      simp only [set, CiKeySet.keys_ofAdds, Set.mem_ofPred_eq]
      exact (hperm.map _).mem_iff
  · intro id key v hv
    by_cases hne : requested = []
    · subst hne
      cases hv
    · exact hmono _ requested (fun k hk => List.mem_append_left _ hk) hne List.prefix_rfl v hv
  · exact fun requested' hne' hpre => hmono set requested' (fun _ hk => hk) hne' hpre
  · intro k hk
    obtain ⟨hmem, ⟨hid, -, hcomparable⟩, hverifies⟩ := verifyServerCertificate_eq_ok hk
    exact ⟨hmem, hid, hcomparable, hverifies⟩

end Ci
end EuiccCrypto
