import EuiccCrypto.Ecdsa

/-!
# Key agreement

`ecdh.rs`: ephemeral P-256 keys. The curve arithmetic is the one of the `ring` crate, the parameter
`EcdhLib`; `EcdhLib.Documented` says that it is Diffie-Hellman key agreement.
-/

namespace EuiccCrypto

open Octets

/-- `SHARED_SECRET_LEN`: the X coordinate. -/
abbrev sharedSecretLen : Nat := 32

/-- What `ring` provides. `agreeEphemeral` gives the secret that is passed to the closure. -/
structure EcdhLib where
  PrivateKey : Type
  computePublicKey : PrivateKey → Option Bytes
  agreeEphemeral : PrivateKey → Bytes → Option Bytes

/-- Public keys are uncompressed points, and two parties that have each other's agree on a secret,
the X coordinate of one point. -/
structure EcdhLib.Documented (L : EcdhLib) : Prop where
  isPoint : ∀ k point, L.computePublicKey k = some point →
    point.length = publicKeyLen ∧ point.head? = some 0x04
  agree : ∀ k k' point point', L.computePublicKey k = some point →
    L.computePublicKey k' = some point' → ∃ secret, secret.length = sharedSecretLen ∧
      L.agreeEphemeral k point' = some secret ∧ L.agreeEphemeral k' point = some secret

/-- `EphemeralKey`: a private key, and its public point. -/
structure EphemeralKey (L : EcdhLib) where
  inner : L.PrivateKey
  publicKey : Bytes

namespace EphemeralKey

variable {L : EcdhLib}

/-- `EphemeralKey::generate`, given the key that is drawn, if one can be. -/
def generate (drawn : Option L.PrivateKey) : Exec (EphemeralKey L) := do
  let inner ← Exec.okOr (.crypto "ECDH key generation failed") drawn
  let publicKey ← Exec.okOr (.crypto "ECDH public key derivation failed")
    (L.computePublicKey inner)
  .ok { inner, publicKey }

/-- `EphemeralKey::agree`: agree on a shared secret with the peer's uncompressed point. -/
def agree (self : EphemeralKey L) (peerPublic : Bytes) : Exec Bytes :=
  if peerPublic.length ≠ publicKeyLen ∨ peerPublic.head? ≠ some 0x04 then
    .err (.malformed ("peer public key must be " ++ toString publicKeyLen ++
      " bytes starting 0x04, got " ++ toString peerPublic.length ++ " bytes starting " ++
      hexPrefixed (peerPublic.headD 0)))
  else do
    let secret ← Exec.okOr (.crypto "ECDH agreement failed")
      (L.agreeEphemeral self.inner peerPublic)
    if secret.length ≠ sharedSecretLen then
      .err (.crypto ("ECDH secret is " ++ toString secret.length ++ " bytes, expected " ++
        toString sharedSecretLen))
    else .ok secret

/-- The key comes out of `generate`. -/
def Generated (self : EphemeralKey L) : Prop := ∃ drawn, generate drawn = .ok self

theorem Generated.computePublicKey_eq {self : EphemeralKey L} (h : self.Generated) :
    L.computePublicKey self.inner = some self.publicKey := by
  obtain ⟨drawn, h⟩ := h
  simp only [generate, Exec.bind_eq_ok, Exec.okOr_eq_ok, Exec.ok.injEq] at h
  obtain ⟨_, -, _, hpublic, rfl⟩ := h
  exact hpublic

/-- Two generated keys agree on a secret of 32 octets. -/
theorem exists_agree (hL : L.Documented) {a b : EphemeralKey L} (ha : a.Generated)
    (hb : b.Generated) : ∃ secret, secret.length = sharedSecretLen ∧
      a.agree b.publicKey = .ok secret ∧ b.agree a.publicKey = .ok secret := by
  have ha' := ha.computePublicKey_eq
  have hb' := hb.computePublicKey_eq
  obtain ⟨secret, hlen, hab, hba⟩ := hL.agree _ _ _ _ ha' hb'
  have hagree : ∀ {x : EphemeralKey L} {k : L.PrivateKey} {point : Bytes},
      L.computePublicKey k = some point → L.agreeEphemeral x.inner point = some secret →
      x.agree point = .ok secret := by
    intro x k point hpoint hsecret
    obtain ⟨hpointLen, hhead⟩ := hL.isPoint _ _ hpoint
    rw [agree, if_neg (by simp [hpointLen, hhead]), hsecret, Exec.okOr_some, Exec.ok_bind,
      if_neg (by simp [hlen])]
  exact ⟨secret, hlen, hagree hb' hab, hagree ha' hba⟩

end EphemeralKey
end EuiccCrypto
