import R8Protocol.Lib.Bytes

/-! The cryptographic primitives of the crates below, as parameters of the model. -/
namespace R8

open FixedWidth

/-- Third-party primitives. The only law carried is that the cipher runs in place. -/
structure Crypto where
  sha256 : List Byte → Bytes 32
  hmacSha256 : Bytes 32 → List Byte → Bytes 32
  /-- The Ed25519 verifying key of a signing key. -/
  verifyingKey : Bytes 32 → Bytes 32
  sign : Bytes 32 → List Byte → Bytes 64
  /-- `VerifyingKey::from_bytes` accepts the encoding. -/
  keyDecodes : Bytes 32 → Bool
  verify : Bytes 32 → List Byte → Bytes 64 → Bool
  x25519Public : Bytes 32 → Bytes 32
  diffieHellman : Bytes 32 → Bytes 32 → Bytes 32
  hkdfExtract : Bytes 32 → Bytes 32 → Bytes 32
  hkdfExpand : Bytes 32 → List Byte → Bytes 32
  aeadEncrypt : Bytes 32 → Bytes 12 → List Byte → List Byte → List Byte × Bytes 16
  aeadDecrypt : Bytes 32 → Bytes 12 → List Byte → List Byte → Bytes 16 → Option (List Byte)
  encrypt_length : ∀ k n aad m, (aeadEncrypt k n aad m).1.length = m.length

def ascii (s : String) : List Byte := s.toList.map fun c => ⟨c.toNat % 256, by omega⟩

def zeros (n : ℕ) : Bytes n := ⟨List.replicate n 0, by simp⟩

def bytesOf (n : ℕ) (b : Byte) : Bytes n := ⟨List.replicate n b, by simp⟩

/-- The last bytes of a message, padded in front. -/
def lastBytes (n : ℕ) (l : List Byte) : Bytes n :=
  ⟨((zeros n).val ++ l).drop l.length, by simp [(zeros n).property]⟩

/-- Transparent stand-ins for concrete runs: a signature verifies under its own key only, the two
sides of an exchange agree, and decryption undoes encryption. -/
def Crypto.sample : Crypto where
  sha256 := lastBytes 32
  hmacSha256 key message := lastBytes 32 (key.val ++ message)
  verifyingKey := id
  sign key message := lastBytes 64 (key.val ++ message)
  keyDecodes _ := true
  verify key message signature := signature = lastBytes 64 (key.val ++ message)
  x25519Public := id
  diffieHellman a b := lastBytes 32 (List.zipWith (· + ·) a.val b.val)
  hkdfExtract salt shared := lastBytes 32 (List.zipWith (· + ·) salt.val shared.val)
  hkdfExpand prk info := lastBytes 32 (prk.val ++ info)
  aeadEncrypt key _ _ plaintext := (plaintext, lastBytes 16 key.val)
  aeadDecrypt key _ _ ciphertext tag := if tag = lastBytes 16 key.val then some ciphertext else none
  encrypt_length := fun _ _ _ _ => rfl

end R8
