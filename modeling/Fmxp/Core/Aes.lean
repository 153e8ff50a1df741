import Mathlib.Algebra.Group.Int.Defs
import Mathlib.Algebra.Group.Nat.Defs
import Fmxp.Core.Bytes

/-! `aes.cpp` over the EVP interface of OpenSSL.

OpenSSL is not part of the repository: `Evp` is what the code relies on of it.
The update calls take their length as a C `int`, so the sizes the code passes are
narrowed (`cInt`), and a negative length is refused. `EVP_DecryptFinal_ex`
succeeds exactly on the tag that GCM computes for the ciphertext. Set-up calls,
allocation and `RAND_bytes` succeed; where they would not, the code throws the
`runtime_error` it throws for a key of the wrong size. -/
namespace Fmxp

/-- A `size_t` or a `uint64_t` passed as an `int`. -/
def cInt (n : Nat) : Int :=
  if n % 2 ^ 32 < 2 ^ 31 then (n % 2 ^ 32 : Nat) else (n % 2 ^ 32 : Nat) - (2 : Int) ^ 32

theorem cInt_of_lt {n : Nat} (h : n < 2 ^ 31) : cInt n = n := by
  simp only [cInt]
  split <;> omega

/-- AES-256-GCM as OpenSSL computes it, on a 32-byte key. -/
structure Evp where
  /-- `EVP_EncryptUpdate` on the first `inl` bytes of the input. -/
  encryptUpdate : Bytes → Block 12 → Int → Bytes → Option Bytes
  decryptUpdate : Bytes → Block 12 → Int → Bytes → Option Bytes
  /-- The tag of a ciphertext: what `EVP_CTRL_GCM_GET_TAG` returns. -/
  tag : Bytes → Block 12 → Bytes → Block 16
  /-- A negative length is refused with an error, as OpenSSL does up to 1.1.1; of later
  versions, which may not check it, this is assumed. -/
  encrypt_negative : ∀ {key iv inl input}, inl < 0 → encryptUpdate key iv inl input = none
  encrypt_total : ∀ {key iv inl input}, key.length = 32 → 0 ≤ inl → inl ≤ input.length →
    (encryptUpdate key iv inl input).isSome = true
  encrypt_length : ∀ {key iv inl input out}, inl ≤ input.length →
    encryptUpdate key iv inl input = some out → (out.length : Int) = inl
  decrypt_length : ∀ {key iv inl input out}, inl ≤ input.length →
    decryptUpdate key iv inl input = some out → (out.length : Int) = inl
  decrypt_encrypt : ∀ {key iv inl input out}, inl ≤ input.length →
    encryptUpdate key iv inl input = some out →
    decryptUpdate key iv inl out = some (input.take inl.toNat)

/-- An executable instance of the interface: the ciphertext is the plaintext and the
tag is made of the key. It protects nothing; it lets runs be evaluated. -/
def Evp.transparent : Evp where
  encryptUpdate := fun _ _ inl input => if inl < 0 then none else some (input.take inl.toNat)
  decryptUpdate := fun _ _ inl input => if inl < 0 then none else some (input.take inl.toNat)
  tag := fun key _ _ => ⟨(key ++ List.replicate 16 0).take 16, by simp⟩
  encrypt_negative := fun h => if_pos h
  encrypt_total := fun _ h _ => by rw [if_neg (by omega)]; rfl
  encrypt_length := fun {_ _ _ _ _} hle h => by
    split at h <;> cases h
    rw [List.length_take]
    omega
  decrypt_length := fun {_ _ _ _ _} hle h => by
    split at h <;> cases h
    rw [List.length_take]
    omega
  decrypt_encrypt := fun {_ _ _ _ _} _ h => by
    split at h <;> cases h
    rw [if_neg (by omega), List.take_take, Nat.min_self]

/-- An IV for such runs. -/
def iv7 : Block 12 := ⟨List.replicate 12 7, rfl⟩

/-- The packet is `[IV][TAG][CIPHERTEXT]`. -/
def aesEncrypt (evp : Evp) (iv : Block 12) (plaintext keyBuf : Bytes) : Except RuntimeError Bytes :=
  if keyBuf.length ≠ 32 then .error ⟨"Invalid AES-256 key"⟩
  else match evp.encryptUpdate keyBuf iv (cInt plaintext.length) plaintext with
    | none => .error (throwErr ERR_ENCRYPTION "Encrypt update failed")
    | some ciphertext => .ok (iv.val ++ (evp.tag keyBuf iv ciphertext).val ++ ciphertext)

def aesDecrypt (evp : Evp) (encrypted keyBuf : Bytes) : Except RuntimeError Bytes :=
  if keyBuf.length ≠ 32 then .error ⟨"Invalid AES-256 key"⟩
  else if h : encrypted.length < 12 + 16 then .error ⟨"Invalid AES packet"⟩
  else
    let iv : Block 12 := ⟨encrypted.take 12, by simp; omega⟩
    let tag := (encrypted.drop 12).take 16
    let ct := encrypted.drop 28
    match evp.decryptUpdate keyBuf iv (cInt ct.length) ct with
    | none => .error (throwErr ERR_ENCRYPTION "Decrypt update failed")
    | some plaintext =>
      if (evp.tag keyBuf iv ct).val = tag then .ok plaintext
      else .error ⟨"AES authentication failed"⟩

theorem aesEncrypt_key {evp : Evp} {iv : Block 12} {plaintext key : Bytes} (h : key.length ≠ 32) :
    aesEncrypt evp iv plaintext key = .error ⟨"Invalid AES-256 key"⟩ := by
  simp [aesEncrypt, h]

theorem aesDecrypt_key {evp : Evp} {encrypted key : Bytes} (h : key.length ≠ 32) :
    aesDecrypt evp encrypted key = .error ⟨"Invalid AES-256 key"⟩ := by
  simp [aesDecrypt, h]

theorem cInt_le (n : Nat) : cInt n ≤ n := by
  simp only [cInt]
  split <;> omega

/-- What an encryption that succeeds has done: the `int` it passed was not
negative, and the packet holds that many bytes of ciphertext. -/
theorem aesEncrypt_ok {evp : Evp} {iv : Block 12} {plaintext key out : Bytes}
    (h : aesEncrypt evp iv plaintext key = .ok out) :
    key.length = 32 ∧ 0 ≤ cInt plaintext.length ∧
      (out.length : Int) = 28 + cInt plaintext.length ∧
      ∃ ct, evp.encryptUpdate key iv (cInt plaintext.length) plaintext = some ct ∧
        out = iv.val ++ (evp.tag key iv ct).val ++ ct := by
  unfold aesEncrypt at h
  split at h
  · cases h
  · next hk =>
    have hkey : key.length = 32 := by omega
    split at h
    · cases h
    · next ct hct =>
      cases h
      have hlen := evp.encrypt_length (cInt_le _) hct
      have hiv := iv.property
      have htag := (evp.tag key iv ct).property
      refine ⟨hkey, by omega, ?_, ct, hct, rfl⟩
      simp only [List.length_append, hiv, htag]
      omega

/-- Encryption under a 32-byte key fails only on a length that is negative as an `int`. -/
theorem aesEncrypt_total (evp : Evp) (iv : Block 12) (plaintext : Bytes) {key : Bytes} (hk : key.length = 32)
    (hn : 0 ≤ cInt plaintext.length) : ∃ out, aesEncrypt evp iv plaintext key = .ok out := by
  have hsome : (evp.encryptUpdate key iv (cInt plaintext.length) plaintext).isSome = true :=
    evp.encrypt_total hk hn (cInt_le plaintext.length)
  obtain ⟨ct, hct⟩ := Option.isSome_iff_exists.mp hsome
  exact ⟨_, by simp only [aesEncrypt, hk, hct]; rfl⟩

theorem aesEncrypt_negative (evp : Evp) (iv : Block 12) (plaintext : Bytes) {key : Bytes}
    (hk : key.length = 32) (hn : cInt plaintext.length < 0) :
    aesEncrypt evp iv plaintext key =
      .error (throwErr ERR_ENCRYPTION "Encrypt update failed") := by
  simp only [aesEncrypt, hk, evp.encrypt_negative hn]
  rfl

/-- What decryption returns for a packet that encryption made: the bytes it
encrypted, which are the first `cInt` bytes of the plaintext. -/
theorem aesDecrypt_encrypt {evp : Evp} {iv : Block 12} {plaintext key out : Bytes}
    (h : aesEncrypt evp iv plaintext key = .ok out) :
    aesDecrypt evp out key = .ok (plaintext.take (cInt plaintext.length).toNat) := by
  obtain ⟨hkey, hpos, hlen, ct, hct, rfl⟩ := aesEncrypt_ok h
  have hiv := iv.property
  have htag := (evp.tag key iv ct).property
  have hctlen := evp.encrypt_length (cInt_le _) hct
  have hbound : cInt plaintext.length < 2 ^ 31 := by
    simp only [cInt]
    split <;> omega
  have h12 : (iv.val ++ (evp.tag key iv ct).val ++ ct).take 12 = iv.val := by
    rw [List.append_assoc, List.take_left' hiv]
  have h16 : ((iv.val ++ (evp.tag key iv ct).val ++ ct).drop 12).take 16 =
      (evp.tag key iv ct).val := by
    rw [List.append_assoc, List.drop_left' hiv, List.take_left' htag]
  have h28 : (iv.val ++ (evp.tag key iv ct).val ++ ct).drop 28 = ct :=
    List.drop_left' (by simp [hiv, htag])
  have hshort : ¬ (iv.val ++ (evp.tag key iv ct).val ++ ct).length < 12 + 16 := by
    simp only [List.length_append, hiv, htag]
    omega
  have hint : cInt ct.length = cInt plaintext.length := by
    rw [cInt_of_lt (by omega), hctlen]
  simp only [aesDecrypt, hkey, hshort, h12, h16, h28, hint, evp.decrypt_encrypt (cInt_le _) hct]
  rfl

/-- A packet that decrypts: at least 28 bytes, and the plaintext has as many bytes
as the `int` the ciphertext's length was passed as. -/
theorem aesDecrypt_ok {evp : Evp} {encrypted key out : Bytes}
    (h : aesDecrypt evp encrypted key = .ok out) :
    key.length = 32 ∧ 28 ≤ encrypted.length ∧ (out.length : Int) = cInt (encrypted.length - 28) := by
  unfold aesDecrypt at h
  split at h
  · cases h
  · next hk =>
    split at h
    · cases h
    · next hshort =>
      dsimp only at h
      split at h
      · cases h
      · next plaintext hp =>
        split at h
        · cases h
          have hlen := evp.decrypt_length (cInt_le _) hp
          rw [List.length_drop] at hlen
          exact ⟨by omega, by omega, hlen⟩
        · cases h

end Fmxp
