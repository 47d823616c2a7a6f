import JuliusOS.Foundations.Bytes

/-!
# Authenticated encryption in counter mode

The interface of AES-GCM as a program sees it: a keystream cipher that keeps the length, and
a tag computed from the key, the initialization vector and the *ciphertext*. Decryption runs
the cipher backwards whether or not the tag is right; the tag only decides whether the result
may be used. A cipher context takes the first `ivLength` bytes of the vector it is given.

`RejectsWrongIv` is the integrity assumption: under another vector the tag does not match.
-/

/-- An authenticated cipher: keys, vectors, texts and tags are byte strings. -/
structure Gcm where
  /-- The ciphertext of a plaintext under a key and a vector. -/
  encrypt : Bytes → Bytes → Bytes → Bytes
  /-- The plaintext of a ciphertext under a key and a vector. -/
  decrypt : Bytes → Bytes → Bytes → Bytes
  /-- The tag of a ciphertext under a key and a vector. -/
  mac : Bytes → Bytes → Bytes → Buf 16
  /-- Encryption keeps the length. -/
  length_encrypt : ∀ key iv p, (encrypt key iv p).length = p.length
  /-- Decryption keeps the length. -/
  length_decrypt : ∀ key iv c, (decrypt key iv c).length = c.length
  /-- Decryption inverts encryption. -/
  decrypt_encrypt : ∀ key iv p, decrypt key iv (encrypt key iv p) = p

namespace Gcm

/-- The vector length a GCM context has unless it is told another: 12 bytes. -/
def ivLength : ℕ := 12

/-- A ciphertext does not pass under another vector of the same length. -/
def RejectsWrongIv (A : Gcm) : Prop :=
  ∀ key iv iv' p, iv.length = ivLength → iv'.length = ivLength → iv' ≠ iv →
    A.mac key iv' (A.encrypt key iv p) ≠ A.mac key iv (A.encrypt key iv p)

/-- The cipher that changes nothing, with the vector itself as the tag: the simplest one that
meets the interface and rejects a wrong vector. -/
def transparent : Gcm where
  encrypt _ _ p := p
  decrypt _ _ c := c
  mac _ iv _ := ⟨(Bytes.ljust 16 0 iv).take 16, by simp⟩
  length_encrypt _ _ _ := rfl
  length_decrypt _ _ _ := rfl
  decrypt_encrypt _ _ _ := rfl

theorem transparent_rejectsWrongIv : transparent.RejectsWrongIv := by
  intro key iv iv' p hiv hiv' hne heq
  have h := congrArg (fun t : Buf 16 ↦ t.bytes.take ivLength) heq
  simp only [transparent, Bytes.ljust, List.take_take] at h
  rw [show min ivLength 16 = ivLength from rfl, List.take_left' hiv, List.take_left' hiv'] at h
  exact hne h

end Gcm
