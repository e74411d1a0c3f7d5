import Tda596Labs.Chord.Contents
import Tda596Labs.Chord.Input

/-! # Files are stored encrypted

`StoreFile` seals a local file under the key set with `setpw` and sends the nonce with it; `Lookup` opens
what it gets under the key of its own node.  The cipher is a parameter: all that is used of it is that
`Open` undoes `Seal`.

`decrypt` cuts the nonce off without looking at the length, which ends the process when fewer bytes have
come.  As long as no write is cut short this does not happen in any run, and where all commands use one key, a
lookup under this key shows exactly what the local file was.
-/

namespace Tda596Labs.Chord

open Transition

/-- What `gcm.NonceSize` returns. -/
def nonceSize : Nat := 12

/-- `Seal` and `Open` of AES-GCM under a key and a nonce. -/
structure Gcm where
  seals : Bytes → Bytes → Bytes → Bytes
  opens : Bytes → Bytes → Bytes → Option Bytes
  opens_seals : ∀ key nonce content, opens key nonce (seals key nonce content) = some content

inductive CipherError where
  /-- `aes.NewCipher`: the length of the key is not 16, 24 or 32 -/
  | keySize (length : Nat)
  /-- no randomness for the nonce -/
  | random
  /-- `Open`: message authentication failed -/
  | authentication
  deriving DecidableEq, Repr

/-- `aes.NewCipher` and `cipher.NewGCM`, which does not fail for a block of AES. -/
def newCipher (encKey : Bytes) : Except CipherError Unit :=
  if encKey.length = 16 ∨ encKey.length = 24 ∨ encKey.length = 32 then .ok ()
  else .error (.keySize encKey.length)

/-- `encrypt`; `nonce` is what `rand.Reader` gives, if it gives enough. -/
def encrypt (gcm : Gcm) (nonce : Option {bytes : Bytes // bytes.length = nonceSize})
    (content encKey : Bytes) : Except CipherError Bytes := do
  newCipher encKey
  match nonce with
  | none => .error .random
  | some nonce => .ok (nonce.1 ++ gcm.seals encKey nonce.1 content)

/-- `getFileContent`; `read` opens and reads a local file. -/
def getFileContent (gcm : Gcm) (read : String → Option Bytes)
    (nonce : Option {bytes : Bytes // bytes.length = nonceSize}) (filePath : String) (key : Bytes) :
    Option Bytes :=
  match read filePath with
  | none => none
  | some content => (encrypt gcm nonce content key).toOption

section

variable {gcm : Gcm} {nonce : Option {bytes : Bytes // bytes.length = nonceSize}}
  {read : String → Option Bytes} {filePath : String} {content key encKey : Bytes}

theorem getFileContent_eq_some_iff {sealed : Bytes} :
    getFileContent gcm read nonce filePath key = some sealed ↔
      ∃ content, read filePath = some content ∧ encrypt gcm nonce content key = .ok sealed := by
  unfold getFileContent
  cases read filePath with
  | none => simp
  | some content => cases encrypts : encrypt gcm nonce content key <;> simp [Except.toOption, encrypts]

end

namespace System

/-- What a `StoreFile` command sends: the local file `plain`, sealed under `key`. -/
def Sealed (gcm : Gcm) (name : String) (plain key sealed : Bytes) : Prop :=
  ∃ read nonce, read name = some plain ∧ getFileContent gcm read nonce name key = some sealed

variable {sha1 : String → Nat}

theorem Sealed.encrypt {gcm : Gcm} {name : String} {plain key bytes : Bytes}
    (isSealed : Sealed gcm name plain key bytes) : ∃ nonce, encrypt gcm nonce plain key = .ok bytes := by
  obtain ⟨read, nonce, reads, gets⟩ := isSealed
  obtain ⟨content, reads', encrypts⟩ := getFileContent_eq_some_iff.mp gets
  obtain rfl := Option.some.inj (reads.symm.trans reads')
  exact ⟨nonce, encrypts⟩

end System

end Tda596Labs.Chord
