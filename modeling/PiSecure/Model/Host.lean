import PiSecure.General.Sha256
import PiSecure.Model.Codec

/-! # The libraries around the node

The functions the node calls that are not part of its source: the hash and the
signature check of the crypto library, and the JSON parser.
-/

namespace PiSecure

/-- The library functions a node is built on. -/
structure Host where
  /-- `SHA256`. -/
  sha256 : Bytes → Digest
  /-- `EVP_DigestVerify` on a raw Ed25519 key, a signature and a message. -/
  digestVerify : Bytes → Bytes → Bytes → Bool
  /-- `json::parse`. -/
  parse : Bytes → Option Json

namespace Host

/-- `sha256_pair`. -/
def sha256Pair (host : Host) (left right : Digest) : Digest :=
  host.sha256 (left.bytes ++ right.bytes)

/-- `ed25519_verify`. -/
def ed25519Verify (host : Host) (pubkey sig message : Bytes) : Bool :=
  pubkey.length = 32 && sig.length = 64 && host.digestVerify pubkey sig message

/-- `long_address`: `ps1` and the hash of a public key. -/
def longAddress (host : Host) (pubkey : Bytes) : Text :=
  "ps1".toList ++ toHex (host.sha256 pubkey)

/-- The host with the actual hash, on which a run can be computed. It knows the
listed signatures, each with its key and message, and the listed documents. -/
def ofTables (signatures : List (Bytes × Bytes × Bytes)) (documents : List (Bytes × Json)) :
    Host where
  sha256 message := ⟨Sha256.digest message, Sha256.length_digest message⟩
  digestVerify pubkey sig message := signatures.contains (pubkey, sig, message)
  parse bytes := (documents.find? fun document => document.1 == bytes).map Prod.snd

end Host

end PiSecure
