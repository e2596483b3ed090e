import Bitcoin.Hash.Hmac
import Bitcoin.Hash.Ripemd160
import Bitcoin.Hash.Sha1

/-!
# Digests of Bitcoin

Two compositions stand behind almost every hash on the wire. Transaction ids and
signature hashes are SHA-256 applied twice; key hashes and script hashes are
RIPEMD-160 of SHA-256, which makes them shorter.

## Main definitions

* `Hash256`, `Hash160`: Digests of thirty-two and of twenty bytes.
* `Hash.sha256d`: SHA-256 twice.
* `Hash.hash160`: RIPEMD-160 of SHA-256.
-/

namespace Bitcoin

/-- A digest of thirty-two bytes. -/
abbrev Hash256 := ByteVec 32

/-- A digest of twenty bytes. -/
abbrev Hash160 := ByteVec 20

namespace Hash

/-- SHA-256 applied twice. -/
def sha256d (message : Bytes) : Hash256 :=
  sha256 (sha256 message).bytes

/-- RIPEMD-160 of SHA-256. -/
def hash160 (message : Bytes) : Hash160 :=
  ripemd160 (sha256 message).bytes

end Hash

end Bitcoin
