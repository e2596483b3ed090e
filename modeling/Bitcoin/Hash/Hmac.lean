import Bitcoin.Hash.Sha256

/-!
# HMAC-SHA256

A keyed digest. The key fills one block: a longer one is hashed first, and zeros
follow a shorter one. The digest of the message behind the key block, masked one
way, is hashed again behind the key block masked the other way.

## Main definitions

* `Hash.hmacSha256`: The keyed digest of a message.
-/

namespace Bitcoin.Hash

/-- The key as one block of sixty-four bytes. -/
def keyBlock (key : Bytes) : Bytes :=
  let short := if 64 < key.length then (sha256 key).bytes else key
  short ++ List.replicate (64 - short.length) 0

/-- The HMAC-SHA256 of a message under a key. -/
def hmacSha256 (key message : Bytes) : ByteVec 32 :=
  let block := keyBlock key
  let inner := sha256 (block.map (· ^^^ 0x36) ++ message)
  sha256 (block.map (· ^^^ 0x5c) ++ inner.bytes)

end Bitcoin.Hash
