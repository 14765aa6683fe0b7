import Switchboard.Digest.Sha1
import Switchboard.Digest.Sha256
/-!
# Keyed digests

The hash of the message behind the key, twice, with the key padded to a block of 64 bytes.
-/
namespace Switchboard.Digest

def keyed (digest : Bytes → Bytes) (key message : Bytes) : Bytes :=
  let short := if key.length > 64 then digest key else key
  let block := short ++ List.replicate (64 - short.length) 0
  digest (block.map (· ^^^ 0x5c) ++ digest (block.map (· ^^^ 0x36) ++ message))

def keyedSha1 (key message : Bytes) : Bytes := keyed Sha1.digest key message

def keyedSha256 (key message : Bytes) : Bytes := keyed Sha256.digest key message

end Switchboard.Digest
