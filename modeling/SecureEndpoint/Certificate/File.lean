/-
Certificates in a file of blocks.

Blocks with other names are passed over. A broken block, a certificate behind a header, and one that cannot be read make
the whole file unreadable.
-/
import SecureEndpoint.Certificate.Lenient
import SecureEndpoint.Pem.Block

namespace SecureEndpoint.Certificate.Lenient

/-- the names of blocks that hold certificates -/
def certificateLabels : List Der.Bytes := ["CERTIFICATE", "X509 CERTIFICATE"].map Pem.ofText

/-- the certificates in the blocks -/
def certificatesOfBlocks : List (Option Pem.Block) → Option (List Certificate)
  | [] => some []
  | none :: _ => none
  | some b :: rest =>
    if !certificateLabels.contains b.label then certificatesOfBlocks rest
    else if b.header ≠ [] then none
    else match certificate b.contents with
      | some (c, _) => (certificatesOfBlocks rest).map (c :: ·)
      | none => none

/-- the certificates in a file -/
def certificatesOfFile (s : Der.Bytes) : Option (List Certificate) := certificatesOfBlocks (Pem.blocks s)

end SecureEndpoint.Certificate.Lenient
