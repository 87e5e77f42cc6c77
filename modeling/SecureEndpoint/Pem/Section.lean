/-
The sections of a text file: a line that begins a section and names it, lines in base64, and a line that ends it.

A line ends at a line feed or a carriage return. A section begins with a line that starts with five hyphens and BEGIN;
behind its name nothing but five hyphens and spaces may follow. Sections with a name of the list `knownLabels` are
decoded, others are passed over. Reading stops at the first fault, but what was read before it counts.
-/
import SecureEndpoint.Pem.Base64
import SecureEndpoint.Text.Lossy
import SecureEndpoint.Text.Quoted

namespace SecureEndpoint.Pem

open Der (Bytes)

/-- the bytes of a text -/
def ofText (s : String) : Bytes := s.toUTF8.toList

/-- a section: its name and its contents -/
structure Section where
  label : Bytes
  contents : Bytes
  deriving DecidableEq, Repr

/-- why no more sections could be read -/
inductive SectionFault where
  /-- a line begins a section in a wrong way -/
  | start (line : Bytes)
  /-- the end of a section is missing -/
  | unfinished (label : Bytes)
  /-- the contents are not base64 -/
  | contents (e : Base64Error)
  deriving DecidableEq, Repr

/-- the text of a fault -/
def SectionFault.message : SectionFault → String
  | .start line => "illegal section start: " ++ Text.quote (Text.lossy line)
  | .unfinished label => "section end " ++ Text.quote (Text.lossy label) ++ " missing"
  | .contents e => e.message

/-- what a file holds: the sections up to the first fault, and that fault -/
structure Sections where
  found : List Section
  fault : Option SectionFault
  deriving Repr

/-- the names of the sections that are decoded -/
def knownLabels : List Bytes :=
  ["CERTIFICATE", "PUBLIC KEY", "RSA PRIVATE KEY", "PRIVATE KEY", "EC PRIVATE KEY", "X509 CRL", "CERTIFICATE REQUEST",
    "ECHCONFIG"].map ofText

/-- the lines of a text, with their ends -/
def linesOf (line : Bytes) : Bytes → List Bytes
  | [] => if line = [] then [] else [line.reverse]
  | b :: rest => if b = 10 || b = 13 then (b :: line).reverse :: linesOf [] rest else linesOf (b :: line) rest

/-- what a line that begins a section starts with -/
def beginMark : Bytes := ofText "-----BEGIN "

/-- what a line that ends a section starts with -/
def endMark : Bytes := ofText "-----END "

/-- five hyphens -/
def hyphens : Bytes := ofText "-----"

/-- the name in a line that begins a section, if exactly five hyphens follow it; spaces do not count -/
def labelOf (line : Bytes) : Option Bytes :=
  let trailer := (line.drop beginMark.length).reverse.takeWhile fun b => b = hyphen || b = 10 || b = 13 || b = 32
  if trailer.count hyphen = 5 then
    let behind := (trailer.reverse.dropWhile (· ≠ hyphen)).length
    some ((line.drop beginMark.length).take (line.length - beginMark.length - behind))
  else none

/-- the line ends the section of this name -/
def isEnd (label line : Bytes) : Bool := (endMark ++ label ++ hyphens).isPrefixOf line

/-- reads the sections of the lines, inside the section of this name behind these characters -/
def sectionsFrom (label : Option Bytes) (text : Bytes) : List Bytes → Sections
  | [] => { found := [], fault := label.map .unfinished }
  | line :: rest =>
    if beginMark.isPrefixOf line then
      match labelOf line with
      | some l => sectionsFrom (some l) text rest
      | none => { found := [], fault := some (.start line) }
    else match label with
      | none => sectionsFrom none text rest
      | some l =>
        if !isEnd l line then sectionsFrom label (text ++ line) rest
        else if !knownLabels.contains l then sectionsFrom none [] rest
        else match decodeOptional text with
          | .error e => { found := [], fault := some (.contents e) }
          | .ok contents =>
            let more := sectionsFrom none [] rest
            { more with found := ⟨l, contents⟩ :: more.found }

/-- the sections of a file -/
def sections (s : Bytes) : Sections := sectionsFrom none [] (linesOf [] s)

/-- the contents of all sections with one of these names; a fault anywhere is an error -/
def Sections.all (x : Sections) (labels : List Bytes) : Except SectionFault (List Bytes) :=
  match x.fault with
  | some f => .error f
  | none => .ok ((x.found.filter fun s => labels.contains s.label).map Section.contents)

/-- the first section with one of these names; a fault in front of it is an error -/
def Sections.first (x : Sections) (labels : List Bytes) : Except SectionFault (Option Section) :=
  match x.found.find? fun s => labels.contains s.label with
  | some s => .ok (some s)
  | none =>
    match x.fault with
    | some f => .error f
    | none => .ok none

end SecureEndpoint.Pem
