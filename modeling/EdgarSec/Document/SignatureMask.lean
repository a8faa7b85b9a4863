import EdgarSec.Foundation.Lines
import EdgarSec.Lib.Cuts
import EdgarSec.Lib.Substitution

/-! Signature regions of a text: where they are, the tokens that stand for their lines, and what is put
back for the tokens. -/

namespace EdgarSec.Document
open Foundation Lib Substitution

structure SignatureRegion where
  startLine : Nat
  endLine : Nat
  aligned : Bool
  confidence : String
  signerCount : Nat
  lines : List Chars

structure SignatureRules where
  signatureRow : Chars → Chars → Bool
  signatureHeader : Chars → Bool
  conformedLine : Chars → Bool
  layoutGap : Chars → Bool

/-! ## Regions -/

section Regions
variable (rules : SignatureRules)

/-- The inner loop of `find_signature_regions`: the line it stops at, the last line with a signal and
the signers. -/
def extendRegion : List Chars → Nat → Nat → Nat → Chars → Nat × Nat × Nat
  | [], index, lastSignal, signerCount, _ => (index, lastSignal, signerCount)
  | line :: rest, index, lastSignal, signerCount, previous =>
    if stripChars line = [] then extendRegion rest (index + 1) lastSignal signerCount previous
    else if rules.signatureRow line previous then
      extendRegion rest (index + 1) index (signerCount + (rules.conformedLine line).toNat) line
    else (index, lastSignal, signerCount)

def isHeader (line : Chars) : Bool :=
  (line.dropWhile isPySpace).head?.any (fun c => "sSnN".toList.contains c) && rules.signatureHeader line

def regionsFrom (source : List Chars) : Nat → Nat → List SignatureRegion
  | 0, _ => []
  | fuel + 1, index =>
    match source[index]? with
    | none => []
    | some line =>
      if !isHeader rules line && !rules.signatureRow line [] then regionsFrom source fuel (index + 1)
      else
        let (next, lastSignal, signerCount) := extendRegion rules (source.drop (index + 1)) (index + 1) index 0 []
        let later := regionsFrom source fuel (max next (lastSignal + 1))
        if index < lastSignal ∧ (isHeader rules line ∨ 0 < signerCount) then
          let lines := slice source index (lastSignal + 1)
          { startLine := index
            endLine := lastSignal + 1
            aligned := decide (2 ≤ lines.countP rules.layoutGap)
            confidence := if isHeader rules line ∧ 0 < signerCount then "0.95" else "0.8"
            signerCount
            lines } :: later
        else later

def findSignatureRegions (source : List Chars) : List SignatureRegion := regionsFrom rules source (source.length + 1) 0

end Regions

/-! ## Tokens -/

def sigLead : Chars := "__SEC_SIG_".toList

def sigToken (region line : Nat) : Chars := sigLead ++ (Nat.toDigits 10 region ++ ('_' :: (Nat.toDigits 10 line ++ ['_', '_'])))

/-- `line.rstrip("\r\n")` -/
def stripEnd (line : Chars) : Chars := line.rdropWhile fun c => c = '\r' || c = '\n'

def endingOf (line : Chars) : Chars := if line.getLast? = some '\n' then ['\n'] else []

def maskStep (index : Nat) (masked : Chars) (numbered : SignatureRegion × Nat) : Chars :=
  if numbered.1.startLine ≤ index ∧ index < numbered.1.endLine then
    sigToken numbered.2 (index - numbered.1.startLine) ++ endingOf masked
  else masked

def maskLine (regions : List SignatureRegion) (index : Nat) (line : Chars) : Chars := regions.zipIdx.foldl (maskStep index) line

def maskSignatureRegions (u : Unicode) (rules : SignatureRules) (text : Chars) : Chars × List SignatureRegion :=
  let mentions (word : String) : Bool := decide (word.toList <:+: u.lowered text)
  if !text.contains '/' && !text.contains '*' && !mentions "signature" && !mentions "name" then (text, [])
  else
    let lines := splitlinesKeep text
    let regions := findSignatureRegions rules (lines.map stripEnd)
    if regions.isEmpty then (text, []) else ((lines.mapIdx (maskLine regions)).flatten, regions)

def restoreSignatureRegions (text : Chars) (regions : List SignatureRegion) : Chars :=
  regions.zipIdx.foldl (fun restored (region, number) =>
    region.lines.zipIdx.foldl (fun restored (line, index) => replaceAll (sigToken number index) line restored) restored) text

end EdgarSec.Document
