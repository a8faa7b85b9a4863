import EdgarSec.Foundation.Strings
import EdgarSec.Foundation.Text
import EdgarSec.Lib.Cuts
import EdgarSec.Lib.Dict

/-! Page markers of a text and their removal: each marker is widened to the range that is cut, the
ranges are merged, and the text is put together from what is between them. -/

namespace EdgarSec.Document
open Foundation Lib

/-! ## Markers, decisions and artifacts -/

inductive PageMarkerKind where
  | sgml
  | dashedNumber
  | pageNumber
  | numberOfTotal
  | pageNumberOfTotal
  | letterNumber
  | appendixRoman
  | bareNumber
  | romanNumber
  | pipeNumber
  | parenNumber
  | dottedNumber
  | numberFirst
  | trailingNumber
  | inlinePageNumber
  | boundary
  | htmlNode
  | tableFooter
  | repeatingHeader
  | repeatingFooter
  deriving DecidableEq

def PageMarkerKind.value : PageMarkerKind → String
  | .sgml => "sgml"
  | .dashedNumber => "dashed_number"
  | .pageNumber => "page_number"
  | .numberOfTotal => "number_of_total"
  | .pageNumberOfTotal => "page_number_of_total"
  | .letterNumber => "letter_number"
  | .appendixRoman => "appendix_roman"
  | .bareNumber => "bare_number"
  | .romanNumber => "roman_number"
  | .pipeNumber => "pipe_number"
  | .parenNumber => "paren_number"
  | .dottedNumber => "dotted_number"
  | .numberFirst => "number_first"
  | .trailingNumber => "trailing_number"
  | .inlinePageNumber => "inline_page_number"
  | .boundary => "boundary"
  | .htmlNode => "html_node"
  | .tableFooter => "table_footer"
  | .repeatingHeader => "repeating_header"
  | .repeatingFooter => "repeating_footer"

def PageMarkerKind.repeating (kind : PageMarkerKind) : Bool :=
  kind = .repeatingHeader || kind = .repeatingFooter

inductive PageMarkerAction where
  | remove
  | normalize
  | preserve
  deriving DecidableEq

structure PageMarker where
  start : Nat
  stop : Nat
  text : String
  kind : PageMarkerKind
  pageNumber : Option Nat
  startLine : Option Nat
  endLine : Option Nat
  markerNamespace : String
  coordinateFrame : String
  ordered : start ≤ stop

structure PageMarkerDecision where
  marker : PageMarker
  action : PageMarkerAction

structure PageMarkerAnalysis where
  decisions : List PageMarkerDecision
  sourceText : List Char
  sourceIdentity : String
  within : ∀ decision ∈ decisions, decision.marker.stop ≤ sourceText.length

structure PageBreakArtifact where
  pageNumber : Option Nat
  artifactNamespace : Option String
  source : String
  coordinateFrame : String
  sourceIdentity : String
  start : Nat
  stop : Nat
  startLine : Option Nat
  endLine : Option Nat
  removable : Bool
  templateId : Option String
  deriving DecidableEq

structure TemplateEntry where
  kind : PageMarkerKind
  renderedText : String
  occurrences : Nat
  pageNumberSlot : Option Nat
  deriving DecidableEq

/-- The patterns and character tables that are not spelled out here: word characters and lower-case
letters, `NEGATIVE_BOUNDARY_RE`, `normalize_template_text`, and the digests. -/
structure MarkerRules where
  isWord : Char → Bool
  isLower : Char → Bool
  negativeBoundary : List Char → Bool
  normalizeTemplateText : String → String × Option Nat
  sha1 : Bytes → String
  sha256 : Bytes → String

section
variable (rules : MarkerRules)

/-! ## Tables -/

/-- The length of `</TABLE\s*>` at the head of a text. -/
def tableCloses (cs : List Char) : Option Nat :=
  if startsCaseless "</table" cs then
    let blanks := ((cs.drop 7).takeWhile isPySpace).length
    if (cs.drop (7 + blanks)).head? = some '>' then some (8 + blanks) else none
  else none

/-- `.*?</TABLE\s*>`: up to the end of the first closing tag. -/
def throughClose : List Char → Option Nat
  | [] => none
  | c :: cs =>
    match tableCloses (c :: cs) with
    | some n => some n
    | none => (throughClose cs).map (· + 1)

/-- The length of `<TABLE\b.*?</TABLE\s*>` at the head of a text. -/
def tableLength (cs : List Char) : Option Nat :=
  if startsCaseless "<table" cs && !(cs.drop 6).head?.any rules.isWord then
    (throughClose (cs.drop 6)).map (· + 6)
  else none

/-- `finditer`: the start, the end and the lines of each table. The characters of a match are skipped. -/
def scanTables (pos skip : Nat) : List Char → List (Nat × Nat × Nat)
  | [] => []
  | c :: cs =>
    match skip with
    | skip + 1 => scanTables (pos + 1) skip cs
    | 0 =>
      match tableLength rules (c :: cs) with
      | none => scanTables (pos + 1) 0 cs
      | some n =>
        (pos, pos + n, ((c :: cs).take n).count '\n' + 1) :: scanTables (pos + 1) (n - 1) cs

def findTableRanges (document : List Char) : List (Nat × Nat × Nat) :=
  if document.tails.any (startsCaseless "<table") then scanTables rules 0 0 document else []

def maxCompactTableLines : Nat := 5

def compactTables (document : List Char) : List (Nat × Nat) :=
  ((findTableRanges rules document).filter fun (_, _, lines) => lines ≤ maxCompactTableLines).map
    fun (start, stop, _) => (start, stop)

def oversizedTables (document : List Char) : List (Nat × Nat) :=
  ((findTableRanges rules document).filter fun (_, _, lines) => maxCompactTableLines < lines).map
    fun (start, stop, _) => (start, stop)

/-! ## The range of one marker -/

def touches (start stop : Nat) (table : Nat × Nat) : Bool := table.1 < stop && start < table.2

def expandTableRange (start stop : Nat) (tables : List (Nat × Nat)) : Nat × Nat :=
  (tables.find? (touches start stop)).getD (start, stop)

def wholeLines (document : List Char) (start stop : Nat) : Bool :=
  (start = 0 || document[start - 1]? = some '\n') && (document.length ≤ stop || document[stop]? = some '\n')

def widenedStop (document : List Char) (start stop : Nat) : Nat :=
  if wholeLines document start stop && stop < document.length then stop + 1 else stop

def removalRange (document : List Char) (tables : List (Nat × Nat)) (marker : PageMarker) : Nat × Nat :=
  expandTableRange marker.start (widenedStop document marker.start marker.stop) tables

def selects (oversized : List (Nat × Nat)) (decision : PageMarkerDecision) : Bool :=
  decision.action ≠ .preserve && decision.marker.coordinateFrame = "text" &&
    !(decision.marker.kind.repeating && oversized.any (touches decision.marker.start decision.marker.stop))

def selectedMarkers (document : List Char) (analysis : PageMarkerAnalysis) : List PageMarker :=
  (analysis.decisions.filter (selects (oversizedTables rules document))).map PageMarkerDecision.marker

/-! ## Artifacts and templates -/

def artifactForMarker (marker : PageMarker) (sourceIdentity : String) : PageBreakArtifact where
  pageNumber := marker.pageNumber
  artifactNamespace := if marker.markerNamespace = "" then none else some marker.markerNamespace
  source :=
    match marker.kind with
    | .sgml => "sgml-page-tag"
    | .boundary => "boundary-marker"
    | kind => kind.value
  coordinateFrame := marker.coordinateFrame
  sourceIdentity := sourceIdentity
  start := marker.start
  stop := marker.stop
  startLine := marker.startLine
  endLine := marker.endLine
  removable := true
  templateId := none

def templateIdLength : Nat := 16

def noteTemplate (templates : Dict String TemplateEntry) (kind : PageMarkerKind) (capturedText : String) :
    String × Dict String TemplateEntry :=
  let (rendered, slot) := rules.normalizeTemplateText capturedText
  if rendered = "" then ("", templates)
  else
    let templateId := String.ofList ((rules.sha1 (utf8 rendered)).toList.take templateIdLength)
    let entry := (templates.get? templateId).getD ⟨kind, rendered, 0, slot⟩
    (templateId, templates.set templateId { entry with occurrences := entry.occurrences + 1 })

def noteArtifact (sourceIdentity : String) (templates : Dict String TemplateEntry) (marker : PageMarker) :
    PageBreakArtifact × Dict String TemplateEntry :=
  let artifact := artifactForMarker marker sourceIdentity
  if marker.kind.repeating then
    let (templateId, templates) := noteTemplate rules templates marker.kind marker.text
    if templateId = "" then (artifact, templates) else ({ artifact with templateId := some templateId }, templates)
  else (artifact, templates)

def noteArtifacts (sourceIdentity : String) (templates : Dict String TemplateEntry) :
    List PageMarker → List PageBreakArtifact × Dict String TemplateEntry
  | [] => ([], templates)
  | marker :: rest =>
    let (artifact, templates) := noteArtifact rules sourceIdentity templates marker
    let (artifacts, templates) := noteArtifacts sourceIdentity templates rest
    (artifact :: artifacts, templates)

def mergedRanges (document : List Char) (markers : List PageMarker) (artifacts : List PageBreakArtifact) :
    List (Cut PageBreakArtifact) :=
  mergeCuts ((markers.zip artifacts).map fun (marker, artifact) =>
    let (start, stop) := removalRange document (compactTables rules document) marker
    ⟨start, stop, [artifact]⟩)

/-! ## Putting the text together -/

section Assembly
variable {α μ : Type} (blank : α → Bool) (space : α) (needsJoin : List α → List α → Bool)

def healSegments : List (List α) → List (List α)
  | [] => []
  | segment :: rest => if segment.all blank then [] :: healSegments rest else segment.dropWhile blank :: rest

def boundaryWindow : Nat := 2000

def followingWindow (segments : List (List α)) : List α :=
  match segments.find? fun segment => !segment.all blank with
  | none => []
  | some segment => (segment.dropWhile blank).take boundaryWindow

def precedingWindow (document : List α) (start : Nat) : List α :=
  (slice document (start - boundaryWindow) start).rdropWhile blank

def joins (document : List α) (segments : List (List α)) (start : Nat) : Bool :=
  needsJoin (precedingWindow blank document start) (followingWindow blank segments) &&
    (!(precedingWindow blank document start).isEmpty || !(document.take start).all blank) &&
    !(followingWindow blank segments).isEmpty

def assembleSegments (document : List α) : List (Cut μ) → List (List α) → List (List α)
  | [], segments => segments
  | c :: before, segments =>
    let intervening := slice document (before.head?.elim 0 Cut.stop) c.start
    assembleSegments document before
      (if joins blank needsJoin document segments c.start then
        (intervening.rdropWhile blank ++ [space]) :: healSegments blank segments
      else intervening :: segments)

def stripText (document : List α) (cuts : List (Cut μ)) : List α :=
  (assembleSegments blank space needsJoin document cuts [document.drop (cuts.head?.elim 0 Cut.stop)]).flatten

end Assembly

/-- `RE_TERMINAL_BOUNDARY.search` -/
def endsSentence (preceding : List Char) : Bool :=
  (preceding.rdropWhile isPySpace).getLast?.any fun c => c ∈ ['.', ':', ';', '!', '?', '"', '\x27', '”', '’', ')']

def needsJoin (preceding following : List Char) : Bool :=
  preceding ≠ [] && following ≠ [] && !endsSentence preceding && following.head?.any rules.isLower &&
    !rules.negativeBoundary following

structure StripResult where
  text : List Char
  artifacts : List PageBreakArtifact
  templates : Dict String TemplateEntry
  nextId : Nat

def usedAnalysis (analyzePageMarkers : List Char → PageMarkerAnalysis) (document : List Char)
    (analysis : Option PageMarkerAnalysis) : PageMarkerAnalysis :=
  match analysis with
  | none => analyzePageMarkers document
  | some analysis => if analysis.sourceText = document then analysis else analyzePageMarkers document

def plannedCuts (document : List Char) (analysis : PageMarkerAnalysis) :
    List (Cut PageBreakArtifact) × Dict String TemplateEntry :=
  let sourceIdentity := if analysis.sourceIdentity = "" then rules.sha256 (utf8 (String.ofList document))
    else analysis.sourceIdentity
  let markers := selectedMarkers rules document analysis
  let (artifacts, templates) := noteArtifacts rules sourceIdentity .empty markers
  (mergedRanges rules document markers artifacts, templates)

/-- `apply_page_markers` under the policy that strips. -/
def applyPageMarkers (analyzePageMarkers : List Char → PageMarkerAnalysis) (document : List Char)
    (analysis : Option PageMarkerAnalysis) (firstId : Nat) : StripResult :=
  if document = [] then ⟨[], [], .empty, firstId⟩
  else
    let (cuts, templates) := plannedCuts rules document (usedAnalysis analyzePageMarkers document analysis)
    if cuts = [] then ⟨document, [], templates, firstId⟩
    else ⟨stripText isPySpace ' ' (needsJoin rules) document cuts, cuts.reverse.flatMap Cut.members, templates,
      firstId + cuts.length⟩

end
end EdgarSec.Document
