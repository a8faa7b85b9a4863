import EdgarSec.Document.FirmMarkers

/-! `analyze_repeating_headers`: text that repeats beside the anchors of a document, as blocks of lines. -/

namespace EdgarSec.Document
open Foundation Lib

inductive FurnitureSide where
  | header
  | footer
  deriving DecidableEq

inductive UnitKind where
  | table
  | list
  | paragraph
  deriving DecidableEq

structure HeaderRules where
  standaloneTag : Chars → Bool
  pageTokens : Chars → Chars
  standalonePageNumbers : Chars → Chars
  trailingNumber : Chars → Chars
  proseStopWords : Chars → List Chars
  itemHeading : Chars → Bool
  barePercent : Chars → Bool
  checkboxLine : Chars → Bool
  gutters : Chars → List Nat
  separatorLine : Chars → Bool
  listMarker : Chars → Bool
  isAlpha : Char → Bool

def maxFurnitureLines : Nat := 8
def maxFurnitureChars : Nat := 1200
def localDensity : ℚ := 65 / 100
def maxAnchorGap : Nat := 2
def persistentMinAnchors : Nat := 8
def persistentMinPresence : ℚ := 5 / 100
def persistentMinClusters : Nat := 3
def maxFurnitureTableLines : Nat := 5
def minBannerWords : Nat := 3

structure Observation where
  side : FurnitureSide
  slot : Nat
  template : Chars
  lineIndex : Nat
  raw : Chars
  anchorPosition : Nat
  anchorLine : Option Nat
  deriving DecidableEq

structure TemplateEvidence where
  side : FurnitureSide
  position : Nat
  template : Chars
  occurrences : Nat
  presence : ℚ
  kind : PageMarkerKind
  lines : List Nat
  cohortStartLine : Option Nat
  cohortEndLine : Option Nat
  role : String
  retention : String

section Lines
variable (u : Unicode) (rules : HeaderRules)

/-- `_WHITESPACE_RE.sub(" ", text)` -/
def collapseSpace : Chars → Chars
  | [] => []
  | c :: rest =>
    if isPySpace c then
      match rest with
      | [] => [' ']
      | d :: _ => if isPySpace d then collapseSpace rest else ' ' :: collapseSpace rest
    else c :: collapseSpace rest

def cleanTemplate (line : Chars) : Chars :=
  let normalized := rules.standalonePageNumbers (rules.pageTokens (collapseSpace (u.folded (stripChars line))))
  let trailing := rules.trailingNumber normalized
  let alphaWords := (Lexical.pySplit trailing).countP fun word => word.any fun c => 'a' ≤ c && c ≤ 'z'
  if minBannerWords ≤ alphaWords then stripChars trailing else stripChars normalized

def looksLikeProse (text : Chars) : Bool := 6 ≤ (Lexical.pySplit text).length && 3 ≤ (rules.proseStopWords text).dedup.length

def isOpenTag (line : Chars) : Bool := u.folded (stripChars line) = "<table>".toList

def isCloseTag (line : Chars) : Bool := u.folded (stripChars line) = "</table>".toList

def isTableTag (line : Chars) : Bool := isOpenTag u line || isCloseTag u line

def isPageTag (line : Chars) : Bool := u.folded (stripChars line) ∈ ["<page>".toList, "</page>".toList]

def eligibleLine (line : Chars) (tocLines : List Nat) (index : Nat) (unitKind : Option UnitKind) (allowTable : Bool) : Bool :=
  let stripped := stripChars line
  if stripped = [] ∨ index ∈ tocLines then false
  else if isTableTag u line then false
  else if rules.standaloneTag stripped then false
  else if unitKind = some .table ∧ !allowTable then false
  else if looksLikeProse rules stripped then false
  else if rules.itemHeading stripped then false
  else if rules.barePercent stripped then false
  else if rules.checkboxLine stripped then false
  else stripped.length ≤ 140

/-! ## Units -/

def hasGutter (line : Chars) : Bool := decide ("  ".toList <:+: line)

def isTableRow (line : Chars) : Bool :=
  if stripChars line = [] then false
  else if hasGutter line && rules.gutters line ≠ [] then true
  else rules.separatorLine (stripChars line)

def positionsOverlap (reference candidate : List Nat) : Bool :=
  reference.any fun a => candidate.any fun b => a ≤ b + 2 && b ≤ a + 2

def rowsAreAligned (lines : List Chars) : Bool :=
  match (lines.map fun line => if hasGutter line then rules.gutters line else []).filter (· ≠ []) with
  | [] => false
  | [_] => false
  | reference :: others => (others.length + 1) / 2 ≤ others.countP fun positions => positionsOverlap reference positions

def isListItem (line : Chars) : Bool :=
  match Lexical.pySplit (stripChars line) with
  | [] => false
  | token :: _ => rules.listMarker token

/-- `_classify_block`, of lines that are not blank -/
def classifyBlock (lines : List Chars) : UnitKind :=
  let rows := lines.countP (isTableRow rules)
  if rows = lines.length ∧ 2 ≤ lines.length ∧ rowsAreAligned rules lines then .table
  else if 1 ≤ rows ∧ 2 ≤ lines.length ∧ lines.length / 2 ≤ rows ∧ rowsAreAligned rules lines then .table
  else if lines.all (isListItem rules) then .list
  else .paragraph

def blocksFrom (current : List (Chars × Nat)) : List (Chars × Nat) → List (List (Chars × Nat))
  | [] => if current = [] then [] else [current]
  | (line, index) :: rest =>
    if stripChars line = [] then (if current = [] then [] else [current]) ++ blocksFrom [] rest
    else blocksFrom (current ++ [(line, index)]) rest

/-- The kind of the unit of a line, by `classify_units`. -/
def unitAt (lines : List Chars) (index : Nat) : Option UnitKind :=
  ((blocksFrom [] lines.zipIdx).find? fun block => block.any fun p => p.2 = index).map fun block => classifyBlock rules (block.map Prod.fst)

/-- `str.count` -/
def countFrom (pattern : Chars) : Nat → Chars → Nat
  | _, [] => 0
  | 0, c :: rest => if pattern.isPrefixOf (c :: rest) then countFrom pattern (pattern.length - 1) rest + 1 else countFrom pattern 0 rest
  | skip + 1, _ :: rest => countFrom pattern skip rest

def tagLine (state : Nat × List Nat) (line : Chars × Nat) : Nat × List Nat :=
  let (depth, tagged) := state
  if '<' ∈ line.1 then
    let stripped := u.folded (stripChars line.1)
    let inside := depth + countFrom "<table>".toList 0 stripped
    (inside - countFrom "</table>".toList 0 stripped, if inside = 0 then tagged else tagged ++ [line.2])
  else (depth, if depth = 0 then tagged else tagged ++ [line.2])

def unitsByLine (lines : List Chars) (index : Nat) : Option UnitKind :=
  if index ∈ (lines.zipIdx.foldl (tagLine u) (0, [])).2 then some .table else unitAt rules lines index

/-! ## Windows -/

def skipBoundary (lines : List Chars) (direction : Int) (boundary : List Nat) : Nat → Int → Int
  | 0, index => index
  | fuel + 1, index =>
    if 0 ≤ index ∧ index < lines.length ∧ (index.toNat ∈ boundary ∨ isPageTag u (lines.getD index.toNat [])) then
      skipBoundary lines direction boundary fuel (index + direction)
    else index

def windowFrom (lines : List Chars) (direction : Int) (boundary : List Nat) (allowTable : Bool) : Nat → Int → Nat → Nat → List Nat
  | 0, _, _, _ => []
  | fuel + 1, index, characters, taken =>
    if index < 0 ∨ (lines.length : Int) ≤ index ∨ maxFurnitureLines ≤ taken then []
    else
      let i := index.toNat
      let line := lines.getD i []
      if i ∈ boundary then []
      else if stripChars line = [] then windowFrom lines direction boundary allowTable fuel (index + direction) characters taken
      else if isPageTag u line then []
      else if isTableTag u line then
        if !allowTable then []
        else if 0 < direction ∧ isOpenTag u line then
          match (List.range' (i + 1) (min lines.length (i + maxFurnitureLines) - (i + 1))).find? fun j => isCloseTag u (lines.getD j []) with
          | none => []
          | some close => List.range' i (close + 1 - i) ++
              windowFrom lines direction boundary allowTable fuel (close + 1) characters (taken + (close + 1 - i))
        else if direction < 0 ∧ isCloseTag u line then
          match (List.range' (i + 1 - maxFurnitureLines) (i - (i + 1 - maxFurnitureLines))).reverse.find? fun j => isOpenTag u (lines.getD j []) with
          | none => []
          | some first => (List.range' first (i + 1 - first)).reverse ++
              windowFrom lines direction boundary allowTable fuel ((first : Int) - 1) characters (taken + (i + 1 - first))
        else []
      else if rules.standaloneTag (stripChars line) then []
      else if maxFurnitureChars < characters + line.length then []
      else i :: windowFrom lines direction boundary allowTable fuel (index + direction) (characters + line.length) (taken + 1)

/-- `collect_window`: the indices of its lines. Every step moves on, so the lines of the document are fuel enough. -/
def collectWindow (lines : List Chars) (anchor direction : Int) (boundary : List Nat) (allowTable : Bool) : List Nat :=
  let fuel := lines.length + 1
  windowFrom u rules lines direction boundary allowTable fuel (skipBoundary u lines direction boundary fuel (anchor + direction)) 0 0

def deduplicateAnchors : List Nat → List Nat
  | [] => []
  | first :: rest => rest.foldl (fun kept line => if kept.getLastD first + 2 < line then kept ++ [line] else kept) [first]

/-! ## Observations -/

def sideScan (lines : List Chars) (side : FurnitureSide) (anchors : List Nat) : List (Int × Option Nat) :=
  let own : List (Int × Option Nat) := anchors.map fun line : Nat => ((line : Int), some line)
  match side with
  | .header => if 3 ≤ anchors.length then (-1, none) :: own else own
  | .footer => if 3 ≤ anchors.length then own ++ [((lines.length : Int), none)] else own

def FurnitureSide.direction : FurnitureSide → Int
  | .header => 1
  | .footer => -1

def observeAnchor (lines : List Chars) (tocLines boundary : List Nat) (allowTable : Bool) (side : FurnitureSide)
    (anchor : (Int × Option Nat) × Nat) : List Observation :=
  (collectWindow u rules lines anchor.1.1 side.direction boundary allowTable).zipIdx.filterMap fun (index, slot) =>
    let line := lines.getD index []
    let template := cleanTemplate u rules line
    if eligibleLine u rules line tocLines index (unitsByLine u rules lines index) allowTable ∧ template ≠ [] then
      some ⟨side, slot, template, index, line, anchor.2, anchor.1.2⟩
    else none

def observe (lines : List Chars) (tocLines boundary : List Nat) (allowTable : Bool) (scan : FurnitureSide → List (Int × Option Nat)) :
    List Observation :=
  [FurnitureSide.header, FurnitureSide.footer].flatMap fun side =>
    (scan side).zipIdx.flatMap (observeAnchor u rules lines tocLines boundary allowTable side)

end Lines

/-! ## Groups -/

abbrev GroupKey := FurnitureSide × Nat × Chars

def Observation.key (o : Observation) : GroupKey := (o.side, o.slot, o.template)

def observationGroups (observations : List Observation) : List (GroupKey × List Observation) :=
  (observations.map Observation.key).eraseDups.map fun key => (key, observations.filter fun o => o.key = key)

/-- Anchor positions, increasing, cut where more than `MAX_ANCHOR_GAP` lies between two. -/
def anchorRuns : List Nat → List (List Nat)
  | [] => []
  | p :: rest =>
    match anchorRuns rest with
    | (q :: run) :: runs => if maxAnchorGap < q - p then [p] :: (q :: run) :: runs else (p :: q :: run) :: runs
    | _ => [[p]]

def positionsOf (members : List Observation) : List Nat := ((members.map Observation.anchorPosition).dedup).insertionSort (· ≤ ·)

structure ObservedGroup where
  key : GroupKey
  members : List Observation
  first : Nat
  last : Nat
  presence : ℚ

def clusters (key : GroupKey) (members : List Observation) : List ObservedGroup :=
  (anchorRuns (positionsOf members)).map fun run =>
    let first := run.headD 0
    let last := run.getLastD 0
    ⟨key, members.filter fun m => m.anchorPosition ∈ run, first, last, (run.length : ℚ) / ((last - first + 1 : Nat) : ℚ)⟩

def denseCluster (allowTable : Bool) (cluster : ObservedGroup) : Bool :=
  let positions := positionsOf cluster.members
  3 ≤ positions.length && !decide (cluster.presence < localDensity) &&
    !(positions.length = 3 && !allowTable && decide (cluster.presence < 1))

def persistentGroup (anchorCount : Nat) (group : GroupKey × List Observation) : Option ObservedGroup :=
  let positions := positionsOf group.2
  let presence : ℚ := (positions.length : ℚ) / anchorCount
  if persistentMinAnchors ≤ positions.length ∧ persistentMinPresence ≤ presence ∧
      (persistentMinClusters ≤ (clusters group.1 group.2).length ∨ (8 ≤ positions.length ∧ 5 / 100 ≤ presence)) then
    some ⟨group.1, group.2, 0, anchorCount - 1, presence⟩
  else none

def observedGroups (allowTable : Bool) (anchorCount : FurnitureSide → Nat) (groups : List (GroupKey × List Observation)) : List ObservedGroup :=
  let dense := groups.flatMap fun group => (clusters group.1 group.2).filter (denseCluster allowTable)
  let persistent := groups.filter fun group => !dense.any fun accepted => accepted.key = group.1
  dense ++ persistent.filterMap fun group => persistentGroup (anchorCount group.1.1) group

def byAnchor (a b : Observation) : Prop :=
  a.anchorPosition < b.anchorPosition ∨ (a.anchorPosition = b.anchorPosition ∧ a.lineIndex ≤ b.lineIndex)

instance : DecidableRel byAnchor := fun _ _ => inferInstanceAs (Decidable (_ ∨ _))

def ObservedGroup.distance (group : ObservedGroup) (position : Nat) : Nat :=
  if group.first ≤ position + 1 ∧ position ≤ group.last + 1 then 0
  else min (max position group.first - min position group.first) (max position group.last - min position group.last)

def nearestGroup (observed : List ObservedGroup) (o : Observation) : Option Nat :=
  let near := observed.zipIdx.filter fun p => p.1.key.1 = o.side && p.1.key.2.2 = o.template
  (near.foldl (fun best p =>
    let distance := p.1.distance o.anchorPosition
    match best with
    | none => some (p.2, distance)
    | some (index, least) => if distance < least then some (p.2, distance) else some (index, least)) none).map Prod.fst

def augment (observed : List ObservedGroup) (members : List (List Observation)) (o : Observation) : List (List Observation) :=
  if members.any fun group => o ∈ group then members
  else match nearestGroup observed o with
    | none => members
    | some index => members.modify index (· ++ [o])

/-! ## Tables that are furniture -/

def tableStep (u : Unicode) (state : List Nat × List (Nat × Nat)) (line : Chars × Nat) : List Nat × List (Nat × Nat) :=
  if isOpenTag u line.1 then (line.2 :: state.1, state.2)
  else if isCloseTag u line.1 then
    match state.1 with
    | [] => state
    | start :: rest => (rest, state.2 ++ [(start, line.2)])
  else state

def taggedTables (u : Unicode) (lines : List Chars) : List (Nat × Nat) := (lines.zipIdx.foldl (tableStep u) ([], [])).2

/-- `footer_groups`: of groups with one key the last. -/
def footerGroups (observed : List ObservedGroup) : List ((Nat × Chars) × Nat) :=
  let footers := observed.zipIdx.filter fun p => p.1.key.1 = .footer
  ((footers.map fun p => p.1.key.2).eraseDups).map fun key => (key, ((footers.filter fun p => p.1.key.2 = key).map Prod.snd).getLastD 0)

section Tables
variable (u : Unicode) (rules : HeaderRules)

def isBanner (template : Chars) : Bool :=
  minBannerWords ≤ (Lexical.pySplit template).countP fun word => word.any rules.isAlpha

def bannerLine (lines : List Chars) (templates : List Chars) (table : Nat × Nat) : Option Nat :=
  let content := (List.range' (table.1 + 1) (table.2 - (table.1 + 1))).filter fun j => stripChars (lines.getD j []) ≠ []
  let template (j : Nat) : Chars := cleanTemplate u rules (lines.getD j [])
  if maxFurnitureTableLines < table.2 - table.1 + 1 ∨ content = [] ∨ content.any fun j => !decide (template j ∈ templates) then none
  else content.find? fun j => template j ∈ templates.filter (isBanner rules)

def recoverTable (lines : List Chars) (footers : List ((Nat × Chars) × Nat)) (members : List (List Observation)) (table : Nat × Nat) :
    List (List Observation) :=
  match bannerLine u rules lines (footers.map fun f => f.1.2) table with
  | none => members
  | some banner =>
    footers.foldl (fun members f =>
      let own := members.getD f.2 []
      if f.1.2 ≠ cleanTemplate u rules (lines.getD banner []) ∨ own.any (fun m => table.1 ≤ m.lineIndex && m.lineIndex < table.2) then members
      else members.modify f.2 (· ++ [⟨.footer, f.1.1, f.1.2, banner, lines.getD banner [], own.length + 1, none⟩])) members

def groupMembers (lines : List Chars) (allowTable : Bool) (groups : List (GroupKey × List Observation)) (observed : List ObservedGroup) :
    List (List Observation) :=
  let own := observed.map fun group => group.members.insertionSort byAnchor
  let augmented := (groups.flatMap Prod.snd).foldl (augment observed) own
  if footerGroups observed = [] ∨ !allowTable then augmented
  else (taggedTables u lines).foldl (recoverTable u rules lines (footerGroups observed)) augmented

end Tables

/-! ## What is removed -/

def PageMarkerKind.ofSide : FurnitureSide → PageMarkerKind
  | .header => .repeatingHeader
  | .footer => .repeatingFooter

def roleOf (observed : List ObservedGroup) (group : ObservedGroup) (first last : Nat) : String :=
  let variants := (observed.filter fun other => other.key.1 = group.key.1 && other.key.2.1 = group.key.2.1 &&
    other.first ≤ last + 1 && first ≤ other.last + 1).map fun other => other.key.2.2
  if group.key.1 = .footer then "footer" else if 1 < variants.dedup.length then "section_header" else "boilerplate"

def templateEvidence (observed : List ObservedGroup) (group : ObservedGroup) (members : List Observation) : TemplateEvidence :=
  let ordered := members.insertionSort byAnchor
  let positions := positionsOf ordered
  let first := positions.headD 0
  let last := positions.getLastD 0
  let role := roleOf observed group first last
  { side := group.key.1
    position := group.key.2.1
    template := group.key.2.2
    occurrences := ordered.length
    presence := (positions.length : ℚ) / ((last - first + 1 : Nat) : ℚ)
    kind := .ofSide group.key.1
    lines := ordered.map Observation.lineIndex
    cohortStartLine := ordered.head?.bind Observation.anchorLine
    cohortEndLine := ordered.getLast?.bind Observation.anchorLine
    role
    retention := if role = "section_header" then "keep_first_per_cohort" else "remove_all" }

structure Removal where
  seen : List Chars
  retained : List Nat
  removable : List Observation

def removeMember (role : String) (state : Removal) (member : Observation) : Removal :=
  if role = "section_header" ∧ member.template ∉ state.seen then
    ⟨member.template :: state.seen, state.retained ++ [member.lineIndex], state.removable⟩
  else { state with removable := state.removable ++ [member] }

def removeGroup (observed : List ObservedGroup) (state : Removal) (group : ObservedGroup × List Observation) : Removal :=
  let role := (templateEvidence observed group.1 group.2).role
  let members := (group.2.insertionSort byAnchor).insertionSort fun a b => a.anchorPosition ≤ b.anchorPosition
  members.foldl (removeMember role) { state with seen := [] }

def anchorDistance (lines : List Chars) (o : Observation) : Nat :=
  match o.anchorLine with
  | some line => max o.lineIndex line - min o.lineIndex line
  | none => if o.side = .header then o.lineIndex + 1 else lines.length - o.lineIndex

def uniqueStep (lines : List Chars) (retained : List Nat) (unique : Dict Nat Observation) (o : Observation) : Dict Nat Observation :=
  if o.lineIndex ∈ retained then unique
  else match unique.get? o.lineIndex with
    | none => unique.set o.lineIndex o
    | some previous => if anchorDistance lines o < anchorDistance lines previous then unique.set o.lineIndex o else unique

/-! ## Blocks -/

structure BlockSpan where
  startLine : Nat
  endLine : Nat
  start : Nat
  stop : Nat
  side : FurnitureSide

section Blocks
variable (u : Unicode) (lines : List Chars)

def openTags : Nat → Nat
  | 0 => 0
  | start + 1 => if isOpenTag u (lines.getD start []) then openTags start else start + 1

def closeTags : Nat → Nat → Nat
  | 0, last => last
  | fuel + 1, last => if last + 1 < lines.length ∧ isCloseTag u (lines.getD (last + 1) []) then closeTags fuel (last + 1) else last

def blockOf (side : FurnitureSide) (first last : Nat) : BlockSpan :=
  ⟨first, last, (lineOffsets lines).getD first 0, (lineOffsets lines).getD last 0 + (lines.getD last []).length, side⟩

def unbacked (selected : List Nat) (index : Nat) : Bool :=
  stripChars (lines.getD index []) ≠ [] && !isTableTag u (lines.getD index []) && !selected.contains index

def blocksOf (side : FurnitureSide) (selected : List Nat) (start previous : Nat) : List Nat → List BlockSpan
  | [] => [blockOf lines side (openTags u lines start) (closeTags u lines lines.length previous)]
  | index :: rest =>
    if (List.range' (previous + 1) (index - (previous + 1))).any (unbacked u lines selected) then
      blockOf lines side start previous :: blocksOf side selected index index rest
    else blocksOf side selected start index rest

def mergeObservations (observations : List Observation) : List BlockSpan :=
  let keys := (observations.map fun o => (o.side, o.anchorPosition)).eraseDups
  keys.flatMap fun key =>
    let indices := ((observations.filter fun o => (o.side, o.anchorPosition) = key).map Observation.lineIndex).insertionSort (· ≤ ·)
    match indices with
    | [] => []
    | first :: rest => blocksOf u lines key.1 indices first first rest

structure Coalesced where
  startLine : Nat
  endLine : Nat
  start : Nat
  stop : Nat
  headerLines : Nat
  footerLines : Nat

def Coalesced.ofSpan (span : BlockSpan) : Coalesced :=
  let count := span.endLine + 1 - span.startLine
  ⟨span.startLine, span.endLine, span.start, span.stop, if span.side = .header then count else 0, if span.side = .footer then count else 0⟩

def coalesceStep (blocks : List Coalesced) (span : BlockSpan) : List Coalesced :=
  match blocks with
  | [] => [.ofSpan span]
  | previous :: before =>
    if span.start ≤ previous.stop + 1 then
      let own := Coalesced.ofSpan span
      { previous with
        endLine := max previous.endLine span.endLine
        stop := max previous.stop span.stop
        headerLines := previous.headerLines + own.headerLines
        footerLines := previous.footerLines + own.footerLines } :: before
    else .ofSpan span :: previous :: before

def coalesce (spans : List BlockSpan) : List Coalesced :=
  ((spans.insertionSort fun a b => a.startLine ≤ b.startLine).foldl coalesceStep []).reverse

end Blocks

/-! ## The analysis -/

section Analysis
variable (u : Unicode) (rules : HeaderRules)

structure HeaderScan where
  tocLines : List Nat
  allowTableFurniture : Bool
  boundaryLines : List Nat
  headerAnchors : List Nat
  footerAnchors : List Nat

def anchorsOf (markers : List FoundMarker) : List Nat := (markers.map FoundMarker.startLine).dedup.insertionSort (· ≤ ·)

def furnitureMarker (text : Chars) (allowTable : Bool) (block : Coalesced) : FoundMarker :=
  let kind := if block.footerLines ≤ block.headerLines then PageMarkerKind.repeatingHeader else .repeatingFooter
  { start := block.start
    stop := block.stop
    text := slice text block.start block.stop
    kind
    pageNumber := none
    pageCount := none
    representation := if allowTable then "html" else "ascii"
    confidence := 8 / 10
    startLine := block.startLine
    endLine := block.endLine
    space := []
    family := kind }

def removableLines (lines : List Chars) (observed : List ObservedGroup) (members : List (List Observation)) : List Observation :=
  let removal := (observed.zip members).foldl (removeGroup observed) ⟨[], [], []⟩
  ((removal.removable.foldl (uniqueStep lines removal.retained) Dict.empty).items).map Prod.snd

def repeatedBlocks (lines : List Chars) (scan : HeaderScan) (boundary : List Nat) (anchors : FurnitureSide → List (Int × Option Nat)) :
    List TemplateEvidence × List Coalesced :=
  let groups := observationGroups (observe u rules lines scan.tocLines boundary scan.allowTableFurniture anchors)
  let observed := observedGroups scan.allowTableFurniture (fun side => (anchors side).length) groups
  let members := groupMembers u rules lines scan.allowTableFurniture groups observed
  ((observed.zip members).map (fun p => templateEvidence observed p.1 p.2),
    coalesce (mergeObservations u lines (removableLines lines observed members)))

/-- `analyze_repeating_headers`: the evidence and the markers. -/
def analyzeRepeatingHeaders (text : Chars) (markers : List FoundMarker) (scan : HeaderScan) : List TemplateEvidence × List FoundMarker :=
  let lines := splitlines text
  let headers := deduplicateAnchors (if scan.headerAnchors = [] then anchorsOf markers else scan.headerAnchors)
  let footers := deduplicateAnchors (if scan.footerAnchors = [] then anchorsOf markers else scan.footerAnchors)
  if max headers.length footers.length < 3 then ([], [])
  else
    let boundary := if scan.boundaryLines = [] then linesOf markers else scan.boundaryLines
    let repeated := repeatedBlocks u rules lines scan boundary fun side => sideScan lines side (if side = .header then headers else footers)
    (repeated.1, repeated.2.map (furnitureMarker text scan.allowTableFurniture))

end Analysis
end EdgarSec.Document
