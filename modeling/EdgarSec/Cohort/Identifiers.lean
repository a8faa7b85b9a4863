import EdgarSec.Cohort.Deletion
import EdgarSec.FilingCatalog.PlanBundles
import EdgarSec.Foundation.JsonText
import EdgarSec.Lib.Outcome
import EdgarSec.Lib.Transition

/-! The names a cohort answers to: its id, its name, and the reserved words that stand for the
active official sources. -/

namespace EdgarSec.Cohort
open FilingCatalog Foundation Lib

/-! ## The tables -/

/-- A row of `cohorts`. -/
structure CohortFields where
  cohortId : CohortId
  name : Option String
  description : String
  manifestSchemaVer : String
  originKind : String
  originJson : String
  rosterId : String
  rowCount : Int
  distinctCikCount : Int
  datasetSha256 : String
  datasetPath : String
  pinned : Bool
  createdAt : String
  updatedAt : String
deriving DecidableEq

structure CohortRecord extends CohortFields where
  tags : List String
deriving DecidableEq

/-- The catalog file. `cohort_id` is the primary key of `cohorts` and `name` is unique. -/
structure Store where
  rows : List CohortFields
  idsDistinct : (rows.map CohortFields.cohortId).Nodup
  namesDistinct : (rows.filterMap CohortFields.name).Nodup
  tags : List CohortTag
  pointers : Dict String String
  aliases : Option (List SessionAlias)
  families : List FamilyIndex

inductive CatalogErrorKind where
  | value
  | collision
  | pinned
  | activeSource
  | inUse
  | identifier
  | integrity
  | os
deriving DecidableEq

structure CatalogError where
  kind : CatalogErrorKind
  message : String
deriving DecidableEq

/-- What the operations ask of the disk: `relative_path(resolve_relative_path(path))`, the places
of the datasets, and the digest of a file that is there. -/
structure Disk where
  relativePath : String → Except CatalogError String
  cohortDatasetFile : String → Except CatalogError String
  familyIndexFile : String → Except CatalogError String
  fileSha256 : String → Option String

namespace Store

def empty : Store := ⟨[], List.nodup_nil, List.nodup_nil, [], Dict.empty, none, []⟩

/-- `SELECT * FROM cohorts WHERE cohort_id = ?` -/
def row? (s : Store) (id : String) : Option CohortFields :=
  s.rows.find? fun row => decide (row.cohortId.text = id)

/-- `SELECT * FROM cohorts WHERE name = ?` -/
def rowNamed? (s : Store) (name : String) : Option CohortFields :=
  s.rows.find? fun row => decide (row.name = some name)

def record (s : Store) (row : CohortFields) : CohortRecord :=
  { row with
    tags := ((s.tags.filter fun t => decide (t.cohortId = row.cohortId.text)).map CohortTag.tag).insertionSort
      fun a b => a ≤ b }

/-- A statement that leaves `rows` in the table, as far as its constraints allow. -/
def write (s : Store) (rows : List CohortFields) : Except CatalogError Store :=
  if hids : (rows.map CohortFields.cohortId).Nodup then
    if hnames : (rows.filterMap CohortFields.name).Nodup then
      .ok { s with rows := rows, idsDistinct := hids, namesDistinct := hnames }
    else .error ⟨.integrity, "UNIQUE constraint failed: cohorts.name"⟩
  else .error ⟨.integrity, "UNIQUE constraint failed: cohorts.cohort_id"⟩

def catalog (s : Store) : Catalog where
  cohorts := ⟨s.rows.map fun row => (row.cohortId, ⟨row.pinned⟩), by
    simpa [List.map_map, Function.comp_def] using s.idsDistinct⟩
  cohortTags := s.tags
  sourceActivePointers := some (s.pointers.items.map fun p => ⟨p.1, p.2⟩)
  objectSessionAliases := s.aliases
  activeFamilyIndices := s.families

end Store

/-! ## Registration -/

structure Digest where
  text : String
  wellFormed : isSha256HexDigest text = true

def digest? (value : String) : Option Digest :=
  if h : isSha256HexDigest value = true then some ⟨value, h⟩ else none

/-- `f"c-{identity_digest[:16]}"` -/
def Digest.cohortId (digest : Digest) : CohortId :=
  ⟨"c-" ++ String.ofList (digest.text.toList.take 16), by
    have h := digest.wellFormed
    rw [isSha256HexDigest, Bool.and_eq_true, decide_eq_true_eq, List.all_eq_true] at h
    have htext : ("c-" ++ String.ofList (digest.text.toList.take 16)).toList =
        'c' :: '-' :: digest.text.toList.take 16 := by simp
    rw [isCohortDir, htext]
    simp only [List.length_take, h.1, Bool.and_eq_true, List.all_eq_true]
    refine ⟨rfl, fun c hc => ?_⟩
    have hdigit := h.2 c (List.mem_of_mem_take hc)
    simpa [isHex] using hdigit⟩

structure Registration where
  cohortId : String
  name : Option String
  description : String
  originKind : String
  originDetails : List (String × Json)
  rosterId : String
  rowCount : Int
  distinctCikCount : Int
  datasetSha256 : String
  datasetPath : String
  pinned : Bool
  tags : List String

def Registration.identity (args : Registration) : Except CatalogError Digest :=
  match digest? args.rosterId with
  | none => .error ⟨.value, "roster_id must be a lowercase SHA-256 digest"⟩
  | some roster =>
    if args.originKind = "official_source" then
      match member (.obj args.originDetails) "source_snapshot_id" with
      | some (.str snapshot) =>
        match digest? snapshot with
        | some digest => .ok digest
        | none => .error ⟨.value, "official source cohorts require a SHA-256 source_snapshot_id"⟩
      | _ => .error ⟨.value, "official source cohorts require a SHA-256 source_snapshot_id"⟩
    else .ok roster

/-- `sorted(set(tags))` -/
def Registration.normalizedTags (args : Registration) : List String :=
  args.tags.dedup.insertionSort fun a b => a ≤ b

def Registration.validated (args : Registration) (disk : Disk) (now : String) :
    Except CatalogError CohortFields := do
  let digest ← args.identity
  ensure (args.cohortId = digest.cohortId.text)
    ⟨.value, "cohort_id must be c- followed by the identity digest's first 16 hex digits"⟩
  ensure (isSha256HexDigest args.datasetSha256 = true)
    ⟨.value, "dataset_sha256 must be a lowercase SHA-256 digest"⟩
  ensure (0 ≤ args.rowCount ∧ 0 ≤ args.distinctCikCount ∧ args.distinctCikCount ≤ args.rowCount)
    ⟨.value, "cohort row counts are inconsistent"⟩
  let relative ← disk.relativePath args.datasetPath
  let expected ← disk.cohortDatasetFile args.cohortId
  ensure (relative = expected) ⟨.value, "dataset_path must identify the cohort's ciks.parquet"⟩
  ensure (disk.fileSha256 relative = some args.datasetSha256)
    ⟨.value, "dataset file is missing or its digest does not match"⟩
  ensure ("" ∉ args.normalizedTags) ⟨.value, "cohort tags must be non-empty strings"⟩
  return {
    cohortId := digest.cohortId
    name := args.name
    description := args.description
    manifestSchemaVer := "2.0.0"
    originKind := args.originKind
    originJson := canonicalJson (.obj args.originDetails)
    rosterId := args.rosterId
    rowCount := args.rowCount
    distinctCikCount := args.distinctCikCount
    datasetSha256 := args.datasetSha256
    datasetPath := relative
    pinned := args.pinned
    createdAt := now
    updatedAt := now }

namespace Store

/-- The transaction of `register_cohort`: an id that is known keeps its row. -/
def insert (s : Store) (row : CohortFields) (tags : List String) : Except CatalogError Store :=
  match s.row? row.cohortId.text with
  | some existing =>
    if existing.rosterId ≠ row.rosterId then
      .error ⟨.collision,
        "cohort id " ++ pyRepr row.cohortId.text ++ " collides with another roster"⟩
    else if existing.datasetSha256 ≠ row.datasetSha256 ∨ existing.datasetPath ≠ row.datasetPath then
      .error ⟨.value, "cohort " ++ pyRepr row.cohortId.text ++ " is immutable"⟩
    else .ok s
  | none =>
    { s with tags := s.tags ++ tags.map (CohortTag.mk row.cohortId.text) }.write (s.rows ++ [row])

def registerCohort (s : Store) (disk : Disk) (args : Registration) (now : String) :
    Except CatalogError Store := do
  let row ← args.validated disk now
  s.insert row args.normalizedTags

/-! ## The other operations -/

def notFound (id : String) : CatalogError := ⟨.identifier, "Cohort not found: " ++ pyRepr id⟩

def renameCohort (s : Store) (id newName now : String) : Except CatalogError Store := do
  ensure (newName ≠ "") ⟨.value, "cohort name must be non-empty"⟩
  ensure ((s.row? id).isSome = true) (notFound id)
  s.write (s.rows.map fun row : CohortFields =>
    if row.cohortId.text = id then { row with name := some newName, updatedAt := now } else row)

/-- `UPDATE cohorts SET updated_at = ? WHERE cohort_id = ?`, with the new tags. -/
def retag (s : Store) (id now : String) (tags : List CohortTag) : Except CatalogError Store :=
  { s with tags := tags }.write (s.rows.map fun row : CohortFields =>
    if row.cohortId.text = id then { row with updatedAt := now } else row)

def addTags (s : Store) (id : String) (tags : List String) (now : String) :
    Except CatalogError Store := do
  ensure ("" ∉ tags) ⟨.value, "cohort tags must be non-empty strings"⟩
  ensure ((s.row? id).isSome = true) (notFound id)
  s.retag id now (s.tags ++ (tags.dedup.map (CohortTag.mk id)).filter fun t => decide (t ∉ s.tags))

def removeTags (s : Store) (id : String) (tags : List String) (now : String) :
    Except CatalogError Store := do
  ensure ("" ∉ tags) ⟨.value, "cohort tags must be non-empty strings"⟩
  ensure ((s.row? id).isSome = true) (notFound id)
  s.retag id now (s.tags.filter fun t => decide (t.cohortId ≠ id ∨ t.tag ∉ tags))

def ofDeletion (e : Error) : CatalogError :=
  ⟨match e.kind with
    | .cohortPinned => .pinned
    | .cohortActiveSource => .activeSource
    | .cohortInUse => .inUse
    | .integrity => .integrity
    | .value => .value
    | .os => .os
    | .interrupted => .os, e.message⟩

/-- `delete_cohort` as the catalog sees it: `files` is what the steps on the disk raised. -/
def deleteCohort (s : Store) (id : String) (force : Bool) (files : Option CatalogError) :
    Except CatalogError Store := do
  match ← (s.catalog.select id force).mapError ofDeletion with
  | none => return s
  | some _ =>
    match files with
    | some e => throw e
    | none =>
      let cat ← (s.catalog.deleteRows id force).mapError ofDeletion
      { s with tags := cat.cohortTags, aliases := cat.objectSessionAliases }.write
        (s.rows.filter fun row => decide (row.cohortId.text ≠ id))

/-- The three refusals of a cohort that is not the official one of `source`. -/
structure Refusals where
  notOfficial : String
  invalid : String
  different : String

def checkOfficial (row : CohortFields) (source : String) (refusals : Refusals) :
    Except CatalogError Unit := do
  ensure (row.originKind = "official_source" ∧ row.pinned = true)
    ⟨.identifier, refusals.notOfficial⟩
  match loads row.originJson with
  | none => throw ⟨.identifier, refusals.invalid⟩
  | some details =>
    match member details "source_name" with
    | some (.str name) => ensure (name = source) ⟨.identifier, refusals.different⟩
    | _ => throw ⟨.identifier, refusals.different⟩

def officialSourceNames : List String :=
  ["cik_lookup", "company_tickers", "company_tickers_exchange", "company_tickers_mf", "ticker_txt"]

def setActiveSourcePointer (s : Store) (source id : String) : Except CatalogError Store := do
  ensure (source ∈ officialSourceNames)
    ⟨.identifier, "unknown official source: " ++ pyRepr source⟩
  match s.row? id with
  | none => throw ⟨.identifier, "active source cohort not found: " ++ pyRepr id⟩
  | some row =>
    checkOfficial row source ⟨"active source pointer requires an official pinned cohort",
      "active source cohort metadata is invalid",
      "active source cohort belongs to a different source"⟩
    return { s with pointers := s.pointers.set source id }

/-- `^[a-f0-9]{32}$` -/
def isFamilyIndexId (id : String) : Bool := id.toList.length = 32 && id.toList.all isHex

def setActiveFamilyIndex (s : Store) (disk : Disk) (id familyIndexId rulesFingerprint
    datasetSha256 : String) : Except CatalogError Store := do
  ensure (isFamilyIndexId familyIndexId = true)
    ⟨.value, "family_index_id must be 32 lowercase hexadecimal characters"⟩
  ensure (isSha256HexDigest rulesFingerprint = true)
    ⟨.value, "rules_fingerprint must be a lowercase SHA-256 digest"⟩
  ensure (isSha256HexDigest datasetSha256 = true)
    ⟨.value, "dataset_sha256 must be a lowercase SHA-256 digest"⟩
  let relative ← disk.familyIndexFile familyIndexId
  ensure (relative = "family_index/" ++ familyIndexId ++ "/company_family.parquet")
    ⟨.value, "family index path is not canonical"⟩
  match disk.fileSha256 relative with
  | none => throw ⟨.value, "family index dataset file is missing"⟩
  | some digest =>
    ensure (digest = datasetSha256) ⟨.value, "family index dataset digest does not match"⟩
    ensure ((s.row? id).isSome = true)
      ⟨.identifier, "Universe cohort not found: " ++ pyRepr id⟩
    return { s with
      families := (s.families.filter fun f => decide (f.universeCohortId ≠ id)) ++
        [⟨id, familyIndexId⟩] }

/-- `upsert_alias` of the object store; `isObject` is the other half of `_target_exists`. -/
def upsertAlias (s : Store) (isObject : Bool) (entry : SessionAlias) : Except CatalogError Store := do
  ensure (isObject = true ∨ (s.row? entry.targetId).isSome = true)
    ⟨.value, "Invalid alias target \x27" ++ entry.targetId ++ "\x27: entity not found"⟩
  return { s with
    aliases := some (((s.aliases.getD []).filter fun a =>
      decide (a.sessionId ≠ entry.sessionId ∨ a.aliasName ≠ entry.aliasName)) ++ [entry]) }

def dropAlias (s : Store) (sessionId aliasName : String) : Store :=
  { s with
    aliases := s.aliases.map (·.filter fun a =>
      decide (a.sessionId ≠ sessionId ∨ a.aliasName ≠ aliasName)) }

end Store

inductive Operation where
  | register (disk : Disk) (args : Registration) (now : String)
  | rename (id newName now : String)
  | addTags (id : String) (tags : List String) (now : String)
  | removeTags (id : String) (tags : List String) (now : String)
  | delete (id : String) (force : Bool) (files : Option CatalogError)
  | setActiveSourcePointer (source id : String)
  | setActiveFamilyIndex (disk : Disk) (id familyIndexId rulesFingerprint datasetSha256 : String)
  | upsertAlias (isObject : Bool) (entry : SessionAlias)
  | dropAlias (sessionId aliasName : String)

namespace Store

def apply (s : Store) : Operation → Except CatalogError Store
  | .register disk args now => s.registerCohort disk args now
  | .rename id newName now => s.renameCohort id newName now
  | .addTags id tags now => s.addTags id tags now
  | .removeTags id tags now => s.removeTags id tags now
  | .delete id force files => s.deleteCohort id force files
  | .setActiveSourcePointer source id => s.setActiveSourcePointer source id
  | .setActiveFamilyIndex disk id familyIndexId rulesFingerprint datasetSha256 =>
    s.setActiveFamilyIndex disk id familyIndexId rulesFingerprint datasetSha256
  | .upsertAlias isObject entry => s.upsertAlias isObject entry
  | .dropAlias sessionId aliasName => .ok (s.dropAlias sessionId aliasName)

def step (s : Store) (op : Operation) : Option Store :=
  match s.apply op with
  | .ok t => some t
  | .error _ => some s

/-! ## Looking a cohort up -/

def getCohort (s : Store) (idOrName : String) : Option CohortRecord :=
  ((s.rowNamed? idOrName).or (s.row? idOrName)).map s.record

def officialSourceAliases : List (String × String) :=
  [("universe", "cik_lookup"), ("tickers", "company_tickers"),
    ("exchange", "company_tickers_exchange"), ("funds", "company_tickers_mf"),
    ("ticker-file", "ticker_txt")]

def sourceOf? (name : String) : Option String := officialSourceAliases.lookup name

def resolveSource (s : Store) (name source : String) : Except CatalogError CohortRecord :=
  match s.pointers.get? source with
  | none => .error ⟨.identifier, "no active " ++ name ++ " cohort is published"⟩
  | some id =>
    match s.row? id with
    | none =>
      .error ⟨.identifier, "active " ++ name ++ " source pointer references a missing cohort"⟩
    | some row => do
      checkOfficial row source
        ⟨"active " ++ name ++ " source pointer is not an official pinned cohort",
          "active " ++ name ++ " source metadata is invalid",
          "active " ++ name ++ " source pointer belongs to a different source"⟩
      return s.record row

/-- `text LIKE start || '%'`; the digits of a prefix are no wildcards. -/
def likeStart (start text : String) : Bool :=
  (start.toList.map Char.toLower).isPrefixOf (text.toList.map Char.toLower)

def resolvePrefix (s : Store) (idOrName : String) (minPrefixLen : Nat) :
    Except CatalogError CohortRecord :=
  let start := if startsWith idOrName "c-" then String.ofList (idOrName.toList.drop 2) else idOrName
  if start.toList.length < minPrefixLen then
    .error ⟨.identifier, "Ambiguous or short hash prefix " ++ pyRepr idOrName ++
      "; hash lookups require at least " ++ toString minPrefixLen ++ " characters"⟩
  else if !(start.toList.all fun c => c ∈ "0123456789abcdefABCDEF".toList) then
    .error (notFound idOrName)
  else
    match (s.rows.filter fun row =>
        likeStart ("c-" ++ start) row.cohortId.text || likeStart start row.cohortId.text).insertionSort
        fun a b => a.cohortId.text ≤ b.cohortId.text with
    | [] => .error (notFound idOrName)
    | [row] => .ok (s.record row)
    | rows =>
      .error ⟨.identifier, "Ambiguous cohort prefix " ++ pyRepr idOrName ++ "; matches " ++
        toString rows.length ++ " cohorts: [" ++
        joinWith ", " (rows.map fun row => row.cohortId.text) ++ "]"⟩

def resolveCohortIdentifier (s : Store) (idOrName : String) (minPrefixLen : Nat) :
    Except CatalogError CohortRecord := do
  ensure (1 ≤ minPrefixLen) ⟨.value, "min_prefix_len must be positive"⟩
  match sourceOf? idOrName with
  | some source => s.resolveSource idOrName source
  | none =>
    match (s.rowNamed? idOrName).or (s.row? idOrName) with
    | some row => return s.record row
    | none => s.resolvePrefix idOrName minPrefixLen

end Store
end EdgarSec.Cohort
