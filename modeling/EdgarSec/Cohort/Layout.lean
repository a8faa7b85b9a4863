import EdgarSec.Foundation.Text
import EdgarSec.Lib.Dict

/-! The cohorts root: the names of its directories, and what moves and cleans them. -/

namespace EdgarSec.Cohort
open Foundation Lib

def stagingPrefix : String := ".stage-"
def stagingQuarantinePrefix : String := stagingPrefix ++ "quarantine-"
def stagingPurgePrefix : String := stagingPrefix ++ "purge-"
def stagingLeaseName : String := ".stage.lease"

def maxStagingLease : Int := 7200 * 1000000
def stagingQuarantineExpiry : Int := 86400 * 1000000

def startsWith (name start : String) : Bool := start.toList.isPrefixOf name.toList

/-- `name.removeprefix(start)` -/
def removePrefix (name start : String) : String :=
  if startsWith name start then String.ofList (name.toList.drop start.toList.length) else name

/-- `name.rsplit("-", 1)[0]` -/
def beforeLastDash (name : String) : String :=
  if '-' ∈ name.toList then
    String.ofList (name.toList.reverse.dropWhile (· ≠ '-')).tail.reverse
  else name

def isHex (c : Char) : Bool := "0123456789abcdef".toList.contains c

/-- `^c-[0-9a-f]{16}$` -/
def isCohortDir (name : String) : Bool :=
  match name.toList with
  | 'c' :: '-' :: digits => digits.length == 16 && digits.all isHex
  | _ => false

/-- `^[a-zA-Z0-9_.-]{3,64}$` -/
def isSafeId (name : String) : Bool :=
  3 ≤ name.toList.length && name.toList.length ≤ 64 &&
    name.toList.all fun c => c.isAlphanum || c == '_' || c == '.' || c == '-'

/-- The identifiers `register_cohort` accepts: `c-` and sixteen digits of a digest. -/
structure CohortId where
  text : String
  wellFormed : isCohortDir text = true
deriving DecidableEq

/-- `uuid.uuid4().hex` -/
structure Uuid where
  hex : String
  wellFormed : hex.toList.length = 32 ∧ hex.toList.all isHex = true

inductive ErrorKind where
  | cohortPinned
  | cohortActiveSource
  | cohortInUse
  | value
  | os
  | integrity
  | interrupted
deriving DecidableEq

structure Error where
  kind : ErrorKind
  message : String
deriving DecidableEq

/-- What a name inside a dataset or staging directory stands for; of a file only what
`json.loads` makes of its text is kept. -/
inductive Content where
  | symlink
  | folder
  | file (parsed : Option Json)

structure Folder where
  mtime : Int
  files : Dict String Content

inductive Item where
  | directory (folder : Folder)
  | symlink

/-- The directories and symbolic links under `cohorts_root`. The catalog and the lock are files, and
no function here looks at them. -/
abbrev Root := Dict String Item

def purgeStage (id : String) (uuid : Uuid) : String := stagingPurgePrefix ++ id ++ "-" ++ uuid.hex

def purgeTarget (stage : String) : Option String :=
  if startsWith stage stagingQuarantinePrefix then none
  else if startsWith stage stagingPurgePrefix then
    let id := beforeLastDash (removePrefix stage stagingPurgePrefix)
    if isCohortDir id then some id else none
  else none

namespace Root

/-- `cohort_dir`: a symbolic link resolves to another place and is refused. -/
def cohortDir (root : Root) (id : String) : Except Error Unit :=
  if !isSafeId id || id.toList.tails.any ("..".toList.isPrefixOf ·) then
    .error ⟨.value, "Invalid or unsafe cohort identifier: " ++ pyRepr id⟩
  else
    match root.get? id with
    | some .symlink => .error ⟨.value, "Cohort directory escapes root: " ++ pyRepr id⟩
    | _ => .ok ()

/-- `rename` of a directory: it may take the place of an empty one. -/
def rename (root : Root) (source target : String) : Except Error Root :=
  match root.get? source with
  | none => .error ⟨.os, "No such file or directory"⟩
  | some item =>
    match root.get? target with
    | none => .ok ((root.erase source).set target item)
    | some .symlink => .error ⟨.os, "Not a directory"⟩
    | some (.directory folder) =>
      if folder.files.items.isEmpty then .ok ((root.erase source).set target item)
      else .error ⟨.os, "Directory not empty"⟩

def IsDir (root : Root) (name : String) : Prop := ∃ folder, root.get? name = some (.directory folder)

def isDir (root : Root) (name : String) : Bool :=
  match root.get? name with
  | some (.directory _) => true
  | _ => false

theorem isDir_iff {root : Root} {name : String} : root.isDir name = true ↔ root.IsDir name := by
  rw [isDir, IsDir]
  split
  · rename_i folder h
    simp [h]
  · rename_i h
    simpa using h

instance (root : Root) (name : String) : Decidable (root.IsDir name) :=
  decidable_of_iff _ isDir_iff

/-- A directory that was set aside for the removal of `id`. -/
def HasPurgeStage (root : Root) (id : String) : Prop :=
  ∃ stage, root.IsDir stage ∧ purgeTarget stage = some id

def Recoverable (root : Root) (id : String) : Prop :=
  root.IsDir id ∨ (root.get? id = none ∧ root.HasPurgeStage id)

theorem rename_ok {root root' : Root} {source target : String}
    (h : root.rename source target = .ok root') :
    ∃ item, root.get? source = some item ∧ root' = (root.erase source).set target item := by
  rw [rename] at h
  split at h
  · cases h
  · rename_i item hitem
    refine ⟨item, hitem, ?_⟩
    split at h
    · exact (Except.ok.inj h).symm
    · cases h
    · split at h
      · exact (Except.ok.inj h).symm
      · cases h

theorem rename_free {root : Root} {source target : String} {item : Item}
    (hitem : root.get? source = some item) (hfree : root.get? target = none) :
    root.rename source target = .ok ((root.erase source).set target item) := by
  simp only [rename, hitem, hfree]

end Root

section Names

theorem startsWith_append (start rest : String) : startsWith (start ++ rest) start = true := by
  rw [startsWith, String.toList_append]
  exact List.isPrefixOf_iff_prefix.mpr (List.prefix_append _ _)

theorem removePrefix_append (start rest : String) : removePrefix (start ++ rest) start = rest := by
  rw [removePrefix, if_pos (startsWith_append start rest), String.toList_append, List.drop_left]
  exact String.ofList_toList

theorem not_isHex_dash {digits : List Char} (h : digits.all isHex = true) : ∀ c ∈ digits, c ≠ '-' := by
  rintro c hc rfl
  have hdash : isHex '-' = true := List.all_eq_true.mp h _ hc
  exact absurd hdash (by decide)

theorem beforeLastDash_append (id : String) {hex : String} (h : hex.toList.all isHex = true) :
    beforeLastDash (id ++ "-" ++ hex) = id := by
  have htext : (id ++ "-" ++ hex).toList = id.toList ++ '-' :: hex.toList := by
    simp [String.toList_append]
  have hskip : ∀ c ∈ hex.toList.reverse, (decide (c ≠ '-')) = true := by
    intro c hc
    exact decide_eq_true (not_isHex_dash h c (List.mem_reverse.mp hc))
  rw [beforeLastDash, htext, if_pos (by simp), List.reverse_append, List.reverse_cons,
    List.append_assoc, List.dropWhile_append_of_pos hskip]
  simp

theorem isPrefixOf_append_left {a b c : List Char} (hlen : a.length ≤ b.length) :
    a.isPrefixOf (b ++ c) = a.isPrefixOf b := by
  rw [Bool.eq_iff_iff, List.isPrefixOf_iff_prefix, List.isPrefixOf_iff_prefix]
  refine ⟨fun h => ?_, fun h => h.trans (List.prefix_append _ _)⟩
  exact List.prefix_of_prefix_length_le h (List.prefix_append _ _) hlen

theorem startsWith_of_purgeTarget {stage id : String} (h : purgeTarget stage = some id) :
    startsWith stage stagingPrefix = true := by
  have hstart : stagingPrefix.toList <+: stagingPurgePrefix.toList := by decide
  rw [purgeTarget] at h
  split at h
  · cases h
  · split at h
    · rename_i hpurge
      exact List.isPrefixOf_iff_prefix.mpr (hstart.trans (List.isPrefixOf_iff_prefix.mp hpurge))
    · cases h

theorem purgeTarget_purgeStage (id : CohortId) (uuid : Uuid) :
    purgeTarget (purgeStage id.text uuid) = some id.text := by
  have hname : purgeStage id.text uuid = stagingPurgePrefix ++ (id.text ++ "-" ++ uuid.hex) := by
    rw [purgeStage, String.append_assoc, String.append_assoc, String.append_assoc]
  have hquarantine : startsWith (purgeStage id.text uuid) stagingQuarantinePrefix = false := by
    have hshort : stagingQuarantinePrefix.toList.take 8 = ".stage-q".toList := by decide
    rw [Bool.eq_false_iff]
    intro h
    have h8 : ".stage-q".toList <+: (purgeStage id.text uuid).toList :=
      hshort ▸ (List.take_prefix 8 _).trans (List.isPrefixOf_iff_prefix.mp h)
    rw [hname, String.toList_append] at h8
    have hlen : ".stage-q".toList.length ≤ stagingPurgePrefix.toList.length := by decide
    have hpurge := isPrefixOf_append_left (c := (id.text ++ "-" ++ uuid.hex).toList) hlen
    rw [List.isPrefixOf_iff_prefix.mpr h8] at hpurge
    exact absurd hpurge (by decide)
  have hpurge : startsWith (purgeStage id.text uuid) stagingPurgePrefix = true :=
    hname ▸ startsWith_append _ _
  have hid : beforeLastDash (removePrefix (purgeStage id.text uuid) stagingPurgePrefix) = id.text := by
    rw [hname, removePrefix_append, beforeLastDash_append _ uuid.wellFormed.2]
  simp [purgeTarget, hquarantine, hpurge, hid, id.wellFormed]

theorem not_startsWith_of_isCohortDir {name : String} (h : isCohortDir name = true) :
    startsWith name stagingPrefix = false := by
  rw [isCohortDir] at h
  split at h
  · rename_i digits hname
    rw [startsWith, hname]
    rfl
  · cases h

theorem CohortId.ne_of_startsWith (id : CohortId) {name : String}
    (h : startsWith name stagingPrefix = true) : id.text ≠ name := by
  rintro rfl
  rw [not_startsWith_of_isCohortDir id.wellFormed] at h
  cases h

end Names
end EdgarSec.Cohort
