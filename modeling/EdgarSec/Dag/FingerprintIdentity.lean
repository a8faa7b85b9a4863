import EdgarSec.Dag.KeyBounds
import EdgarSec.Foundation.JsonStream

/-! What the logical fingerprint tells apart: the rows of all relations as one stream, and no
boundary between one relation and the next. -/

namespace EdgarSec.Dag
open Foundation Lib InformationTheory

variable {V : Type}

/-! ## The stream of rows -/

def keyOrdered [LinearOrder V] (choice : Choice) (views : List (String × Table V)) (spec : RelationSpec) : Table V :=
  choice.sort (columnsBefore spec.schema spec.primaryKey) (viewRows views spec)

def rowStream [LinearOrder V] (choice : Choice) (specs : List RelationSpec)
    (views : List (String × Table V)) : Table V :=
  specs.flatMap (keyOrdered choice views)

/-- No two rows of a relation have the same primary key. -/
def UniqueKeys (specs : List RelationSpec) (views : List (String × Table V)) : Prop :=
  ∀ spec ∈ specs, ((viewRows views spec).map spec.keyCells).Nodup

/-- Every relation holds the same rows. -/
def SameRows (specs : List RelationSpec) (views views' : List (String × Table V)) : Prop :=
  ∀ spec ∈ specs, ∀ row, row ∈ viewRows views spec ↔ row ∈ viewRows views' spec

/-- Every relation has as many rows in the one family as in the other. -/
def SameCounts (specs : List RelationSpec) (views views' : List (String × Table V)) : Prop :=
  ∀ spec ∈ specs, (viewRows views spec).length = (viewRows views' spec).length

instance [DecidableEq V] (specs : List RelationSpec) (views : List (String × Table V)) :
    Decidable (UniqueKeys specs views) :=
  inferInstanceAs (Decidable (∀ spec ∈ specs, _))

instance (specs : List RelationSpec) (views views' : List (String × Table V)) :
    Decidable (SameCounts specs views views') :=
  inferInstanceAs (Decidable (∀ spec ∈ specs, _))

section Streams
variable {text : ValueText V} {specs : List RelationSpec} {views views' : List (String × Table V)}

theorem sameCounts_of_sameRows (hkeys : UniqueKeys specs views) (hkeys' : UniqueKeys specs views')
    (h : SameRows specs views views') : SameCounts specs views views' := by
  intro spec hspec
  have hnodup : (viewRows views spec).Nodup := List.Nodup.of_map _ (hkeys spec hspec)
  have hnodup' : (viewRows views' spec).Nodup := List.Nodup.of_map _ (hkeys' spec hspec)
  exact ((List.perm_ext_iff_of_nodup hnodup hnodup').mpr (h spec hspec)).length_eq

theorem toList_joinWith (texts : List String) :
    (joinWith "" texts).toList = (texts.map String.toList).flatten := by
  induction texts with
  | nil => rfl
  | cons t texts ih =>
    cases texts with
    | nil => simp [joinWith]
    | cons t' texts =>
      have hjoin : joinWith "" (t :: t' :: texts) = t ++ "" ++ joinWith "" (t' :: texts) := rfl
      rw [hjoin, String.toList_append, String.toList_append, ih]
      simp

theorem rowText_mem_arrayTexts (hprints : ∀ v, (text.json v).Printable) (row : Row V) :
    (rowText text row).toList ∈ arrayTexts := by
  refine ⟨row.map fun cell => (cell.map text.json).getD .null, ?_, by rw [rowText]⟩
  refine printableItems_iff.mpr fun j hj => ?_
  obtain ⟨cell, _, rfl⟩ := List.mem_map.mp hj
  cases cell with
  | none => exact trivial
  | some v => exact hprints v

variable [LinearOrder V] {choice : Choice}

theorem fingerprintText_eq (choice : Choice) (text : ValueText V) (specs : List RelationSpec)
    (views : List (String × Table V)) :
    (fingerprintText choice text specs views).toList =
      ((rowStream choice specs views).map fun row => (rowText text row).toList).flatten := by
  have hrows : (specs.flatMap fun spec => (choice.sort (columnsBefore spec.schema spec.primaryKey)
      (viewRows views spec)).map (rowText text)) = (rowStream choice specs views).map (rowText text) := by
    rw [rowStream, List.map_flatMap]
    rfl
  rw [fingerprintText, toList_joinWith, hrows, List.map_map]
  rfl

theorem fingerprintText_eq_iff (hprints : ∀ v, (text.json v).Printable)
    (hrow : Function.Injective (rowText text)) :
    fingerprintText choice text specs views = fingerprintText choice text specs views' ↔
      rowStream choice specs views = rowStream choice specs views' := by
  constructor
  · intro h
    have htexts := congrArg String.toList h
    rw [fingerprintText_eq, fingerprintText_eq] at htexts
    have hmem : ∀ rows : Table V, ∀ w ∈ rows.map fun row => (rowText text row).toList, w ∈ arrayTexts := by
      intro rows w hw
      obtain ⟨row, _, rfl⟩ := List.mem_map.mp hw
      exact rowText_mem_arrayTexts hprints row
    have hlists := uniquelyDecodable_arrayTexts _ _ (hmem _) (hmem _) htexts
    have hinjective : Function.Injective fun row : Row V => (rowText text row).toList :=
      fun row row' he => hrow (String.toList_injective he)
    exact List.map_injective_iff.mpr hinjective hlists
  · intro h
    have htexts : (fingerprintText choice text specs views).toList =
        (fingerprintText choice text specs views').toList := by
      rw [fingerprintText_eq, fingerprintText_eq, h]
    exact String.toList_injective htexts

theorem keyOrdered_perm (views : List (String × Table V)) (spec : RelationSpec) :
    (keyOrdered choice views spec).Perm (viewRows views spec) := choice.sort_perm _ _

theorem keyOrdered_eq_of_stream (hcounts : SameCounts specs views views')
    (h : rowStream choice specs views = rowStream choice specs views') :
    ∀ spec ∈ specs, keyOrdered choice views spec = keyOrdered choice views' spec := by
  induction specs with
  | nil => exact fun _ hspec => absurd hspec List.not_mem_nil
  | cons first specs ih =>
    have hlength : (keyOrdered choice views first).length = (keyOrdered choice views' first).length := by
      rw [(keyOrdered_perm views first).length_eq, (keyOrdered_perm views' first).length_eq]
      exact hcounts first List.mem_cons_self
    rw [rowStream, rowStream, List.flatMap_cons, List.flatMap_cons] at h
    obtain ⟨hfirst, hrest⟩ := List.append_inj h hlength
    intro spec hspec
    rcases List.mem_cons.mp hspec with rfl | hspec
    · exact hfirst
    · exact ih (fun s hs => hcounts s (List.mem_cons_of_mem first hs)) hrest spec hspec

theorem sameRows_of_stream (hcounts : SameCounts specs views views')
    (h : rowStream choice specs views = rowStream choice specs views') :
    SameRows specs views views' := by
  intro spec hspec row
  rw [← (@keyOrdered_perm V _ choice views spec).mem_iff,
    keyOrdered_eq_of_stream hcounts h spec hspec, (keyOrdered_perm views' spec).mem_iff]

/-- Equal fingerprints mean equal rows exactly when the streams of rows differ, or their
relations have the same numbers of rows. -/
theorem fingerprint_identifies_iff {sha256 : Bytes → String} (hsha : Function.Injective sha256)
    (hprints : ∀ v, (text.json v).Printable) (hrow : Function.Injective (rowText text))
    (hkeys : UniqueKeys specs views) (hkeys' : UniqueKeys specs views') :
    (computeLogicalFingerprint sha256 choice text specs views =
        computeLogicalFingerprint sha256 choice text specs views' → SameRows specs views views') ↔
      (rowStream choice specs views = rowStream choice specs views' → SameCounts specs views views') := by
  have hdigest : computeLogicalFingerprint sha256 choice text specs views =
      computeLogicalFingerprint sha256 choice text specs views' ↔
        rowStream choice specs views = rowStream choice specs views' := by
    rw [← fingerprintText_eq_iff hprints hrow]
    constructor
    · intro h
      have hbytes : utf8 (fingerprintText choice text specs views) =
          utf8 (fingerprintText choice text specs views') := hsha h
      have hdecoded := congrArg decodeUtf8 hbytes
      rw [decodeUtf8_utf8, decodeUtf8_utf8] at hdecoded
      exact Option.some.inj hdecoded
    · intro h
      rw [computeLogicalFingerprint, computeLogicalFingerprint, h]
  rw [hdigest]
  constructor
  · intro hidentifies hstream
    exact sameCounts_of_sameRows hkeys hkeys' (hidentifies hstream)
  · intro hcounts hstream
    exact sameRows_of_stream (hcounts hstream) hstream

end Streams

/-! ## A row in one relation or in the other -/

def othersSpec : RelationSpec where
  name := "others"
  schema := numbersSpec.schema
  primaryKey := ["n"]
  mergeStrategy := .upsert
  sortOrder := ["n"]
  valid := by decide +kernel

def bytesDigest (raw : Bytes) : String := String.ofList (raw.map fun b => Char.ofNat b.toNat)

theorem bytesDigest_injective : Function.Injective bytesDigest := by
  have hchar : ∀ n < 256, (Char.ofNat n).toNat = n := by decide +kernel
  have hbyte : Function.Injective fun b : UInt8 => Char.ofNat b.toNat := by
    intro a b h
    have hnat := congrArg Char.toNat h
    simp only [hchar _ (UInt8.toNat_lt a), hchar _ (UInt8.toNat_lt b)] at hnat
    exact UInt8.toNat_inj.mp hnat
  intro a b h
  have hlist := congrArg String.toList h
  rw [bytesDigest, bytesDigest, String.toList_ofList, String.toList_ofList] at hlist
  exact List.map_injective_iff.mpr hbyte hlist

theorem rowText_natText_injective : Function.Injective (rowText natText) := by
  have hexact : ∀ row : Row Nat,
      (Json.arr (row.map fun cell => (cell.map natText.json).getD .null)).Exact := by
    intro row
    refine exactItems_iff.mpr fun j hj => ?_
    obtain ⟨cell, _, rfl⟩ := List.mem_map.mp hj
    cases cell with
    | none => exact trivial
    | some n => exact trivial
  have hcell : Function.Injective fun cell : Option Nat =>
      ((cell.map natText.json).getD .null).sortKeys := by
    intro a b h
    cases a with
    | none =>
      cases b with
      | none => rfl
      | some m => cases h
    | some n =>
      cases b with
      | none => cases h
      | some m =>
        have hint := Json.int.inj h
        rw [Int.ofNat_inj.mp hint]
  intro row row' h
  have hread := congrArg loads h
  rw [rowText, rowText, loads_canonicalJson (hexact row), loads_canonicalJson (hexact row')] at hread
  have hitems := Json.arr.inj (Option.some.inj hread)
  rw [sortItems_eq_map, sortItems_eq_map, List.map_map, List.map_map] at hitems
  exact List.map_injective_iff.mpr hcell hitems

def sevenFirst : List (String × Table Nat) := [("numbers", [[some 7]]), ("others", [])]

def sevenSecond : List (String × Table Nat) := [("numbers", []), ("others", [[some 7]])]

def eightFirst : List (String × Table Nat) := [("numbers", [[some 8]]), ("others", [])]

/-- Another row under the same counts has another fingerprint. -/
theorem fingerprint_identifies_counts :
    computeLogicalFingerprint bytesDigest Choice.first natText [numbersSpec, othersSpec] sevenFirst ≠
      computeLogicalFingerprint bytesDigest Choice.first natText [numbersSpec, othersSpec] eightFirst := by
  have hprints : ∀ n, (natText.json n).Printable := fun _ => trivial
  have hiff := @fingerprint_identifies_iff Nat natText [numbersSpec, othersSpec] sevenFirst eightFirst
    _ Choice.first bytesDigest bytesDigest_injective hprints rowText_natText_injective
    (by decide +kernel) (by decide +kernel)
  intro hsame
  have hrows := hiff.mpr (fun _ => by decide +kernel) hsame
  have hseven := (hrows numbersSpec List.mem_cons_self [some 7]).mp (List.mem_singleton.mpr rfl)
  exact absurd (List.mem_singleton.mp hseven) (by decide)

/-- Two datasets that differ in both relations have one fingerprint. -/
theorem fingerprint_confuses_relations :
    UniqueKeys [numbersSpec, othersSpec] sevenFirst ∧ UniqueKeys [numbersSpec, othersSpec] sevenSecond ∧
      computeLogicalFingerprint bytesDigest Choice.first natText [numbersSpec, othersSpec] sevenFirst =
        computeLogicalFingerprint bytesDigest Choice.first natText [numbersSpec, othersSpec] sevenSecond ∧
      ¬ SameRows [numbersSpec, othersSpec] sevenFirst sevenSecond := by
  refine ⟨by decide +kernel, by decide +kernel, rfl, fun h => ?_⟩
  have hrow := (h numbersSpec List.mem_cons_self [some 7]).mp (List.mem_singleton.mpr rfl)
  exact absurd hrow List.not_mem_nil

end EdgarSec.Dag
