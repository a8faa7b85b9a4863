import EdgarSec.Dag.Catalog
import EdgarSec.Lib.Outcome
import EdgarSec.Lib.Query

/-! Relation specs: the columns of a relation and the rule by which its deltas combine
along a lineage. -/

namespace EdgarSec.Dag
open Foundation Lib

structure Schema where
  names : List String
  nodup : names.Nodup
  deriving DecidableEq

inductive MergeStrategy where
  | upsert
  | append
  | scopedMask
  deriving DecidableEq, Repr

inductive TieBreakerOp where
  | min
  | max
  deriving DecidableEq, Repr

def defaultRowGroupSize : Int := 128000

structure RelationSpecFields where
  name : String
  schema : Schema
  primaryKey : List String
  mergeStrategy : MergeStrategy
  sortOrder : List String
  parentRelation : Option String := none
  parentJoinKey : Option (List String) := none
  tieBreakerColumn : Option String := none
  tieBreakerOp : TieBreakerOp := .min
  maxRowsPerPart : Option Int := some defaultRowGroupSize
  entityKey : Option String := none

def isIdentifier (name : String) : Bool :=
  match name.toList with
  | [] => false
  | c :: cs => (c.isAlpha || c == '_') && cs.all fun d => d.isAlphanum || d == '_'

namespace RelationSpecFields

def checkColumns (f : RelationSpecFields) (role : String) (cols : List String) :
    Except DagError Unit :=
  cols.forM fun col =>
    if col ∈ f.schema.names then .ok ()
    else .error (.valueError (role ++ " " ++ pyRepr col ++ " not in schema for " ++ f.name))

def checkEntityKey (f : RelationSpecFields) : Except DagError Unit :=
  match f.entityKey with
  | none => .ok ()
  | some key =>
    if key = "" ∨ key ∈ f.schema.names then .ok ()
    else .error (.valueError ("entity_key " ++ pyRepr key ++ " not in schema for " ++ f.name))

def checkMaxRows (f : RelationSpecFields) : Except DagError Unit :=
  match f.maxRowsPerPart with
  | none => .ok ()
  | some n =>
    if n ≤ 0 then
      .error (.valueError ("max_rows_per_part must be positive, got " ++ toString n))
    else .ok ()

def checkStrategy (f : RelationSpecFields) : Except DagError Unit :=
  match f.mergeStrategy with
  | .upsert => .ok ()
  | .scopedMask =>
    if f.parentRelation.getD "" = "" then
      .error (.valueError ("scoped_mask relation " ++ f.name ++ " requires parent_relation"))
    else if f.parentJoinKey.getD [] = [] then
      .error (.valueError ("scoped_mask relation " ++ f.name ++ " requires parent_join_key"))
    else .ok ()
  | .append =>
    match f.tieBreakerColumn with
    | none => .ok ()
    | some col =>
      if col = "" ∨ col ∈ f.schema.names then .ok ()
      else .error (.valueError ("tie breaker " ++ pyRepr col ++ " not in schema"))

def postInit (f : RelationSpecFields) : Except DagError Unit :=
  if isIdentifier f.name = false then
    .error (.valueError ("invalid relation name: " ++ pyRepr f.name))
  else if f.primaryKey = [] then
    .error (.valueError ("relation " ++ f.name ++ " must define a primary key"))
  else do
    f.checkEntityKey
    f.checkMaxRows
    f.checkColumns "primary key column" f.primaryKey
    f.checkColumns "sort column" f.sortOrder
    f.checkStrategy

end RelationSpecFields

structure RelationSpec extends RelationSpecFields where
  valid : toRelationSpecFields.postInit = .ok ()

namespace RelationSpecFields

theorem checkColumns_eq_ok_iff {f : RelationSpecFields} {role : String} {cols : List String} :
    f.checkColumns role cols = .ok () ↔ ∀ col ∈ cols, col ∈ f.schema.names := by
  unfold checkColumns
  rw [forM_eq_ok]
  refine forall₂_congr fun col _ => ?_
  by_cases h : col ∈ f.schema.names <;> simp [h]

end RelationSpecFields

namespace RelationSpec

theorem checked (s : RelationSpec) : s.primaryKey ≠ [] ∧
    (∀ col ∈ s.primaryKey, col ∈ s.schema.names) ∧ (∀ col ∈ s.sortOrder, col ∈ s.schema.names) := by
  have hvalid := s.valid
  unfold RelationSpecFields.postInit at hvalid
  split at hvalid
  · cases hvalid
  · split at hvalid
    · cases hvalid
    · rename_i hkey
      obtain ⟨_, _, hvalid⟩ := bind_eq_ok.mp hvalid
      obtain ⟨_, _, hvalid⟩ := bind_eq_ok.mp hvalid
      obtain ⟨_, hpk, hvalid⟩ := bind_eq_ok.mp hvalid
      obtain ⟨_, hsort, _⟩ := bind_eq_ok.mp hvalid
      exact ⟨hkey, RelationSpecFields.checkColumns_eq_ok_iff.mp hpk,
        RelationSpecFields.checkColumns_eq_ok_iff.mp hsort⟩

theorem isIdentifier_name (s : RelationSpec) : isIdentifier s.name = true := by
  have hvalid := s.valid
  unfold RelationSpecFields.postInit at hvalid
  split at hvalid
  · cases hvalid
  · rename_i hname
    simpa using hname

def tieBreaker? (s : RelationSpec) : Option String := s.tieBreakerColumn.filter (· ≠ "")

/-- `spec.parent_join_key or spec.primary_key`. -/
def joinColumns (s : RelationSpec) : List String :=
  if s.parentJoinKey.getD [] = [] then s.primaryKey else s.parentJoinKey.getD []

def parentName (s : RelationSpec) : String := s.parentRelation.getD ""

end RelationSpec

/-! ## Rows -/

abbrev Row (V : Type) := List (Option V)

abbrev Table (V : Type) := List (Row V)

namespace Schema

variable {V : Type}

/-- Every row has one cell for each column. -/
def Fits (schema : Schema) (table : Table V) : Prop :=
  ∀ row ∈ table, row.length = schema.names.length

instance (schema : Schema) (table : Table V) : Decidable (schema.Fits table) :=
  inferInstanceAs (Decidable (∀ row ∈ table, _))

def cell (schema : Schema) (row : Row V) (col : String) : Option V :=
  (row[schema.names.idxOf col]?).join

def cells (schema : Schema) (cols : List String) (row : Row V) : List (Option V) :=
  cols.map (schema.cell row)

theorem cell_getElem {schema : Schema} {row : Row V} {i : Nat} (hi : i < schema.names.length) :
    schema.cell row schema.names[i] = (row[i]?).join := by
  rw [cell, schema.nodup.idxOf_getElem i hi]

theorem row_ext {schema : Schema} {row row' : Row V} (h : row.length = schema.names.length)
    (h' : row'.length = schema.names.length)
    (hcell : ∀ col ∈ schema.names, schema.cell row col = schema.cell row' col) : row = row' := by
  refine List.ext_getElem (h.trans h'.symm) fun i hi hi' => ?_
  have hin : i < schema.names.length := h ▸ hi
  have he := hcell _ (List.getElem_mem hin)
  rw [cell_getElem hin, cell_getElem hin] at he
  simpa [List.getElem?_eq_getElem hi, List.getElem?_eq_getElem hi'] using he

end Schema

namespace RelationSpec

variable {V : Type}

def keyCells (s : RelationSpec) (row : Row V) : List (Option V) := s.schema.cells s.primaryKey row

end RelationSpec

def nonNull {V : Type} (cells : List (Option V)) : Option (List (Option V)) :=
  if cells.all Option.isSome then some cells else none

@[simp] theorem nonNull_eq_some_iff {V : Type} {cells key : List (Option V)} :
    nonNull cells = some key ↔ cells = key ∧ ∀ c ∈ cells, c.isSome = true := by
  unfold nonNull
  split
  · rename_i h
    simpa using fun _ => h
  · rename_i h
    simpa using fun _ => h

end EdgarSec.Dag
