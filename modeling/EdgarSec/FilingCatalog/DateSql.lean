import EdgarSec.FilingCatalog.DateSelection
import EdgarSec.Foundation.Text
import EdgarSec.Lib.Outcome

/-! `date_selection_sql`: the predicate over a parsed date column, beside the date filter of the
catalog. -/

namespace EdgarSec.FilingCatalog
open Foundation Lib

def parsedDateAlias : String := "parsed_report_date"

/-! ## Predicates -/

inductive DateTest
  | between (startDate endDate : Date)
  | atLeast (startDate : Date)
  | atMost (endDate : Date)
  | partIn (part : Granularity) (values : List Nat)
  | yearAtLeast (year : Int)
  | yearAtMost (year : Int)

inductive ClauseSql
  | interval (test : DateTest)
  | conjunction (tests : List DateTest)

inductive SelectionSql
  | always
  | anyOf (clauses : List ClauseSql)

def dateLiteral (d : Date) : String := "DATE '" ++ d.isoformat ++ "'"

def DateTest.text (column : String) : DateTest → String
  | between startDate endDate => column ++ " BETWEEN " ++ dateLiteral startDate ++ " AND " ++ dateLiteral endDate
  | atLeast startDate => column ++ " >= " ++ dateLiteral startDate
  | atMost endDate => column ++ " <= " ++ dateLiteral endDate
  | partIn part values =>
    "date_part('" ++ part.text ++ "', " ++ column ++ ") IN (" ++ joinWith ", " (values.map toString) ++ ")"
  | yearAtLeast year => "date_part('year', " ++ column ++ ") >= " ++ toString year
  | yearAtMost year => "date_part('year', " ++ column ++ ") <= " ++ toString year

def ClauseSql.text (column : String) : ClauseSql → String
  | interval test => test.text column
  | conjunction tests => "(" ++ joinWith " AND " (tests.map (DateTest.text column)) ++ ")"

def SelectionSql.text (column : String) : SelectionSql → String
  | always => "TRUE"
  | anyOf [clause] => clause.text column
  | anyOf clauses => "(" ++ joinWith " OR " (clauses.map (ClauseSql.text column)) ++ ")"

/-! ## The builder -/

section Builder
variable {now : Int}

/-- `clause.end_date.isoformat()` is evaluated without an end. -/
def noIsoformat : String := "'NoneType' object has no attribute 'isoformat'"

def absoluteClauseSql (clause : AbsoluteDateClause) : Except String ClauseSql :=
  match clause.startDate, clause.endDate with
  | some startDate, some endDate => .ok (.interval (.between startDate endDate))
  | some startDate, none => .ok (.interval (.atLeast startDate))
  | none, some endDate => .ok (.interval (.atMost endDate))
  | none, none => .error noIsoformat

def recurringClauseSql (clause : RecurringDateClause now) : ClauseSql :=
  .conjunction (.partIn clause.granularity clause.values ::
    (clause.startYear.toList.map .yearAtLeast ++ clause.endYear.toList.map .yearAtMost))

def clauseSql : DateClause now → Except String ClauseSql
  | .absolute clause => absoluteClauseSql clause
  | .recurring clause => .ok (recurringClauseSql clause)

def dateSelectionSql (selection : List (DateClause now)) : Except String SelectionSql :=
  if selection.isEmpty then .ok .always else (selection.mapM clauseSql).map .anyOf

end Builder

/-! ## What the engine answers

A row without a date makes every comparison `NULL`, which is not true. -/

/-- `date_part` of a date. -/
def datePart : Granularity → Date → Nat
  | .month, d => d.month
  | .quarter, d => (d.month + 2) / 3

def DateTest.holds (d : Date) : DateTest → Bool
  | between startDate endDate => decide (startDate ≤ d) && decide (d ≤ endDate)
  | atLeast startDate => decide (startDate ≤ d)
  | atMost endDate => decide (d ≤ endDate)
  | partIn part values => values.contains (datePart part d)
  | yearAtLeast year => decide (year ≤ d.year)
  | yearAtMost year => decide ((d.year : Int) ≤ year)

def ClauseSql.holds (d : Date) : ClauseSql → Bool
  | interval test => test.holds d
  | conjunction tests => tests.all (DateTest.holds d)

def SelectionSql.holds (target : Option Date) : SelectionSql → Bool
  | always => true
  | anyOf clauses => target.any fun d => clauses.any (ClauseSql.holds d)

/-! ## Agreement -/

section Agreement
variable {now : Int} {selection : List (DateClause now)} {d : Date}

def DateClause.FullyOpen : DateClause now → Prop
  | .absolute clause => clause.startDate = none ∧ clause.endDate = none
  | .recurring _ => False

theorem decide_le_eq {α : Type} [LinearOrder α] (a b : α) : decide (a ≤ b) = !decide (b < a) := by
  rw [← decide_not]
  exact decide_eq_decide.mpr not_lt.symm

theorem datePart_eq (g : Granularity) : datePart g d = g.valueOf d := by
  cases g with
  | month => rfl
  | quarter =>
    have hpos := d.month_range.1
    show (d.month + 2) / 3 = (d.month - 1) / 3 + 1
    omega

theorem recurringClauseSql_holds (clause : RecurringDateClause now) :
    (recurringClauseSql clause).holds d = clause.matches d := by
  have hvalue : (DateTest.partIn clause.granularity clause.values).holds d =
      clause.values.contains (clause.granularity.valueOf d) := by
    rw [DateTest.holds, datePart_eq]
  have hstart : ((clause.startYear.toList.map DateTest.yearAtLeast).all (DateTest.holds d)) =
      !(clause.startYear.any ((d.year : Int) < ·)) := by
    cases clause.startYear with
    | none => rfl
    | some year => simp [DateTest.holds, decide_le_eq]
  have hend : ((clause.endYear.toList.map DateTest.yearAtMost).all (DateTest.holds d)) =
      !(clause.endYear.any (· < (d.year : Int))) := by
    cases clause.endYear with
    | none => rfl
    | some year => simp [DateTest.holds, decide_le_eq]
  rw [recurringClauseSql, ClauseSql.holds, List.all_cons, List.all_append, hvalue, hstart, hend,
    RecurringDateClause.matches, Bool.and_comm]

theorem absoluteClauseSql_holds {clause : AbsoluteDateClause} {sql : ClauseSql}
    (h : absoluteClauseSql clause = .ok sql) : sql.holds d = clause.matches d := by
  rw [absoluteClauseSql] at h
  rw [AbsoluteDateClause.matches]
  cases hs : clause.startDate with
  | none =>
    cases he : clause.endDate with
    | none =>
      rw [hs, he] at h
      cases h
    | some endDate =>
      rw [hs, he] at h
      cases h
      simp [ClauseSql.holds, DateTest.holds, decide_le_eq]
  | some startDate =>
    cases he : clause.endDate with
    | none =>
      rw [hs, he] at h
      cases h
      simp [ClauseSql.holds, DateTest.holds, decide_le_eq]
    | some endDate =>
      rw [hs, he] at h
      cases h
      simp [ClauseSql.holds, DateTest.holds, decide_le_eq]

theorem clauseSql_holds {clause : DateClause now} {sql : ClauseSql} (h : clauseSql clause = .ok sql) :
    sql.holds d = clause.matches d := by
  cases clause with
  | absolute clause => exact absoluteClauseSql_holds h
  | recurring clause =>
    cases h
    exact recurringClauseSql_holds clause

theorem clauseSql_isOk_iff {clause : DateClause now} : (∃ sql, clauseSql clause = .ok sql) ↔ ¬ clause.FullyOpen := by
  cases clause with
  | recurring clause =>
    constructor
    · exact fun _ hopen => hopen
    · exact fun _ => ⟨_, rfl⟩
  | absolute clause =>
    rw [clauseSql, absoluteClauseSql, DateClause.FullyOpen]
    cases clause.startDate <;> cases clause.endDate <;> simp

/-- The predicate is built, and is true of a row exactly when the filter takes its date. -/
def Faithful (selection : List (DateClause now)) : Prop :=
  ∃ sql, dateSelectionSql selection = .ok sql ∧ ∀ target, sql.holds target = dateSelectionMatches selection target

/-- The predicate means the filter exactly when no clause is open at both ends. -/
theorem faithful_iff (selection : List (DateClause now)) : Faithful selection ↔ ∀ clause ∈ selection, ¬ clause.FullyOpen := by
  constructor
  · rintro ⟨sql, hsql, -⟩ clause hclause
    rw [dateSelectionSql] at hsql
    have hne : selection.isEmpty = false := by
      cases selection with
      | nil => exact absurd hclause List.not_mem_nil
      | cons _ _ => rfl
    rw [hne, if_neg Bool.false_ne_true] at hsql
    obtain ⟨parts, hparts, -⟩ := Iff.mp map_eq_ok hsql
    exact Iff.mp clauseSql_isOk_iff (exists_of_mapM hparts hclause)
  · intro hopen
    rw [Faithful, dateSelectionSql]
    by_cases hempty : selection.isEmpty = true
    · rw [if_pos hempty]
      refine ⟨_, rfl, fun target => ?_⟩
      unfold dateSelectionMatches
      rw [if_pos hempty]
      rfl
    · rw [if_neg hempty]
      obtain ⟨parts, hparts⟩ := exists_mapM_eq_ok fun clause hclause => Iff.mpr clauseSql_isOk_iff (hopen clause hclause)
      refine ⟨.anyOf parts, ?_, fun target => ?_⟩
      · rw [hparts]
        rfl
      unfold dateSelectionMatches
      rw [if_neg hempty]
      cases target with
      | none => rfl
      | some d =>
        -- clause by clause the two agree on the date
        have hmap := map_mapM (p := ClauseSql.holds d) (q := fun clause => clause.matches d) hparts
          fun clause _ sql hsql => clauseSql_holds hsql
        show parts.any (ClauseSql.holds d) = selection.any fun clause => clause.matches d
        have hany := congrArg (fun l => l.any id) hmap
        simp only [List.any_map, Function.id_comp] at hany
        exact hany

end Agreement

/-! ## Where selections come from -/

/-- What `resolve_date_selection` is given. Ranges and intervals name one clause. -/
inductive DateFilter (now : Int)
  | missing
  | clause (c : DateClause now)
  | day (d : Date)
  | text (t : String)
  | pair (startDate endDate : Option Date)
  | items (filters : List (DateFilter now))

section Resolving
variable {now : Int} (parse : String → Except String (List (DateClause now)))

mutual

def resolveDateSelection : DateFilter now → Except String (List (DateClause now))
  | .missing => .ok []
  | .clause c => .ok [c]
  | .day d => (AbsoluteDateClause.make? (some d) (some d)).map fun c => [.absolute c]
  | .text t => parse t
  | .pair startDate endDate => (AbsoluteDateClause.make? startDate endDate).map fun c => [.absolute c]
  | .items filters => do
    let clauses ← resolveItems filters
    if filters.isEmpty then .ok [] else normalizeDateSelection clauses

def resolveItems : List (DateFilter now) → Except String (List (DateClause now))
  | [] => .ok []
  | filter :: rest => do
    let clauses ← resolveDateSelection filter
    let others ← resolveItems rest
    .ok (clauses ++ others)

end

/-- A pair of open ends resolves to a selection that takes every date and has no predicate. -/
theorem open_pair_has_no_predicate : ∃ selection : List (DateClause 2026),
    resolveDateSelection (fun _ => .error "") (.pair none none) = .ok selection ∧
    (∀ d, dateSelectionMatches selection (some d) = true) ∧
    dateSelectionSql selection = .error noIsoformat ∧ ¬ Faithful selection := by
  refine ⟨[.absolute ⟨none, none, fun s hs => absurd hs (Option.not_mem_none s)⟩], ?_, fun d => rfl, rfl, ?_⟩
  · rw [resolveDateSelection, AbsoluteDateClause.make?,
      dif_pos (show Proper (none, (none : Option Date)) from fun s hs => absurd hs (Option.not_mem_none s))]
    rfl
  · rintro ⟨sql, hsql, -⟩
    cases hsql

end Resolving
end EdgarSec.FilingCatalog
