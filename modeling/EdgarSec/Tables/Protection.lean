import EdgarSec.Foundation.Unicode
import EdgarSec.Lib.Cuts
import EdgarSec.Lib.Substitution

/-! Tagged tables behind sentinels: the spans of a text, the masked text, what is put back, and the
rewriting of one span between the sentinels of the others. -/

namespace EdgarSec.Tables
open Foundation Lib Substitution

def sentinelLead : Chars := "__SEC_TBL_".toList

def sentinelTail : Chars := "__".toList

structure TableSpan where
  start : Nat
  stop : Nat
  text : Chars
  startLine : Nat
  endLine : Nat
  deriving DecidableEq

def sentinelToken (position : Nat) : Chars := sentinelLead ++ Nat.toDigits 10 position ++ sentinelTail

/-! ## Spans -/

def startsWithFolded (lead text : Chars) : Bool := (text.take lead.length).map Char.toLower = lead

def tableOpen : Chars := "<table".toList

def tableClose : Chars := "</table".toList

/-- The first place from `n` on where the rest of the text passes the test. -/
def findAt (test : Chars → Bool) (text : Chars) (n : Nat) : Option Nat :=
  (List.range' n (text.length + 1 - n)).find? fun i => test (text.drop i)

def lineAt (text : Chars) (position : Nat) : Nat := (text.take position).count '\n'

def spanBetween (text : Chars) (start stop : Nat) : TableSpan :=
  ⟨start, stop, slice text start stop, lineAt text start, lineAt text stop⟩

/-- The spans from `n` on. Every round moves `n`, so that there are at most as many as characters. -/
def tableSpansFrom (text : Chars) : Nat → Nat → List TableSpan
  | 0, _ => []
  | fuel + 1, n =>
    match findAt (startsWithFolded tableOpen) text n with
    | none => []
    | some index =>
      match findAt (startsWithFolded tableClose) text index with
      | none => [spanBetween text index text.length]
      | some close =>
        let stop := match findAt (fun rest => rest.head? = some '>') text close with
          | none => text.length
          | some gt => gt + 1
        spanBetween text index stop :: tableSpansFrom text fuel stop

def findTableSpans (text : Chars) : List TableSpan :=
  if sentinelLead <:+: text then [] else tableSpansFrom text (text.length + 1) 0

/-! ## Masking and restoring -/

def weave (text : Chars) : Nat → Nat → List TableSpan → Chars
  | _, cursor, [] => text.drop cursor
  | position, cursor, span :: spans =>
    slice text cursor span.start ++ sentinelToken position ++ weave text (position + 1) span.stop spans

def maskTaggedTables (text : Chars) : Chars × List TableSpan :=
  let spans := findTableSpans text
  if spans = [] then (text, []) else (weave text 0 0 spans, spans)

section Restore
variable (u : Unicode)

def digitsValue (digits : Chars) : Nat := digits.foldl (fun n c => 10 * n + (u.decimalOf c).getD 0) 0

/-- `_RE_RESTORE_SENTINEL`: the position of a sentinel and its text. -/
def readSentinel : Reader Char (Nat × Chars) := fun text =>
  if sentinelLead <+: text then
    let digits := (text.drop sentinelLead.length).takeWhile u.isDecimal
    let length := sentinelLead.length + digits.length + sentinelTail.length
    if digits ≠ [] ∧ sentinelTail <+: text.drop (sentinelLead.length + digits.length) then
      some ((digitsValue u digits, text.take length), length)
    else none
  else none

def spanTextAt (spans : List TableSpan) (found : Nat × Chars) : Chars :=
  match spans[found.1]? with
  | some span => span.text
  | none => found.2

def restoreTaggedTables (text : Chars) (spans : List TableSpan) : Except String Chars :=
  if spans = [] then .ok text
  else
    let parts := scan (readSentinel u) text
    let seen := ((tokens parts).map Prod.fst).dedup
    match (List.range spans.length).find? (fun position => seen.length ≠ spans.length ∧ position ∉ seen) with
    | some position => .error s!"masked table sentinel {position} missing at restore"
    | none => .ok (filled (spanTextAt spans) parts)

/-! ## Protected text -/

def maskedSentinelStarts : Nat → Int → List TableSpan → List Nat
  | _, _, [] => []
  | position, cursor, span :: spans =>
    let start := cursor + (span.start - cursor)
    start.toNat :: maskedSentinelStarts (position + 1) (start + (sentinelToken position).length) spans

def rewritePieces (masked : Chars) (spanIndex : Nat) (func : Chars → Chars) : Nat → Nat → List (TableSpan × Nat) → Chars
  | _, cursor, [] => masked.drop cursor
  | position, cursor, (span, maskedStart) :: rest =>
    slice masked cursor maskedStart ++ (if position = spanIndex then func span.text else sentinelToken position) ++
      rewritePieces masked spanIndex func (position + 1) (maskedStart + (sentinelToken position).length) rest

/-- `transform_span` of the protected text. -/
def transformSpan (text : Chars) (spanIndex : Int) (func : Chars → Chars) : Except String Chars :=
  let (masked, spans) := maskTaggedTables text
  if spanIndex < 0 ∨ spans.length ≤ spanIndex then .error s!"span index {spanIndex} out of range for {spans.length} spans"
  else
    let index := spanIndex.toNat
    restoreTaggedTables u (rewritePieces masked index func 0 0 (spans.zip (maskedSentinelStarts 0 0 spans))) (spans.eraseIdx index)

/-- `transform_outside` of the protected text. -/
def transformOutside (text : Chars) (func : Chars → Chars) : Except String Chars :=
  let (masked, spans) := maskTaggedTables text
  restoreTaggedTables u (func masked) spans

end Restore
end EdgarSec.Tables
