import EdgarSec.Document.PageRuns

/-! What is inferred from the runs of a document: whether page breaks corroborate it, and whether an
earlier run observed it. -/

namespace EdgarSec.Document
open Foundation Lib

section Between
variable {space : Chars} {observed stronger : List Nat} {breaks : Option (Finset Nat)} {left right : PageCandidate}
  {b : InferredBoundary} {v : Nat}

def missingBetween (left right : PageCandidate) : Nat := right.value - left.value - 1

def Fillable (breaks : Option (Finset Nat)) (left right : PageCandidate) : Prop :=
  missingBetween left right ≤ maxInterpolatedGap ∧ ∀ lines ∈ breaks, missingBetween left right ≤ breaksBetween lines left right

theorem of_mem_inferBetween (h : b ∈ inferBetween space observed stronger breaks (left, right)) :
    Fillable breaks left right ∧ b.space = space ∧ b.pageNumber ∉ observed ∧ ∃ rank < missingBetween left right,
      b.pageNumber = left.value + (rank + 1) ∧
      b.line = left.startLine + ((right.startLine : ℚ) - left.startLine) * ((rank + 1 : Nat) : ℚ) /
        ((missingBetween left right + 1 : Nat) : ℚ) := by
  unfold inferBetween at h
  by_cases hwide : right.value - left.value - 1 = 0 ∨ maxInterpolatedGap < right.value - left.value - 1
  · simp only [if_pos hwide] at h
    exact absurd h List.not_mem_nil
  · simp only [if_neg hwide] at h
    by_cases hbreaks : breaks.any (fun lines => breaksBetween lines left right < right.value - left.value - 1) = true
    · simp only [if_pos hbreaks] at h
      exact absurd h List.not_mem_nil
    · simp only [if_neg hbreaks] at h
      obtain ⟨rank, hrank, rfl⟩ := List.mem_map.mp h
      obtain ⟨hrange, hnew⟩ := List.mem_filter.mp hrank
      rw [Bool.and_eq_true, Bool.not_eq_true', Bool.not_eq_true'] at hnew
      refine ⟨⟨not_lt.mp (not_or.mp hwide).2, ?_⟩, rfl, ?_, rank, List.mem_range.mp hrange, rfl, rfl⟩
      · intro lines hlines
        rw [Option.mem_def] at hlines
        rw [hlines] at hbreaks
        simpa [missingBetween] using hbreaks
      · intro hmem
        rw [List.contains_iff_mem.mpr hmem] at hnew
        exact Bool.noConfusion hnew.1

theorem exists_mem_inferBetween (hfill : Fillable breaks left right) (hleft : left.value < v) (hright : v < right.value)
    (hobserved : v ∉ observed) : ∃ b ∈ inferBetween space observed [] breaks (left, right), b.pageNumber = v := by
  obtain ⟨hwidth, hbreaks⟩ := hfill
  unfold missingBetween at hwidth hbreaks
  have hwide : ¬ (right.value - left.value - 1 = 0 ∨ maxInterpolatedGap < right.value - left.value - 1) := by omega
  have hany : ¬ breaks.any (fun lines => breaksBetween lines left right < right.value - left.value - 1) = true := by
    cases breaks with
    | none => exact Bool.false_ne_true
    | some lines =>
      have hle := hbreaks lines rfl
      simpa using hle
  unfold inferBetween
  simp only [if_neg hwide, if_neg hany]
  have hvalue : left.value + (v - left.value - 1 + 1) = v := by omega
  refine ⟨_, List.mem_map.mpr ⟨v - left.value - 1, List.mem_filter.mpr ⟨List.mem_range.mpr (by omega), ?_⟩, rfl⟩, hvalue⟩
  rw [hvalue, Bool.and_eq_true, Bool.not_eq_true', Bool.not_eq_true']
  exact ⟨Bool.eq_false_iff.mpr fun hmem => hobserved (List.contains_iff_mem.mp hmem), rfl⟩

end Between

/-! ## Page breaks -/

/-- The boundary lies between two neighbours with room for it, and with a break for each missing page. -/
def Corroborated (members : List PageCandidate) (lines : Finset Nat) (b : InferredBoundary) : Prop :=
  ∃ left right, (left, right) ∈ pairwise members ∧ left.value + 1 < right.value ∧
    (left.startLine : ℚ) < b.line ∧ b.line < right.startLine ∧ left.value < b.pageNumber ∧ b.pageNumber < right.value ∧
    missingBetween left right ≤ breaksBetween lines left right

namespace PageScan
section
variable (u : Unicode) (scan : PageScan)

def membersOf (run : PageNumberRun) : List PageCandidate := (healMembers run (scan.pool run)).members

def valuesOf (run : PageNumberRun) : List Nat := (healMembers run (scan.pool run)).values

/-- A page is missing from a gap of the run that is filled. -/
def Fills (run : PageNumberRun) (v : Nat) : Prop :=
  ∃ left right, (left, right) ∈ pairwise (scan.membersOf run) ∧ Fillable scan.breaks left right ∧
    left.value < v ∧ v < right.value ∧ v ∉ scan.valuesOf run

variable {u} {scan} {run : PageNumberRun} {b : InferredBoundary} {v : Nat}

theorem mem_inferredOf : b ∈ scan.inferredOf run ↔ ∃ left right, (left, right) ∈ pairwise (scan.membersOf run) ∧
    b ∈ inferBetween run.space (scan.valuesOf run) [] scan.breaks (left, right) := by
  unfold inferredOf healRun
  rw [List.mem_flatMap]
  constructor
  · rintro ⟨⟨left, right⟩, hpair, hb⟩
    exact ⟨left, right, hpair, hb⟩
  · rintro ⟨left, right, hpair, hb⟩
    exact ⟨(left, right), hpair, hb⟩

theorem fills_of_mem (h : b ∈ scan.inferredOf run) : scan.Fills run b.pageNumber := by
  obtain ⟨left, right, hpair, hb⟩ := Iff.mp mem_inferredOf h
  obtain ⟨hfill, -, hobserved, rank, hrank, hpage, -⟩ := of_mem_inferBetween hb
  unfold missingBetween at hrank
  exact ⟨left, right, hpair, hfill, by omega, by omega, hobserved⟩

theorem exists_mem_of_fills (h : scan.Fills run v) : ∃ b ∈ scan.inferredOf run, b.pageNumber = v := by
  obtain ⟨left, right, hpair, hfill, hleft, hright, hobserved⟩ := h
  obtain ⟨b, hb, hpage⟩ := @exists_mem_inferBetween run.space _ _ _ _ _ hfill hleft hright hobserved
  exact ⟨b, Iff.mpr mem_inferredOf ⟨left, right, hpair, hb⟩, hpage⟩

theorem corroborated_of_breaks (hbreaks : scan.firmBreaks.Nonempty) (h : b ∈ scan.inferredOf run) :
    Corroborated (scan.membersOf run) scan.firmBreaks b := by
  obtain ⟨left, right, hpair, hb⟩ := Iff.mp mem_inferredOf h
  obtain ⟨hfill, -, -, rank, hrank, hpage, hline⟩ := of_mem_inferBetween hb
  have hlines : missingBetween left right ≤ breaksBetween scan.firmBreaks left right :=
    hfill.2 scan.firmBreaks (by rw [breaks, if_pos hbreaks]; rfl)
  have hcard : 0 < breaksBetween scan.firmBreaks left right := by omega
  obtain ⟨line, hmem⟩ := Finset.card_pos.mp hcard
  obtain ⟨-, hafter, hbefore⟩ := Finset.mem_filter.mp hmem
  have hwidth : (0 : ℚ) < (right.startLine : ℚ) - left.startLine := by
    have hlt : (left.startLine : ℚ) < right.startLine := by exact_mod_cast hafter.trans hbefore
    linarith
  have hden : (0 : ℚ) < ((missingBetween left right + 1 : Nat) : ℚ) := by exact_mod_cast Nat.succ_pos _
  have hnum : (0 : ℚ) < ((rank + 1 : Nat) : ℚ) := by exact_mod_cast Nat.succ_pos _
  have hless : ((rank + 1 : Nat) : ℚ) < ((missingBetween left right + 1 : Nat) : ℚ) := by
    exact_mod_cast Nat.succ_lt_succ hrank
  have hroom : left.value + 1 < right.value := by
    unfold missingBetween at hrank
    omega
  refine ⟨left, right, hpair, hroom, ?_, ?_, by omega, ?_, hlines⟩
  · rw [hline]
    have hpos := div_pos (mul_pos hwidth hnum) hden
    linarith
  · rw [hline]
    have hpart : ((right.startLine : ℚ) - left.startLine) * ((rank + 1 : Nat) : ℚ) /
        ((missingBetween left right + 1 : Nat) : ℚ) < (right.startLine : ℚ) - left.startLine := by
      rw [div_lt_iff₀ hden]
      exact mul_lt_mul_of_pos_left hless hwidth
    linarith
  · unfold missingBetween at hrank
    omega

/-- Every inferred boundary is corroborated exactly when the document has page breaks, or no run has
a gap that is filled. -/
theorem inferred_corroborated_iff (u : Unicode) (scan : PageScan) :
    (∀ b ∈ scan.inferred u, ∃ run ∈ scan.runs u, Corroborated (scan.membersOf run) scan.firmBreaks b) ↔
      scan.firmBreaks.Nonempty ∨ ∀ run ∈ scan.runs u, ∀ v, ¬ scan.Fills run v := by
  constructor
  · intro h
    by_contra hnot
    obtain ⟨hbreaks, hfills⟩ := not_or.mp hnot
    push Not at hfills
    obtain ⟨run, hrun, v, hv⟩ := hfills
    obtain ⟨b, hb, -⟩ := exists_mem_of_fills hv
    obtain ⟨run', -, left, right, -, hroom, -, -, -, -, hlines⟩ := h b (List.mem_flatMap.mpr ⟨run, hrun, hb⟩)
    -- without breaks there is none between the neighbours
    rw [Finset.not_nonempty_iff_eq_empty.mp hbreaks] at hlines
    have hnone : breaksBetween ∅ left right = 0 := rfl
    unfold missingBetween at hlines
    omega
  · intro h b hb
    obtain ⟨run, hrun, hb⟩ := List.mem_flatMap.mp hb
    rcases h with hbreaks | hfills
    · exact ⟨run, hrun, corroborated_of_breaks hbreaks hb⟩
    · exact absurd (fills_of_mem hb) (hfills run hrun _)

/-! ## Earlier runs -/

/-- No inferred page is a value of an earlier run of the namespace, or of its own run. -/
def NeverContradicts (u : Unicode) (scan : PageScan) : Prop :=
  ∀ (k : Nat) (run : PageNumberRun), (scan.runs u)[k]? = some run → ∀ b ∈ scan.inferredOf run,
    ∀ j ≤ k, ∀ earlier, (scan.runs u)[j]? = some earlier → earlier.space = b.space →
      b.pageNumber ∉ earlier.candidates.map PageCandidate.value

end

/-! ## Two documents without page breaks -/

def labelOn (family : PageMarkerKind) (line value : Nat) : PageCandidate where
  start := 40 * line
  stop := 40 * line + 1
  startLine := line
  endLine := line
  text := ['#']
  family
  space := "arabic".toList
  value
  relativePosition := none
  leadingColumn := 0
  template := ['#']

def fourLabels : PageScan where
  anchored := []
  fallback := [(10, 1), (20, 2), (30, 4), (40, 5)].map fun p => labelOn .bareNumber p.1 p.2
  anchorLines := ∅
  firmBreaks := ∅

/-- Page 3 is inferred from the numbers alone. -/
theorem gap_filled_without_breaks : ((fourLabels.inferred asciiLetters).map fun b => b.pageNumber) = [3] ∧
    ¬ ∀ b ∈ fourLabels.inferred asciiLetters, ∃ run ∈ fourLabels.runs asciiLetters,
      Corroborated (fourLabels.membersOf run) fourLabels.firmBreaks b := by
  have hpages : ((fourLabels.inferred asciiLetters).map fun b => b.pageNumber) = [3] := by decide +kernel
  refine ⟨hpages, fun h => ?_⟩
  obtain ⟨b, hb, -⟩ := List.mem_map.mp (hpages ▸ List.mem_singleton_self 3 : 3 ∈ (fourLabels.inferred asciiLetters).map fun b => b.pageNumber)
  obtain ⟨run, -, left, right, -, hroom, -, -, -, -, hlines⟩ := h b hb
  have hnone : breaksBetween fourLabels.firmBreaks left right = 0 := rfl
  unfold missingBetween at hlines
  omega

def twoNumberings : PageScan where
  anchored := []
  fallback := ([(10, 3), (20, 4), (30, 5)].map fun p => labelOn .parenNumber p.1 p.2) ++
    [(100, 1), (110, 2), (130, 4), (140, 5)].map fun p => labelOn .bareNumber p.1 p.2
  anchorLines := ∅
  firmBreaks := ∅

end PageScan
end EdgarSec.Document
