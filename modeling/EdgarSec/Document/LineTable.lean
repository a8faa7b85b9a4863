import EdgarSec.Document.PageAlignment

/-! The table of line offsets against the lines of a document: it counts one character for the end of every line. -/

namespace EdgarSec.Document
open Foundation Lib

/-- `bisect_right` in an increasing list. -/
def bisectRight (l : List Nat) (x : Nat) : Nat := (l.takeWhile fun a => a ≤ x).length

def lineForOffset (offsets : List Nat) (offset : Nat) : Nat := min (bisectRight offsets offset - 1) (offsets.length - 1)

def lineAt : List Chars → Nat → Nat
  | [], _ => 0
  | line :: lines, p => if p < line.length then 0 else lineAt lines (p - line.length) + 1

/-- No line ends with a return and a feed. -/
def OneCharEnds (text : Chars) : Prop := ¬ ['\r', '\n'] <:+: text

/-! ## The table -/

def offsetsFrom (cursor : Nat) : List Chars → List Nat
  | [] => []
  | line :: lines => cursor :: offsetsFrom (cursor + (line.length + 1)) lines

theorem lineOffsets_eq (lines : List Chars) : lineOffsets lines = offsetsFrom 0 lines := by
  have hfrom : ∀ (lines : List Chars) cursor, (List.range lines.length).map (fun i => cursor + ((lines.take i).map fun line => line.length + 1).sum) =
      offsetsFrom cursor lines := by
    intro lines
    induction lines with
    | nil => exact fun _ => rfl
    | cons line lines ih =>
      intro cursor
      rw [List.length_cons, List.range_succ_eq_map, List.map_cons, List.map_map, offsetsFrom, ← ih]
      congr 1
      apply List.map_congr_left
      intro i _
      simp only [Function.comp, List.take_succ_cons, List.map_cons, List.sum_cons]
      omega
  rw [← hfrom lines 0]
  simp [lineOffsets]

@[simp] theorem length_offsetsFrom (cursor : Nat) (lines : List Chars) : (offsetsFrom cursor lines).length = lines.length := by
  induction lines generalizing cursor with
  | nil => rfl
  | cons line lines ih => rw [offsetsFrom, List.length_cons, List.length_cons, ih]

@[simp] theorem length_lineOffsets (lines : List Chars) : (lineOffsets lines).length = lines.length := by
  rw [lineOffsets_eq, length_offsetsFrom]

theorem offset_lt {lines : List Chars} {i j : Nat} (hij : i < j) (hj : j < lines.length) :
    (lineOffsets lines).getD i 0 + (lines.getD i []).length + 1 ≤ (lineOffsets lines).getD j 0 := by
  have hfrom : ∀ (lines : List Chars) cursor i j, i < j → j < lines.length →
      (offsetsFrom cursor lines).getD i 0 + (lines.getD i []).length + 1 ≤ (offsetsFrom cursor lines).getD j 0 ∧
      cursor ≤ (offsetsFrom cursor lines).getD i 0 := by
    intro lines
    induction lines with
    | nil => exact fun _ _ j _ hj => absurd hj (Nat.not_lt_zero j)
    | cons line lines ih =>
      intro cursor i j hij hj
      obtain ⟨j, rfl⟩ : ∃ j', j = j' + 1 := ⟨j - 1, by omega⟩
      have hj : j < lines.length := Nat.lt_of_succ_lt_succ hj
      cases i with
      | zero =>
        refine ⟨?_, le_refl _⟩
        simp only [offsetsFrom, List.getD_cons_zero, List.getD_cons_succ]
        cases j with
        | zero =>
          cases lines with
          | nil => exact absurd hj (Nat.lt_irrefl 0)
          | cons next lines => simp [offsetsFrom]
        | succ j =>
          have hlater := ih (cursor + (line.length + 1)) 0 (j + 1) (Nat.succ_pos j) hj
          omega
      | succ i =>
        have hlater := ih (cursor + (line.length + 1)) i j (Nat.lt_of_succ_lt_succ hij) hj
        simp only [offsetsFrom, List.getD_cons_succ]
        exact ⟨hlater.1, by omega⟩
  rw [lineOffsets_eq]
  exact (hfrom lines 0 i j hij hj).1

theorem offset_le {lines : List Chars} {i j : Nat} (hij : i ≤ j) (hj : j < lines.length) :
    (lineOffsets lines).getD i 0 ≤ (lineOffsets lines).getD j 0 := by
  rcases Nat.eq_or_lt_of_le hij with rfl | hlt
  · exact le_refl _
  · have := offset_lt hlt hj
    omega

/-! ## Lines and their ends -/

theorem rdropWhile_append_of_all {p : Char → Bool} {body ends : Chars} (hbody : ∀ c ∈ body, p c = false) (hends : ∀ c ∈ ends, p c = true) :
    (body ++ ends).rdropWhile p = body := by
  rw [List.rdropWhile, List.reverse_append, List.dropWhile_append_of_pos (by simpa using hends)]
  cases hrev : body.reverse with
  | nil =>
    have hnil : body = [] := by simpa using hrev
    rw [hnil]
    rfl
  | cons c rest =>
    have hc : p c = false := hbody c (by rw [← List.mem_reverse, hrev]; exact List.mem_cons_self)
    rw [List.dropWhile_cons_of_neg (by rw [hc]; exact Bool.false_ne_true), ← hrev, List.reverse_reverse]

theorem length_of_terminated {line : Chars} (h : Terminated line) : (line.rdropWhile isLineBreak).length + 1 ≤ line.length := by
  obtain ⟨body, hbody, rfl | ⟨c, hc, rfl⟩⟩ := h
  · rw [rdropWhile_append_of_all hbody (by simp [isLineBreak])]
    simp
  · rw [rdropWhile_append_of_all hbody (by simpa using hc)]
    simp

theorem length_of_oneChar {line : Chars} (h : Terminated line) (hone : ¬ ['\r', '\n'] <:+: line) :
    (line.rdropWhile isLineBreak).length + 1 = line.length := by
  obtain ⟨body, hbody, rfl | ⟨c, hc, rfl⟩⟩ := h
  · exact absurd (List.infix_append' body ['\r', '\n'] []) (by simpa using hone)
  · rw [rdropWhile_append_of_all hbody (by simpa using hc)]
    simp

/-! ## The table and the text -/

theorem offset_add_length_le (text : Chars) {i : Nat} (hi : i < (splitlines text).length) :
    (lineOffsets (splitlines text)).getD i 0 + ((splitlines text).getD i []).length ≤ text.length := by
  have hfrom : ∀ (kept : List Chars), Lined kept → ∀ cursor i, i < kept.length →
      (offsetsFrom cursor (kept.map fun line => line.rdropWhile isLineBreak)).getD i 0 +
        ((kept.map fun line => line.rdropWhile isLineBreak).getD i []).length ≤ cursor + kept.flatten.length := by
    intro kept
    induction kept with
    | nil => exact fun _ _ i hi => absurd hi (Nat.not_lt_zero i)
    | cons line lines ih =>
      intro hlined cursor i hi
      rw [List.map_cons, offsetsFrom, List.flatten_cons, List.length_append]
      cases i with
      | zero =>
        have hle : (line.rdropWhile isLineBreak).length ≤ line.length := (List.rdropWhile_prefix isLineBreak line).length_le
        simp only [List.getD_cons_zero]
        omega
      | succ i =>
        have hi : i < lines.length := Nat.lt_of_succ_lt_succ hi
        have hterm : Terminated line := by
          rcases hlined.1 with hterm | ⟨-, hnil⟩
          · exact hterm
          · rw [hnil] at hi
            exact absurd hi (Nat.not_lt_zero i)
        have hrest := ih hlined.2.2 (cursor + ((line.rdropWhile isLineBreak).length + 1)) i hi
        have hline := length_of_terminated hterm
        simp only [List.getD_cons_succ]
        omega
  have hkept := hfrom (splitlinesKeep text) (lined_splitlinesKeep text) 0 i (by simpa [splitlines] using hi)
  rw [splitlinesKeep_flatten, Nat.zero_add] at hkept
  rw [lineOffsets_eq]
  exact hkept

theorem lineForOffset_eq {text : Chars} (hone : OneCharEnds text) {p : Nat} (hp : p < text.length) :
    lineForOffset (lineOffsets (splitlines text)) p = lineAt (splitlinesKeep text) p := by
  have hfrom : ∀ (kept : List Chars), Lined kept → (∀ line ∈ kept, ¬ ['\r', '\n'] <:+: line) → ∀ cursor p, cursor ≤ p → p < cursor + kept.flatten.length →
      bisectRight (offsetsFrom cursor (kept.map fun line => line.rdropWhile isLineBreak)) p = lineAt kept (p - cursor) + 1 ∧ lineAt kept (p - cursor) < kept.length := by
    intro kept
    induction kept with
    | nil =>
      intro _ _ cursor p hle hlt
      simp only [List.flatten_nil, List.length_nil] at hlt
      omega
    | cons line lines ih =>
      intro hlined hends cursor p hle hlt
      rw [List.flatten_cons, List.length_append] at hlt
      rw [List.map_cons, offsetsFrom, bisectRight, List.takeWhile_cons_of_pos (by simpa using hle), List.length_cons, lineAt]
      by_cases hin : p - cursor < line.length
      · rw [if_pos hin]
        refine ⟨?_, Nat.succ_pos _⟩
        -- the next line begins behind the position
        cases lines with
        | nil => rfl
        | cons next lines =>
          have hterm : Terminated line := hlined.1.resolve_right fun h => List.cons_ne_nil _ _ h.2
          have hlen := length_of_oneChar hterm (hends line List.mem_cons_self)
          rw [List.map_cons, offsetsFrom, List.takeWhile_cons_of_neg (by simp; omega)]
          rfl
      · rw [if_neg hin]
        have hterm : Terminated line := by
          rcases hlined.1 with hterm | ⟨-, hnil⟩
          · exact hterm
          · rw [hnil] at hlt
            simp only [List.flatten_nil, List.length_nil] at hlt
            omega
        have hlen := length_of_oneChar hterm (hends line List.mem_cons_self)
        have hrest := ih hlined.2.2 (fun l hl => hends l (List.mem_cons_of_mem _ hl)) (cursor + line.length) p (by omega) (by omega)
        rw [hlen]
        have hsub : p - cursor - line.length = p - (cursor + line.length) := by omega
        rw [hsub]
        refine ⟨?_, ?_⟩
        · have hbis := hrest.1
          rw [bisectRight] at hbis
          rw [hbis]
        · rw [List.length_cons]
          exact Nat.succ_lt_succ hrest.2
  have hends : ∀ line ∈ splitlinesKeep text, ¬ ['\r', '\n'] <:+: line := by
    intro line hline hin
    have hflat : line <:+: (splitlinesKeep text).flatten := List.infix_of_mem_flatten hline
    rw [splitlinesKeep_flatten] at hflat
    exact hone (hin.trans hflat)
  have hkept := hfrom (splitlinesKeep text) (lined_splitlinesKeep text) hends 0 p (Nat.zero_le p) (by rw [splitlinesKeep_flatten]; omega)
  rw [Nat.sub_zero] at hkept
  rw [lineForOffset, length_lineOffsets, lineOffsets_eq]
  show min (bisectRight (offsetsFrom 0 (List.map _ _)) p - 1) _ = _
  rw [hkept.1, splitlines, List.length_map]
  omega

theorem lineAt_mono (kept : List Chars) {p q : Nat} (h : p ≤ q) : lineAt kept p ≤ lineAt kept q := by
  induction kept generalizing p q with
  | nil => exact le_refl _
  | cons line lines ih =>
    rw [lineAt, lineAt]
    by_cases hp : p < line.length
    · rw [if_pos hp]
      exact Nat.zero_le _
    · rw [if_neg hp, if_neg (by omega)]
      exact Nat.succ_le_succ (ih (by omega))

end EdgarSec.Document
