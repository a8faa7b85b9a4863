import EdgarSec.Dates.Formats
import EdgarSec.Document.PageStripping

/-! `heal_date_fragments`: dates that are split over lines are put together again. -/

namespace EdgarSec.Dates
open Lib Foundation Patterns Document

/-! ## The window -/

section Window
variable (u : DateTables) (clock : Clock)

def normalizeSeparators (text : Chars) : Chars :=
  slashSepRe.sub u.toCharTables ['/'] (dashSepRe.sub u.toCharTables ['-'] text)

def isDateFragment (text : Chars) : Bool :=
  let normalized := stripChars text
  if normalized = [] then false
  else
    (monthRe.fullmatch u.toCharTables (normalized.rdropWhile (· = '.'))).isSome ||
      (dateFragmentRe.fullmatch u.toCharTables normalized).isSome ||
      (monthDayFragmentRe.matchAt u.toCharTables ⟨[], normalized, []⟩).isSome ||
      (dayYearFragmentRe.matchAt u.toCharTables ⟨[], normalized, []⟩).isSome

def joined (parts : List Chars) : Chars := [' '].intercalate parts

def looksLikeDateFragment (parts : List Chars) : Bool :=
  let combined := joined parts
  (monthRe.search u.toCharTables combined).isSome ||
    ((yearInTextRe.search u.toCharTables combined).isSome && (combined.contains '/' || combined.contains '-'))

structure Window where
  parts : List Chars := []
  stop : Nat
  best : Option (Chars × Nat) := none
  deriving DecidableEq, Repr

def Window.grow (w : Window) (idx : Nat) (text : Chars) : Except String Window :=
  let parts := w.parts ++ [text]
  let candidate := normalizeSeparators u (joined parts)
  if w.parts = [] then .ok { parts := parts, stop := idx, best := w.best }
  else
    match parseDate u clock candidate with
    | .error e => .error e
    | .ok none => .ok { parts := parts, stop := idx, best := w.best }
    | .ok (some _) => .ok { parts := parts, stop := idx, best := some (candidate, idx) }

def scanLines (lines : List Chars) : Nat → Nat → Window → Except String Window
  | 0, _, w => .ok w
  | fuel + 1, idx, w =>
    match lines[idx]? with
    | none => .ok w
    | some line =>
      let text := stripChars line
      if text = [] then .ok w
      -- prose around a date is left alone
      else if isDateFragment u text = false then .ok w
      else
        match w.grow u clock idx text with
        | .error e => .error e
        | .ok w' => scanLines lines fuel (idx + 1) w'

def scanDateWindow (lines : List Chars) (start : Nat) (maxWindow : Int) : Except String (Option (Chars × Nat)) :=
  match scanLines u clock lines maxWindow.toNat start { stop := start } with
  | .error e => .error e
  | .ok w =>
    match w.best with
    | some best => .ok (some best)
    | none =>
      if 1 < w.parts.length ∧ looksLikeDateFragment u w.parts then .ok (some (normalizeSeparators u (joined w.parts), w.stop))
      else .ok none

end Window

/-! ## What a window holds -/

section Spec
variable {u : DateTables} {clock : Clock} {lines : List Chars} {start idx : Nat} {text : Chars}

/-- The text of `n` lines from `start` on, as it is handed to the parser. -/
def windowText (u : DateTables) (lines : List Chars) (start n : Nat) : Chars :=
  normalizeSeparators u (joined (((lines.drop start).take n).map stripChars))

/-- The window holds the lines from `start` on, and what it keeps in mind is the text of two or more
of them. -/
structure Window.Holds (u : DateTables) (lines : List Chars) (start : Nat) (w : Window) : Prop where
  parts : w.parts = ((lines.drop start).take w.parts.length).map stripChars
  stop : w.parts ≠ [] → w.stop + 1 = start + w.parts.length
  fits : w.parts ≠ [] → start + w.parts.length ≤ lines.length
  best : ∀ candidate stop, w.best = some (candidate, stop) →
    start < stop ∧ stop < lines.length ∧ candidate = windowText u lines start (stop + 1 - start)

theorem holds_start : Window.Holds u lines start { stop := start } where
  parts := rfl
  stop h := absurd rfl h
  fits h := absurd rfl h
  best _ _ h := absurd h.symm (Option.some_ne_none _)

theorem Window.Holds.grow {w w' : Window} {line : Chars} (h : w.Holds u lines start) (hidx : idx = start + w.parts.length)
    (hline : lines[idx]? = some line) (hgrow : w.grow u clock idx (stripChars line) = .ok w') :
    w'.Holds u lines start ∧ w'.parts.length = w.parts.length + 1 := by
  obtain ⟨hlt, hget⟩ := List.getElem?_eq_some_iff.mp hline
  have hparts : w.parts ++ [stripChars line] = ((lines.drop start).take (w.parts.length + 1)).map stripChars := by
    have hdrop : (lines.drop start)[w.parts.length]? = some line := by rw [List.getElem?_drop, ← hidx, hline]
    rw [List.take_add_one, hdrop, List.map_append, ← h.parts]
    rfl
  have hlength : (w.parts ++ [stripChars line]).length = w.parts.length + 1 := List.length_append
  have hne : w.parts ++ [stripChars line] ≠ [] := List.append_ne_nil_of_right_ne_nil _ (List.cons_ne_nil _ _)
  -- whatever is kept in mind, the lines are the same
  have hall : ∀ best, (∀ candidate stop, best = some (candidate, stop) →
      start < stop ∧ stop < lines.length ∧ candidate = windowText u lines start (stop + 1 - start)) →
      Window.Holds u lines start { parts := w.parts ++ [stripChars line], stop := idx, best := best } := by
    intro best hbest
    refine ⟨?_, fun _ => ?_, fun _ => ?_, hbest⟩
    · show w.parts ++ [stripChars line] = _
      rw [hlength]
      exact hparts
    · show idx + 1 = start + (w.parts ++ [stripChars line]).length
      rw [hlength, hidx]
      rfl
    · show start + (w.parts ++ [stripChars line]).length ≤ lines.length
      rw [hlength, ← Nat.add_assoc, ← hidx]
      exact hlt
  unfold Window.grow at hgrow
  dsimp only at hgrow
  split_ifs at hgrow with hfirst
  · injection hgrow with hgrow
    rw [← hgrow]
    exact ⟨hall w.best h.best, hlength⟩
  · split at hgrow
    · cases hgrow
    · injection hgrow with hgrow
      rw [← hgrow]
      exact ⟨hall w.best h.best, hlength⟩
    · injection hgrow with hgrow
      rw [← hgrow]
      refine ⟨hall _ ?_, hlength⟩
      intro candidate stop hsome
      injection hsome with hpair
      injection hpair with hcandidate hstop
      have hpos : 0 < w.parts.length := List.length_pos_of_ne_nil hfirst
      have hcount : stop + 1 - start = w.parts.length + 1 := by omega
      refine ⟨by omega, by omega, ?_⟩
      rw [windowText, hcount, ← hparts]
      exact hcandidate.symm

theorem holds_scanLines {fuel : Nat} {w w' : Window} (h : w.Holds u lines start) (hidx : idx = start + w.parts.length)
    (hscan : scanLines u clock lines fuel idx w = .ok w') : w'.Holds u lines start := by
  induction fuel generalizing idx w with
  | zero =>
    injection hscan with hscan
    exact hscan ▸ h
  | succ fuel ih =>
    rw [scanLines] at hscan
    split at hscan
    · injection hscan with hscan
      exact hscan ▸ h
    · rename_i line hline
      dsimp only at hscan
      split_ifs at hscan
      · injection hscan with hscan
        exact hscan ▸ h
      · injection hscan with hscan
        exact hscan ▸ h
      · split at hscan
        · cases hscan
        · rename_i grown hgrow
          obtain ⟨hgrown, hlength⟩ := h.grow hidx hline hgrow
          apply ih hgrown _ hscan
          rw [hlength, hidx]
          rfl

theorem scanDateWindow_spec {maxWindow : Int} {candidate : Chars} {stop : Nat}
    (h : scanDateWindow u clock lines start maxWindow = .ok (some (candidate, stop))) :
    start < stop ∧ stop < lines.length ∧ candidate = windowText u lines start (stop + 1 - start) := by
  unfold scanDateWindow at h
  split at h
  · cases h
  · rename_i w hscan
    have hholds : w.Holds u lines start := holds_scanLines holds_start rfl hscan
    split at h
    · rename_i best hbest
      injection h with h
      injection h with h
      exact hholds.best candidate stop (h ▸ hbest)
    · split_ifs at h with hlong
      · injection h with h
        injection h with h
        injection h with hcandidate hstop
        have hne : w.parts ≠ [] := List.ne_nil_of_length_pos (Nat.lt_of_succ_lt hlong.1)
        have hwindow := hholds.stop hne
        have hfits := hholds.fits hne
        have hcount : stop + 1 - start = w.parts.length := by omega
        refine ⟨by omega, by omega, ?_⟩
        rw [windowText, hcount, ← hholds.parts]
        exact hcandidate.symm
      · injection h with h
        exact absurd h.symm (Option.some_ne_none _)

end Spec

/-! ## The characters that are left -/

section Visible
variable {u : DateTables} {clock : Clock}

theorem whitespaceRe_eq : whitespaceRe = ⟨{}, .cat (.rep 1 none true (.one .space)) .empty⟩ := rfl

theorem slashSepRe_eq : slashSepRe =
    ⟨{}, .cat (.rep 0 none true (.one .space)) (.cat (.one (.literal '/')) (.cat (.rep 0 none true (.one .space)) .empty))⟩ := rfl

theorem dashSepRe_eq : dashSepRe =
    ⟨{}, .cat (.rep 0 none true (.one .space)) (.cat (.one (.literal '-')) (.cat (.rep 0 none true (.one .space)) .empty))⟩ := rfl

theorem yields_spaces (u : DateTables) (least : Nat) :
    Regex.Yields (fun (a : CharTest) c => a.test u.toCharTables {} c)
      (fun (t : Assertion) before rest => t.holds u.toCharTables {} before rest) (fun c => !isPySpace c)
      (.rep least none true (.one .space)) [] := by
  apply Regex.yields_rep
  intro c hc
  have hspace : isPySpace c = true := hc
  rw [hspace]
  rfl

theorem visible_whitespace (text : Chars) :
    visible isPySpace (whitespaceRe.sub u.toCharTables [' '] text) = visible isPySpace text := by
  rw [whitespaceRe_eq]
  apply Regex.sub_filter
  exact (yields_spaces u 1).cat Regex.yields_empty

theorem visible_sep {c : Char} (hc : isPySpace c = false) (text : Chars) :
    visible isPySpace (Pattern.sub u.toCharTables ⟨{}, .cat (.rep 0 none true (.one .space))
      (.cat (.one (.literal c)) (.cat (.rep 0 none true (.one .space)) .empty))⟩ [c] text) = visible isPySpace text := by
  have hkept : (!isPySpace c) = true := by
    rw [hc]
    rfl
  have hliteral : ∀ d, CharTest.test u.toCharTables {} (.literal c) d = true → d = c := fun d hd => (of_decide_eq_true hd).symm
  have hself : [c].filter (fun x => !isPySpace x) = [c] := List.filter_cons_of_pos hkept
  apply Regex.sub_filter
  rw [hself]
  exact (yields_spaces u 0).cat ((Regex.yields_one (f := fun x => !isPySpace x) hkept hliteral).cat ((yields_spaces u 0).cat Regex.yields_empty))

theorem visible_normalizeSeparators (text : Chars) : visible isPySpace (normalizeSeparators u text) = visible isPySpace text := by
  rw [normalizeSeparators, slashSepRe_eq, dashSepRe_eq, visible_sep rfl, visible_sep rfl]

theorem visible_stripChars (text : Chars) : visible isPySpace (stripChars text) = visible isPySpace text := by
  rw [stripChars, visible_rdropWhile, visible_dropWhile]

theorem visible_joined (parts : List Chars) : visible isPySpace (joined parts) = visible isPySpace parts.flatten := by
  induction parts with
  | nil => rfl
  | cons part rest ih =>
    cases rest with
    | nil => rfl
    | cons next rest =>
      have hcons : joined (part :: next :: rest) = part ++ ([' '] ++ joined (next :: rest)) := by
        rw [joined, List.intercalate_cons_cons, List.append_assoc]
        rfl
      have hflatten : (part :: next :: rest).flatten = part ++ (next :: rest).flatten := rfl
      rw [hcons, hflatten, visible_append, visible_append, visible_append, ih]
      rfl

theorem visible_map_stripChars (lines : List Chars) :
    visible isPySpace (lines.map stripChars).flatten = visible isPySpace lines.flatten := by
  induction lines with
  | nil => rfl
  | cons line rest ih => rw [List.map_cons, List.flatten_cons, List.flatten_cons, visible_append, visible_append, visible_stripChars, ih]

theorem visible_windowText (lines : List Chars) (start n : Nat) :
    visible isPySpace (windowText u lines start n) = visible isPySpace ((lines.drop start).take n).flatten := by
  rw [windowText, visible_normalizeSeparators, visible_joined, visible_map_stripChars]

theorem visible_display {text : Chars} {d : ParsedDate} (h : parseDate u clock text = .ok (some d)) :
    (visible isPySpace d.display).Sublist (visible isPySpace text) := by
  unfold parseDate at h
  dsimp only at h
  split at h
  · cases h
  · obtain ⟨found, hfound, hsource⟩ := parseDateWithFormats_source h
    rw [ParsedDate.display, hsource, visible_stripChars, ← visible_whitespace (u := u) text, ← visible_stripChars (whitespaceRe.sub _ _ _)]
    exact hfound.sublist.filter _

end Visible

/-! ## The loop -/

structure HealState where
  result : List Chars
  i : Nat
  deriving DecidableEq, Repr

section Loop
variable (u : DateTables) (clock : Clock) (maxWindow : Int)

def healStep (s : HealState) : Except String HealState :=
  match scanDateWindow u clock s.result s.i maxWindow with
  | .error e => .error e
  | .ok none => .ok { s with i := s.i + 1 }
  | .ok (some (candidate, stop)) =>
    match parseDate u clock candidate with
    | .error e => .error e
    | .ok none => .ok { s with i := s.i + 1 }
    | .ok (some parsed) => .ok { s with result := s.result.take s.i ++ [parsed.display] ++ s.result.drop (stop + 1) }

variable {u clock maxWindow}

theorem healStep_cases {s s' : HealState} (h : healStep u clock maxWindow s = .ok s') :
    s' = { s with i := s.i + 1 } ∨ ∃ candidate stop parsed,
      scanDateWindow u clock s.result s.i maxWindow = .ok (some (candidate, stop)) ∧
      parseDate u clock candidate = .ok (some parsed) ∧
      s' = { s with result := s.result.take s.i ++ [parsed.display] ++ s.result.drop (stop + 1) } := by
  unfold healStep at h
  split at h
  · cases h
  · injection h with h
    exact Or.inl h.symm
  · rename_i candidate stop hscan
    split at h
    · cases h
    · injection h with h
      exact Or.inl h.symm
    · rename_i parsed hparse
      injection h with h
      exact Or.inr ⟨candidate, stop, parsed, hscan, hparse, h.symm⟩

theorem healStep_decreases {s s' : HealState} (hlt : s.i < s.result.length) (h : healStep u clock maxWindow s = .ok s') :
    s'.result.length - s'.i < s.result.length - s.i := by
  rcases healStep_cases h with rfl | ⟨candidate, stop, parsed, hscan, -, rfl⟩
  · show s.result.length - (s.i + 1) < s.result.length - s.i
    omega
  · obtain ⟨hstop, hfits, -⟩ := scanDateWindow_spec hscan
    show (s.result.take s.i ++ [parsed.display] ++ s.result.drop (stop + 1)).length - s.i < _
    rw [List.length_append, List.length_append, List.length_take, List.length_drop, List.length_singleton]
    omega

variable (u clock maxWindow)

def healFrom (s : HealState) : Except String (List Chars) :=
  if _hlt : s.i < s.result.length then
    match _h : healStep u clock maxWindow s with
    | .error e => .error e
    | .ok s' => healFrom s'
  else .ok s.result
termination_by s.result.length - s.i
decreasing_by exact healStep_decreases _hlt _h

def healDateFragments (lines : List Chars) : Except String (List Chars) := healFrom u clock maxWindow ⟨lines, 0⟩

section Unfolding
variable {u clock maxWindow}

theorem healFrom_step {s s' : HealState} (hlt : s.i < s.result.length) (h : healStep u clock maxWindow s = .ok s') :
    healFrom u clock maxWindow s = healFrom u clock maxWindow s' := by
  rw [healFrom, dif_pos hlt]
  split
  · rename_i hraised
    rw [h] at hraised
    cases hraised
  · rename_i hok
    rw [h] at hok
    injection hok with hok
    rw [hok]

theorem healFrom_end {s : HealState} (h : ¬ s.i < s.result.length) : healFrom u clock maxWindow s = .ok s.result := by
  rw [healFrom, dif_neg h]

end Unfolding

/-! ### What is kept -/

/-- Some round leads from one state to the other. -/
def Round (s s' : HealState) : Prop := s.i < s.result.length ∧ healStep u clock maxWindow s = .ok s'

/-- If the lines at hand are replaced by a date, the date is all they show. -/
def WindowKept (s : HealState) : Prop :=
  ∀ candidate stop parsed, scanDateWindow u clock s.result s.i maxWindow = .ok (some (candidate, stop)) →
    parseDate u clock candidate = .ok (some parsed) → visible isPySpace parsed.display = visible isPySpace candidate

variable {u clock maxWindow}

theorem scanLines_ok (lines : List Chars) (fuel idx : Nat) (w : Window) : ∃ w', scanLines u clock lines fuel idx w = .ok w' := by
  induction fuel generalizing idx w with
  | zero => exact ⟨w, rfl⟩
  | succ fuel ih =>
    rw [scanLines]
    split
    · exact ⟨w, rfl⟩
    · rename_i line hline
      dsimp only
      split
      · exact ⟨w, rfl⟩
      · split
        · exact ⟨w, rfl⟩
        · have hgrow : ∃ w', w.grow u clock idx (stripChars line) = .ok w' := by
            unfold Window.grow
            dsimp only
            split
            · exact ⟨_, rfl⟩
            · have hparse : ∃ found, parseDate u clock (normalizeSeparators u (joined (w.parts ++ [stripChars line]))) = .ok found :=
                parseDate_ok _
              obtain ⟨found, hfound⟩ := hparse
              rw [hfound]
              cases found with
              | none => exact ⟨_, rfl⟩
              | some parsed => exact ⟨_, rfl⟩
          obtain ⟨w', hw'⟩ := hgrow
          rw [hw']
          exact ih (idx + 1) w'

theorem healStep_ok (s : HealState) : ∃ s', healStep u clock maxWindow s = .ok s' := by
  have hscan : ∃ window, scanDateWindow u clock s.result s.i maxWindow = .ok window := by
    have hlines : ∃ w, scanLines u clock s.result maxWindow.toNat s.i { stop := s.i } = .ok w := scanLines_ok _ _ _ _
    obtain ⟨w, hw⟩ := hlines
    unfold scanDateWindow
    rw [hw]
    dsimp only
    split
    · exact ⟨_, rfl⟩
    · split
      · exact ⟨_, rfl⟩
      · exact ⟨none, rfl⟩
  obtain ⟨window, hwindow⟩ := hscan
  unfold healStep
  rw [hwindow]
  cases window with
  | none => exact ⟨_, rfl⟩
  | some best =>
    have hparse : ∃ found, parseDate u clock best.1 = .ok found := parseDate_ok _
    obtain ⟨found, hfound⟩ := hparse
    dsimp only
    rw [hfound]
    cases found with
    | none => exact ⟨_, rfl⟩
    | some parsed => exact ⟨_, rfl⟩

theorem split_window (lines : List Chars) {start stop : Nat} (h : start ≤ stop + 1) :
    lines = lines.take start ++ ((lines.drop start).take (stop + 1 - start) ++ lines.drop (stop + 1)) := by
  have hbehind : lines.drop (stop + 1) = (lines.drop start).drop (stop + 1 - start) := by
    rw [List.drop_drop, Nat.add_sub_cancel' h]
  rw [hbehind, List.take_append_drop, List.take_append_drop]

theorem visible_round {s s' : HealState} (h : healStep u clock maxWindow s = .ok s') :
    (visible isPySpace s'.result.flatten).Sublist (visible isPySpace s.result.flatten) ∧
      (visible isPySpace s'.result.flatten = visible isPySpace s.result.flatten ↔ WindowKept u clock maxWindow s) := by
  rcases healStep_cases h with hnext | ⟨candidate, stop, parsed, hscan, hparse, rfl⟩
  · have hresult : s'.result = s.result := by rw [hnext]
    refine ⟨hresult ▸ List.Sublist.refl _, fun _ candidate stop parsed hscan hparse => ?_, fun _ => by rw [hresult]⟩
    -- a window with a date in it would have been replaced
    unfold healStep at h
    rw [hscan] at h
    dsimp only at h
    rw [hparse] at h
    injection h with h
    rw [← h] at hnext
    have hi : s.i = s.i + 1 := congrArg HealState.i hnext
    exact absurd hi (Nat.ne_of_lt (Nat.lt_succ_self _))
  · obtain ⟨hlt, -, hcandidate⟩ := scanDateWindow_spec hscan
    have hwindow : visible isPySpace candidate = visible isPySpace ((s.result.drop s.i).take (stop + 1 - s.i)).flatten := by
      rw [hcandidate, visible_windowText]
    have hbefore : visible isPySpace s.result.flatten = visible isPySpace (s.result.take s.i).flatten ++
        (visible isPySpace candidate ++ visible isPySpace (s.result.drop (stop + 1)).flatten) := by
      conv_lhs => rw [split_window s.result (Nat.le_succ_of_le hlt.le)]
      rw [List.flatten_append, List.flatten_append, visible_append, visible_append, hwindow]
    have hafter : visible isPySpace (s.result.take s.i ++ [parsed.display] ++ s.result.drop (stop + 1)).flatten =
        visible isPySpace (s.result.take s.i).flatten ++
          (visible isPySpace parsed.display ++ visible isPySpace (s.result.drop (stop + 1)).flatten) := by
      rw [List.append_assoc, List.flatten_append, List.flatten_append, visible_append, visible_append, List.flatten_singleton]
    show (visible isPySpace (s.result.take s.i ++ [parsed.display] ++ s.result.drop (stop + 1)).flatten).Sublist _ ∧
      (visible isPySpace (s.result.take s.i ++ [parsed.display] ++ s.result.drop (stop + 1)).flatten = _ ↔ _)
    rw [hafter, hbefore]
    refine ⟨(List.Sublist.refl _).append ((visible_display hparse).append (List.Sublist.refl _)), ?_⟩
    rw [List.append_cancel_left_eq, List.append_cancel_right_eq]
    constructor
    · intro hkept candidate' stop' parsed' hscan' hparse'
      rw [hscan] at hscan'
      injection hscan' with hscan'
      injection hscan' with hscan'
      injection hscan' with hcandidate' _
      rw [← hcandidate'] at hparse' ⊢
      rw [hparse] at hparse'
      injection hparse' with hparse'
      injection hparse' with hparse'
      rw [← hparse']
      exact hkept
    · exact fun hkept => hkept candidate stop parsed hscan hparse

theorem healFrom_spec (s : HealState) : ∃ healed, healFrom u clock maxWindow s = .ok healed ∧
    (visible isPySpace healed.flatten).Sublist (visible isPySpace s.result.flatten) ∧
    (visible isPySpace healed.flatten = visible isPySpace s.result.flatten ↔
      ∀ s', Relation.ReflTransGen (Round u clock maxWindow) s s' → WindowKept u clock maxWindow s') := by
  induction hn : s.result.length - s.i using Nat.strong_induction_on generalizing s with
  | _ n ih =>
    by_cases hlt : s.i < s.result.length
    · obtain ⟨s', hstep⟩ : ∃ s', healStep u clock maxWindow s = .ok s' := healStep_ok s
      have hdecreases := healStep_decreases hlt hstep
      obtain ⟨healed, hhealed, hsublist, hiff⟩ := ih _ (hn ▸ hdecreases) s' rfl
      obtain ⟨hround, hkept⟩ := visible_round hstep
      refine ⟨healed, ?_, hsublist.trans hround, ?_⟩
      · rw [healFrom_step hlt hstep]
        exact hhealed
      · constructor
        · -- nothing comes back once it is lost
          intro heq
          have hsame : visible isPySpace s'.result.flatten = visible isPySpace s.result.flatten :=
            hround.eq_of_length (Nat.le_antisymm hround.length_le (heq ▸ hsublist.length_le))
          have hlater := hiff.mp (heq.trans hsame.symm)
          intro t ht
          rcases Relation.ReflTransGen.cases_head ht with rfl | ⟨s'', hfirst, hrest⟩
          · exact hkept.mp hsame
          · have hs'' : s'' = s' := by
              have heq' := hfirst.2
              rw [hstep] at heq'
              injection heq' with heq'
              exact heq'.symm
            exact hlater t (hs'' ▸ hrest)
        · intro hall
          have hsame := hkept.mpr (hall s .refl)
          rw [hiff.mpr fun t ht => hall t (.head ⟨hlt, hstep⟩ ht), hsame]
    · refine ⟨s.result, healFrom_end hlt, List.Sublist.refl _, fun _ t ht => ?_, fun _ => rfl⟩
      rcases Relation.ReflTransGen.cases_head ht with rfl | ⟨s', hfirst, -⟩
      · intro candidate stop parsed hscan
        obtain ⟨hstop, hfits, -⟩ := scanDateWindow_spec hscan
        omega
      · exact absurd hfirst.1 hlt

end Loop

/-! ### A number behind a date -/

def asciiDates : DateTables := { asciiTables with decimal_case := fun _ _ h => absurd h.symm (Option.some_ne_none _) }

section NumberBehind

def splitDate : List Chars := ["December", "31,", "2024", "15"].map String.toList

theorem healStep_splitDate :
    healStep asciiDates ⟨2025, 2025⟩ 4 ⟨splitDate, 0⟩ = .ok ⟨["2024 15".toList], 0⟩ ∧
      healStep asciiDates ⟨2025, 2025⟩ 4 ⟨["2024 15".toList], 0⟩ = .ok ⟨["2024 15".toList], 1⟩ := by decide +kernel

end NumberBehind
end EdgarSec.Dates
