import EdgarSec.Foundation.Unicode

/-! The lines of a text, as `str.splitlines` cuts them. -/

namespace EdgarSec.Foundation

def isLineBreak (c : Char) : Bool :=
  c ∈ ['\n', '\r', '\x0b', '\x0c', '\x1c', '\x1d', '\x1e', '\u0085', '\u2028', '\u2029']

/-- `splitlines(keepends=True)` -/
def splitlinesKeep : Chars → List Chars
  | [] => []
  | '\r' :: '\n' :: rest => ['\r', '\n'] :: splitlinesKeep rest
  | c :: rest =>
    if isLineBreak c then [c] :: splitlinesKeep rest
    else match splitlinesKeep rest with
      | [] => [[c]]
      | line :: lines => (c :: line) :: lines

def splitlines (text : Chars) : List Chars := (splitlinesKeep text).map fun line => line.rdropWhile isLineBreak

theorem splitlinesKeep_flatten (text : Chars) : (splitlinesKeep text).flatten = text := by
  induction text using splitlinesKeep.induct with
  | case1 => rfl
  | case2 rest ih =>
    rw [splitlinesKeep, List.flatten_cons, ih]
    rfl
  | case3 c rest hcase hbreak ih =>
    rw [splitlinesKeep, if_pos hbreak, List.flatten_cons, ih]
    · rfl
    · exact hcase
  | case4 c rest hcase hbreak hnil ih =>
    rw [splitlinesKeep, if_neg hbreak, hnil]
    · rw [hnil] at ih
      rw [← ih]
      rfl
    · exact hcase
  | case5 c rest hcase hbreak line lines hlines ih =>
    rw [splitlinesKeep, if_neg hbreak, hlines]
    · rw [hlines] at ih
      rw [← ih]
      rfl
    · exact hcase

def indentOf (line : Chars) : Nat := line.length - (line.dropWhile isPySpace).length

theorem dropWhile_stripChars (text : Chars) : (stripChars text).dropWhile isPySpace = stripChars text := by
  unfold stripChars
  cases hdrop : text.dropWhile isPySpace with
  | nil => rfl
  | cons c rest =>
    have hc : ¬ isPySpace c = true := by
      have hne : text.dropWhile isPySpace ≠ [] := by
        rw [hdrop]
        exact List.cons_ne_nil c rest
      have hhead := List.head_dropWhile_not isPySpace hne
      simpa [hdrop] using hhead
    cases hlast : (c :: rest).rdropWhile isPySpace with
    | nil => rfl
    | cons d others =>
      have hprefix : (d :: others) <+: c :: rest := by
        rw [← hlast]
        exact List.rdropWhile_prefix isPySpace _
      obtain ⟨tail, htail⟩ := hprefix
      have hd : d = c := (List.cons.inj htail).1
      rw [List.dropWhile_cons_of_neg (by rw [hd]; exact hc)]

@[simp] theorem indentOf_stripChars (text : Chars) : indentOf (stripChars text) = 0 := by
  rw [indentOf, dropWhile_stripChars, Nat.sub_self]

/-! ## Texts of lines -/

def Terminated (line : Chars) : Prop :=
  ∃ body, (∀ c ∈ body, isLineBreak c = false) ∧ (line = body ++ ['\r', '\n'] ∨ ∃ c, isLineBreak c = true ∧ line = body ++ [c])

def Unended (line : Chars) : Prop := line ≠ [] ∧ ∀ c ∈ line, isLineBreak c = false

/-- Lines as `splitlines` cuts them: only the last has no end, and none that ends with a return stands
in front of a feed. -/
def Lined : List Chars → Prop
  | [] => True
  | line :: lines => (Terminated line ∨ (Unended line ∧ lines = [])) ∧
      (line.getLast? = some '\r' → ∀ next ∈ lines.head?, next.head? ≠ some '\n') ∧ Lined lines

section Lined
variable {line rest : Chars} {c : Char}

theorem ne_return (h : isLineBreak c = false) : c ≠ '\r' := by
  rintro rfl
  exact Bool.noConfusion h

theorem Terminated.cons (hc : isLineBreak c = false) (h : Terminated line) : Terminated (c :: line) := by
  obtain ⟨body, hbody, hend⟩ := h
  refine ⟨c :: body, ?_, ?_⟩
  · intro d hd
    rcases List.mem_cons.mp hd with rfl | hd
    · exact hc
    · exact hbody d hd
  · rcases hend with rfl | ⟨d, hd, rfl⟩
    · exact Or.inl rfl
    · exact Or.inr ⟨d, hd, rfl⟩

theorem Terminated.ne_nil (h : Terminated line) : line ≠ [] := by
  obtain ⟨body, -, rfl | ⟨d, -, rfl⟩⟩ := h
  · exact List.append_ne_nil_of_right_ne_nil _ (List.cons_ne_nil _ _)
  · exact List.append_ne_nil_of_right_ne_nil _ (List.cons_ne_nil _ _)

theorem splitlinesKeep_terminated (h : Terminated line) (hreturn : line.getLast? = some '\r' → rest.head? ≠ some '\n') :
    splitlinesKeep (line ++ rest) = line :: splitlinesKeep rest := by
  obtain ⟨body, hbody, hend⟩ := h
  induction body generalizing line with
  | nil =>
    rcases hend with rfl | ⟨d, hd, rfl⟩
    · rfl
    · show splitlinesKeep (d :: rest) = [d] :: splitlinesKeep rest
      rw [splitlinesKeep, if_pos hd]
      intro later hd' hrest
      rw [hrest] at hreturn
      exact hreturn (congrArg some hd') rfl
  | cons c body ih =>
    have hc : isLineBreak c = false := hbody c List.mem_cons_self
    have hkeep : ∀ tail, tail ≠ [] → (c :: (body ++ tail)).getLast? = (body ++ tail).getLast? := by
      intro tail htail
      exact List.getLast?_cons_of_ne_nil (List.append_ne_nil_of_right_ne_nil _ htail)
    obtain ⟨tail, htail, hline, hbehind⟩ : ∃ tail : Chars, tail ≠ [] ∧ line = c :: (body ++ tail) ∧
        (body ++ tail = body ++ ['\r', '\n'] ∨ ∃ d, isLineBreak d = true ∧ body ++ tail = body ++ [d]) := by
      rcases hend with rfl | ⟨d, hd, rfl⟩
      · exact ⟨_, List.cons_ne_nil _ _, rfl, Or.inl rfl⟩
      · exact ⟨_, List.cons_ne_nil _ _, rfl, Or.inr ⟨d, hd, rfl⟩⟩
    have hsplit : splitlinesKeep ((body ++ tail) ++ rest) = (body ++ tail) :: splitlinesKeep rest := by
      apply ih (fun hlast => hreturn (by rw [hline, hkeep tail htail]; exact hlast)) (fun d hd => hbody d (List.mem_cons_of_mem _ hd)) hbehind
    rw [hline, List.cons_append, splitlinesKeep, if_neg (by rw [hc]; exact Bool.false_ne_true), hsplit]
    exact fun _ hreturn _ => ne_return hc hreturn

theorem splitlinesKeep_unended (h : Unended line) : splitlinesKeep (line ++ rest) =
    match splitlinesKeep rest with
    | [] => [line]
    | next :: lines => (line ++ next) :: lines := by
  obtain ⟨hne, hline⟩ := h
  induction line with
  | nil => exact absurd rfl hne
  | cons c line ih =>
    have hc : isLineBreak c = false := hline c List.mem_cons_self
    have hkeep : ¬ isLineBreak c = true := by
      rw [hc]
      exact Bool.false_ne_true
    cases line with
    | nil =>
      rw [List.singleton_append, splitlinesKeep, if_neg hkeep]
      · cases splitlinesKeep rest <;> rfl
      · exact fun _ hreturn _ => ne_return hc hreturn
    | cons d line =>
      have hsplit := ih (List.cons_ne_nil d line) fun e he => hline e (List.mem_cons_of_mem _ he)
      rw [List.cons_append, splitlinesKeep, if_neg hkeep, hsplit]
      · cases splitlinesKeep rest <;> rfl
      · exact fun _ hreturn _ => ne_return hc hreturn

theorem lined_splitlinesKeep (text : Chars) : Lined (splitlinesKeep text) := by
  induction text using splitlinesKeep.induct with
  | case1 => exact trivial
  | case2 rest ih =>
    rw [splitlinesKeep]
    refine ⟨Or.inl ⟨[], fun _ hd => absurd hd List.not_mem_nil, Or.inl rfl⟩, fun hlast => ?_, ih⟩
    exact absurd hlast (by decide)
  | case3 c rest hcase hbreak ih =>
    rw [splitlinesKeep, if_pos hbreak]
    · refine ⟨Or.inl ⟨[], fun _ hd => absurd hd List.not_mem_nil, Or.inr ⟨c, hbreak, rfl⟩⟩, fun hlast next hnext hhead => ?_, ih⟩
      have hflat := splitlinesKeep_flatten rest
      cases hlines : splitlinesKeep rest with
      | nil =>
        rw [hlines] at hnext
        exact absurd hnext (Option.not_mem_none next)
      | cons line lines =>
        rw [hlines] at hnext hflat
        have hsame : line = next := Option.some.inj hnext
        rw [← hsame] at hhead
        cases line with
        | nil => exact absurd hhead (Option.some_ne_none _).symm
        | cons d line =>
          have hd : d = '\n' := Option.some.inj hhead
          exact hcase (line ++ lines.flatten) (Option.some.inj hlast) (by rw [← hflat, hd]; rfl)
    · exact hcase
  | case4 c rest hcase hbreak hnil ih =>
    rw [splitlinesKeep, if_neg hbreak, hnil]
    · refine ⟨Or.inr ⟨⟨List.cons_ne_nil c [], fun d hd => ?_⟩, rfl⟩, fun _ _ hnext => absurd hnext (Option.not_mem_none _), trivial⟩
      rw [List.mem_singleton.mp hd]
      exact Bool.eq_false_iff.mpr hbreak
    · exact hcase
  | case5 c rest hcase hbreak line lines hlines ih =>
    rw [splitlinesKeep, if_neg hbreak, hlines]
    · rw [hlines] at ih
      obtain ⟨hline, hreturn, hrest⟩ := ih
      have hc : isLineBreak c = false := Bool.eq_false_iff.mpr hbreak
      have hne : line ≠ [] := by
        rcases hline with hend | ⟨hopen, -⟩
        · exact hend.ne_nil
        · exact hopen.1
      refine ⟨?_, fun hlast => hreturn ?_, hrest⟩
      · rcases hline with hend | ⟨hopen, hnil⟩
        · exact Or.inl (hend.cons hc)
        · refine Or.inr ⟨⟨List.cons_ne_nil c line, fun d hd => ?_⟩, hnil⟩
          rcases List.mem_cons.mp hd with rfl | hd
          · exact hc
          · exact hopen.2 d hd
      · rwa [List.getLast?_cons_of_ne_nil hne] at hlast
    · exact hcase

theorem Lined.of_later {before after : List Chars} {later : Chars} (h : Lined (before ++ line :: later :: after)) : Terminated line := by
  induction before with
  | nil =>
    obtain ⟨hterm | ⟨-, hnil⟩, -⟩ := h
    · exact hterm
    · exact absurd hnil (List.cons_ne_nil _ _)
  | cons d before ih => exact ih h.2.2

theorem Terminated.getLast (h : Terminated line) : ∃ c, line.getLast? = some c ∧ isLineBreak c = true := by
  obtain ⟨body, -, rfl | ⟨c, hc, rfl⟩⟩ := h
  · refine ⟨'\n', ?_, rfl⟩
    rw [List.getLast?_append_of_ne_nil _ (List.cons_ne_nil _ _)]
    rfl
  · exact ⟨c, List.getLast?_concat, hc⟩

theorem Lined.head_ne_nil {lines : List Chars} (h : Lined (line :: lines)) : line ≠ [] := by
  rcases h.1 with hterm | ⟨hopen, -⟩
  · exact hterm.ne_nil
  · exact hopen.1

theorem Lined.shape {lines : List Chars} (h : Lined lines) (hline : line ∈ lines) : Terminated line ∨ Unended line := by
  induction lines with
  | nil => exact absurd hline List.not_mem_nil
  | cons first rest ih =>
    rcases List.mem_cons.mp hline with rfl | hline
    · exact h.1.imp_right And.left
    · exact ih h.2.2 hline

end Lined
end EdgarSec.Foundation
