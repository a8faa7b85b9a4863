import EdgarSec.Foundation.Unicode

/-! `tokenize`: the runs of token characters of a text, dashes read as blanks. -/

namespace EdgarSec.Lexical
open Foundation

structure LetterCase extends Unicode where
  isLower : Char → Bool
  /-- Upper case or title case. -/
  isUpper : Char → Bool
  casefold_space : ∀ c, isAscii c = false → isPySpace c = false → ∀ d ∈ casefold c, isPySpace d = false

namespace LetterCase
variable (u : LetterCase)

def lowerChar (c : Char) : Bool := if isAscii c then c.isLower else u.isLower c
def upperChar (c : Char) : Bool := if isAscii c then c.isUpper else u.isUpper c

def islower (text : Chars) : Bool := text.any u.lowerChar && text.all fun c => !u.upperChar c

end LetterCase

def asciiCase : LetterCase where
  casefold c := [c]
  lower _ _ c := [c]
  upper c := [c]
  decimal _ := none
  isDigit _ := false
  nfkc text := text
  decimal_space := no_decimal_space
  isLower _ := false
  isUpper _ := false
  casefold_space := by
    intro c _ hspace d hd
    rw [List.mem_singleton.mp hd, hspace]

/-! ## Runs -/

/-- The runs of characters that satisfy `p`, each with its start; `pending` is the run at hand. -/
def runsFrom (p : Char → Bool) : Nat → Chars → Chars → List (Nat × Chars)
  | i, pending, [] => if pending = [] then [] else [(i - pending.length, pending)]
  | i, pending, c :: rest =>
    if p c then runsFrom p (i + 1) (pending ++ [c]) rest
    else if pending = [] then runsFrom p (i + 1) [] rest
    else (i - pending.length, pending) :: runsFrom p (i + 1) [] rest

def runs (p : Char → Bool) (text : Chars) : List Chars := (runsFrom p 0 [] text).map Prod.snd

/-- `str.split` at white space -/
def pySplit (text : Chars) : List Chars := runs (fun c => !isPySpace c) text

/-- `" ".join` -/
def joined (words : List Chars) : Chars := [' '].intercalate words

/-! ## Tokens -/

inductive CaseMode where
  | fold
  | exact
  | lowercase
  deriving DecidableEq, Repr

structure Token where
  surface : Chars
  folded : Chars
  start : Nat
  stop : Nat
  deriving DecidableEq, Repr

def dashChars : Chars := ['-', '\u2010', '\u2011', '\u2012', '\u2013', '\u2014', '\u2212']

def translate (text : Chars) : Chars := text.map fun c => if dashChars.contains c then ' ' else c

/-- `[A-Za-z0-9'\-]` -/
def isTokenChar (c : Char) : Bool :=
  ('A' ≤ c && c ≤ 'Z') || ('a' ≤ c && c ≤ 'z') || ('0' ≤ c && c ≤ '9') || c = '\'' || c = '-'

def tokenize (u : LetterCase) (text : Chars) : List Token :=
  (runsFrom isTokenChar 0 [] (translate text)).map fun run =>
    ⟨run.2, u.lowered run.2, run.1, run.1 + run.2.length⟩

def IsWord (word : Chars) : Prop := word ≠ [] ∧ ∀ c ∈ word, isTokenChar c = true ∧ c ≠ '-'

variable {u : LetterCase} {p : Char → Bool} {text word : Chars} {words : List Chars}

/-! ## Facts about runs -/

theorem runsFrom_nil (i : Nat) (pending : Chars) :
    runsFrom p i pending [] = if pending = [] then [] else [(i - pending.length, pending)] := rfl

theorem runsFrom_cons (i : Nat) (pending : Chars) (c : Char) (rest : Chars) :
    runsFrom p i pending (c :: rest) =
      if p c then runsFrom p (i + 1) (pending ++ [c]) rest
      else if pending = [] then runsFrom p (i + 1) [] rest
      else (i - pending.length, pending) :: runsFrom p (i + 1) [] rest := rfl

theorem mem_runsFrom {i : Nat} {pending : Chars} (hpending : ∀ c ∈ pending, p c = true) {run : Nat × Chars}
    (h : run ∈ runsFrom p i pending text) : run.2 ≠ [] ∧ ∀ c ∈ run.2, p c = true ∧ (c ∈ pending ∨ c ∈ text) := by
  induction text generalizing i pending with
  | nil =>
    rw [runsFrom_nil] at h
    by_cases hnil : pending = []
    · rw [if_pos hnil] at h
      exact absurd h List.not_mem_nil
    · rw [if_neg hnil, List.mem_singleton] at h
      rw [h]
      exact ⟨hnil, fun c hc => ⟨hpending c hc, Or.inl hc⟩⟩
  | cons d rest ih =>
    have hrest : ∀ {j : Nat}, run ∈ runsFrom p j [] rest →
        run.2 ≠ [] ∧ ∀ c ∈ run.2, p c = true ∧ (c ∈ pending ∨ c ∈ d :: rest) := by
      intro j hj
      obtain ⟨hne, hall⟩ := ih (fun c hc => absurd hc List.not_mem_nil) hj
      refine ⟨hne, fun c hc => ⟨(hall c hc).1, Or.inr (List.mem_cons_of_mem _ ?_)⟩⟩
      exact (hall c hc).2.resolve_left List.not_mem_nil
    rw [runsFrom_cons] at h
    by_cases hd : p d = true
    · rw [if_pos hd] at h
      obtain ⟨hne, hall⟩ := ih (by
        intro c hc
        rcases List.mem_append.mp hc with hc | hc
        · exact hpending c hc
        · rwa [List.mem_singleton.mp hc]) h
      refine ⟨hne, fun c hc => ⟨(hall c hc).1, ?_⟩⟩
      rcases (hall c hc).2 with hc' | hc'
      · rcases List.mem_append.mp hc' with hp | hp
        · exact Or.inl hp
        · exact Or.inr (List.mem_singleton.mp hp ▸ List.mem_cons_self)
      · exact Or.inr (List.mem_cons_of_mem _ hc')
    · rw [if_neg hd] at h
      by_cases hnil : pending = []
      · rw [if_pos hnil] at h
        exact hrest h
      · rw [if_neg hnil] at h
        rcases List.mem_cons.mp h with heq | htail
        · rw [heq]
          exact ⟨hnil, fun c hc => ⟨hpending c hc, Or.inl hc⟩⟩
        · exact hrest htail

theorem of_mem_runs (h : word ∈ runs p text) : word ≠ [] ∧ ∀ c ∈ word, p c = true ∧ c ∈ text := by
  obtain ⟨run, hrun, rfl⟩ := List.mem_map.mp h
  obtain ⟨hne, hall⟩ := mem_runsFrom (fun c hc => absurd hc List.not_mem_nil) hrun
  exact ⟨hne, fun c hc => ⟨(hall c hc).1, (hall c hc).2.resolve_left List.not_mem_nil⟩⟩

theorem runsFrom_append {i : Nat} {pending : Chars} (hword : ∀ c ∈ word, p c = true) :
    runsFrom p i pending (word ++ text) = runsFrom p (i + word.length) (pending ++ word) text := by
  induction word generalizing i pending with
  | nil => simp
  | cons c word ih =>
    rw [List.cons_append, runsFrom_cons, if_pos (hword c List.mem_cons_self)]
    rw [ih fun d hd => hword d (List.mem_cons_of_mem _ hd)]
    simp only [List.append_assoc, List.singleton_append, List.length_cons]
    congr 1
    omega

theorem map_snd_runsFrom (i j : Nat) (pending : Chars) :
    (runsFrom p i pending text).map Prod.snd = (runsFrom p j pending text).map Prod.snd := by
  induction text generalizing i j pending with
  | nil =>
    rw [runsFrom_nil, runsFrom_nil]
    by_cases hnil : pending = []
    · rw [if_pos hnil, if_pos hnil]
    · rw [if_neg hnil, if_neg hnil]
      rfl
  | cons c rest ih =>
    rw [runsFrom_cons, runsFrom_cons]
    by_cases hc : p c = true
    · rw [if_pos hc, if_pos hc]
      exact ih ..
    · rw [if_neg hc, if_neg hc]
      by_cases hnil : pending = []
      · rw [if_pos hnil, if_pos hnil]
        exact ih ..
      · rw [if_neg hnil, if_neg hnil, List.map_cons, List.map_cons]
        exact congrArg _ (ih ..)

theorem joined_cons_cons (word next : Chars) : joined (word :: next :: words) = word ++ ' ' :: joined (next :: words) := by
  simp [joined, List.intercalate]

theorem joined_singleton : joined [word] = word := by simp [joined, List.intercalate]

theorem runs_joined (hblank : p ' ' = false) (hwords : ∀ word ∈ words, word ≠ [] ∧ ∀ c ∈ word, p c = true) :
    runs p (joined words) = words := by
  unfold runs
  induction words with
  | nil => rfl
  | cons word words ih =>
    obtain ⟨hne, hword⟩ := hwords word List.mem_cons_self
    have ih' := ih fun v hv => hwords v (List.mem_cons_of_mem _ hv)
    cases words with
    | nil =>
      rw [joined_singleton, ← List.append_nil word, runsFrom_append hword, List.append_nil, runsFrom_nil,
        List.nil_append, if_neg hne]
      rfl
    | cons next words =>
      rw [joined_cons_cons, runsFrom_append hword, runsFrom_cons, List.nil_append, hblank, if_neg Bool.false_ne_true, if_neg hne]
      rw [List.map_cons, map_snd_runsFrom _ 0, ih']

theorem runs_eq_nil_iff : runs p text = [] ↔ ∀ c ∈ text, p c = false := by
  have hfrom : ∀ (i : Nat) (pending : Chars),
      runsFrom p i pending text = [] ↔ pending = [] ∧ ∀ c ∈ text, p c = false := by
    induction text with
    | nil =>
      intro i pending
      rw [runsFrom_nil]
      by_cases hnil : pending = []
      · simp [hnil]
      · simp [hnil]
    | cons d rest ih =>
      intro i pending
      rw [runsFrom_cons]
      by_cases hd : p d = true
      · simp [hd, ih]
      · rw [if_neg hd]
        by_cases hnil : pending = []
        · simp [hnil, ih, hd]
        · simp [hnil]
  unfold runs
  rw [List.map_eq_nil_iff, hfrom]
  simp

/-! ## Facts about tokens -/

theorem map_surface_tokenize : (tokenize u text).map Token.surface = runs isTokenChar (translate text) := by
  unfold tokenize runs
  rw [List.map_map]
  rfl

theorem map_folded_tokenize :
    (tokenize u text).map Token.folded = (runs isTokenChar (translate text)).map u.lowered := by
  unfold tokenize runs
  rw [List.map_map, List.map_map]
  rfl

theorem length_tokenize : (tokenize u text).length = (runs isTokenChar (translate text)).length := by
  rw [← map_surface_tokenize (u := u), List.length_map]

theorem tokenize_eq_nil_iff : tokenize u text = [] ↔ runs isTokenChar (translate text) = [] := by
  rw [← map_surface_tokenize (u := u), List.map_eq_nil_iff]

theorem isWord_of_mem_runs (h : word ∈ runs isTokenChar (translate text)) : IsWord word := by
  obtain ⟨hne, hall⟩ := of_mem_runs h
  refine ⟨hne, fun c hc => ⟨(hall c hc).1, ?_⟩⟩
  rintro rfl
  obtain ⟨d, -, hd⟩ := List.mem_map.mp (hall '-' hc).2
  by_cases hdash : dashChars.contains d = true
  · rw [if_pos hdash] at hd
    exact absurd hd (by decide)
  · rw [if_neg hdash] at hd
    rw [hd] at hdash
    exact hdash (by decide)

theorem isAscii_of_isTokenChar {c : Char} (h : isTokenChar c = true) : isAscii c = true := by
  have hle : ∀ d : Char, d.toNat < 128 → c ≤ d → isAscii c = true := by
    intro d hd hcd
    have hnat : c.toNat ≤ d.toNat := hcd
    exact decide_eq_true (by omega)
  simp only [isTokenChar, Bool.or_eq_true, Bool.and_eq_true, decide_eq_true_eq] at h
  rcases h with (((h | h) | h) | rfl) | rfl
  · exact hle 'Z' (by decide) h.2
  · exact hle 'z' (by decide) h.2
  · exact hle '9' (by decide) h.2
  · rfl
  · rfl

theorem isTokenChar_induction {P : Char → Bool}
    (hall : ∀ n : Fin 128, isTokenChar (Char.ofNat n) = true → P (Char.ofNat n) = true) {c : Char}
    (h : isTokenChar c = true) : P c = true := by
  have hlt : c.toNat < 128 := of_decide_eq_true (isAscii_of_isTokenChar h)
  have hone := hall ⟨c.toNat, hlt⟩
  rw [Char.ofNat_toNat] at hone
  exact hone h

theorem tokenChar_facts {c : Char} (h : isTokenChar c = true) : isPySpace c = false ∧ isTokenChar c.toLower = true ∧
    (c ≠ '-' → c.toLower ≠ '-' ∧ dashChars.contains c = false) := by
  have hall := isTokenChar_induction
    (P := fun c => !isPySpace c && isTokenChar c.toLower && (c = '-' || c.toLower ≠ '-' && !dashChars.contains c))
    (by decide +kernel) h
  simp only [Bool.and_eq_true, Bool.or_eq_true, Bool.not_eq_true', decide_eq_true_eq] at hall
  obtain ⟨⟨hspace, hlower⟩, hdash⟩ := hall
  exact ⟨hspace, hlower, fun hc => hdash.resolve_left hc⟩

theorem isTokenChar_not_space {c : Char} (h : isTokenChar c = true) : isPySpace c = false := (tokenChar_facts h).1

theorem lowerFrom_ascii {before : Chars} (h : ∀ c ∈ text, isAscii c = true) :
    u.lowerFrom before text = text.map Char.toLower := by
  induction text generalizing before with
  | nil => rfl
  | cons c rest ih =>
    rw [Unicode.lowerFrom, if_pos (h c List.mem_cons_self), ih fun d hd => h d (List.mem_cons_of_mem _ hd)]
    rfl

theorem IsWord.lowered (h : IsWord word) : IsWord (u.lowered word) := by
  have hlower : u.lowered word = word.map Char.toLower :=
    lowerFrom_ascii fun c hc => isAscii_of_isTokenChar (h.2 c hc).1
  rw [hlower]
  refine ⟨fun hnil => h.1 (List.map_eq_nil_iff.mp hnil), ?_⟩
  intro d hd
  obtain ⟨c, hc, rfl⟩ := List.mem_map.mp hd
  obtain ⟨htoken, hdash⟩ := h.2 c hc
  obtain ⟨-, hlower, hother⟩ := tokenChar_facts htoken
  exact ⟨hlower, (hother hdash).1⟩

theorem tokenize_eq_nil_of_pySplit (h : pySplit text = []) : tokenize u text = [] := by
  rw [tokenize_eq_nil_iff, runs_eq_nil_iff]
  intro c hc
  obtain ⟨d, hd, rfl⟩ := List.mem_map.mp hc
  have hspace := Iff.mp runs_eq_nil_iff h d hd
  by_cases hdash : dashChars.contains d = true
  · rw [if_pos hdash]
    decide
  · rw [if_neg hdash]
    by_contra htoken
    rw [Bool.not_eq_false] at htoken
    rw [isTokenChar_not_space htoken] at hspace
    exact absurd hspace (by decide)

theorem translate_eq_self (h : ∀ c ∈ text, c = ' ' ∨ (isTokenChar c = true ∧ c ≠ '-')) : translate text = text := by
  have hself : ∀ c ∈ text, (if dashChars.contains c then ' ' else c) = c := by
    intro c hc
    rcases h c hc with rfl | ⟨htoken, hdash⟩
    · decide
    · obtain ⟨-, -, hother⟩ := tokenChar_facts htoken
      rw [(hother hdash).2, if_neg Bool.false_ne_true]
  unfold translate
  rw [List.map_congr_left hself, List.map_id']

theorem mem_joined {c : Char} (h : c ∈ joined words) : c = ' ' ∨ ∃ word ∈ words, c ∈ word := by
  induction words with
  | nil => exact absurd h List.not_mem_nil
  | cons word words ih =>
    cases words with
    | nil =>
      rw [joined_singleton] at h
      exact Or.inr ⟨word, List.mem_cons_self, h⟩
    | cons next words =>
      rw [joined_cons_cons, List.mem_append, List.mem_cons] at h
      rcases h with hword | hblank | hrest
      · exact Or.inr ⟨word, List.mem_cons_self, hword⟩
      · exact Or.inl hblank
      · rcases ih hrest with hblank | ⟨v, hv, hc⟩
        · exact Or.inl hblank
        · exact Or.inr ⟨v, List.mem_cons_of_mem _ hv, hc⟩

theorem runs_translate_joined (h : ∀ word ∈ words, IsWord word) :
    runs isTokenChar (translate (joined words)) = words := by
  rw [translate_eq_self]
  · exact runs_joined (by decide) fun word hword => ⟨(h word hword).1, fun c hc => ((h word hword).2 c hc).1⟩
  · intro c hc
    rcases mem_joined hc with hblank | ⟨word, hword, hc⟩
    · exact Or.inl hblank
    · exact Or.inr ((h word hword).2 c hc)

theorem splitOn_joined (hne : words ≠ []) (h : ∀ word ∈ words, ' ' ∉ word) : (joined words).splitOn ' ' = words :=
  List.splitOn_intercalate ' ' h hne

theorem count_joined (word : Chars) :
    (joined (word :: words)).count ' ' = words.length + ((word :: words).map (List.count ' ')).sum := by
  induction words generalizing word with
  | nil => simp [joined_singleton]
  | cons next words ih =>
    rw [joined_cons_cons, List.count_append, List.count_cons_self, ih]
    simp only [List.map_cons, List.sum_cons, List.length_cons]
    omega

theorem joined_injective {words' : List Chars} (hlength : words.length = words'.length)
    (h' : ∀ word ∈ words', ' ' ∉ word) (heq : joined words = joined words') : words = words' := by
  cases words with
  | nil => exact (List.length_eq_zero_iff.mp hlength.symm).symm
  | cons word words =>
    cases words' with
    | nil => exact absurd hlength (Nat.succ_ne_zero _)
    | cons word' words' =>
      -- as many blanks on both sides, so none within a word
      have hcount := congrArg (List.count ' ') heq
      rw [count_joined, count_joined] at hcount
      have hzero : ((word' :: words').map (List.count ' ')).sum = 0 := by
        rw [List.sum_eq_zero_iff]
        intro n hn
        obtain ⟨v, hv, rfl⟩ := List.mem_map.mp hn
        exact List.count_eq_zero.mpr (h' v hv)
      rw [List.length_cons, List.length_cons] at hlength
      have hzero' : ((word :: words).map (List.count ' ')).sum = 0 := by omega
      have h : ∀ v ∈ word :: words, ' ' ∉ v := by
        intro v hv
        exact List.count_eq_zero.mp (List.sum_eq_zero_iff.mp hzero' _ (List.mem_map_of_mem hv))
      rw [← splitOn_joined (List.cons_ne_nil _ _) h, heq, splitOn_joined (List.cons_ne_nil _ _) h']

theorem IsWord.blank_not_mem (h : IsWord word) : ' ' ∉ word := fun hc => absurd (h.2 ' ' hc).1 (by decide)

theorem blank_not_mem_folded (h : ∀ c ∈ word, isPySpace c = false) : ' ' ∉ u.folded word := by
  intro hc
  obtain ⟨c, hcw, hblank⟩ := List.mem_flatMap.mp hc
  have hspace := h c hcw
  rw [Unicode.casefoldChar] at hblank
  cases hascii : isAscii c with
  | true =>
    rw [hascii, if_pos rfl, List.mem_singleton] at hblank
    have hall : ∀ n : Fin 128, (Char.ofNat n).toLower = ' ' → isPySpace (Char.ofNat n) = true := by decide +kernel
    have hlt : c.toNat < 128 := of_decide_eq_true hascii
    have hone := hall ⟨c.toNat, hlt⟩
    rw [Char.ofNat_toNat] at hone
    rw [hone hblank.symm] at hspace
    exact absurd hspace (by decide)
  | false =>
    rw [hascii, if_neg Bool.false_ne_true] at hblank
    have hnot := u.casefold_space c hascii hspace ' ' hblank
    exact absurd hnot (by decide)

end EdgarSec.Lexical
