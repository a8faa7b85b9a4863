import EdgarSec.Patterns.Tries

/-! How the patterns that `build_alternation` writes are read back. -/

namespace EdgarSec.Patterns
open Lib Foundation

namespace Reader
variable {r : Reader} {pattern pattern' : Chars} {items items' : List Re}

theorem feedAll_append : r.feedAll (pattern ++ pattern') = (r.feedAll pattern).bind fun r' => r'.feedAll pattern' := by
  induction pattern generalizing r with
  | nil => rfl
  | cons c rest ih =>
    rw [List.cons_append, feedAll, feedAll, Option.bind_assoc]
    congr 1
    funext r'
    exact ih

def pushAll (r : Reader) (items : List Re) : Reader :=
  { r with frame := { r.frame with items := items.reverse ++ r.frame.items } }

/-- Reading the pattern puts these items behind those of the group at hand. -/
def Reads (pattern : Chars) (items : List Re) : Prop :=
  ∀ r : Reader, r.mode = .plain → r.feedAll pattern = some (r.pushAll items)

theorem reads_nil : Reads [] [] := fun _ _ => rfl

theorem Reads.append (h : Reads pattern items) (h' : Reads pattern' items') :
    Reads (pattern ++ pattern') (items ++ items') := by
  intro r hmode
  rw [feedAll_append, h r hmode, Option.bind_some, h' (r.pushAll items) hmode]
  simp [pushAll]

theorem feed_plain {c : Char} (hmode : r.mode = .plain) : r.feed c = r.feedPlain c := by rw [feed, hmode]

/-! ## Literals -/

def syntaxChars : Chars := ['\\', '[', '(', ')', '|', '?', '*', '+', '\x7b', '^', '$', '.']

theorem syntaxChars_special : ∀ c ∈ syntaxChars, specialChars.contains c = true := by
  simp [syntaxChars, specialChars]

theorem feedPlain_literal {c : Char} (h : specialChars.contains c = false) :
    r.feedPlain c = some (r.push (.one (.literal c))) := by
  have hne : ∀ d ∈ syntaxChars, c ≠ d := by
    intro d hd heq
    rw [heq, syntaxChars_special d hd] at h
    exact Bool.noConfusion h
  have hall : c ≠ '\\' ∧ c ≠ '[' ∧ c ≠ '(' ∧ c ≠ ')' ∧ c ≠ '|' ∧ c ≠ '?' ∧ c ≠ '*' ∧ c ≠ '+' ∧ c ≠ '\x7b' ∧ c ≠ '^' ∧
      c ≠ '$' ∧ c ≠ '.' := by
    refine ⟨hne _ ?_, hne _ ?_, hne _ ?_, hne _ ?_, hne _ ?_, hne _ ?_, hne _ ?_, hne _ ?_, hne _ ?_, hne _ ?_,
      hne _ ?_, hne _ ?_⟩ <;> decide
  obtain ⟨h1, h2, h3, h4, h5, h6, h7, h8, h9, h10, h11, h12⟩ := hall
  unfold feedPlain
  rw [if_neg h1, if_neg h2, if_neg h3, if_neg h4, if_neg h5, if_neg h6, if_neg h7, if_neg h8, if_neg h9, if_neg h10,
    if_neg h11, if_neg h12]

theorem special_plain : ∀ c ∈ specialChars, c ≠ 'd' ∧ c ≠ 's' ∧ c ≠ 'b' ∧ c ≠ 'n' ∧ c ≠ 't' ∧
    (isAscii c && c.isAlphanum) = false := by
  have hall : (specialChars.all fun c => decide (c ≠ 'd' ∧ c ≠ 's' ∧ c ≠ 'b' ∧ c ≠ 'n' ∧ c ≠ 't' ∧
      (isAscii c && c.isAlphanum) = false)) = true := by decide +kernel
  intro c hc
  exact of_decide_eq_true (List.all_eq_true.mp hall c hc)

theorem escaped_special {c : Char} (h : c ∈ specialChars) : escaped c = some (.one (.literal c)) := by
  obtain ⟨hd, hs, hb, hn, ht, halnum⟩ := special_plain c h
  rw [escaped, if_neg hd, if_neg hs, if_neg hb, if_neg hn, if_neg ht, halnum, if_neg Bool.false_ne_true]

theorem setEscaped_special {c : Char} (h : c ∈ specialChars) : setEscaped c = some (.single c) := by
  obtain ⟨hd, hs, -, hn, ht, halnum⟩ := special_plain c h
  rw [setEscaped, if_neg hd, if_neg hs, if_neg hn, if_neg ht, halnum, if_neg Bool.false_ne_true]

theorem reads_escapeChar (c : Char) : Reads (escapeChar c) [.one (.literal c)] := by
  intro r hmode
  unfold escapeChar
  cases hspecial : specialChars.contains c with
  | true =>
    rw [if_pos rfl]
    have hesc := escaped_special (List.contains_iff_mem.mp hspecial)
    have hfirst : r.feed '\\' = some { r with mode := .escape } := by
      rw [feed_plain hmode]
      rfl
    have hsecond : ({ r with mode := .escape } : Reader).feed c = some (r.pushAll [.one (.literal c)]) := by
      show (escaped c).map _ = _
      rw [hesc, Option.map_some]
      show some ({ r with mode := .plain, frame := r.frame.push _ } : Reader) = _
      rw [← hmode]
      rfl
    rw [feedAll, hfirst, Option.bind_some, feedAll, hsecond]
    rfl
  | false =>
    rw [if_neg Bool.false_ne_true]
    have hfirst : r.feed c = some (r.pushAll [.one (.literal c)]) := by
      rw [feed_plain hmode, feedPlain_literal hspecial]
      show some ({ r with mode := .plain, frame := r.frame.push _ } : Reader) = _
      rw [← hmode]
      rfl
    rw [feedAll, hfirst]
    rfl

/-! ## Sets -/

theorem feedSet_literal {s : SetState} {c : Char} (h : specialChars.contains c = false) :
    r.feedSet s c = { r with mode := .set { s with items := .single c :: s.items } } := by
  have hclose : c ≠ ']' := by
    intro heq
    rw [heq] at h
    exact absurd h (by decide)
  have hslash : c ≠ '\\' := by
    intro heq
    rw [heq] at h
    exact absurd h (by decide)
  have hdash : c ≠ '-' := by
    intro heq
    rw [heq] at h
    exact absurd h (by decide)
  rw [feedSet, if_neg hclose, if_neg hslash, if_neg hdash]

theorem feedSet_slash {s : SetState} : r.feedSet s '\\' = { r with mode := .setEscape s } := rfl

theorem feed_setEscape {s : SetState} {c : Char} (h : specialChars.contains c = true) :
    ({ r with mode := .setEscape s } : Reader).feed c =
      some { r with mode := .set { s with items := .single c :: s.items } } := by
  show (setEscaped c).map _ = _
  rw [setEscaped_special (List.contains_iff_mem.mp h), Option.map_some]

theorem feedAll_set {s : SetState} (c : Char) : ({ r with mode := .set s } : Reader).feedAll (escapeChar c) =
    some { r with mode := .set { s with items := .single c :: s.items } } := by
  unfold escapeChar
  cases hspecial : specialChars.contains c with
  | true =>
    rw [if_pos rfl, feedAll]
    show (some (({ r with mode := .set s } : Reader).feedSet s '\\')).bind _ = _
    rw [feedSet_slash, Option.bind_some, feedAll]
    show ((({ r with mode := .setEscape s } : Reader).feed c).bind _) = _
    rw [feed_setEscape hspecial]
    rfl
  | false =>
    rw [if_neg Bool.false_ne_true, feedAll]
    show (some (({ r with mode := .set s } : Reader).feedSet s c)).bind _ = _
    rw [feedSet_literal hspecial]
    rfl

theorem feedAll_setStart (c : Char) : ({ r with mode := .setStart } : Reader).feedAll (escapeChar c) =
    some { r with mode := .set { items := [.single c] } } := by
  unfold escapeChar
  cases hspecial : specialChars.contains c with
  | true =>
    rw [if_pos rfl, feedAll]
    show (some (({ r with mode := .setStart } : Reader).feedSet {} '\\')).bind _ = _
    rw [feedSet_slash, Option.bind_some, feedAll]
    show ((({ r with mode := .setEscape {} } : Reader).feed c).bind _) = _
    rw [feed_setEscape hspecial]
    rfl
  | false =>
    have hcaret : c ≠ '^' := by
      intro heq
      rw [heq] at hspecial
      exact absurd hspecial (by decide)
    have hclose : c ≠ ']' := by
      intro heq
      rw [heq] at hspecial
      exact absurd hspecial (by decide)
    have hfeed : ({ r with mode := .setStart } : Reader).feed c =
        some (({ r with mode := .setStart } : Reader).feedSet {} c) := by
      show (if c = '^' then _ else if c = ']' then _ else _) = _
      rw [if_neg hcaret, if_neg hclose]
    rw [if_neg Bool.false_ne_true, feedAll, hfeed, feedSet_literal hspecial]
    rfl

theorem feedAll_setMany (chars : Chars) (s : SetState) :
    ({ r with mode := .set s } : Reader).feedAll (chars.flatMap escapeChar) =
      some { r with mode := .set { s with items := (chars.map SetItem.single).reverse ++ s.items } } := by
  induction chars generalizing s with
  | nil => rfl
  | cons c rest ih =>
    rw [List.flatMap_cons, feedAll_append, feedAll_set, Option.bind_some, ih]
    simp

theorem reads_set (c : Char) (rest : Chars) :
    Reads (['['] ++ (c :: rest).flatMap escapeChar ++ [']'])
      [.one (.oneOf false ((c :: rest).map SetItem.single))] := by
  intro r hmode
  have hopen : r.feedAll ['['] = some { r with mode := .setStart } := by
    rw [feedAll, feed_plain hmode]
    rfl
  rw [feedAll_append, feedAll_append, hopen, Option.bind_some, List.flatMap_cons, feedAll_append, feedAll_setStart,
    Option.bind_some, feedAll_setMany, Option.bind_some]
  show some (({ r with mode := .set _ } : Reader).closeSet _) = _
  unfold closeSet push pushAll
  rw [← hmode]
  simp [Frame.push]

/-! ## Groups -/

theorem feedAll_alternatives {branches : List (Chars × List Re)} (h : ∀ b ∈ branches, Reads b.1 b.2)
    (hne : branches ≠ []) (r : Reader) (hmode : r.mode = .plain) (hitems : r.frame.items = []) :
    ∃ frame, r.feedAll (['|'].intercalate (branches.map Prod.fst)) = some { r with frame := frame } ∧
      frame.kind = r.frame.kind ∧
      (sequence frame.items.reverse :: frame.alternatives).reverse =
        r.frame.alternatives.reverse ++ branches.map fun b => sequence b.2 := by
  induction branches generalizing r with
  | nil => exact absurd rfl hne
  | cons b branches ih =>
    have hb := h b List.mem_cons_self r hmode
    cases branches with
    | nil =>
      have hone : ['|'].intercalate ([b].map Prod.fst) = b.1 := by simp [List.intercalate]
      rw [hone]
      refine ⟨_, hb, rfl, ?_⟩
      simp [hitems]
    | cons b' branches =>
      have hmore : ['|'].intercalate ((b :: b' :: branches).map Prod.fst) =
          b.1 ++ (['|'] ++ ['|'].intercalate ((b' :: branches).map Prod.fst)) := by
        simp [List.intercalate]
      have hbar : (r.pushAll b.2).feedAll ['|'] = some (r.pushAll b.2).nextAlternative := by
        have hpushed : (r.pushAll b.2).mode = .plain := hmode
        rw [feedAll, feed_plain hpushed]
        rfl
      obtain ⟨frame, hfeed, hkind, hbody⟩ := ih (fun b hb => h b (List.mem_cons_of_mem _ hb)) (List.cons_ne_nil _ _)
        (r.pushAll b.2).nextAlternative rfl rfl
      refine ⟨frame, ?_, ?_, ?_⟩
      · rw [hmore, feedAll_append, hb, Option.bind_some, feedAll_append, hbar, Option.bind_some, hfeed]
        show some ({ r with mode := .plain, frame := frame } : Reader) = _
        rw [← hmode]
      · rw [hkind]
        rfl
      · rw [hbody]
        simp [nextAlternative, pushAll, hitems]

theorem feedAll_groupOpen {r : Reader} (hmode : r.mode = .plain) :
    r.feedAll groupOpen = some (r.openGroup .plain) := by
  unfold groupOpen
  rw [feedAll, feed, hmode]
  rfl

theorem reads_group {branches : List (Chars × List Re)} (h : ∀ b ∈ branches, Reads b.1 b.2) (hne : branches ≠ []) :
    Reads (groupOpen ++ ['|'].intercalate (branches.map Prod.fst) ++ [')'])
      [.group none (choose (branches.map fun b => sequence b.2))] := by
  intro r hmode
  obtain ⟨frame, hfeed, hkind, hbody⟩ := feedAll_alternatives h hne (r.openGroup .plain) rfl rfl
  rw [feedAll_append, feedAll_append, feedAll_groupOpen hmode, Option.bind_some, hfeed, Option.bind_some]
  have hclose : frame.close = some (.group none (choose (branches.map fun b => sequence b.2))) := by
    rw [Frame.close, hkind]
    show some (Regex.group none frame.body) = _
    rw [Frame.body, hbody]
    rfl
  have hfeedClose : ({ r.openGroup .plain with frame := frame } : Reader).feed ')' =
      some (r.pushAll [.group none (choose (branches.map fun b => sequence b.2))]) := by
    show (frame.close.map _) = _
    rw [hclose, Option.map_some]
    show some ({ r with mode := .plain, frame := r.frame.push _ } : Reader) = _
    rw [← hmode]
    rfl
  rw [feedAll, hfeedClose]
  rfl

theorem reads_maybe (h : Reads pattern items) : Reads (groupOpen ++ pattern ++ [')', '?'])
    [.rep 0 (some 1) true (.group none (sequence items))] := by
  have hgroup : Reads (groupOpen ++ pattern ++ [')']) [.group none (sequence items)] := by
    have hone := @reads_group [(pattern, items)] (by simpa using h) (List.cons_ne_nil _ _)
    simpa [List.intercalate, choose] using hone
  intro r hmode
  have hsplit : groupOpen ++ pattern ++ [')', '?'] = groupOpen ++ pattern ++ [')'] ++ ['?'] := by simp
  have hpushed : (r.pushAll [.group none (sequence items)]).mode = .plain := hmode
  rw [hsplit, feedAll_append, hgroup r hmode, Option.bind_some, feedAll, feed_plain hpushed]
  show some ({ r with mode := .plain, frame := _ } : Reader) = _
  rw [← hmode]
  rfl

/-! ## Compiled patterns -/

theorem compile_reads (flags : Flags) (h : Reads pattern items) : compile flags pattern = some ⟨flags, sequence items⟩ := by
  unfold compile
  rw [h _ rfl, Option.bind_some, if_pos ⟨rfl, rfl⟩]
  simp [pushAll, Frame.body, choose]

end Reader
end EdgarSec.Patterns
