import Mathlib

/-! Fixed tokens in a stream of symbols. Every token begins with one marker symbol that occurs
nowhere else in a token, so two occurrences never overlap, and a tail shorter than the
longest token is all that a reader of the stream has to hold back. -/

namespace EdgarSec.Lib

inductive Event (α T : Type)
  | data (a : α)
  | tag (t : T)
deriving DecidableEq

structure Lexicon (α T : Type) where
  tokens : List T
  text : T → List α
  norm : α → α
  width : Nat
  marker : α
  text_eq : ∀ t ∈ tokens, ∃ tail, text t = marker :: tail ∧ marker ∉ tail
  width_le : ∀ t ∈ tokens, (text t).length ≤ width
  prefix_free : ∀ t ∈ tokens, ∀ u ∈ tokens, text t <+: text u → t = u

/-- The first index at which `needle` occurs. -/
def findIn {α : Type} [DecidableEq α] (needle : List α) : List α → Option Nat
  | [] => if needle = [] then some 0 else none
  | a :: s => if needle.isPrefixOf (a :: s) then some 0 else (findIn needle s).map (· + 1)

namespace Lexicon
section Reading
variable {α T : Type} [DecidableEq α] (L : Lexicon α T)

def tokenAt (s : List α) : Option T := L.tokens.find? fun t => (L.text t).isPrefixOf (s.map L.norm)

/-- The tokens of a whole text and the symbols between them; `skip` symbols belong to a
token already read. -/
def scan (L : Lexicon α T) : Nat → List α → List (Event α T)
  | _, [] => []
  | skip + 1, _ :: s => scan L skip s
  | 0, a :: s =>
    match L.tokenAt (a :: s) with
    | some t => .tag t :: scan L ((L.text t).length - 1) s
    | none => .data a :: scan L 0 s

def events (s : List α) : List (Event α T) := L.scan 0 s

def nearer (s : List α) (found : Option (Nat × T)) (t : T) : Option (Nat × T) :=
  match findIn (L.text t) (s.map L.norm) with
  | none => found
  | some i => if found.all (i < ·.1) then some (i, t) else found

def earliest (s : List α) : Option (Nat × T) := L.tokens.foldl (L.nearer s) none

/-- What stands between `t` and the next `u`, for each `t` that some `u` follows; `skip` symbols
belong to what has been read already. -/
def captures (L : Lexicon α T) (t u : T) : Nat → List α → List (List α)
  | _, [] => []
  | skip + 1, _ :: s => captures L t u skip s
  | 0, a :: s =>
    let rest := (a :: s).drop (L.text t).length
    match (if (L.text t).isPrefixOf ((a :: s).map L.norm) then findIn (L.text u) (rest.map L.norm) else none) with
    | some n => rest.take n :: captures L t u ((L.text t).length + n + (L.text u).length - 1) s
    | none => captures L t u 0 s

end Reading

/-! ## Where tokens begin -/

/-- `t` stands at the beginning of the text. -/
def Begins {α T : Type} (L : Lexicon α T) (t : T) (s : List α) : Prop :=
  t ∈ L.tokens ∧ L.text t <+: s.map L.norm

section Occurrences
variable {α T : Type} {L : Lexicon α T} {s p q : List α} {t u : T} {i j : Nat}

theorem Begins.length_pos (h : L.Begins t s) : 0 < (L.text t).length := by
  obtain ⟨tail, htext, _⟩ := L.text_eq t h.1
  simp [htext]

theorem Begins.length_le (h : L.Begins t s) : (L.text t).length ≤ s.length := by
  simpa using h.2.length_le

theorem Begins.append (h : L.Begins t p) (q : List α) : L.Begins t (p ++ q) := by
  refine ⟨h.1, h.2.trans ?_⟩
  rw [List.map_append]
  exact List.prefix_append _ _

theorem Begins.of_append (h : L.Begins t (p ++ q)) (hle : (L.text t).length ≤ p.length) :
    L.Begins t p := by
  refine ⟨h.1, ?_⟩
  have hpre := h.2
  rw [List.map_append] at hpre
  exact List.prefix_of_prefix_length_le hpre (List.prefix_append _ _) (by simpa using hle)

theorem Begins.unique (ht : L.Begins t s) (hu : L.Begins u s) : t = u := by
  -- both texts are prefixes of one text, so one of them is a prefix of the other
  rcases le_total (L.text t).length (L.text u).length with hle | hle
  · exact L.prefix_free t ht.1 u hu.1 (List.prefix_of_prefix_length_le ht.2 hu.2 hle)
  · exact (L.prefix_free u hu.1 t ht.1 (List.prefix_of_prefix_length_le hu.2 ht.2 hle)).symm

theorem Begins.head (h : L.Begins t s) : (s.map L.norm)[0]? = some L.marker := by
  obtain ⟨tail, htext, _⟩ := L.text_eq t h.1
  obtain ⟨rest, hrest⟩ := h.2
  rw [← hrest, htext]
  rfl

theorem Begins.not_begins_drop (h : L.Begins t s) {k : Nat} (hk : 0 < k)
    (hin : k < (L.text t).length) : ¬ L.Begins u (s.drop k) := by
  intro hu
  obtain ⟨tail, htext, hnot⟩ := L.text_eq t h.1
  obtain ⟨rest, hrest⟩ := h.2
  have hmark := hu.head
  rw [List.map_drop, List.getElem?_drop, Nat.add_zero, ← hrest, List.getElem?_append_left hin, htext,
    List.getElem?_cons, if_neg hk.ne'] at hmark
  exact hnot (List.mem_of_getElem? hmark)

variable [DecidableEq α]

theorem findIn_eq_some {needle : List α} (h : findIn needle s = some i) :
    needle <+: s.drop i ∧ ∀ j < i, ¬ needle <+: s.drop j := by
  induction s generalizing i with
  | nil =>
    by_cases hn : needle = []
    · simp [findIn, hn] at h
      subst h
      simp [hn]
    · simp [findIn, hn] at h
  | cons a s ih =>
    unfold findIn at h
    split_ifs at h with hpre
    · cases h
      exact ⟨by simpa using hpre, fun j hj => absurd hj (Nat.not_lt_zero j)⟩
    · obtain ⟨k, hk, rfl⟩ := Option.map_eq_some_iff.mp h
      obtain ⟨hfound, hfirst⟩ := ih hk
      refine ⟨by simpa using hfound, fun j hj => ?_⟩
      cases j with
      | zero => simpa using hpre
      | succ j => simpa using hfirst j (by omega)

theorem findIn_eq_none {needle : List α} (h : findIn needle s = none) (j : Nat) :
    ¬ needle <+: s.drop j := by
  induction s generalizing j with
  | nil =>
    have hn : needle ≠ [] := by
      rintro rfl
      simp [findIn] at h
    simpa using hn
  | cons a s ih =>
    unfold findIn at h
    split_ifs at h with hpre
    have hrest := ih (by simpa using h)
    cases j with
    | zero => simpa using hpre
    | succ j => simpa using hrest j

theorem tokenAt_eq_some_iff : L.tokenAt s = some t ↔ L.Begins t s := by
  unfold tokenAt
  have hsome : ∀ u, L.tokens.find? (fun t => (L.text t).isPrefixOf (s.map L.norm)) = some u →
      L.Begins u s := fun u h => ⟨List.mem_of_find?_eq_some h, by simpa using List.find?_some h⟩
  constructor
  · exact hsome t
  · intro ht
    cases hfind : L.tokens.find? fun t => (L.text t).isPrefixOf (s.map L.norm) with
    | none =>
      rw [List.find?_eq_none] at hfind
      exact absurd (by simpa using ht.2) (hfind t ht.1)
    | some u => rw [ht.unique (hsome u hfind)]

theorem tokenAt_eq_none_iff : L.tokenAt s = none ↔ ∀ t, ¬ L.Begins t s := by
  rw [Option.eq_none_iff_forall_ne_some]
  exact forall_congr' fun t => not_congr tokenAt_eq_some_iff

/-- `found` is the first of the occurrences of the tokens `ts`. -/
structure Nearest (L : Lexicon α T) (s : List α) (ts : List T) (found : Option (Nat × T)) : Prop where
  occurs : ∀ i t, found = some (i, t) → t ∈ ts ∧ L.text t <+: (s.drop i).map L.norm
  first : ∀ u ∈ ts, ∀ j, L.text u <+: (s.drop j).map L.norm → ∃ i t, found = some (i, t) ∧ i ≤ j

theorem Nearest.nearer {ts : List T} {found : Option (Nat × T)} (h : L.Nearest s ts found) (t : T) :
    L.Nearest s (ts ++ [t]) (L.nearer s found t) := by
  have hkeep : ∀ i u, found = some (i, u) → u ∈ ts ++ [t] ∧ L.text u <+: (s.drop i).map L.norm :=
    fun i u hf => ⟨List.mem_append_left _ (h.occurs i u hf).1, (h.occurs i u hf).2⟩
  unfold Lexicon.nearer
  cases hfind : findIn (L.text t) (s.map L.norm) with
  | none =>
    refine ⟨hkeep, fun u hu j hj => ?_⟩
    rcases List.mem_append.mp hu with hu | hu
    · exact h.first u hu j hj
    · obtain rfl := List.mem_singleton.mp hu
      rw [List.map_drop] at hj
      exact absurd hj (findIn_eq_none hfind j)
  | some i =>
    obtain ⟨hpre, hmin⟩ := findIn_eq_some hfind
    rw [← List.map_drop] at hpre
    have hle : ∀ j, L.text t <+: (s.drop j).map L.norm → i ≤ j := by
      intro j hj
      rw [List.map_drop] at hj
      exact not_lt.mp fun hlt => hmin j hlt hj
    dsimp only
    split_ifs with hnear
    · refine ⟨?_, fun u hu j hj => ⟨i, t, rfl, ?_⟩⟩
      · rintro k u hk
        cases hk
        exact ⟨by simp, hpre⟩
      · rcases List.mem_append.mp hu with hu | hu
        · obtain ⟨k, v, rfl, hkj⟩ := h.first u hu j hj
          have hik : i < k := by simpa using hnear
          omega
        · obtain rfl := List.mem_singleton.mp hu
          exact hle j hj
    · refine ⟨hkeep, fun u hu j hj => ?_⟩
      rcases List.mem_append.mp hu with hu | hu
      · exact h.first u hu j hj
      · obtain rfl := List.mem_singleton.mp hu
        cases found with
        | none => simp at hnear
        | some f =>
          have hfi : f.1 ≤ i := by simpa using hnear
          exact ⟨f.1, f.2, rfl, hfi.trans (hle j hj)⟩

theorem nearest_earliest (L : Lexicon α T) (s : List α) : L.Nearest s L.tokens (L.earliest s) := by
  have key : ∀ ts : List T, L.Nearest s ts (ts.foldl (L.nearer s) none) := by
    intro ts
    induction ts using List.reverseRecOn with
    | nil => exact ⟨by simp, by simp⟩
    | append_singleton ts t ih =>
      rw [List.foldl_append]
      exact ih.nearer t
  exact key L.tokens

theorem earliest_eq_some (h : L.earliest s = some (i, t)) :
    L.Begins t (s.drop i) ∧ ∀ j < i, ∀ u, ¬ L.Begins u (s.drop j) := by
  have hnear := nearest_earliest L s
  refine ⟨hnear.occurs i t h, fun j hj u hu => ?_⟩
  obtain ⟨k, v, hk, hkj⟩ := hnear.first u hu.1 j hu.2
  rw [h] at hk
  cases hk
  omega

theorem earliest_eq_none (h : L.earliest s = none) (j : Nat) (u : T) : ¬ L.Begins u (s.drop j) := by
  intro hu
  obtain ⟨k, v, hk, _⟩ := (nearest_earliest L s).first u hu.1 j hu.2
  rw [h] at hk
  cases hk

/-! ## The events of a text -/

theorem scan_drop (n : Nat) (s : List α) : L.scan n s = L.events (s.drop n) := by
  induction n generalizing s with
  | zero => rfl
  | succ n ih =>
    cases s with
    | nil => rfl
    | cons a s => exact ih s

theorem events_of_begins (h : L.Begins t s) :
    L.events s = .tag t :: L.events (s.drop (L.text t).length) := by
  obtain ⟨a, s, rfl⟩ : ∃ a s', s = a :: s' := by
    cases s with
    | nil => exact absurd (h.length_pos.trans_le h.length_le) (Nat.lt_irrefl 0)
    | cons a s => exact ⟨a, s, rfl⟩
  have hpos := h.length_pos
  obtain ⟨n, hn⟩ : ∃ n, (L.text t).length = n + 1 := ⟨_, (Nat.succ_pred hpos.ne').symm⟩
  show L.scan 0 (a :: s) = _
  rw [scan, tokenAt_eq_some_iff.mpr h]
  simp only [hn, Nat.add_sub_cancel, List.drop_succ_cons, scan_drop]

theorem events_of_not_begins (a : α) (h : ∀ t, ¬ L.Begins t (a :: s)) :
    L.events (a :: s) = .data a :: L.events s := by
  show L.scan 0 (a :: s) = _
  rw [scan, tokenAt_eq_none_iff.mpr h]
  rfl

theorem events_append (h : ∀ j < p.length, ∀ t, ¬ L.Begins t (p.drop j ++ q)) :
    L.events (p ++ q) = p.map .data ++ L.events q := by
  induction p with
  | nil => rfl
  | cons a p ih =>
    have hhead : ∀ t, ¬ L.Begins t (a :: (p ++ q)) := h 0 (by simp)
    have hrest : ∀ j < p.length, ∀ t, ¬ L.Begins t (p.drop j ++ q) :=
      fun j hj => h (j + 1) (by simpa using hj)
    rw [List.cons_append, events_of_not_begins a hhead, ih hrest]
    rfl

/-! Parts of a text in which a token does not begin. -/

/-- `u` begins nowhere in `p` where `q` follows. -/
def Free (L : Lexicon α T) (u : T) (p q : List α) : Prop := ∀ j < p.length, ¬ L.Begins u (p.drop j ++ q)

theorem Free.append {p' : List α} (h : L.Free u p (p' ++ q)) (h' : L.Free u p' q) : L.Free u (p ++ p') q := by
  intro j hj
  rcases lt_or_ge j p.length with hlt | hge
  · rw [List.drop_append_of_le_length hlt.le, List.append_assoc]
    exact h j hlt
  · rw [List.drop_append, List.drop_of_length_le hge, List.nil_append]
    exact h' (j - p.length) (by rw [List.length_append] at hj; omega)

theorem Free.of_append {r : List α} (h : L.Free u p (q ++ r)) : L.Free u p q := by
  intro j hj hbegins
  have hmore := hbegins.append r
  rw [List.append_assoc] at hmore
  exact h j hj hmore

theorem free_of_begins {o : List α} (ho : o.length = (L.text t).length) (ht : L.Begins t (o ++ q)) (hne : t ≠ u) :
    L.Free u o q := by
  intro j hj hbegins
  rcases Nat.eq_zero_or_pos j with rfl | hpos
  · exact hne (ht.unique hbegins)
  · rw [← List.drop_append_of_le_length hj.le] at hbegins
    exact ht.not_begins_drop hpos (ho ▸ hj) hbegins

theorem of_events_data {events : List (Event α T)} (h : L.events s = p.map .data ++ events) :
    ∃ q, s = p ++ q ∧ L.events q = events ∧ ∀ t, L.Free t p q := by
  induction p generalizing s with
  | nil => exact ⟨s, rfl, h, fun t j hj => absurd hj (Nat.not_lt_zero j)⟩
  | cons a p ih =>
    cases s with
    | nil => cases h
    | cons b s =>
      have hnone : ∀ t, ¬ L.Begins t (b :: s) := by
        intro t ht
        rw [events_of_begins ht] at h
        cases h
      rw [events_of_not_begins b hnone, List.map_cons, List.cons_append] at h
      obtain ⟨hdata, hrest⟩ := List.cons.inj h
      obtain rfl := Event.data.inj hdata
      obtain ⟨q, rfl, hq, hfree⟩ := ih hrest
      refine ⟨q, rfl, hq, fun t j hj => ?_⟩
      cases j with
      | zero => exact hnone t
      | succ j => exact hfree t j (by simpa using hj)

theorem of_events_tag {events : List (Event α T)} (h : L.events s = .tag t :: events) :
    ∃ o q, s = o ++ q ∧ o.length = (L.text t).length ∧ L.Begins t s ∧ L.events q = events := by
  cases s with
  | nil => cases h
  | cons a s =>
    by_cases hbegins : ∃ u, L.Begins u (a :: s)
    · obtain ⟨u, hu⟩ := hbegins
      rw [events_of_begins hu] at h
      obtain ⟨htag, hrest⟩ := List.cons.inj h
      obtain rfl := Event.tag.inj htag
      refine ⟨(a :: s).take (L.text u).length, (a :: s).drop (L.text u).length,
        (List.take_append_drop _ _).symm, ?_, hu, hrest⟩
      exact List.length_take_of_le hu.length_le
    · rw [events_of_not_begins a (not_exists.mp hbegins)] at h
      cases (List.cons.inj h).1

/-! What is captured between two tokens. -/

theorem captures_drop (n : Nat) (s : List α) : L.captures t u n s = L.captures t u 0 (s.drop n) := by
  induction n generalizing s with
  | zero => rfl
  | succ n ih =>
    cases s with
    | nil => rw [List.drop_nil]; rfl
    | cons a s => exact ih s

theorem captures_append (ht : t ∈ L.tokens) (h : L.Free t p q) :
    L.captures t u 0 (p ++ q) = L.captures t u 0 q := by
  induction p with
  | nil => rfl
  | cons a p ih =>
    have hhead : ¬ (L.text t).isPrefixOf ((a :: (p ++ q)).map L.norm) = true :=
      fun hpre => h 0 (by simp) ⟨ht, by simpa using hpre⟩
    have hrest : L.Free t p q := fun j hj => h (j + 1) (by simpa using hj)
    rw [List.cons_append, captures, if_neg hhead]
    exact ih hrest

theorem captures_of_begins {o m r : List α} (ho : o.length = (L.text t).length) (ht : L.Begins t (o ++ (m ++ r)))
    (hu : L.Begins u r) (hfree : L.Free u m r) :
    L.captures t u 0 (o ++ (m ++ r)) = m :: L.captures t u 0 (r.drop (L.text u).length) := by
  have hdrop : (o ++ (m ++ r)).drop (L.text t).length = m ++ r := by
    rw [← ho, List.drop_left]
  have hprefix : (L.text t).isPrefixOf ((o ++ (m ++ r)).map L.norm) = true := by simpa using ht.2
  have hfind : findIn (L.text u) ((m ++ r).map L.norm) = some m.length := by
    cases hfound : findIn (L.text u) ((m ++ r).map L.norm) with
    | none =>
      have hnot := findIn_eq_none hfound m.length
      rw [← List.map_drop, List.drop_left] at hnot
      exact absurd hu.2 hnot
    | some n =>
      obtain ⟨hat, hfirst⟩ := findIn_eq_some hfound
      rw [← List.map_drop] at hat
      rcases lt_trichotomy n m.length with hlt | heq | hgt
      · rw [List.drop_append_of_le_length hlt.le] at hat
        exact absurd ⟨hu.1, hat⟩ (hfree n hlt)
      · rw [heq]
      · have hnot := hfirst m.length hgt
        rw [← List.map_drop, List.drop_left] at hnot
        exact absurd hu.2 hnot
  have hpos := ht.length_pos
  obtain ⟨a, s, hs⟩ : ∃ a s, o ++ (m ++ r) = a :: s := by
    cases hcons : o ++ (m ++ r) with
    | nil =>
      have hlen := ht.length_le
      rw [hcons] at hlen
      exact absurd (hpos.trans_le hlen) (Nat.lt_irrefl 0)
    | cons a s => exact ⟨a, s, rfl⟩
  rw [hs, captures, ← hs]
  rw [if_pos hprefix, hdrop, hfind]
  dsimp only
  rw [List.take_left, captures_drop]
  congr 2
  have hskip : s.drop ((L.text t).length + m.length + (L.text u).length - 1) =
      (a :: s).drop ((L.text t).length + m.length + (L.text u).length) := by
    obtain ⟨n, hn⟩ : ∃ n, (L.text t).length + m.length + (L.text u).length = n + 1 :=
      ⟨_, (Nat.succ_pred (by omega)).symm⟩
    rw [hn]
    rfl
  rw [hskip, ← hs, ← ho, ← List.drop_drop, ← List.drop_drop, List.drop_left, List.drop_left]

theorem events_append_of_free (h : ∀ a ∈ p, L.norm a ≠ L.marker) :
    L.events (p ++ q) = p.map .data ++ L.events q := by
  refine events_append fun j hj t ht => ?_
  have hhead := ht.head
  rw [List.drop_eq_getElem_cons hj, List.cons_append, List.map_cons] at hhead
  have hmark : L.norm p[j] = L.marker := Option.some.inj hhead
  exact h _ (List.getElem_mem hj) hmark
end Occurrences

/-! ## A reader that holds back a bounded tail -/

section Draining
variable {α T S ε : Type} [DecidableEq α]

theorem earliest_advances {L : Lexicon α T} {s : List α} {i : Nat} {t : T} (hs : s ≠ [])
    (h : L.earliest s = some (i, t)) : (s.drop (i + (L.text t).length)).length < s.length := by
  have hpos := (earliest_eq_some h).1.length_pos
  have hlen := List.length_pos_iff.mpr hs
  rw [List.length_drop]
  omega

def drain (L : Lexicon α T) (consume : List α → S → S) (handle : T → S → Except ε S)
    (pending : List α) (s : S) : Except ε (List α × S) :=
  if _hp : pending = [] then .ok ([], s)
  else
    match h : L.earliest pending with
    | none =>
      let safeSize := pending.length + 1 - L.width
      if _hsafe : safeSize = 0 then .ok (pending, s)
      else drain L consume handle (pending.drop safeSize) (consume (pending.take safeSize) s)
    | some (i, t) => do
      let s := if i = 0 then s else consume (pending.take i) s
      let s ← handle t s
      drain L consume handle (pending.drop (i + (L.text t).length)) s
termination_by pending.length
decreasing_by
  · have hlen := List.length_pos_iff.mpr _hp
    rw [List.length_drop]
    omega
  · exact earliest_advances _hp h

def readChunks (L : Lexicon α T) (consume : List α → S → S) (handle : T → S → Except ε S)
    (chunks : List (List α)) (s : S) : Except ε S := do
  let (pending, s) ← chunks.foldlM
    (fun (p : List α × S) chunk => L.drain consume handle (p.1 ++ chunk) p.2) ([], s)
  .ok (if pending = [] then s else consume pending s)

def replay (consume : List α → S → S) (handle : T → S → Except ε S) :
    List (Event α T) → S → Except ε S
  | [], s => .ok s
  | .data a :: events, s => replay consume handle events (consume [a] s)
  | .tag t :: events, s => do replay consume handle events (← handle t s)

variable {L : Lexicon α T} {consume : List α → S → S} {handle : T → S → Except ε S}
variable (hnil : ∀ s, consume [] s = s)
variable (happend : ∀ p q s, consume (p ++ q) s = consume q (consume p s))

section
include hnil happend

omit [DecidableEq α] in
theorem replay_data (p : List α) (events : List (Event α T)) (s : S) :
    replay consume handle (p.map .data ++ events) s = replay consume handle events (consume p s) := by
  induction p generalizing s with
  | nil => rw [hnil]; rfl
  | cons a p ih =>
    have hsplit : consume (a :: p) s = consume p (consume [a] s) := happend [a] p s
    rw [hsplit, ← ih]
    rfl

omit hnil happend [DecidableEq α] in
theorem drop_take_append {p : List α} {i j : Nat} (rest : List α) (hj : j ≤ (p.take i).length) :
    (p.take i).drop j ++ (p.drop i ++ rest) = p.drop j ++ rest := by
  rw [← List.append_assoc, ← List.drop_append_of_le_length hj, List.take_append_drop]

theorem drain_replay (rest pending : List α) (s : S) :
    (do let (p, s) ← L.drain consume handle pending s
        replay consume handle (L.events (p ++ rest)) s) =
      replay consume handle (L.events (pending ++ rest)) s := by
  fun_induction L.drain consume handle pending s with
  | case1 s => rfl
  | case2 pending s hp h safeSize hsafe => rfl
  | case3 pending s hp h safeSize hsafe ih =>
    rw [ih]
    -- no token begins in the symbols passed on: it would end inside what is pending
    have hfree : ∀ j < (pending.take safeSize).length, ∀ t,
        ¬ L.Begins t ((pending.take safeSize).drop j ++ (pending.drop safeSize ++ rest)) := by
      intro j hj t ht
      have hwidth := L.width_le t ht.1
      rw [drop_take_append rest hj.le] at ht
      rw [List.length_take] at hj
      exact earliest_eq_none h j t (ht.of_append (by rw [List.length_drop]; omega))
    conv_rhs => rw [← List.take_append_drop safeSize pending, List.append_assoc]
    rw [events_append hfree, replay_data hnil happend]
  | case4 pending s hp i t h s' ih =>
    obtain ⟨hbegins, hfirst⟩ := earliest_eq_some h
    have hlen := hbegins.length_le
    have hpos := hbegins.length_pos
    rw [List.length_drop] at hlen
    -- an earlier token would reach past the end and so contain the marker of the one found
    have hfree : ∀ j < (pending.take i).length, ∀ u,
        ¬ L.Begins u ((pending.take i).drop j ++ (pending.drop i ++ rest)) := by
      intro j hj u hu
      rw [drop_take_append rest hj.le] at hu
      rw [List.length_take] at hj
      rcases le_or_gt (L.text u).length (pending.drop j).length with hle | hgt
      · exact hfirst j (by omega) u (hu.of_append hle)
      · rw [List.length_drop] at hgt
        refine hu.not_begins_drop (k := i - j) (u := t) (by omega) (by omega) ?_
        rw [List.drop_append_of_le_length (by rw [List.length_drop]; omega), List.drop_drop,
          Nat.add_sub_of_le (by omega)]
        exact hbegins.append rest
    have hs' : s' = consume (pending.take i) s := by
      by_cases hi : i = 0
      · simp [s', hi, hnil]
      · simp [s', hi]
    conv_rhs => rw [← List.take_append_drop i pending, List.append_assoc]
    rw [events_append hfree, replay_data hnil happend, events_of_begins (hbegins.append rest),
      List.drop_append_of_le_length (by rw [List.length_drop]; omega), List.drop_drop, ← hs']
    show _ = (handle t s').bind _
    cases hhandle : handle t s' with
    | error e => rfl
    | ok s'' => exact ih s''

omit hnil happend in
theorem drain_pending {pending : List α} {s : S} {p : List α} {s' : S}
    (h : L.drain consume handle pending s = .ok (p, s')) : ∀ j t, ¬ L.Begins t (p.drop j) := by
  fun_induction L.drain consume handle pending s with
  | case1 s =>
    cases h
    intro j t ht
    have hle := ht.length_pos.trans_le ht.length_le
    simp at hle
  | case2 pending s hp hnone safeSize hsafe =>
    cases h
    exact earliest_eq_none hnone
  | case3 pending s hp hnone safeSize hsafe ih => exact ih h
  | case4 pending s hp i t hsome s' ih =>
    cases hhandle : handle t s' with
    | error e =>
      rw [hhandle] at h
      cases h
    | ok s'' =>
      rw [hhandle] at h
      exact ih s'' h

theorem readChunks_eq (chunks : List (List α)) (s : S) :
    L.readChunks consume handle chunks s = replay consume handle (L.events chunks.flatten) s := by
  have key : ∀ (chunks : List (List α)) (p : List α) (s : S),
      (∀ j t, ¬ L.Begins t (p.drop j)) →
      (do let (p, s) ← chunks.foldlM
            (fun (p : List α × S) chunk => L.drain consume handle (p.1 ++ chunk) p.2) (p, s)
          .ok (if p = [] then s else consume p s)) =
        replay consume handle (L.events (p ++ chunks.flatten)) s := by
    intro chunks
    induction chunks with
    | nil =>
      intro p s hfree
      have hdata := events_append (L := L) (p := p) (q := [])
        fun j _ t => by rw [List.append_nil]; exact hfree j t
      rw [List.flatten_nil, hdata, replay_data hnil happend]
      show Except.ok (if p = [] then s else consume p s) = Except.ok (consume p s)
      by_cases hp : p = []
      · simp [hp, hnil]
      · simp [hp]
    | cons chunk chunks ih =>
      intro p s hfree
      rw [List.flatten_cons, ← List.append_assoc,
        ← drain_replay hnil happend chunks.flatten (p ++ chunk) s, List.foldlM_cons]
      cases hdrain : L.drain consume handle (p ++ chunk) s with
      | error e => rfl
      | ok r => exact ih r.1 r.2 (drain_pending hdrain)
  refine key chunks [] s fun j t ht => ?_
  have hle := ht.length_pos.trans_le ht.length_le
  simp at hle

end
end Draining
end Lexicon
end EdgarSec.Lib
