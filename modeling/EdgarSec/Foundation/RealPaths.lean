import EdgarSec.Foundation.Files

/-! Paths without links: what stands at such a path is what the path leads to. -/

namespace EdgarSec.Foundation
open Lib

namespace FileSystem

variable {fs : FileSystem}

theorem entry_of_prefix {p q : Path} {e : Entry} (h : fs.entry p = some e) (hq : q <+: p)
    (hne : q ≠ p) : fs.entry q = some .dir := by
  obtain ⟨rest, rfl⟩ := hq
  induction rest using List.reverseRecOn generalizing e with
  | nil => simp at hne
  | append_singleton rest name ih =>
    have hdir : fs.entry (q ++ rest) = some .dir := by
      have hlast := entry_dropLast h
      rwa [← List.append_assoc, List.dropLast_concat] at hlast
    cases rest with
    | nil => rwa [List.append_nil] at hdir
    | cons n rest => exact ih hdir (by simp)

/-! ## Walking -/

theorem advance_of_entry {cur : Path} {names : List String} {e : Entry}
    (h : fs.entry (cur ++ names) = some e) (hlink : ∀ t, e ≠ .symlink t) (hup : ".." ∉ names) :
    fs.advance true cur names = .arrived (cur ++ names) := by
  induction names generalizing cur with
  | nil => simp [advance]
  | cons name rest ih =>
    simp only [List.mem_cons, not_or] at hup
    have happ : cur ++ name :: rest = (cur ++ [name]) ++ rest := by simp
    have hrest := @ih (cur ++ [name]) (happ ▸ h) hup.2
    unfold advance
    rw [if_neg (fun he => hup.1 he.symm)]
    cases rest with
    | nil =>
      rw [h]
      cases e with
      | file content => simpa using hrest
      | dir => simpa using hrest
      | symlink t => exact absurd rfl (hlink t)
    | cons n rest =>
      have hdir : fs.entry (cur ++ [name]) = some .dir :=
        entry_of_prefix h (happ ▸ List.prefix_append _ _) (by simp)
      rw [hdir]
      simpa using hrest

theorem advance_of_missing {cur : Path} {names : List String} {name : String} {rest : List String}
    (h : fs.entry (cur ++ names) = some .dir) (hup : ".." ∉ names) (hname : name ≠ "..")
    (hmissing : fs.entry (cur ++ names ++ [name]) = none) :
    fs.advance true cur (names ++ name :: rest) = .missing := by
  induction names generalizing cur with
  | nil =>
    rw [List.append_nil] at hmissing
    rw [List.nil_append, advance, if_neg hname, hmissing]
    rfl
  | cons n names ih =>
    simp only [List.mem_cons, not_or] at hup
    have happ : cur ++ n :: names = (cur ++ [n]) ++ names := by simp
    have hdir : fs.entry (cur ++ [n]) = some .dir := by
      by_cases hnil : names = []
      · simpa [hnil] using h
      · refine entry_of_prefix h (happ ▸ List.prefix_append _ _) ?_
        simpa using Ne.symm hnil
    rw [List.cons_append, advance, if_neg (fun he => hup.1 he.symm), hdir]
    exact ih (happ ▸ h) hup.2 (happ ▸ hmissing)

theorem locate_of_entry {p : Path} {e : Entry} (h : fs.entry p = some e)
    (hlink : ∀ t, e ≠ .symlink t) (hup : ".." ∉ p) : fs.locate p = some p := by
  have hadv := @advance_of_entry fs [] p e h hlink hup
  rw [locate, maxLinks, follow, hadv]
  simp

theorem stat_of_entry {p : Path} {e : Entry} (h : fs.entry p = some e) (hlink : ∀ t, e ≠ .symlink t)
    (hup : ".." ∉ p) : fs.stat p = some e := by
  rw [stat, locate_of_entry h hlink hup, Option.bind_some, h]

theorem stat_of_missing {d : Path} {name : String} {rest : List String}
    (h : fs.entry d = some .dir) (hup : ".." ∉ d) (hname : name ≠ "..")
    (hmissing : fs.entry (d ++ [name]) = none) : fs.stat (d ++ name :: rest) = none := by
  have hadv := @advance_of_missing fs [] d name rest h hup hname (by simpa using hmissing)
  rw [stat, locate, maxLinks, follow, hadv]
  rfl

theorem place_of_parent {d : Path} {name : String} (h : fs.entry d = some .dir) (hup : ".." ∉ d)
    (hname : name ≠ "..") : fs.place (d ++ [name]) = some (d ++ [name]) := by
  have hd : fs.stat d = some .dir := stat_of_entry h (by simp) hup
  rw [place]
  simp only [List.getLast?_concat, List.dropLast_concat]
  rw [if_neg hname, if_pos hd, locate_of_entry h (by simp) hup, Option.map_some]

theorem advance_of_strict {cur : Path} {names : List String}
    (h : fs.advance true cur names ≠ .missing) :
    fs.advance false cur names = fs.advance true cur names := by
  induction names generalizing cur with
  | nil => rfl
  | cons name rest ih =>
    unfold advance at h ⊢
    split
    · rename_i hup
      rw [if_pos hup] at h
      exact ih h
    · rename_i hup
      rw [if_neg hup] at h
      cases hentry : fs.entry (cur ++ [name]) with
      | none => simp [hentry] at h
      | some e =>
        cases e with
        | symlink target => rfl
        | dir =>
          simp only [hentry] at h
          exact ih h
        | file content =>
          simp only [hentry] at h ⊢
          split at h
          · exact absurd rfl h
          · rename_i hlast
            rw [if_neg (by simp), if_neg hlast]
            exact ih h

theorem follow_of_strict {n : Nat} {cur : Path} {names : List String} {p : Path}
    (h : fs.follow true n cur names = some p) : fs.follow false n cur names = some p := by
  induction n generalizing cur names with
  | zero =>
    unfold follow at h ⊢
    have hfound : fs.advance true cur names ≠ .missing := fun hm => by simp [hm] at h
    rw [advance_of_strict hfound]
    exact h
  | succ n ih =>
    unfold follow at h ⊢
    have hfound : fs.advance true cur names ≠ .missing := fun hm => by simp [hm] at h
    rw [advance_of_strict hfound]
    cases hadv : fs.advance true cur names with
    | arrived q => rwa [hadv] at h
    | missing => exact absurd hadv hfound
    | link cur' rest =>
      rw [hadv] at h
      exact ih h

theorem resolve_of_locate {p q : Path} (h : fs.locate p = some q) : fs.resolve p = some q :=
  follow_of_strict h

def IsReal (fs : FileSystem) (p : Path) : Prop :=
  ".." ∉ p ∧ ∃ e, fs.entry p = some e ∧ ∀ t, e ≠ .symlink t

theorem isReal_of_advance {cur : Path} {names : List String} (hdir : fs.entry cur = some .dir)
    (hup : ".." ∉ cur) :
    (∀ p, fs.advance true cur names = .arrived p → fs.IsReal p) ∧
      ∀ cur' rest, fs.advance true cur names = .link cur' rest →
        fs.entry cur' = some .dir ∧ ".." ∉ cur' := by
  induction names generalizing cur with
  | nil =>
    refine ⟨fun p h => ?_, fun cur' rest h => ?_⟩
    · obtain rfl : cur = p := by simpa [advance] using h
      exact ⟨hup, .dir, hdir, by simp⟩
    · simp [advance] at h
  | cons name rest ih =>
    unfold advance
    split
    · exact ih (entry_dropLast hdir) fun hin => hup (List.dropLast_subset _ hin)
    · rename_i hname
      have hup' : ".." ∉ cur ++ [name] := by simpa [hup] using fun he => hname he.symm
      cases hentry : fs.entry (cur ++ [name]) with
      | none => simp
      | some e =>
        cases e with
        | symlink target =>
          simp only [reduceCtorEq, false_implies, implies_true, true_and, Progress.link.injEq]
          rintro cur' rest' ⟨rfl, -⟩
          split
          · exact ⟨rfl, by simp⟩
          · exact ⟨hdir, hup⟩
        | dir => exact ih hentry hup'
        | file content =>
          cases rest with
          | nil =>
            have hreal : fs.IsReal (cur ++ [name]) := ⟨hup', _, hentry, by simp⟩
            simpa [advance] using hreal
          | cons n rest => simp

theorem isReal_of_follow {n : Nat} {cur : Path} {names : List String} {p : Path}
    (hdir : fs.entry cur = some .dir) (hup : ".." ∉ cur) (h : fs.follow true n cur names = some p) :
    fs.IsReal p := by
  induction n generalizing cur names with
  | zero =>
    have hwalk := @isReal_of_advance fs cur names hdir hup
    unfold follow at h
    cases hadv : fs.advance true cur names with
    | arrived q =>
      simp only [hadv, Option.some.injEq] at h
      exact h ▸ hwalk.1 q hadv
    | missing => simp [hadv] at h
    | link cur' rest => simp [hadv] at h
  | succ n ih =>
    have hwalk := @isReal_of_advance fs cur names hdir hup
    unfold follow at h
    cases hadv : fs.advance true cur names with
    | arrived q =>
      simp only [hadv, Option.some.injEq] at h
      exact h ▸ hwalk.1 q hadv
    | missing => simp [hadv] at h
    | link cur' rest =>
      simp only [hadv] at h
      obtain ⟨hdir', hup'⟩ := hwalk.2 cur' rest hadv
      exact ih hdir' hup' h

theorem stat_of_locate {p q : Path} (h : fs.locate p = some q) : fs.stat q = fs.stat p := by
  obtain ⟨hup, e, hentry, hlink⟩ := isReal_of_follow (by simp [entry]) (by simp) h
  rw [stat_of_entry hentry hlink hup, stat, h, Option.bind_some, hentry]

/-! ## Directories -/

theorem foldlM_ensureDir_self {ps : List Path} (h : ∀ p ∈ ps, fs.isDir p = true) :
    ps.foldlM ensureDir fs = some fs := by
  induction ps with
  | nil => rfl
  | cons p ps ih =>
    have hp : ensureDir fs p = some fs := by
      rw [ensureDir, if_pos (h p List.mem_cons_self)]
    rw [List.foldlM_cons, hp]
    exact ih fun q hq => h q (List.mem_cons_of_mem p hq)

theorem isDir_of_prefix {d q : Path} (h : fs.entry d = some .dir) (hup : ".." ∉ d) (hq : q <+: d) :
    fs.isDir q = true := by
  have hdir : fs.entry q = some .dir := by
    by_cases hne : q = d
    · rwa [hne]
    · exact entry_of_prefix h hq hne
  exact decide_eq_true (stat_of_entry hdir (by simp) fun hin => hup (hq.subset hin))

theorem mkdirs_self {d : Path} (h : fs.entry d = some .dir) (hup : ".." ∉ d) :
    fs.mkdirs d = some fs :=
  foldlM_ensureDir_self fun _ hp => isDir_of_prefix h hup ((List.mem_inits _ _).mp hp)

theorem mkdirs_child {d : Path} {name : String} {fs' : FileSystem} (h : fs.entry d = some .dir)
    (hup : ".." ∉ d) (hname : name ≠ "..") (hlink : ∀ t, fs.entry (d ++ [name]) ≠ some (.symlink t))
    (hmk : fs.mkdirs (d ++ [name]) = some fs') (q : Path) :
    fs'.entry q = if q = d ++ [name] then some .dir else fs.entry q := by
  have hinits : (d ++ [name]).inits = d.inits ++ [d ++ [name]] := by
    simp [List.inits_append]
  have hself : d.inits.foldlM ensureDir fs = some fs := mkdirs_self h hup
  rw [mkdirs, hinits, List.foldlM_append, hself] at hmk
  have hensure : ensureDir fs (d ++ [name]) = some fs' := by simpa using hmk
  unfold ensureDir at hensure
  split at hensure
  · rename_i hdir
    cases hensure
    have hstat : fs.stat (d ++ [name]) = some .dir := of_decide_eq_true hdir
    have hentry : fs.entry (d ++ [name]) = some .dir := by
      cases he : fs.entry (d ++ [name]) with
      | none => rw [stat_of_missing h hup hname he] at hstat; cases hstat
      | some e =>
        have hup' : ".." ∉ d ++ [name] := by simpa [hup] using fun he => hname he.symm
        rw [stat_of_entry he (fun t ht => hlink t (ht ▸ he)) hup'] at hstat
        exact hstat
    split
    · rename_i hq
      rw [hq, hentry]
    · rfl
  · rw [place_of_parent h hup hname] at hensure
    simp only [Option.bind_eq_bind, Option.bind_some] at hensure
    split at hensure
    · rename_i hw
      split at hensure
      · cases hensure
        exact entry_put hw q
      · cases hensure
    · cases hensure

/-! ## Files -/

/-- `os.replace` of a written temporary file onto the path. -/
def writeFile (fs : FileSystem) (p : Path) (content : Bytes) : Option FileSystem := do
  let q ← fs.place p
  if h : fs.Writable q then some (fs.put q (.file content) h) else none

theorem writeFile_child {d : Path} {name : String} {content : Bytes} {fs' : FileSystem}
    (h : fs.entry d = some .dir) (hup : ".." ∉ d) (hname : name ≠ "..")
    (hw : fs.writeFile (d ++ [name]) content = some fs') (q : Path) :
    fs'.entry q = if q = d ++ [name] then some (.file content) else fs.entry q := by
  rw [writeFile, place_of_parent h hup hname] at hw
  simp only [Option.bind_eq_bind, Option.bind_some] at hw
  split at hw
  · rename_i hwritable
    cases hw
    exact entry_put hwritable q
  · cases hw

/-! ## Moving -/

theorem entry_move_child {fs' : FileSystem} {src d place : Path} {name : String} {e e' : Entry}
    (hsrc : fs.entry src = some e) (hsrcUp : ".." ∉ src)
    (hd : fs.entry d = some .dir) (hup : ".." ∉ d) (hname : name ≠ "..") {rest : List String}
    (hrest : fs.entry (src ++ rest) = some e')
    (hmove : fs.move src (d ++ [name]) = some (fs', place)) :
    fs'.entry (d ++ [name] ++ rest) = some e' := by
  obtain ⟨s, hs, hcarry⟩ := entry_move hmove
  have hsrcPlace : fs.place src = some src := by
    cases src using List.reverseRecOn with
    | nil => rfl
    | append_singleton p n =>
      simp only [List.mem_append, List.mem_singleton, not_or] at hsrcUp
      have hparent := entry_dropLast hsrc
      rw [List.dropLast_concat] at hparent
      exact place_of_parent hparent hsrcUp.1 fun he => hsrcUp.2 he.symm
  obtain rfl : s = src := Option.some.inj (hs.symm.trans hsrcPlace)
  have hplace : place = d ++ [name] := by
    obtain ⟨s', _, hmove⟩ := Option.bind_eq_some_iff.mp hmove
    obtain ⟨mid, hmid, hmove⟩ := Option.bind_eq_some_iff.mp hmove
    obtain ⟨p, hp, hmove⟩ := Option.bind_eq_some_iff.mp hmove
    have hmidDir : mid.entry d = some .dir := by
      unfold withParents at hmid
      split at hmid
      · exact entry_mkdirs hmid hd
      · cases hmid
        exact hd
    rw [place_of_parent hmidDir hup hname] at hp
    obtain rfl := Option.some.inj hp
    split at hmove
    · split at hmove
      · exact (Prod.mk.inj (Option.some.inj hmove)).2.symm
      · cases hmove
    · cases hmove
  rw [← hplace]
  exact hcarry rest e' hrest

end FileSystem
end EdgarSec.Foundation
