import EdgarSec.Foundation.Text
import EdgarSec.Lib.Dict

/-! Files, directories and symbolic links, and the path operations of `pathlib` and
`shutil` over them. -/

namespace EdgarSec.Foundation
open Lib

abbrev Path := List String

def isAbsolute (path : String) : Bool := path.toList.head? = some '/'

def splitPath (path : String) : Path :=
  ((path.toList.splitOn '/').map String.ofList).filter fun name => name ≠ "" ∧ name ≠ "."

/-- `base / path`: an absolute right side replaces the base. -/
def joinPath (base : Path) (path : String) : Path :=
  if isAbsolute path then splitPath path else base ++ splitPath path

inductive Entry where
  | file (content : Bytes)
  | dir
  | symlink (target : String)
  deriving DecidableEq, Repr

structure FileSystem where
  entries : Dict Path Entry
  parents : ∀ p ∈ entries.keys, p ≠ [] ∧ (p.dropLast = [] ∨ entries.get? p.dropLast = some .dir)

namespace FileSystem

def empty : FileSystem := ⟨.empty, by simp [Dict.empty, Dict.keys]⟩

def entry (fs : FileSystem) (p : Path) : Option Entry :=
  if p = [] then some .dir else fs.entries.get? p

/-! ## Resolving a path -/

inductive Progress where
  | arrived (p : Path)
  | missing
  | link (cur : Path) (rest : List String)

/-- Takes names until the path ends or a link has to be expanded. A strict walk, as the
kernel makes it, needs every name to exist; `realpath` carries on without. -/
def advance (fs : FileSystem) (strict : Bool) : Path → List String → Progress
  | cur, [] => .arrived cur
  | cur, name :: rest =>
    if name = ".." then advance fs strict cur.dropLast rest
    else
      match fs.entry (cur ++ [name]) with
      | some (.symlink target) => .link (if isAbsolute target then [] else cur) (splitPath target ++ rest)
      | some .dir => advance fs strict (cur ++ [name]) rest
      | some (.file _) =>
        if strict ∧ rest ≠ [] then .missing else advance fs strict (cur ++ [name]) rest
      | none => if strict then .missing else advance fs strict (cur ++ [name]) rest

def follow (fs : FileSystem) (strict : Bool) : Nat → Path → List String → Option Path
  | fuel, cur, names =>
    match fs.advance strict cur names with
    | .arrived p => some p
    | .missing => none
    | .link cur' rest =>
      match fuel with
      | 0 => none
      | n + 1 => follow fs strict n cur' rest

/-- Links the kernel expands before it answers `ELOOP`. -/
def maxLinks : Nat := 40

def locate (fs : FileSystem) (p : Path) : Option Path := fs.follow true maxLinks [] p

/-- `Path.resolve()`; nothing for a loop of links, where it raises. -/
def resolve (fs : FileSystem) (p : Path) : Option Path := fs.follow false maxLinks [] p

def stat (fs : FileSystem) (p : Path) : Option Entry := (fs.locate p).bind fs.entry

def place (fs : FileSystem) (p : Path) : Option Path :=
  match p.getLast? with
  | none => some []
  | some name =>
    if name = ".." then fs.locate p
    else if fs.stat p.dropLast = some .dir then (fs.locate p.dropLast).map (· ++ [name])
    else none

def lstat (fs : FileSystem) (p : Path) : Option Entry := (fs.place p).bind fs.entry

def isFile (fs : FileSystem) (p : Path) : Bool :=
  match fs.stat p with
  | some (.file _) => true
  | _ => false

def isDir (fs : FileSystem) (p : Path) : Bool := fs.stat p = some .dir

def pathExists (fs : FileSystem) (p : Path) : Bool := (fs.stat p).isSome

def isSymlink (fs : FileSystem) (p : Path) : Bool :=
  match fs.lstat p with
  | some (.symlink _) => true
  | _ => false

def fileSize (fs : FileSystem) (p : Path) : Nat :=
  match fs.stat p with
  | some (.file content) => content.length
  | _ => 0

def iterdir (fs : FileSystem) (p : Path) : List String :=
  match fs.locate p with
  | some q => fs.entries.keys.filterMap fun k => if k.dropLast = q then k.getLast? else none
  | none => []

def treeSize (fs : FileSystem) (p : Path) : Nat :=
  match fs.locate p with
  | some q => ((fs.entries.keys.filter fun k => q <+: k ∧ k ≠ q).map fs.fileSize).sum
  | none => 0

/-! ## Removing a tree -/

/-- Everything but the tree at `target`. -/
def without (fs : FileSystem) (target : Path) : FileSystem :=
  ⟨fs.entries.filter fun e => ¬ target <+: e.1, by
    intro p hp
    obtain ⟨⟨_, e⟩, he, rfl⟩ := List.mem_map.mp hp
    obtain ⟨he, hkeep⟩ := List.mem_filter.mp he
    obtain ⟨hne, hparent⟩ := fs.parents _ (List.mem_map.mpr ⟨_, he, rfl⟩)
    refine ⟨hne, hparent.imp_right fun hdir => ?_⟩
    refine Dict.get?_eq_some_iff.mpr (List.mem_filter.mpr ⟨Dict.get?_eq_some_iff.mp hdir, ?_⟩)
    exact decide_eq_true fun hpre => of_decide_eq_true hkeep (hpre.trans (List.dropLast_prefix _))⟩

theorem entry_without (fs : FileSystem) {target : Path} (hne : target ≠ []) (p : Path) :
    (fs.without target).entry p = if target <+: p then none else fs.entry p := by
  by_cases hp : p = []
  · subst hp
    simp [entry, hne]
  · simp only [entry, hp, if_false]
    refine Option.ext fun e => ?_
    by_cases hpre : target <+: p <;> simp [without, Dict.get?_eq_some_iff, Dict.filter, hpre]

theorem entry_of_without {fs : FileSystem} {target p : Path} {e : Entry}
    (h : (fs.without target).entry p = some e) : fs.entry p = some e := by
  unfold entry at h ⊢
  by_cases hp : p = []
  · rwa [if_pos hp] at h ⊢
  · rw [if_neg hp, Dict.get?_eq_some_iff] at h ⊢
    exact (List.mem_filter.mp h).1

/-- `shutil.rmtree` of a real directory. -/
def rmtree (fs : FileSystem) (target : Path) : Option FileSystem :=
  if fs.entry target = some .dir then some (fs.without target) else none

/-! ## Moving a tree -/

theorem entry_dropLast {fs : FileSystem} {p : Path} {e : Entry} (h : fs.entry p = some e) :
    fs.entry p.dropLast = some .dir := by
  by_cases hp : p = []
  · simp [hp, entry]
  · rw [entry, if_neg hp] at h
    obtain ⟨_, hparent⟩ := fs.parents p (List.mem_map.mpr ⟨_, Dict.get?_eq_some_iff.mp h, rfl⟩)
    rcases hparent with hnil | hdir
    · simp [entry, hnil]
    · by_cases hd : p.dropLast = []
      · simp [entry, hd]
      · rw [entry, if_neg hd, hdir]

/-- Where `k` stands after the tree at `src` went to `dst`. -/
def moved (src dst k : Path) : Path := if src <+: k then dst ++ k.drop src.length else k

structure Movable (fs : FileSystem) (src dst : Path) : Prop where
  src_ne : src ≠ []
  dst_ne : dst ≠ []
  outside : ¬ src <+: dst
  apart : ¬ dst <+: src
  parent : fs.entry dst.dropLast = some .dir

theorem moved_injOn {src dst k k' : Path} (hk : ¬ dst <+: k) (hk' : ¬ dst <+: k')
    (h : moved src dst k = moved src dst k') : k = k' := by
  unfold moved at h
  split at h <;> split at h
  · rename_i hs hs'
    rw [← List.prefix_iff_eq_append.mp hs, ← List.prefix_iff_eq_append.mp hs',
      List.append_cancel_left h]
  · exact absurd ⟨_, h⟩ hk'
  · exact absurd ⟨_, h.symm⟩ hk
  · exact h

theorem moved_of_outside {src dst k : Path} (h : ¬ src <+: k) : moved src dst k = k := if_neg h

theorem moved_append (src dst rest : Path) : moved src dst (src ++ rest) = dst ++ rest := by
  simp [moved]

/-- The tree at `src` put to `dst`, replacing a link that stands there. -/
def relocate (fs : FileSystem) (src dst : Path) (h : fs.Movable src dst) : FileSystem where
  entries := ⟨(fs.without dst).entries.items.map fun e => (moved src dst e.1, e.2), by
    rw [List.map_map]
    have hkeys : ∀ e ∈ (fs.without dst).entries.items, ¬ dst <+: e.1 := fun e he =>
      of_decide_eq_true (List.mem_filter.mp he).2
    refine (List.nodup_map_iff_inj_on (List.Nodup.of_map _ (fs.without dst).entries.nodup)).mpr ?_
    intro a ha b hb hab
    have hfst : a.1 = b.1 := moved_injOn (hkeys a ha) (hkeys b hb) hab
    exact List.inj_on_of_nodup_map (fs.without dst).entries.nodup ha hb hfst⟩
  parents := by
    have hstay : ∀ p, p ≠ [] → fs.entry p = some .dir → ¬ dst <+: p →
        (moved src dst p, Entry.dir) ∈
          (fs.without dst).entries.items.map fun e => (moved src dst e.1, e.2) := by
      intro p hp hdir hpre
      have hent : (fs.without dst).entry p = some .dir := by
        rw [entry_without fs h.dst_ne, if_neg hpre, hdir]
      rw [entry, if_neg hp, Dict.get?_eq_some_iff] at hent
      exact List.mem_map.mpr ⟨_, hent, rfl⟩
    intro p hp
    obtain ⟨⟨_, e⟩, he, rfl⟩ := List.mem_map.mp hp
    obtain ⟨⟨k, e⟩, hk, heq⟩ := List.mem_map.mp he
    obtain ⟨rfl, rfl⟩ := Prod.mk.inj heq
    obtain ⟨hk, hpre⟩ := List.mem_filter.mp hk
    have hpre : ¬ dst <+: k := of_decide_eq_true hpre
    have hkne : k ≠ [] := (fs.parents k (List.mem_map.mpr ⟨_, hk, rfl⟩)).1
    have hkent : fs.entry k = some e := by
      rw [entry, if_neg hkne]
      exact Dict.get?_eq_some_iff.mpr hk
    have hkdir := entry_dropLast hkent
    have hkpre : ¬ dst <+: k.dropLast := fun hd => hpre (hd.trans (List.dropLast_prefix k))
    simp only [Dict.get?_eq_some_iff]
    by_cases hs : src <+: k
    · obtain ⟨rest, rfl⟩ := hs
      rw [moved_append]
      refine ⟨by simp [h.dst_ne], ?_⟩
      cases rest using List.reverseRecOn with
      | nil =>
        rw [List.append_nil]
        by_cases hroot : dst.dropLast = []
        · exact Or.inl hroot
        · have hout : ¬ src <+: dst.dropLast := fun hsd => h.outside (hsd.trans (List.dropLast_prefix dst))
          have hself : ¬ dst <+: dst.dropLast := fun hd => by
            have := hd.length_le
            have := List.length_pos_iff.mpr h.dst_ne
            simp only [List.length_dropLast] at *
            omega
          refine Or.inr ?_
          have := hstay dst.dropLast hroot h.parent hself
          rwa [moved_of_outside hout] at this
      | append_singleton rest name =>
        rw [← List.append_assoc, List.dropLast_concat]
        rw [← List.append_assoc, List.dropLast_concat] at hkdir hkpre
        refine Or.inr ?_
        have := hstay (src ++ rest) (by simp [h.src_ne]) hkdir hkpre
        rwa [moved_append] at this
    · rw [moved_of_outside hs]
      refine ⟨hkne, ?_⟩
      by_cases hroot : k.dropLast = []
      · exact Or.inl hroot
      · refine Or.inr ?_
        have := hstay k.dropLast hroot hkdir hkpre
        rwa [moved_of_outside fun hsd => hs (hsd.trans (List.dropLast_prefix k))] at this

theorem entry_relocate {fs : FileSystem} {src dst : Path} (h : fs.Movable src dst) (p : Path) :
    (fs.relocate src dst h).entry p =
      if dst <+: p then fs.entry (src ++ p.drop dst.length)
      else if src <+: p then none else fs.entry p := by
  have key : ∀ p e, p ≠ [] → ((fs.relocate src dst h).entry p = some e ↔
      ∃ k, k ≠ [] ∧ ¬ dst <+: k ∧ fs.entry k = some e ∧ moved src dst k = p) := by
    intro p e hp
    rw [entry, if_neg hp, Dict.get?_eq_some_iff]
    constructor
    · intro he
      obtain ⟨⟨k, e⟩, hk, heq⟩ := List.mem_map.mp he
      obtain ⟨rfl, rfl⟩ := Prod.mk.inj heq
      obtain ⟨hk, hpre⟩ := List.mem_filter.mp hk
      have hkne : k ≠ [] := (fs.parents k (List.mem_map.mpr ⟨_, hk, rfl⟩)).1
      refine ⟨k, hkne, of_decide_eq_true hpre, ?_, rfl⟩
      rw [entry, if_neg hkne]
      exact Dict.get?_eq_some_iff.mpr hk
    · rintro ⟨k, hkne, hpre, hk, rfl⟩
      rw [entry, if_neg hkne] at hk
      exact List.mem_map.mpr ⟨(k, e),
        List.mem_filter.mpr ⟨Dict.get?_eq_some_iff.mp hk, decide_eq_true hpre⟩, rfl⟩
  by_cases hp : p = []
  · subst hp
    simp [entry, h.dst_ne, h.src_ne]
  · refine Option.ext fun e => ?_
    rw [key p e hp]
    by_cases hd : dst <+: p
    · obtain ⟨rest, rfl⟩ := hd
      rw [if_pos (List.prefix_append dst rest), List.drop_left]
      constructor
      · rintro ⟨k, _, hpre, hk, hmoved⟩
        by_cases hs : src <+: k
        · obtain ⟨rest', rfl⟩ := hs
          rw [moved_append] at hmoved
          rwa [← List.append_cancel_left hmoved]
        · rw [moved_of_outside hs] at hmoved
          exact absurd ⟨rest, hmoved.symm⟩ hpre
      · intro hk
        refine ⟨src ++ rest, by simp [h.src_ne], ?_, hk, moved_append src dst rest⟩
        intro hpre
        rcases List.prefix_or_prefix_of_prefix hpre (List.prefix_append src rest) with hd | hs
        · exact h.apart hd
        · exact h.outside hs
    · rw [if_neg hd]
      by_cases hs : src <+: p
      · rw [if_pos hs]
        simp only [reduceCtorEq, iff_false, not_exists, not_and]
        intro k _ _ _ hmoved
        by_cases hsk : src <+: k
        · obtain ⟨rest, rfl⟩ := hsk
          rw [moved_append] at hmoved
          exact hd ⟨rest, hmoved⟩
        · rw [moved_of_outside hsk] at hmoved
          exact hsk (hmoved ▸ hs)
      · rw [if_neg hs]
        constructor
        · rintro ⟨k, _, _, hk, hmoved⟩
          by_cases hsk : src <+: k
          · obtain ⟨rest, rfl⟩ := hsk
            rw [moved_append] at hmoved
            exact absurd ⟨rest, hmoved⟩ hd
          · rw [moved_of_outside hsk] at hmoved
            exact hmoved ▸ hk
        · intro hk
          exact ⟨p, hp, hd, hk, moved_of_outside hs⟩

instance (fs : FileSystem) (src dst : Path) : Decidable (fs.Movable src dst) :=
  decidable_of_iff (src ≠ [] ∧ dst ≠ [] ∧ ¬ src <+: dst ∧ ¬ dst <+: src ∧
      fs.entry dst.dropLast = some .dir)
    ⟨fun ⟨a, b, c, d, e⟩ => ⟨a, b, c, d, e⟩, fun ⟨a, b, c, d, e⟩ => ⟨a, b, c, d, e⟩⟩

/-! ## Writing -/

structure Writable (fs : FileSystem) (p : Path) : Prop where
  ne : p ≠ []
  free : fs.entry p ≠ some .dir
  parent : fs.entry p.dropLast = some .dir

instance (fs : FileSystem) (p : Path) : Decidable (fs.Writable p) :=
  decidable_of_iff (p ≠ [] ∧ fs.entry p ≠ some .dir ∧ fs.entry p.dropLast = some .dir)
    ⟨fun ⟨a, b, c⟩ => ⟨a, b, c⟩, fun ⟨a, b, c⟩ => ⟨a, b, c⟩⟩

def put (fs : FileSystem) (p : Path) (e : Entry) (h : fs.Writable p) : FileSystem where
  entries := fs.entries.set p e
  parents := by
    intro k hk
    obtain ⟨a, he, rfl⟩ := List.mem_map.mp hk
    have hself : p.dropLast ≠ p := fun hp => by
      have := congrArg List.length hp
      have := List.length_pos_iff.mpr h.ne
      simp only [List.length_dropLast] at *
      omega
    rcases Dict.mem_items_set.mp he with rfl | ⟨he, hne⟩
    · refine ⟨h.ne, ?_⟩
      by_cases hroot : p.dropLast = []
      · exact Or.inl hroot
      · have hparent := h.parent
        rw [entry, if_neg hroot] at hparent
        exact Or.inr (by rw [Dict.get?_set, if_neg hself, hparent])
    · obtain ⟨hkne, hdir⟩ := fs.parents _ (List.mem_map.mpr ⟨_, he, rfl⟩)
      refine ⟨hkne, hdir.imp_right fun hdir => ?_⟩
      have hp : a.1.dropLast ≠ p := fun hp => h.free (by rw [entry, if_neg h.ne, ← hp, hdir])
      rw [Dict.get?_set, if_neg hp, hdir]

theorem entry_put {fs : FileSystem} {p : Path} {e : Entry} (h : fs.Writable p) (q : Path) :
    (fs.put p e h).entry q = if q = p then some e else fs.entry q := by
  by_cases hq : q = []
  · subst hq
    simp [entry, h.ne.symm]
  · simp only [entry, hq, if_false, put, Dict.get?_set]

def ensureDir (fs : FileSystem) (p : Path) : Option FileSystem :=
  if fs.isDir p then some fs
  else do
    let q ← fs.place p
    if h : fs.Writable q then if fs.entry q = none then some (fs.put q .dir h) else none else none

/-- `mkdir(parents=True, exist_ok=True)`. -/
def mkdirs (fs : FileSystem) (p : Path) : Option FileSystem := p.inits.foldlM ensureDir fs

def withParents (fs : FileSystem) (src dst : Path) : Option FileSystem :=
  if fs.entry src = some .dir then fs.mkdirs dst.dropLast else some fs

/-- `shutil.move` to a path that does not exist. Also gives the place the tree has then. -/
def move (fs : FileSystem) (src dst : Path) : Option (FileSystem × Path) := do
  let s ← fs.place src
  let fs ← fs.withParents s dst
  let d ← fs.place dst
  if h : fs.Movable s d then
    if fs.entry s ≠ none ∧ (fs.entry d = none ∨ fs.entry s ≠ some .dir) then
      some (fs.relocate s d h, d)
    else none
  else none

/-! ## A file system with fewer entries

What a strict walk finds in it, it finds in the larger one as well. -/

section Fewer
variable {fs fs' : FileSystem}

def Fewer (fs' fs : FileSystem) : Prop := ∀ p e, fs'.entry p = some e → fs.entry p = some e

theorem fewer_without (fs : FileSystem) (target : Path) : Fewer (fs.without target) fs :=
  fun _ _ => entry_of_without

theorem advance_of_fewer (h : Fewer fs' fs) (cur : Path) (names : List String)
    (hfound : fs'.advance true cur names ≠ .missing) :
    fs.advance true cur names = fs'.advance true cur names := by
  induction names generalizing cur with
  | nil => rfl
  | cons name rest ih =>
    unfold advance at hfound ⊢
    split
    · rename_i hup
      rw [if_pos hup] at hfound
      exact ih _ hfound
    · rename_i hup
      rw [if_neg hup] at hfound
      cases hentry : fs'.entry (cur ++ [name]) with
      | none => simp [hentry] at hfound
      | some e =>
        rw [h _ _ hentry]
        cases e with
        | file content =>
          simp only [hentry] at hfound ⊢
          split
          · rfl
          · rename_i hrest
            rw [if_neg hrest] at hfound
            exact ih _ hfound
        | dir =>
          simp only [hentry] at hfound ⊢
          exact ih _ hfound
        | symlink target => rfl

theorem follow_of_fewer (h : Fewer fs' fs) {n : Nat} {cur : Path} {names : List String} {q : Path}
    (hq : fs'.follow true n cur names = some q) : fs.follow true n cur names = some q := by
  induction n generalizing cur names with
  | zero =>
    unfold follow at hq ⊢
    have hfound : fs'.advance true cur names ≠ .missing := fun hm => by simp [hm] at hq
    rw [advance_of_fewer h cur names hfound]
    exact hq
  | succ n ih =>
    unfold follow at hq ⊢
    have hfound : fs'.advance true cur names ≠ .missing := fun hm => by simp [hm] at hq
    rw [advance_of_fewer h cur names hfound]
    cases hadv : fs'.advance true cur names with
    | arrived p => rwa [hadv] at hq
    | missing => exact absurd hadv hfound
    | link cur' rest =>
      rw [hadv] at hq
      exact ih hq

theorem stat_of_fewer (h : Fewer fs' fs) {p : Path} {e : Entry} (he : fs'.stat p = some e) :
    fs.stat p = some e := by
  obtain ⟨q, hq, he⟩ := Option.bind_eq_some_iff.mp he
  exact Option.bind_eq_some_iff.mpr ⟨q, follow_of_fewer h hq, h q e he⟩

theorem place_of_fewer (h : Fewer fs' fs) {p q : Path} (hq : fs'.place p = some q) :
    fs.place p = some q := by
  unfold place at hq ⊢
  cases hlast : p.getLast? with
  | none => rwa [hlast] at hq
  | some name =>
    simp only [hlast] at hq ⊢
    split at hq
    · rename_i hup
      rw [if_pos hup]
      exact follow_of_fewer h hq
    · rename_i hup
      rw [if_neg hup]
      split at hq
      · rename_i hdir
        rw [if_pos (stat_of_fewer h hdir)]
        obtain ⟨d, hd, rfl⟩ := Option.map_eq_some_iff.mp hq
        exact Option.map_eq_some_iff.mpr ⟨d, follow_of_fewer h hd, rfl⟩
      · cases hq

end Fewer

/-! ## What a move carries along -/

theorem entry_mkdirs {fs fs' : FileSystem} {p q : Path} {e : Entry} (h : fs.mkdirs p = some fs')
    (hq : fs.entry q = some e) : fs'.entry q = some e := by
  have key : ∀ (ps : List Path) (fs : FileSystem), ps.foldlM ensureDir fs = some fs' →
      fs.entry q = some e → fs'.entry q = some e := by
    intro ps
    induction ps with
    | nil =>
      intro fs h hq
      obtain rfl := Option.some.inj h
      exact hq
    | cons p ps ih =>
      intro fs h hq
      rw [List.foldlM_cons] at h
      obtain ⟨mid, hmid, h⟩ := Option.bind_eq_some_iff.mp h
      refine ih mid h ?_
      unfold ensureDir at hmid
      split at hmid
      · obtain rfl := Option.some.inj hmid
        exact hq
      · obtain ⟨d, _, hmid⟩ := Option.bind_eq_some_iff.mp hmid
        split at hmid
        · rename_i hw
          split at hmid
          · rename_i hfree
            obtain rfl := Option.some.inj hmid
            have hne : q ≠ d := fun heq => by
              rw [heq, hfree] at hq
              cases hq
            rw [entry_put, if_neg hne, hq]
          · cases hmid
        · cases hmid
  exact key p.inits fs h hq

theorem entry_move {fs fs' : FileSystem} {src dst d : Path} (h : fs.move src dst = some (fs', d)) :
    ∃ s, fs.place src = some s ∧
      ∀ rest e, fs.entry (s ++ rest) = some e → fs'.entry (d ++ rest) = some e := by
  obtain ⟨s, hs, h⟩ := Option.bind_eq_some_iff.mp h
  obtain ⟨mid, hmid, h⟩ := Option.bind_eq_some_iff.mp h
  obtain ⟨d', _, h⟩ := Option.bind_eq_some_iff.mp h
  refine ⟨s, hs, fun rest e he => ?_⟩
  have hkept : mid.entry (s ++ rest) = some e := by
    unfold withParents at hmid
    split at hmid
    · exact entry_mkdirs hmid he
    · obtain rfl := Option.some.inj hmid
      exact he
  split at h
  · rename_i hmovable
    split at h
    · obtain ⟨rfl, rfl⟩ := Prod.mk.inj (Option.some.inj h)
      rw [entry_relocate, if_pos (List.prefix_append d' rest), List.drop_left, hkept]
    · cases h
  · cases h

end FileSystem
end EdgarSec.Foundation
