import EdgarSec.Cohort.Identifiers

/-! When an id or a name denotes its own cohort, in every catalog the operations can reach. -/

namespace EdgarSec.Cohort
open Foundation Lib

/-! ## Rows -/

theorem find?_eq_some_iff_mem {α : Type} {l : List α} {p : α → Bool} {a : α}
    (hone : ∀ b ∈ l, p a = true → p b = true → b = a) :
    l.find? p = some a ↔ a ∈ l ∧ p a = true := by
  constructor
  · intro h
    exact ⟨List.mem_of_find?_eq_some h, List.find?_some h⟩
  · intro ⟨ha, hp⟩
    obtain ⟨b, hb⟩ := Option.isSome_iff_exists.mp (List.find?_isSome.mpr ⟨a, ha, hp⟩)
    rw [hb, hone b (List.mem_of_find?_eq_some hb) hp (List.find?_some hb)]

theorem inj_of_nodup_filterMap {α β : Type} {f : α → Option β} {l : List α} {a b : α} {x : β}
    (h : (l.filterMap f).Nodup) (ha : a ∈ l) (hb : b ∈ l) (hfa : f a = some x)
    (hfb : f b = some x) : a = b := by
  rw [List.Nodup, List.pairwise_filterMap] at h
  by_contra hab
  have hsymm : Std.Symm fun a b => ∀ x, f a = some x → ∀ y, f b = some y → x ≠ y :=
    ⟨fun _ _ hne x hx y hy heq => hne y hy x hx heq.symm⟩
  exact h.forall ha hb hab x hfa x hfb rfl

theorem CohortId.eq_of_text {a b : CohortId} (h : a.text = b.text) : a = b := by
  rw [CohortId.mk.injEq, h]

namespace Store
variable {s t : Store} {row c d : CohortFields} {id name source : String}

theorem row_of_cohortId (hc : c ∈ s.rows) (hd : d ∈ s.rows) (h : c.cohortId = d.cohortId) : c = d :=
  List.inj_on_of_nodup_map s.idsDistinct hc hd h

theorem row_of_name (hc : c ∈ s.rows) (hd : d ∈ s.rows) (hcn : c.name = some name)
    (hdn : d.name = some name) : c = d :=
  inj_of_nodup_filterMap s.namesDistinct hc hd hcn hdn

theorem row?_eq_some_iff : s.row? id = some row ↔ row ∈ s.rows ∧ row.cohortId.text = id := by
  by_cases hrow : row ∈ s.rows
  · rw [row?, find?_eq_some_iff_mem, decide_eq_true_eq]
    intro other hother hid hsame
    have htexts := (of_decide_eq_true hsame).trans (of_decide_eq_true hid).symm
    exact row_of_cohortId hother hrow (CohortId.eq_of_text htexts)
  · constructor
    · intro h
      exact absurd (List.mem_of_find?_eq_some h) hrow
    · intro h
      exact absurd h.1 hrow

theorem row?_eq_none_iff : s.row? id = none ↔ ∀ row ∈ s.rows, row.cohortId.text ≠ id := by
  simp [row?]

theorem rowNamed?_eq_some_iff : s.rowNamed? name = some row ↔ row ∈ s.rows ∧ row.name = some name := by
  by_cases hrow : row ∈ s.rows
  · rw [rowNamed?, find?_eq_some_iff_mem, decide_eq_true_eq]
    intro other hother hname hsame
    exact row_of_name hother hrow (of_decide_eq_true hsame) (of_decide_eq_true hname)
  · constructor
    · intro h
      exact absurd (List.mem_of_find?_eq_some h) hrow
    · intro h
      exact absurd h.1 hrow

theorem record_inj (h : s.record c = s.record d) : c = d :=
  congrArg CohortRecord.toCohortFields h

theorem write_spec {rows : List CohortFields} (h : s.write rows = .ok t) :
    t.rows = rows ∧ t.pointers = s.pointers := by
  rw [write] at h
  split_ifs at h
  obtain rfl := Except.ok.inj h
  exact ⟨rfl, rfl⟩

end Store

open Store

theorem sourceOf?_cohortId (id : CohortId) : sourceOf? id.text = none := by
  have hwords : ∀ p ∈ officialSourceAliases, isCohortDir p.1 = false := by decide
  rw [sourceOf?, List.lookup_eq_none_iff]
  intro p hp
  rw [bne_iff_ne]
  intro htext
  have hword := hwords p hp
  rw [← htext, id.wellFormed] at hword
  exact Bool.noConfusion hword

/-! ## What a lookup finds -/

def CohortFields.IsOfficial (row : CohortFields) (source : String) : Prop :=
  row.originKind = "official_source" ∧ row.pinned = true ∧
    ∃ details, loads row.originJson = some details ∧
      member details "source_name" = some (.str source)

theorem checkOfficial_eq_ok {row : CohortFields} {source : String} {refusals : Refusals}
    {u : Unit} : checkOfficial row source refusals = .ok u ↔ row.IsOfficial source := by
  rw [checkOfficial, bind_eq_ok, CohortFields.IsOfficial]
  simp only [ensure_eq_ok, exists_const, and_assoc]
  refine and_congr_right fun _ => and_congr_right fun _ => ?_
  cases hdetails : loads row.originJson with
  | none => simp [throw, throwThe, MonadExceptOf.throw]
  | some details =>
    simp only [Option.some.injEq, exists_eq_left']
    split
    next other hother => rw [ensure_eq_ok, hother, Option.some.injEq, Json.str.injEq]
    next hother =>
      have hne : member details "source_name" ≠ some (.str source) := fun h => hother source h
      simp [throw, throwThe, MonadExceptOf.throw, hne]

namespace Store
variable (s : Store)

def Held : Prop :=
  ∀ source id, s.pointers.get? source = some id →
    ∃ row ∈ s.rows, row.cohortId.text = id ∧ row.IsOfficial source

structure Denotes : Prop where
  getCohort : ∀ c ∈ s.rows, s.getCohort c.cohortId.text = some (s.record c)
  resolveId : ∀ c ∈ s.rows, s.resolveCohortIdentifier c.cohortId.text 7 = .ok (s.record c)
  resolveName : ∀ c ∈ s.rows, ∀ name, c.name = some name →
    s.resolveCohortIdentifier name 7 = .ok (s.record c)

structure Unshadowed : Prop where
  ids : ∀ c ∈ s.rows, ∀ d ∈ s.rows, c.name = some d.cohortId.text → c.cohortId = d.cohortId
  words : ∀ c ∈ s.rows, ∀ name source, c.name = some name → sourceOf? name = some source →
    s.pointers.get? source = some c.cohortId.text

variable {s} {t : Store} {c d : CohortFields} {id name source : String}

theorem resolve_of_free (hfree : sourceOf? name = none)
    (hrow : (s.rowNamed? name).or (s.row? name) = some c) :
    s.resolveCohortIdentifier name 7 = .ok (s.record c) := by
  rw [resolveCohortIdentifier, hfree, hrow]
  rfl

theorem resolveSource_eq_ok : s.resolveSource name source = .ok (s.record c) ↔
    c ∈ s.rows ∧ c.IsOfficial source ∧ s.pointers.get? source = some c.cohortId.text := by
  rw [resolveSource]
  cases hpointer : s.pointers.get? source with
  | none => simp
  | some id =>
    dsimp only
    cases hrow : s.row? id with
    | none =>
      have hother := row?_eq_none_iff.mp hrow
      simp only [reduceCtorEq, Option.some.injEq, false_iff]
      intro ⟨hc, _, hid⟩
      exact hother c hc hid.symm
    | some row =>
      obtain ⟨hmem, hid⟩ := row?_eq_some_iff.mp hrow
      dsimp only
      rw [bind_eq_ok]
      simp only [checkOfficial_eq_ok, Option.some.injEq, pure, Except.pure, Except.ok.injEq,
        exists_const]
      constructor
      · intro ⟨hofficial, hrecord⟩
        obtain rfl := record_inj hrecord
        exact ⟨hmem, hofficial, hid.symm⟩
      · intro ⟨hc, hofficial, htext⟩
        have hsame : row = c := row_of_cohortId hmem hc (CohortId.eq_of_text (hid.trans htext))
        rw [hsame]
        exact ⟨hofficial, rfl⟩

theorem resolve_of_word (hword : sourceOf? name = some source) :
    s.resolveCohortIdentifier name 7 = s.resolveSource name source := by
  rw [resolveCohortIdentifier, hword]
  rfl

theorem lookup_id (h : s.Unshadowed) (hc : c ∈ s.rows) :
    (s.rowNamed? c.cohortId.text).or (s.row? c.cohortId.text) = some c := by
  cases hnamed : s.rowNamed? c.cohortId.text with
  | none => rw [Option.none_or, row?_eq_some_iff.mpr ⟨hc, rfl⟩]
  | some other =>
    obtain ⟨hother, hname⟩ := rowNamed?_eq_some_iff.mp hnamed
    rw [Option.some_or, row_of_cohortId hother hc (h.ids other hother c hc hname)]

theorem denotes_iff (hheld : s.Held) : s.Denotes ↔ s.Unshadowed := by
  constructor
  · intro h
    constructor
    · intro c hc d hd hname
      have hget := h.getCohort d hd
      rw [getCohort, rowNamed?_eq_some_iff.mpr ⟨hc, hname⟩] at hget
      rw [record_inj (Option.some.inj hget)]
    · intro c hc name source hname hword
      have hresolve := h.resolveName c hc name hname
      rw [resolve_of_word hword, resolveSource_eq_ok] at hresolve
      exact hresolve.2.2
  · intro h
    constructor
    · intro c hc
      rw [getCohort, lookup_id h hc, Option.map_some]
    · intro c hc
      exact resolve_of_free (sourceOf?_cohortId c.cohortId) (lookup_id h hc)
    · intro c hc name hname
      cases hword : sourceOf? name with
      | none =>
        apply resolve_of_free hword
        rw [rowNamed?_eq_some_iff.mpr ⟨hc, hname⟩, Option.some_or]
      | some source =>
        have hpointer := h.words c hc name source hname hword
        obtain ⟨row, hrow, hid, hofficial⟩ := hheld source _ hpointer
        have hsame : row = c := row_of_cohortId hrow hc (CohortId.eq_of_text hid)
        rw [resolve_of_word hword, resolveSource_eq_ok]
        rw [hsame] at hofficial
        exact ⟨hc, hofficial, hpointer⟩

/-! ## What an operation does to the rows -/

theorem validated_spec {args : Registration} {disk : Disk} {now : String} {row : CohortFields}
    (h : args.validated disk now = .ok row) :
    row.cohortId.text = args.cohortId ∧ row.name = args.name := by
  simp only [Registration.validated, bind_eq_ok, ensure_eq_ok] at h
  obtain ⟨digest, _, _, hid, _, _, _, _, _, _, _, _, _, _, _, _, _, _, hrow⟩ := h
  obtain rfl := Except.ok.inj hrow
  exact ⟨hid.symm, rfl⟩

theorem registerCohort_spec {disk : Disk} {args : Registration} {now : String}
    (h : s.registerCohort disk args now = .ok t) :
    (s.row? args.cohortId ≠ none ∧ t = s) ∨
      (s.row? args.cohortId = none ∧ ∃ row, row.cohortId.text = args.cohortId ∧
        row.name = args.name ∧ t.rows = s.rows ++ [row] ∧ t.pointers = s.pointers) := by
  obtain ⟨row, hrow, h⟩ := bind_eq_ok.mp h
  obtain ⟨hid, hname⟩ := validated_spec hrow
  rw [insert, hid] at h
  cases hexisting : s.row? args.cohortId with
  | some existing =>
    rw [hexisting] at h
    dsimp only at h
    split_ifs at h
    obtain rfl := Except.ok.inj h
    exact Or.inl ⟨Option.some_ne_none _, rfl⟩
  | none =>
    rw [hexisting] at h
    obtain ⟨hrows, hpointers⟩ := write_spec h
    exact Or.inr ⟨rfl, row, hid, hname, hrows, hpointers⟩

theorem renameCohort_spec {newName now : String} (h : s.renameCohort id newName now = .ok t) :
    t.rows = s.rows.map (fun row : CohortFields => if row.cohortId.text = id then
      { row with name := some newName, updatedAt := now } else row) ∧ t.pointers = s.pointers := by
  obtain ⟨_, _, h⟩ := bind_eq_ok.mp h
  obtain ⟨_, _, h⟩ := bind_eq_ok.mp h
  exact write_spec h

theorem select_spec {cat : Catalog} {force : Bool} {row : CohortRow}
    (h : cat.select id force = .ok (some row)) :
    ∀ p ∈ cat.sourceActivePointers.getD [], p.activeSnapshotId ≠ id := by
  have hrow : cat.hasRow id = true := by
    rw [Catalog.select] at h
    rw [Catalog.hasRow]
    cases hrow : cat.row? id with
    | none =>
      rw [hrow] at h
      exact absurd (Except.ok.inj h) (Option.some_ne_none row).symm
    | some found => rfl
  obtain ⟨e, _, rfl⟩ := Catalog.hasRow_iff.mp hrow
  exact (select_eq_some_iff.mp h).2.2.1

theorem retag_spec {now : String} {tags : List CohortTag} (h : s.retag id now tags = .ok t) :
    (∀ c ∈ t.rows, ∃ d ∈ s.rows, d.cohortId = c.cohortId ∧ d.name = c.name) ∧
      (∀ c ∈ s.rows, ∃ d ∈ t.rows, d.cohortId = c.cohortId ∧
        ∀ source, c.IsOfficial source → d.IsOfficial source) ∧ t.pointers = s.pointers := by
  obtain ⟨hrows, hpointers⟩ := write_spec h
  rw [hrows]
  refine ⟨fun c hc => ?_, fun c hc => ?_, hpointers⟩
  · obtain ⟨d, hd, rfl⟩ := List.mem_map.mp hc
    refine ⟨d, hd, ?_⟩
    split_ifs <;> exact ⟨rfl, rfl⟩
  · refine ⟨_, List.mem_map.mpr ⟨c, hc, rfl⟩, ?_⟩
    split_ifs <;> exact ⟨rfl, fun _ hofficial => hofficial⟩

theorem deleteCohort_spec {force : Bool} {files : Option CatalogError}
    (h : s.deleteCohort id force files = .ok t) :
    t = s ∨ (t.rows = (s.rows.filter fun row => decide (row.cohortId.text ≠ id)) ∧
      t.pointers = s.pointers ∧ ∀ source, s.pointers.get? source ≠ some id) := by
  obtain ⟨selected, hselected, h⟩ := bind_eq_ok.mp h
  cases selected with
  | none =>
    obtain rfl := Except.ok.inj h
    exact Or.inl rfl
  | some row =>
    cases files with
    | some e => exact absurd h (by simp [throw, throwThe, MonadExceptOf.throw])
    | none =>
      obtain ⟨cat, _, h⟩ := bind_eq_ok.mp h
      obtain ⟨hrows, hpointers⟩ := write_spec h
      refine Or.inr ⟨hrows, hpointers, fun source hsource => ?_⟩
      have hactive := select_spec (mapError_eq_ok.mp hselected)
      exact hactive _ (List.mem_map.mpr ⟨_, Dict.get?_eq_some_iff.mp hsource, rfl⟩) rfl

theorem setActiveSourcePointer_spec (h : s.setActiveSourcePointer source id = .ok t) :
    t.rows = s.rows ∧ t.pointers = s.pointers.set source id ∧
      ∃ row ∈ s.rows, row.cohortId.text = id ∧ row.IsOfficial source := by
  obtain ⟨_, _, h⟩ := bind_eq_ok.mp h
  cases hrow : s.row? id with
  | none =>
    rw [hrow] at h
    exact absurd h (by simp [throw, throwThe, MonadExceptOf.throw])
  | some row =>
    rw [hrow] at h
    obtain ⟨_, hofficial, h⟩ := bind_eq_ok.mp h
    obtain rfl := Except.ok.inj h
    obtain ⟨hmem, hid⟩ := row?_eq_some_iff.mp hrow
    exact ⟨rfl, rfl, row, hmem, hid, checkOfficial_eq_ok.mp hofficial⟩

theorem setActiveFamilyIndex_spec {disk : Disk} {familyIndexId rulesFingerprint datasetSha256 : String}
    (h : s.setActiveFamilyIndex disk id familyIndexId rulesFingerprint datasetSha256 = .ok t) :
    t.rows = s.rows ∧ t.pointers = s.pointers := by
  obtain ⟨_, _, h⟩ := bind_eq_ok.mp h
  obtain ⟨_, _, h⟩ := bind_eq_ok.mp h
  obtain ⟨_, _, h⟩ := bind_eq_ok.mp h
  obtain ⟨relative, _, h⟩ := bind_eq_ok.mp h
  obtain ⟨_, _, h⟩ := bind_eq_ok.mp h
  split at h
  next => exact absurd h (by simp [throw, throwThe, MonadExceptOf.throw])
  next =>
    obtain ⟨_, _, h⟩ := bind_eq_ok.mp h
    obtain ⟨_, _, h⟩ := bind_eq_ok.mp h
    obtain rfl := Except.ok.inj h
    exact ⟨rfl, rfl⟩

def Clear (s : Store) : Operation → Prop
  | .register _ args _ => s.row? args.cohortId = none →
    (∀ c ∈ s.rows, c.name ≠ some args.cohortId ∧ args.name ≠ some c.cohortId.text) ∧
      ∀ name, args.name = some name → sourceOf? name = none
  | .rename id newName _ => (∀ c ∈ s.rows, newName = c.cohortId.text → c.cohortId.text = id) ∧
    ∀ source, sourceOf? newName = some source → s.pointers.get? source = some id
  | .setActiveSourcePointer source id =>
    ∀ c ∈ s.rows, ∀ name, c.name = some name → sourceOf? name = some source → c.cohortId.text = id
  | _ => True

/-! ## One operation -/

theorem Unshadowed.of_rows (h : s.Unshadowed) (hpointers : t.pointers = s.pointers)
    (hrows : ∀ c ∈ t.rows, ∃ d ∈ s.rows, d.cohortId = c.cohortId ∧ d.name = c.name) :
    t.Unshadowed := by
  constructor
  · intro c hc d hd hname
    obtain ⟨c', hc', hcid, hcname⟩ := hrows c hc
    obtain ⟨d', hd', hdid, _⟩ := hrows d hd
    rw [← hcid, ← hdid]
    apply h.ids c' hc' d' hd'
    rw [hcname, hname, hdid]
  · intro c hc name source hname hword
    obtain ⟨c', hc', hcid, hcname⟩ := hrows c hc
    rw [hpointers, ← hcid]
    exact h.words c' hc' name source (hcname.trans hname) hword

theorem Held.of_rows (h : s.Held) (hpointers : t.pointers = s.pointers)
    (hrows : ∀ c ∈ s.rows, (∃ source, s.pointers.get? source = some c.cohortId.text) →
      ∃ d ∈ t.rows, d.cohortId = c.cohortId ∧ ∀ source, c.IsOfficial source → d.IsOfficial source) :
    t.Held := by
  intro source id hpointer
  rw [hpointers] at hpointer
  obtain ⟨c, hc, hid, hofficial⟩ := h source id hpointer
  obtain ⟨d, hd, hdid, hkept⟩ := hrows c hc ⟨source, hid ▸ hpointer⟩
  exact ⟨d, hd, by rw [hdid, hid], hkept source hofficial⟩

theorem Held.apply (h : s.Held) {op : Operation} (happly : s.apply op = .ok t) : t.Held := by
  have hall : ∀ c ∈ s.rows, t.rows = s.rows → ∃ d ∈ t.rows, d.cohortId = c.cohortId ∧
      ∀ source, c.IsOfficial source → d.IsOfficial source := by
    intro c hc hrows
    exact ⟨c, hrows ▸ hc, rfl, fun _ hofficial => hofficial⟩
  cases op with
  | register disk args now =>
    rcases registerCohort_spec happly with ⟨_, rfl⟩ | ⟨_, row, _, _, hrows, hpointers⟩
    · exact h
    · refine h.of_rows hpointers fun c hc _ => ⟨c, ?_, rfl, fun _ hofficial => hofficial⟩
      rw [hrows]
      exact List.mem_append_left _ hc
  | rename id newName now =>
    obtain ⟨hrows, hpointers⟩ := renameCohort_spec happly
    refine h.of_rows hpointers fun c hc _ => ?_
    rw [hrows]
    refine ⟨_, List.mem_map.mpr ⟨c, hc, rfl⟩, ?_⟩
    split_ifs <;> exact ⟨rfl, fun _ hofficial => hofficial⟩
  | addTags id tags now =>
    obtain ⟨_, _, hretag⟩ := bind_eq_ok.mp happly
    obtain ⟨_, _, hretag⟩ := bind_eq_ok.mp hretag
    obtain ⟨_, hrows, hpointers⟩ := retag_spec hretag
    exact h.of_rows hpointers fun c hc _ => hrows c hc
  | removeTags id tags now =>
    obtain ⟨_, _, hretag⟩ := bind_eq_ok.mp happly
    obtain ⟨_, _, hretag⟩ := bind_eq_ok.mp hretag
    obtain ⟨_, hrows, hpointers⟩ := retag_spec hretag
    exact h.of_rows hpointers fun c hc _ => hrows c hc
  | delete id force files =>
    rcases deleteCohort_spec happly with rfl | ⟨hrows, hpointers, hactive⟩
    · exact h
    · refine h.of_rows hpointers fun c hc hpointed => ⟨c, ?_, rfl, fun _ hofficial => hofficial⟩
      obtain ⟨source, hsource⟩ := hpointed
      rw [hrows, List.mem_filter, decide_eq_true_eq]
      exact ⟨hc, fun hid => hactive source (hid ▸ hsource)⟩
  | setActiveSourcePointer source id =>
    obtain ⟨hrows, hpointers, row, hrow, hid, hofficial⟩ := setActiveSourcePointer_spec happly
    intro other target htarget
    rw [hpointers, Dict.get?_set] at htarget
    rw [hrows]
    split_ifs at htarget with hsource
    · obtain rfl := Option.some.inj htarget
      exact ⟨row, hrow, hid, hsource ▸ hofficial⟩
    · exact h other target htarget
  | setActiveFamilyIndex disk id familyIndexId rulesFingerprint datasetSha256 =>
    obtain ⟨hrows, hpointers⟩ := setActiveFamilyIndex_spec happly
    exact h.of_rows hpointers fun c hc _ => hall c hc hrows
  | upsertAlias isObject entry =>
    obtain ⟨_, _, hupsert⟩ := bind_eq_ok.mp happly
    obtain rfl := Except.ok.inj hupsert
    exact h
  | dropAlias sessionId aliasName =>
    obtain rfl := Except.ok.inj happly
    exact h

theorem Unshadowed.register_iff (hun : s.Unshadowed) (hheld : s.Held) {id : String}
    {name : Option String} (hnew : s.row? id = none) {row : CohortFields}
    (hid : row.cohortId.text = id) (hname : row.name = name) (hrows : t.rows = s.rows ++ [row])
    (hpointers : t.pointers = s.pointers) :
    t.Unshadowed ↔ (∀ c ∈ s.rows, c.name ≠ some id ∧ name ≠ some c.cohortId.text) ∧
      ∀ word, name = some word → sourceOf? word = none := by
  subst hid hname
  have hother : ∀ c ∈ s.rows, c.cohortId ≠ row.cohortId :=
    fun c hc hsame => row?_eq_none_iff.mp hnew c hc (congrArg CohortId.text hsame)
  have hold : ∀ c ∈ s.rows, c ∈ t.rows := by
    intro c hc
    rw [hrows]
    exact List.mem_append_left _ hc
  have hrow : row ∈ t.rows := by
    rw [hrows]
    exact List.mem_append_right _ (List.mem_singleton_self row)
  constructor
  · intro h
    refine ⟨fun c hc => ⟨fun hname => ?_, fun hname => ?_⟩, fun word hword => ?_⟩
    · exact hother c hc (h.ids c (hold c hc) row hrow hname)
    · exact hother c hc (h.ids row hrow c (hold c hc) hname).symm
    · -- a source can only point to a row that was there before
      cases hsource : sourceOf? word with
      | none => rfl
      | some source =>
        have hpointer := h.words row hrow word source hword hsource
        rw [hpointers] at hpointer
        obtain ⟨c, hc, htext, _⟩ := hheld source _ hpointer
        exact absurd (CohortId.eq_of_text htext) (hother c hc)
  · intro h
    obtain ⟨hids, hwords⟩ := h
    have hcases : ∀ c ∈ t.rows, c ∈ s.rows ∨ c = row := by
      intro c hc
      rw [hrows, List.mem_append, List.mem_singleton] at hc
      exact hc
    constructor
    · intro c hc d hd hname
      rcases hcases c hc with hc | rfl
      · rcases hcases d hd with hd | rfl
        · exact hun.ids c hc d hd hname
        · exact absurd hname (hids c hc).1
      · rcases hcases d hd with hd | rfl
        · exact absurd hname (hids d hd).2
        · rfl
    · intro c hc word source hname hword
      rcases hcases c hc with hc | rfl
      · rw [hpointers]
        exact hun.words c hc word source hname hword
      · exact absurd hword (by simp [hwords word hname])

theorem Unshadowed.rename_iff (hun : s.Unshadowed) {newName now : String}
    (hknown : (s.row? id).isSome = true)
    (hrows : t.rows = s.rows.map fun row : CohortFields => if row.cohortId.text = id then
      { row with name := some newName, updatedAt := now } else row)
    (hpointers : t.pointers = s.pointers) :
    t.Unshadowed ↔ (∀ c ∈ s.rows, newName = c.cohortId.text → c.cohortId.text = id) ∧
      ∀ source, sourceOf? newName = some source → s.pointers.get? source = some id := by
  obtain ⟨found, hfound⟩ := Option.isSome_iff_exists.mp hknown
  obtain ⟨hmem, rfl⟩ := row?_eq_some_iff.mp hfound
  have hrenamed : { found with name := some newName, updatedAt := now } ∈ t.rows := by
    rw [hrows]
    exact List.mem_map.mpr ⟨found, hmem, if_pos rfl⟩
  have hkept : ∀ c ∈ s.rows, c.cohortId.text ≠ found.cohortId.text → c ∈ t.rows := by
    intro c hc hne
    rw [hrows]
    exact List.mem_map.mpr ⟨c, hc, if_neg hne⟩
  have hcases : ∀ c ∈ t.rows, (c ∈ s.rows ∧ c.cohortId.text ≠ found.cohortId.text) ∨
      (c.cohortId = found.cohortId ∧ c.name = some newName) := by
    intro c hc
    rw [hrows] at hc
    obtain ⟨d, hd, rfl⟩ := List.mem_map.mp hc
    by_cases hid : d.cohortId.text = found.cohortId.text
    · rw [if_pos hid]
      exact Or.inr ⟨CohortId.eq_of_text hid, rfl⟩
    · rw [if_neg hid]
      exact Or.inl ⟨hd, hid⟩
  constructor
  · intro h
    constructor
    · intro c hc hname
      by_contra hne
      have hids := h.ids _ hrenamed c (hkept c hc hne) (congrArg some hname)
      exact hne (congrArg CohortId.text hids).symm
    · intro source hsource
      have hword := h.words _ hrenamed newName source rfl hsource
      rw [hpointers] at hword
      exact hword
  · intro ⟨hids, hwords⟩
    constructor
    · intro c hc d hd hname
      rcases hcases c hc with ⟨hc, hcne⟩ | ⟨hcid, hcname⟩
      · rcases hcases d hd with ⟨hd, _⟩ | ⟨hdid, _⟩
        · exact hun.ids c hc d hd hname
        · rw [hdid] at hname ⊢
          exact hun.ids c hc found hmem hname
      · rcases hcases d hd with ⟨hd, hdne⟩ | ⟨hdid, _⟩
        · have hnew : newName = d.cohortId.text := Option.some.inj (hcname.symm.trans hname)
          exact absurd (hids d hd hnew) hdne
        · rw [hcid, hdid]
    · intro c hc name source hname hword
      rw [hpointers]
      rcases hcases c hc with ⟨hc, _⟩ | ⟨hcid, hcname⟩
      · exact hun.words c hc name source hname hword
      · obtain rfl : newName = name := Option.some.inj (hcname.symm.trans hname)
        rw [hcid]
        exact hwords source hword

theorem Unshadowed.point_iff (hun : s.Unshadowed) (hrows : t.rows = s.rows)
    (hpointers : t.pointers = s.pointers.set source id) :
    t.Unshadowed ↔ ∀ c ∈ s.rows, ∀ name, c.name = some name → sourceOf? name = some source →
      c.cohortId.text = id := by
  constructor
  · intro h c hc name hname hword
    have hpointer := h.words c (hrows ▸ hc) name source hname hword
    rw [hpointers, Dict.get?_set, if_pos rfl] at hpointer
    exact (Option.some.inj hpointer).symm
  · intro h
    constructor
    · rw [hrows]
      exact hun.ids
    · intro c hc name other hname hword
      rw [hrows] at hc
      rw [hpointers, Dict.get?_set]
      split_ifs with hsource
      · subst hsource
        rw [h c hc name hname hword]
      · exact hun.words c hc name other hname hword

theorem Unshadowed.apply_iff (hun : s.Unshadowed) (hheld : s.Held) {op : Operation}
    (happly : s.apply op = .ok t) : t.Unshadowed ↔ s.Clear op := by
  have hsame : ∀ {p : Prop}, t.Unshadowed → p = True → (t.Unshadowed ↔ p) :=
    fun ht hp => iff_of_true ht (hp ▸ trivial)
  have hequal : t.rows = s.rows → t.pointers = s.pointers → t.Unshadowed :=
    fun hrows hpointers => hun.of_rows hpointers fun c hc => ⟨c, hrows ▸ hc, rfl, rfl⟩
  cases op with
  | register disk args now =>
    rcases registerCohort_spec happly with ⟨hold, rfl⟩ | ⟨hnew, row, hid, hname, hrows, hpointers⟩
    · exact iff_of_true hun fun hnew => absurd hnew hold
    · rw [hun.register_iff hheld hnew hid hname hrows hpointers]
      exact ⟨fun h _ => h, fun h => h hnew⟩
  | rename id newName now =>
    obtain ⟨hrows, hpointers⟩ := renameCohort_spec happly
    obtain ⟨_, _, hknown⟩ := bind_eq_ok.mp happly
    obtain ⟨_, hknown, _⟩ := bind_eq_ok.mp hknown
    exact hun.rename_iff (ensure_eq_ok.mp hknown) hrows hpointers
  | addTags id tags now =>
    obtain ⟨_, _, hretag⟩ := bind_eq_ok.mp happly
    obtain ⟨_, _, hretag⟩ := bind_eq_ok.mp hretag
    obtain ⟨hrows, _, hpointers⟩ := retag_spec hretag
    exact hsame (hun.of_rows hpointers hrows) rfl
  | removeTags id tags now =>
    obtain ⟨_, _, hretag⟩ := bind_eq_ok.mp happly
    obtain ⟨_, _, hretag⟩ := bind_eq_ok.mp hretag
    obtain ⟨hrows, _, hpointers⟩ := retag_spec hretag
    exact hsame (hun.of_rows hpointers hrows) rfl
  | delete id force files =>
    rcases deleteCohort_spec happly with rfl | ⟨hrows, hpointers, _⟩
    · exact hsame hun rfl
    · refine hsame (hun.of_rows hpointers fun c hc => ⟨c, ?_, rfl, rfl⟩) rfl
      rw [hrows] at hc
      exact List.mem_of_mem_filter hc
  | setActiveSourcePointer source id =>
    obtain ⟨hrows, hpointers, _⟩ := setActiveSourcePointer_spec happly
    exact hun.point_iff hrows hpointers
  | setActiveFamilyIndex disk id familyIndexId rulesFingerprint datasetSha256 =>
    obtain ⟨hrows, hpointers⟩ := setActiveFamilyIndex_spec happly
    exact hsame (hequal hrows hpointers) rfl
  | upsertAlias isObject entry =>
    obtain ⟨_, _, hupsert⟩ := bind_eq_ok.mp happly
    obtain rfl := Except.ok.inj hupsert
    exact hsame (hequal rfl rfl) rfl
  | dropAlias sessionId aliasName =>
    obtain rfl := Except.ok.inj happly
    exact hsame (hequal rfl rfl) rfl

/-! ## Every run -/

/-- An operation that takes effect is clear. -/
def Guarded (s : Store) (op : Operation) : Prop := ∀ t, s.apply op = .ok t → s.Clear op

theorem held_empty : Store.empty.Held := by
  intro source id hpointer
  exact absurd hpointer (by simp [Store.empty, Dict.empty, Dict.get?])

theorem held_run {ops : List Operation} (hrun : run Store.step .empty ops = some s) : s.Held := by
  refine run_preserves (fun s op t hs hstep => ?_) held_empty hrun
  rw [step] at hstep
  cases happly : s.apply op with
  | error e =>
    rw [happly] at hstep
    exact Option.some.inj hstep ▸ hs
  | ok u =>
    rw [happly] at hstep
    exact Option.some.inj hstep ▸ hs.apply happly

theorem unshadowed_empty : Store.empty.Unshadowed :=
  ⟨fun _ hc => absurd hc List.not_mem_nil, fun _ hc => absurd hc List.not_mem_nil⟩

theorem unshadowed_run {ops : List Operation} (hmeets : Meets Store.step Guarded .empty ops)
    (hrun : run Store.step .empty ops = some s) : s.Unshadowed := by
  have hstep : ∀ (s : Store) (op : Operation) (t : Store), s.Held ∧ s.Unshadowed → s.Guarded op →
      s.step op = some t → t.Held ∧ t.Unshadowed := by
    intro s op t hs hguard hstep
    rw [step] at hstep
    cases happly : s.apply op with
    | error e =>
      rw [happly] at hstep
      exact Option.some.inj hstep ▸ hs
    | ok u =>
      rw [happly] at hstep
      obtain rfl := Option.some.inj hstep
      exact ⟨hs.1.apply happly, (hs.2.apply_iff hs.1 happly).mpr (hguard u happly)⟩
  exact (run_invariant hstep ⟨held_empty, unshadowed_empty⟩ hmeets hrun).2

/-- In all the catalogs of a run every id and every name denotes its own cohort exactly when the
operations that take effect are clear. -/
theorem cohort_ids_denote_iff (ops : List Operation) :
    (∀ before s, before <+: ops → run Store.step .empty before = some s → s.Denotes) ↔
      Meets Store.step Guarded .empty ops := by
  constructor
  · intro h
    refine meets_of_forall fun before op after s hops hrun t happly => ?_
    have hs : s.Denotes := h before s ⟨op :: after, hops.symm⟩ hrun
    have hstep : s.step op = some t := by rw [step, happly]
    have hnext : run Store.step .empty (before ++ [op]) = some t := run_concat.mpr ⟨s, hrun, hstep⟩
    have ht : t.Denotes := h (before ++ [op]) t ⟨after, by rw [hops, List.append_assoc]; rfl⟩ hnext
    have hheld := held_run hrun
    have hun := (denotes_iff hheld).mp hs
    exact (hun.apply_iff hheld happly).mp ((denotes_iff (held_run hnext)).mp ht)
  · intro h before s hbefore hrun
    obtain ⟨after, rfl⟩ := hbefore
    exact (denotes_iff (held_run hrun)).mpr (unshadowed_run h.left hrun)

/-! ## A name taken from another cohort -/

def digestOf (digit : Char) : String := String.ofList (List.replicate 64 digit)

def readyDisk : Disk where
  relativePath path := .ok path
  cohortDatasetFile id := .ok (id ++ "/ciks.parquet")
  familyIndexFile id := .ok ("family_index/" ++ id ++ "/company_family.parquet")
  fileSha256 _ := some (digestOf 'f')

def plainCohort (id : String) (digit : Char) : Operation :=
  .register readyDisk ⟨id, none, "", "list", [], digestOf digit, 0, 0, digestOf 'f',
    id ++ "/ciks.parquet", false, []⟩ "now"

def renamedToId : List Operation :=
  [plainCohort "c-0000000000000000" '0', plainCohort "c-1111111111111111" '1',
    .rename "c-0000000000000000" "c-1111111111111111" "later"]

theorem cohort_id_shadowed :
    ¬ ∀ ops s, run Store.step .empty ops = some s → s.Denotes := by
  intro h
  have hshadow : ((run Store.step .empty renamedToId).map fun s => s.rows.map fun row =>
      ((s.getCohort row.cohortId.text).map fun r => r.cohortId.text, row.cohortId.text)) =
      some [(some "c-0000000000000000", "c-0000000000000000"),
        (some "c-0000000000000000", "c-1111111111111111")] := by decide +kernel
  obtain ⟨s, hrun, hrows⟩ := Option.map_eq_some_iff.mp hshadow
  have hdenotes := h renamedToId s hrun
  have hself : ∀ p ∈ s.rows.map fun row => ((s.getCohort row.cohortId.text).map
      fun r => r.cohortId.text, row.cohortId.text), p.1 = some p.2 := by
    intro p hp
    obtain ⟨row, hrow, rfl⟩ := List.mem_map.mp hp
    rw [hdenotes.getCohort row hrow]
    rfl
  rw [hrows] at hself
  exact absurd hself (by decide)

end Store
end EdgarSec.Cohort
