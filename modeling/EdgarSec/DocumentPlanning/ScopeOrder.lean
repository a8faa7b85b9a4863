import EdgarSec.DocumentPlanning.ScopeGrouping

/-! When a scope yields every accession once: the order of the database is by the text of the accession without its
hyphens, neighbours are compared without the blanks around it too. -/

namespace EdgarSec.DocumentPlanning.CatalogScope
open Foundation Lib

variable {parts : List CatalogPart}

/-! ## What the scope yields -/

/-- What the pinned parts and the size of a batch are refused for, and the rows: a row that fails a check of its own,
neighbours in conflict, counts other than the declared ones. -/
structure Accepted (files : TargetFiles) (parts : List CatalogPart) (batchSize : Int) (rows : List ScopeRow) : Prop where
  batchSize : 1 ≤ batchSize ∧ batchSize ≤ 65536
  unchanged : ∀ part ∈ parts, files.digest part.path = some part.sha256
  checked : ∀ r ∈ rows, checkRow parts r = .ok ()
  compatible : ¬ Conflict rows
  counted : sameEntries (countForms parts rows) (declaredCounts parts) = true

theorem delivers_nil {files : TargetFiles} {batches : List (List ScopeRow)} (h : Delivers files [] batches) : batches.flatten = [] := by
  have hperm := h.1
  simpa [scopeRows] using hperm

theorem foldlM_batches (batches : List (List ScopeRow)) (state : LoopState) :
    batches.foldlM (fun state batch => batch.foldlM (takeRow parts) state) state = batches.flatten.foldlM (takeRow parts) state := by
  induction batches generalizing state with
  | nil => rfl
  | cons batch batches ih =>
    rw [List.foldlM_cons, List.flatten_cons, List.foldlM_append]
    exact congrArg _ (funext ih)

theorem iterAccessions_cases {files : TargetFiles} {parts : List CatalogPart} {batches : List (List ScopeRow)} (batchSize : Int)
    (h : Delivers files parts batches) :
    (∃ groups, Accepted files parts batchSize batches.flatten ∧ Reached batches.flatten groups ∧
      iterAccessions files parts batchSize batches = .ok (groups.map fun p => p.2.finish)) ∨
    ¬ Accepted files parts batchSize batches.flatten ∧ ∃ e, iterAccessions files parts batchSize batches = .error e := by
  unfold iterAccessions
  by_cases hsize : batchSize < 1 ∨ 65536 < batchSize
  · refine .inr ⟨fun ha => ?_, by simp [hsize, throw, throwThe, MonadExceptOf.throw, bind, Except.bind]⟩
    have := ha.batchSize
    omega
  cases hfind : parts.find? fun part => files.digest part.path ≠ some part.sha256 with
  | some part =>
    refine .inr ⟨fun ha => ?_, by simp [hsize, throw, throwThe, MonadExceptOf.throw]⟩
    have hchanged := List.find?_some hfind
    simp [ha.unchanged part (List.mem_of_find?_eq_some hfind)] at hchanged
  | none =>
  have hsame : ∀ part ∈ parts, files.digest part.path = some part.sha256 := by simpa using hfind
  by_cases hparts : parts = []
  · subst hparts
    have hnil := delivers_nil h
    refine .inl ⟨[], ⟨by omega, hsame, by simp [hnil], ?_, by simp [hnil, countForms, declaredCounts, sameEntries, Dict.empty]⟩, ?_, ?_⟩
    · rintro ⟨before, stretch, after, heq, -, hc⟩
      have hempty : stretch = [] := by
        rw [hnil] at heq
        simp_all
      rw [hempty] at hc
      exact hc ⟨by simp, by simp⟩
    · rw [hnil]
      exact .start
    · simp [hsize, pure, Except.pure]
  have hflat : batches.foldlM (fun state batch => batch.foldlM (takeRow parts) state) ⟨[], none⟩ =
      batches.flatten.foldlM (takeRow parts) (stateOf []) := by
    exact foldlM_batches batches _
  cases hfold : batches.flatten.foldlM (takeRow parts) (stateOf []) with
  | error e =>
    refine .inr ⟨fun ha => ?_, e, by simp [hsize, hparts, hflat, hfold, bind, Except.bind]⟩
    rcases takeRows_error .start hfold with ⟨r, hr, hcheck⟩ | hconf
    · exact hcheck (ha.checked r hr)
    · exact ha.compatible (by simpa using hconf)
  | ok state =>
    obtain ⟨hchecks, groups, rfl, hreached⟩ := takeRows_ok .start hfold
    cases hcount : sameEntries (countForms parts batches.flatten) (declaredCounts parts) with
    | false =>
      refine .inr ⟨fun ha => ?_, by simp [hsize, hparts, hflat, hfold, throw, throwThe, MonadExceptOf.throw, bind, Except.bind]⟩
      have := ha.counted
      rw [hcount] at this
      cases this
    | true =>
      refine .inl ⟨groups, ⟨by omega, hsame, hchecks, ?_, hcount⟩, by simpa using hreached, ?_⟩
      · rintro ⟨before, stretch, after, heq, hone, hc⟩
        exact hc (consistent_of_taken heq hone hfold)
      · simp [hsize, hparts, hflat, hfold, finish_stateOf, bind, Except.bind, pure, Except.pure]

theorem accession_of_mem {rows : List ScopeRow} {groups : Groups} (h : Reached rows groups) {r : ScopeRow} (hr : r ∈ rows) :
    ∃ p ∈ groups, r ∈ p.1 ∧ p.2.accession = normalized r := by
  rw [← h.rows] at hr
  obtain ⟨m, hm, hrm⟩ := List.mem_flatten.mp hr
  obtain ⟨p, hp, rfl⟩ := List.mem_map.mp hm
  exact ⟨p, hp, hrm, ((h.collected p hp).accession r hrm).symm⟩

theorem mem_rows_of_mem {rows : List ScopeRow} {groups : Groups} (h : Reached rows groups) {p : List ScopeRow × Group} (hp : p ∈ groups)
    {r : ScopeRow} (hr : r ∈ p.1) : r ∈ rows := by
  rw [← h.rows]
  exact List.mem_flatten.mpr ⟨p.1, List.mem_map_of_mem hp, hr⟩

theorem increasing_iff {rows : List ScopeRow} {groups : Groups} (h : Reached rows groups) :
    (groups.Pairwise fun p q => p.2.accession < q.2.accession) ↔ rows.Pairwise fun r s => normalized r ≤ normalized s := by
  have hflat : (rows.Pairwise fun r s => normalized r ≤ normalized s) ↔
      (∀ p ∈ groups, p.1.Pairwise fun r s => normalized r ≤ normalized s) ∧
      groups.Pairwise fun p q => ∀ r ∈ p.1, ∀ s ∈ q.1, normalized r ≤ normalized s := by
    rw [← h.rows, List.pairwise_flatten, List.pairwise_map]
    simp
  rw [hflat]
  constructor
  · intro hinc
    refine ⟨fun p hp => ?_, hinc.imp_of_mem fun {p q} hp hq hlt r hr s hs => ?_⟩
    · refine List.pairwise_of_forall_mem_list fun r hr s hs => ?_
      rw [(h.collected p hp).accession r hr, (h.collected p hp).accession s hs]
    · rw [(h.collected p hp).accession r hr, (h.collected q hq).accession s hs]
      exact hlt.le
  · intro ⟨_, hle⟩
    have hgroups : groups.Pairwise fun p q => p.2.accession ≤ q.2.accession := by
      refine hle.imp_of_mem fun {p q} hp hq hpq => ?_
      obtain ⟨r, hr⟩ := List.exists_mem_of_ne_nil _ (h.collected p hp).nonempty
      obtain ⟨s, hs⟩ := List.exists_mem_of_ne_nil _ (h.collected q hq).nonempty
      rw [← (h.collected p hp).accession r hr, ← (h.collected q hq).accession s hs]
      exact hpq r hr s hs
    have hchain : groups.IsChain fun p q => p.2.accession < q.2.accession := by
      refine List.isChain_iff_getElem.mpr fun i hi => ?_
      have hle := List.isChain_iff_getElem.mp hgroups.isChain i hi
      have hne := List.isChain_iff_getElem.mp h.chain i hi
      exact lt_of_le_of_ne hle hne
    have : IsTrans (List ScopeRow × Group) fun p q => p.2.accession < q.2.accession := ⟨fun _ _ _ => lt_trans⟩
    exact hchain.pairwise

/-- The order of the database and that of the neighbours' key agree: a row that the database may put before another has
no greater key. -/
def OrdersAgree (rows : List ScopeRow) : Prop :=
  ∀ r ∈ rows, ∀ s ∈ rows, keyLe (sortKey r) (sortKey s) → normalized r ≤ normalized s

theorem normalized_eq_of_sortKey {r s : ScopeRow} (h : sortKey r = sortKey s) : normalized r = normalized s := by
  have hkey : ∀ row : ScopeRow, normalized row = stripChars ((sortKey row).getD []) := by
    intro row
    unfold normalized sortKey
    cases row.accession <;> rfl
  rw [hkey, hkey, h]

theorem keyLe_antisymm {a b : Option Chars} (hab : keyLe a b) (hba : keyLe b a) : a = b := by
  cases a with
  | none =>
    cases b with
    | none => rfl
    | some b => exact hab.elim
  | some a =>
    cases b with
    | none => exact hba.elim
    | some b => exact congrArg some (le_antisymm hab hba)

theorem ordersAgree_iff {rows : List ScopeRow} (h : rows.Pairwise rowLe) :
    OrdersAgree rows ↔ rows.Pairwise fun r s => normalized r ≤ normalized s := by
  constructor
  · intro hag
    exact h.imp_of_mem fun hr hs hle => hag _ hr _ hs hle.1
  · intro hpair
    -- between two rows in either order: the one that the database puts first is no greater
    let Ordered (r s : ScopeRow) : Prop :=
      (keyLe (sortKey r) (sortKey s) → normalized r ≤ normalized s) ∧ (keyLe (sortKey s) (sortKey r) → normalized s ≤ normalized r)
    have hsymm : Std.Symm Ordered := ⟨fun _ _ h => ⟨h.2, h.1⟩⟩
    have hord : rows.Pairwise Ordered := by
      refine (h.and hpair).imp fun {r s} hrs => ⟨fun _ => hrs.2, fun hle => ?_⟩
      rw [normalized_eq_of_sortKey (keyLe_antisymm hle hrs.1.1)]
    intro r hr s hs
    have hrs := List.Pairwise.forall_of_forall (fun r _ => ⟨fun _ => le_rfl, fun _ => le_rfl⟩) hord hr hs
    exact hrs.1

def Disagree (r s : ScopeRow) : Prop :=
  stripped r.form ≠ stripped s.form ∨ clash (strippedDate r.filingDate) (strippedDate s.filingDate) = true ∨
    clash (strippedDate r.reportDate) (strippedDate s.reportDate) = true

theorem Compatible.not_disagree {r s : ScopeRow} (h : Compatible r s) : ¬ Disagree r s := by
  have hfiling := Iff.mpr (clash_eq_false_iff _ _) h.filingDates
  have hreport := Iff.mpr (clash_eq_false_iff _ _) h.reportDates
  simp [Disagree, h.forms, hfiling, hreport]

structure Exact (rows : List ScopeRow) (items : List CatalogScopeAccession) : Prop where
  increasing : items.Pairwise fun a b => a.accession < b.accession
  complete : ∀ r ∈ rows, ∃ item ∈ items, item.accession = normalized r
  present : ∀ item ∈ items, ∃ r ∈ rows, normalized r = item.accession
  distinct : ∀ item ∈ items, item.occurrences.Nodup
  occurrences : ∀ item ∈ items, ∀ o, o ∈ item.occurrences ↔ ∃ r ∈ rows, normalized r = item.accession ∧ occurrenceOf r = .ok o

structure Sound (rows : List ScopeRow) (outcome : Except String (List CatalogScopeAccession)) : Prop where
  exact : ∀ items, outcome = .ok items → Exact rows items
  raises : ∀ r ∈ rows, ∀ s ∈ rows, normalized r = normalized s → Disagree r s → ∃ e, outcome = .error e

theorem mem_finish_iff {stretch : List ScopeRow} {group : Group} (h : Collected stretch group) (o : CatalogOccurrence) :
    o ∈ group.finish.occurrences ↔ ∃ r ∈ stretch, occurrenceOf r = .ok o := by
  rw [← h.occurrences o]
  show o ∈ List.insertionSort _ _ ↔ _
  rw [List.mem_insertionSort, List.mem_map]
  constructor
  · rintro ⟨⟨id, o'⟩, hmem, rfl⟩
    have hget := Iff.mpr Dict.get?_eq_some_iff hmem
    rw [h.keyed id o' hget]
    exact hget
  · intro hget
    exact ⟨_, Iff.mp Dict.get?_eq_some_iff hget, rfl⟩

theorem nodup_finish {stretch : List ScopeRow} {group : Group} (h : Collected stretch group) : group.finish.occurrences.Nodup := by
  show (List.insertionSort _ _).Nodup
  rw [(List.perm_insertionSort _ _).nodup_iff]
  have hkeys : (group.occurrences.items.map Prod.snd).map CatalogOccurrence.occurrenceId = group.occurrences.keys := by
    rw [List.map_map]
    exact List.map_congr_left fun e he => h.keyed e.1 e.2 (Iff.mpr Dict.get?_eq_some_iff he)
  refine List.Nodup.of_map CatalogOccurrence.occurrenceId ?_
  rw [hkeys]
  exact group.occurrences.nodup

theorem group_unique {groups : Groups} (hinc : groups.Pairwise fun p q => p.2.accession < q.2.accession) {p q : List ScopeRow × Group}
    (hp : p ∈ groups) (hq : q ∈ groups) (heq : p.2.accession = q.2.accession) : p = q := by
  let Apart (p q : List ScopeRow × Group) : Prop := p.2.accession = q.2.accession → p = q
  have hsymm : Std.Symm Apart := ⟨fun _ _ h heq => (h heq.symm).symm⟩
  have hapart : groups.Pairwise Apart := hinc.imp fun hlt heq => absurd heq (ne_of_lt hlt)
  exact List.Pairwise.forall_of_forall (fun _ _ _ => rfl) hapart hp hq heq

theorem exact_of_increasing {rows : List ScopeRow} {groups : Groups} (h : Reached rows groups)
    (hinc : groups.Pairwise fun p q => p.2.accession < q.2.accession) : Exact rows (groups.map fun p => p.2.finish) := by
  refine ⟨?_, ?_, ?_, ?_, ?_⟩
  · rw [List.pairwise_map]
    exact hinc
  · intro r hr
    obtain ⟨p, hp, -, hacc⟩ := accession_of_mem h hr
    exact ⟨_, List.mem_map_of_mem hp, hacc⟩
  · intro item hitem
    obtain ⟨p, hp, rfl⟩ := List.mem_map.mp hitem
    obtain ⟨r, hr⟩ := List.exists_mem_of_ne_nil _ (h.collected p hp).nonempty
    exact ⟨r, mem_rows_of_mem h hp hr, (h.collected p hp).accession r hr⟩
  · intro item hitem
    obtain ⟨p, hp, rfl⟩ := List.mem_map.mp hitem
    exact nodup_finish (h.collected p hp)
  · intro item hitem o
    obtain ⟨p, hp, rfl⟩ := List.mem_map.mp hitem
    rw [mem_finish_iff (h.collected p hp)]
    constructor
    · rintro ⟨r, hr, ho⟩
      exact ⟨r, mem_rows_of_mem h hp hr, (h.collected p hp).accession r hr, ho⟩
    · rintro ⟨r, hr, hacc, ho⟩
      obtain ⟨q, hq, hrq, hqacc⟩ := accession_of_mem h hr
      have hpq : q = p := group_unique hinc hq hp (hqacc.trans hacc)
      exact ⟨r, hpq ▸ hrq, ho⟩

theorem Exact.congr {rows rows' : List ScopeRow} {items : List CatalogScopeAccession} (hmem : ∀ r, r ∈ rows ↔ r ∈ rows')
    (h : Exact rows items) : Exact rows' items := by
  refine ⟨h.increasing, ?_, ?_, h.distinct, ?_⟩
  · simpa only [← hmem] using h.complete
  · simpa only [← hmem] using h.present
  · simpa only [← hmem] using h.occurrences

/-- Reading the scope is complete and does not depend on the order of the rows exactly where the order of the database
is that of the normalized accessions, or the scope is refused. -/
theorem scope_sound_iff (files : TargetFiles) (parts : List CatalogPart) (batchSize : Int) (batches : List (List ScopeRow))
    (h : Delivers files parts batches) :
    Sound (scopeRows files parts) (iterAccessions files parts batchSize batches) ↔
      OrdersAgree (scopeRows files parts) ∨ ¬ Accepted files parts batchSize batches.flatten := by
  have hmem : ∀ r, r ∈ batches.flatten ↔ r ∈ scopeRows files parts := fun r => h.1.mem_iff
  have hagree : OrdersAgree (scopeRows files parts) ↔ OrdersAgree batches.flatten := by simp only [OrdersAgree, hmem]
  rcases iterAccessions_cases batchSize h with ⟨groups, haccepted, hreached, hout⟩ | ⟨hrefused, e, hout⟩
  · rw [hout, hagree, ordersAgree_iff h.2, ← increasing_iff hreached]
    constructor
    · intro hsound
      have hexact := hsound.exact _ rfl
      have hinc := hexact.increasing
      rw [List.pairwise_map] at hinc
      exact .inl hinc
    · intro hor
      have hinc := hor.resolve_right (Classical.not_not.mpr haccepted)
      have hexact := exact_of_increasing hreached hinc
      refine ⟨fun items hitems => ?_, fun r hr s hs hacc hdis => ?_⟩
      · rw [← Except.ok.inj hitems]
        exact hexact.congr hmem
      · -- the two rows are in one group, which is consistent
        obtain ⟨p, hp, hrp, hpacc⟩ := accession_of_mem hreached (Iff.mpr (hmem r) hr)
        obtain ⟨q, hq, hsq, hqacc⟩ := accession_of_mem hreached (Iff.mpr (hmem s) hs)
        have hpq : p = q := group_unique hinc hp hq (by rw [hpacc, hqacc, hacc])
        subst hpq
        exact absurd hdis ((hreached.collected p hp).consistent.compatible r hrp s hsq).not_disagree
  · rw [hout]
    refine ⟨fun _ => .inr hrefused, fun _ => ⟨fun items hitems => ?_, fun _ _ _ _ _ _ => ⟨e, rfl⟩⟩⟩
    cases hitems

/-! ## Accessions without a blank before them -/

theorem lt_append {a b : Chars} (hlen : b.length = a.length) (h : b < a) (v w : Chars) : b ++ w < a ++ v := by
  induction b generalizing a with
  | nil =>
    have ha : a = [] := List.length_eq_zero_iff.mp hlen.symm
    rw [ha] at h
    exact absurd h (lt_irrefl _)
  | cons c b ih =>
    cases a with
    | nil => simp at hlen
    | cons d a =>
      rw [List.cons_append, List.cons_append, List.cons_lt_cons_iff]
      rcases List.cons_lt_cons_iff.mp h with hcd | ⟨hcd, hlt⟩
      · exact .inl hcd
      · exact .inr ⟨hcd, ih (by simpa using hlen) hlt⟩

theorem length_normalized {r : ScopeRow} (h : checkRow parts r = .ok ()) : (normalized r).length = 18 := by
  have hacc : isAccession (normalized r) = true := by
    unfold checkRow at h
    split_ifs at h with _ hacc
    simpa using hacc
  simp only [isAccession, Bool.and_eq_true, decide_eq_true_eq] at hacc
  exact hacc.1

theorem sortKey_eq {r : ScopeRow} {key : Chars} (hkey : sortKey r = some key) (hblank : ∀ c ∈ key.head?, isPySpace c = false) :
    ∃ blanks, key = normalized r ++ blanks := by
  have hn : normalized r = stripChars key := by
    unfold sortKey at hkey
    obtain ⟨accession, hacc, rfl⟩ := Option.map_eq_some_iff.mp hkey
    simp [normalized, hacc]
  have hdrop : key.dropWhile isPySpace = key := by
    cases key with
    | nil => rfl
    | cons c rest => rw [List.dropWhile_cons_of_neg (by simpa using hblank c (by simp))]
  rw [hn, stripChars, hdrop]
  obtain ⟨blanks, hsplit⟩ := List.rdropWhile_prefix isPySpace key
  exact ⟨blanks, hsplit.symm⟩

theorem ordersAgree_of_unindented {rows : List ScopeRow} (hcheck : ∀ r ∈ rows, checkRow parts r = .ok ())
    (hblank : ∀ r ∈ rows, ∀ key, sortKey r = some key → ∀ c ∈ key.head?, isPySpace c = false) : OrdersAgree rows := by
  intro r hr s hs hle
  have keyed : ∀ row ∈ rows, ∃ key, sortKey row = some key := by
    intro row hrow
    cases hacc : row.accession with
    | some accession => exact ⟨_, by simp [sortKey, hacc]; rfl⟩
    | none =>
      have hlen := length_normalized (hcheck row hrow)
      simp [normalized, hacc, stripChars] at hlen
  obtain ⟨k, hk⟩ := keyed r hr
  obtain ⟨l, hl⟩ := keyed s hs
  obtain ⟨v, hv⟩ := sortKey_eq hk (hblank r hr k hk)
  obtain ⟨w, hw⟩ := sortKey_eq hl (hblank s hs l hl)
  rw [hk, hl] at hle
  have hle : k ≤ l := hle
  by_contra hlt
  have hlen : (normalized s).length = (normalized r).length := by
    rw [length_normalized (hcheck r hr), length_normalized (hcheck s hs)]
  have habove := lt_append hlen (not_le.mp hlt) v w
  rw [← hv, ← hw] at habove
  exact absurd habove (not_lt.mpr hle)

/-! ## A catalog with a blank before an accession -/

instance (a b : Option Chars) : Decidable (keyLe a b) :=
  match a, b with
  | _, none => isTrue trivial
  | none, some _ => isFalse id
  | some a, some b => inferInstanceAs (Decidable (a ≤ b))

instance (r s : ScopeRow) : Decidable (rowLe r s) := inferInstanceAs (Decidable (_ ∧ _))

def annualRow (occurrenceId accession : String) : ScopeRow where
  filename := "targets/form=10-K/data.parquet"
  occurrenceId := some occurrenceId.toList
  documentLocatorKey := some "locator".toList
  sourceCik := some "789019".toList
  accession := some accession.toList
  form := some "10-K".toList
  filingDate := some "2024-01-15".toList
  reportDate := none
  primaryDocument := none
  documentPath := none
  archiveUrl := none
  documentPathSource := none
  reportedSize := none
  isXbrl := none
  isInlineXbrl := none
  isXbrlNumeric := none

def annualParts (rows : Nat) : List CatalogPart := [⟨"targets/form=10-K/data.parquet", "form=10-K/data.parquet", "10-K".toList, rows, "d"⟩]

def annualFiles (rows : List ScopeRow) : TargetFiles := ⟨fun _ => some "d", fun _ => rows⟩

def indentedRows : List ScopeRow :=
  [annualRow "a" " 0000789019-24-000002", annualRow "b" "0000789019-24-000001", annualRow "c" "0000789019-24-000002"]

def plainRows : List ScopeRow :=
  [annualRow "b" "0000789019-24-000001", annualRow "a" "0000789019-24-000002", annualRow "c" "000078901924000002 "]

/-- The blank puts the row before the two others, and its accession is yielded twice. -/
theorem indented_accession_twice : Delivers (annualFiles indentedRows) (annualParts 3) [indentedRows] ∧
    ¬ Sound (scopeRows (annualFiles indentedRows) (annualParts 3)) (iterAccessions (annualFiles indentedRows) (annualParts 3) 2048 [indentedRows]) := by
  refine ⟨⟨by decide +kernel, by decide +kernel⟩, fun h => ?_⟩
  have hnames : (iterAccessions (annualFiles indentedRows) (annualParts 3) 2048 [indentedRows]).map (List.map CatalogScopeAccession.accession) =
      .ok ["000078901924000002".toList, "000078901924000001".toList, "000078901924000002".toList] := by decide +kernel
  cases hout : iterAccessions (annualFiles indentedRows) (annualParts 3) 2048 [indentedRows] with
  | error e =>
    rw [hout] at hnames
    cases hnames
  | ok items =>
    have hinc := (h.exact items hout).increasing
    rw [hout] at hnames
    have hitems := Except.ok.inj hnames
    rw [← List.pairwise_map, hitems] at hinc
    revert hinc
    decide +kernel

theorem scope_sound_iff_plainRows : Delivers (annualFiles plainRows) (annualParts 3) [plainRows] ∧
    Sound (scopeRows (annualFiles plainRows) (annualParts 3)) (iterAccessions (annualFiles plainRows) (annualParts 3) 2048 [plainRows]) := by
  have hdel : Delivers (annualFiles plainRows) (annualParts 3) [plainRows] := ⟨by decide +kernel, by decide +kernel⟩
  refine ⟨hdel, Iff.mpr (scope_sound_iff (annualFiles plainRows) (annualParts 3) 2048 [plainRows] hdel) (.inl ?_)⟩
  unfold OrdersAgree
  decide +kernel

end EdgarSec.DocumentPlanning.CatalogScope
