import EdgarSec.DocumentPlanning.Matching

/-! Every URL of a planned target lies below the accession of its row. -/

namespace EdgarSec.DocumentPlanning
open Foundation Lib

section Candidates
variable {u : Unicode} {accession url safe : Chars} {baseUrl expectedArchiveCik : Option Chars}

theorem validatedArchiveUrl_within (h : validatedArchiveUrl u url accession baseUrl expectedArchiveCik = .ok safe) :
    Within u accession safe := by
  obtain ⟨archive, harchive, rfl⟩ := map_eq_ok.mp (mapError_eq_ok.mp h)
  cases baseUrl with
  | none =>
    obtain ⟨hurl, hwithin⟩ := validateArchiveUrl_within harchive
    rwa [hurl]
  | some base => exact resolveArchiveHref_within harchive

theorem validatedBundleUrl_eq_ok (h : validatedBundleUrl u url accession = .ok safe) :
    safe = url ∧ ∃ archive, validateArchiveUrl u url accession none = .ok archive := by
  obtain ⟨validated, hvalidated, h⟩ := bind_eq_ok.mp h
  obtain ⟨⟨⟩, _, h⟩ := bind_eq_ok.mp h
  cases h
  obtain ⟨archive, harchive, rfl⟩ := map_eq_ok.mp (mapError_eq_ok.mp hvalidated)
  exact ⟨(validateArchiveUrl_within harchive).1, archive, harchive⟩

theorem validatedBundleUrl_within (h : validatedBundleUrl u url accession = .ok safe) : Within u accession safe := by
  obtain ⟨rfl, archive, harchive⟩ := validatedBundleUrl_eq_ok h
  exact (validateArchiveUrl_within harchive).2

/-- A candidate's URL, if it has one, lies below the accession. -/
def Candidate.Safe (u : Unicode) (accession : Chars) (candidate : Candidate) : Prop :=
  ∀ url ∈ candidate.targetUrl, Within u accession url

theorem Candidate.safe_of_none {candidate : Candidate} (h : candidate.targetUrl = none) :
    candidate.Safe u accession := by
  intro url hurl
  rw [h] at hurl
  exact absurd hurl (Option.not_mem_none url)

theorem Candidate.safe_of_some {candidate : Candidate} (h : candidate.targetUrl = some safe)
    (hsafe : Within u accession safe) : candidate.Safe u accession := by
  intro url hurl
  rw [h] at hurl
  exact Option.mem_some.mp hurl ▸ hsafe

/-! ## Catalog metadata -/

section Catalog
variable {identity path expectedPath : Chars} {occurrence : CatalogOccurrence} {occurrences : List CatalogOccurrence}
  {found : Option (Chars × Chars)} {registry : FormRegistry} {scope : CatalogScopeAccession}
  {target : ProfileTarget} {candidate : Candidate}

theorem occurrenceUrl_within (h : occurrenceUrl u identity expectedPath occurrence = .ok safe) :
    Within u identity safe := by
  rw [occurrenceUrl] at h
  split_ifs at h
  · obtain ⟨validated, hvalidated, h⟩ := bind_eq_ok.mp h
    obtain ⟨⟨⟩, _, h⟩ := bind_eq_ok.mp h
    cases h
    exact validatedArchiveUrl_within hvalidated
  · obtain ⟨built, _, h⟩ := bind_eq_ok.mp h
    exact validatedArchiveUrl_within h

theorem constructedBundleUrl_within (h : constructedBundleUrl u identity occurrences = .ok safe) :
    Within u identity safe := by
  induction occurrences with
  | nil => cases h
  | cons occurrence rest ih =>
    simp only [constructedBundleUrl] at h
    split_ifs at h
    · exact ih h
    · obtain ⟨built, _, h⟩ := bind_eq_ok.mp h
      exact validatedBundleUrl_within h

theorem numberedPlaceholder_within (h : numberedPlaceholder u identity occurrence = .ok (some (path, safe))) :
    Within u identity safe := by
  simp only [numberedPlaceholder] at h
  split_ifs at h
  · cases h
  · split at h
    · cases h
    · obtain ⟨placeholder, _, h⟩ := bind_eq_ok.mp h
      split_ifs at h
      · obtain ⟨expected, _, h⟩ := bind_eq_ok.mp h
        obtain ⟨built, hbuilt, h⟩ := bind_eq_ok.mp h
        cases h
        exact occurrenceUrl_within hbuilt
      · cases h

theorem primaryUrl_within {document : Chars}
    (h : primaryCandidate.primaryUrl u identity occurrence document expectedPath = .ok (some (path, safe))) :
    Within u identity safe := by
  rw [primaryCandidate.primaryUrl] at h
  split_ifs at h
  · cases h
  · obtain ⟨built, hbuilt, h⟩ := bind_eq_ok.mp h
    cases h
    exact occurrenceUrl_within hbuilt

theorem primaryCandidate_within (h : primaryCandidate u identity occurrence = .ok (some (path, safe))) :
    Within u identity safe := by
  simp only [primaryCandidate] at h
  split_ifs at h
  · cases h
  all_goals
    obtain ⟨placeholder, _, h⟩ := bind_eq_ok.mp h
    split at h
    · obtain ⟨expected, _, h⟩ := bind_eq_ok.mp h
      exact primaryUrl_within h
    · split_ifs at h
      · cases h
      · exact primaryUrl_within h

theorem onlyPath_mem {candidates : List (Chars × Chars)} {conflict : String}
    (h : onlyPath candidates conflict = .ok (some safe)) : ∃ path, (path, safe) ∈ candidates := by
  rw [onlyPath] at h
  split at h
  · cases h
  · have hhead := List.mem_of_mem_head? (Except.ok.inj h)
    obtain ⟨found, hfound, rfl⟩ := List.mem_map.mp ((List.mem_insertionSort _).mp hhead)
    exact ⟨found.1, hfound⟩
  · cases h

theorem within_of_onlyPath {f : CatalogOccurrence → Except String (Option (Chars × Chars))} {conflict : String}
    (hf : ∀ occurrence path safe, f occurrence = .ok (some (path, safe)) → Within u identity safe)
    (h : (do
      let candidates ← occurrences.mapM f
      onlyPath candidates.reduceOption conflict) = .ok (some safe)) : Within u identity safe := by
  obtain ⟨candidates, hcandidates, h⟩ := bind_eq_ok.mp h
  obtain ⟨path, hpath⟩ := onlyPath_mem h
  obtain ⟨occurrence, _, hoccurrence⟩ := (mem_mapM hcandidates).mp (List.reduceOption_mem_iff.mp hpath)
  exact hf occurrence path safe hoccurrence

theorem noPrimaryCandidate_safe (h : noPrimaryCandidate u registry scope identity target = .ok candidate) :
    candidate.Safe u identity := by
  obtain ⟨numbered, hnumbered, h⟩ := bind_eq_ok.mp h
  split at h
  · cases h
    exact Candidate.safe_of_some rfl (within_of_onlyPath (fun _ _ _ => numberedPlaceholder_within) hnumbered)
  · split at h
    · cases h
      exact Candidate.safe_of_none rfl
    · split_ifs at h
      · cases h
        exact Candidate.safe_of_none rfl
      · obtain ⟨built, hbuilt, h⟩ := bind_eq_ok.mp h
        cases h
        exact Candidate.safe_of_some rfl (constructedBundleUrl_within hbuilt)
      · obtain ⟨built, hbuilt, h⟩ := bind_eq_ok.mp h
        cases h
        exact Candidate.safe_of_some rfl (constructedBundleUrl_within hbuilt)
      · cases h
        exact Candidate.safe_of_none rfl

theorem catalogCandidate_safe {catalogUrl : Option Chars} (hurl : ∀ url ∈ catalogUrl, Within u identity url)
    (h : catalogCandidate u registry scope identity catalogUrl target = .ok candidate) :
    candidate.Safe u identity := by
  cases catalogUrl with
  | some url =>
    cases h
    exact Candidate.safe_of_some rfl (hurl url rfl)
  | none =>
    simp only [catalogCandidate] at h
    split_ifs at h
    · exact noPrimaryCandidate_safe h
    · cases h
      exact Candidate.safe_of_none rfl

end Catalog

/-! ## Inventory evidence -/

section Inventory
variable {entry : EntryRow} {row : Option AccessionRow} {l : Locators} {target : ProfileTarget}
  {candidate : Candidate}

theorem numberedAccessionUrl_within {filename : Chars}
    (h : numberedAccessionUrl u url filename accession baseUrl = .ok (some safe)) : Within u accession safe := by
  rw [numberedAccessionUrl] at h
  split at h
  · cases h
  · split_ifs at h
    · cases h
    · obtain ⟨validated, hvalidated, h⟩ := bind_eq_ok.mp h
      obtain ⟨leaf, _, h⟩ := bind_eq_ok.mp h
      split_ifs at h
      · cases h
        exact validatedArchiveUrl_within hvalidated
      · cases h

theorem observeLocator_within {observed : Chars} {seen : Observed}
    (h : observeLocator u l accession observed = .ok seen) : ∀ url ∈ seen.urls, Within u accession url := by
  intro url hurl
  rw [observeLocator] at h
  split_ifs at h
  · cases h
    exact absurd hurl List.not_mem_nil
  obtain ⟨directory, _, h⟩ := bind_eq_ok.mp h
  split_ifs at h
  · obtain ⟨⟨⟩, _, h⟩ := bind_eq_ok.mp h
    cases h
    exact absurd hurl List.not_mem_nil
  · obtain ⟨parts, _, h⟩ := bind_eq_ok.mp h
    obtain ⟨⟨⟩, _, h⟩ := bind_eq_ok.mp h
    obtain ⟨validated, hvalidated, h⟩ := bind_eq_ok.mp h
    split at h
    · cases h
      exact List.mem_singleton.mp hurl ▸ validatedArchiveUrl_within hvalidated
    · obtain ⟨leaf, _, h⟩ := bind_eq_ok.mp h
      split_ifs at h
      · cases h
        exact List.mem_singleton.mp hurl ▸ validatedArchiveUrl_within hvalidated
      · cases h
        exact absurd hurl List.not_mem_nil

theorem placeholderCandidate_safe (h : placeholderCandidate u entry l accession = .ok candidate) :
    candidate.Safe u accession := by
  obtain ⟨numbered, hnumbered, h⟩ := bind_eq_ok.mp h
  split at h
  · cases h
    exact Candidate.safe_of_some rfl (numberedAccessionUrl_within hnumbered)
  · split at h
    · cases h
      exact Candidate.safe_of_none rfl
    · split_ifs at h
      · cases h
        exact Candidate.safe_of_none rfl
      · obtain ⟨bundle, hbundle, h⟩ := bind_eq_ok.mp h
        cases h
        exact Candidate.safe_of_some rfl (validatedBundleUrl_within hbundle)

theorem bundleCandidate_safe (h : bundleCandidate u entry l accession target = .ok candidate) :
    candidate.Safe u accession := by
  rw [bundleCandidate] at h
  split_ifs at h
  · obtain ⟨bundle, hbundle, h⟩ := bind_eq_ok.mp h
    split at h
    · cases h
    · cases h
      exact Candidate.safe_of_some rfl (validatedBundleUrl_within hbundle)
  · cases h
    exact Candidate.safe_of_none rfl

theorem entryCandidate_safe (h : entryCandidate u entry row accession target = .ok candidate) :
    candidate.Safe u accession := by
  obtain ⟨⟨⟩, _, h⟩ := bind_eq_ok.mp h
  obtain ⟨placeholder, _, h⟩ := bind_eq_ok.mp h
  split_ifs at h
  · exact placeholderCandidate_safe h
  · obtain ⟨first, hfirst, h⟩ := bind_eq_ok.mp h
    obtain ⟨second, hsecond, h⟩ := bind_eq_ok.mp h
    split at h
    · rename_i url others hurls
      obtain ⟨⟨⟩, _, h⟩ := bind_eq_ok.mp h
      cases h
      -- the URL is one of those that the two locators gave
      have hmem : url ∈ first.urls ++ second.urls := hurls ▸ List.mem_cons_self
      rcases List.mem_append.mp hmem with hurl | hurl
      · exact Candidate.safe_of_some rfl (observeLocator_within hfirst url hurl)
      · exact Candidate.safe_of_some rfl (observeLocator_within hsecond url hurl)
    · obtain ⟨⟨⟩, _, h⟩ := bind_eq_ok.mp h
      exact bundleCandidate_safe h

end Inventory
end Candidates

/-! ## Rows -/

section Rows
variable {u : Unicode} {sha256 : Bytes → String} {registry : FormRegistry} {planId : String}

/-- A row's URL, if it has one, lies below the row's accession. -/
def TargetRow.Safe (u : Unicode) (row : TargetRow) : Prop := ∀ url ∈ row.targetUrl, Within u row.accession url

section Row
variable {accession form filingDate : Chars} {reportDate : Option Chars} {target : ProfileTarget}
  {candidate : Candidate} {status : TargetStatus} {reason : Option String} {origin : SourceOrigin}
  {availability : String}

theorem targetRow_safe (h : candidate.Safe u accession) :
    (targetRow u sha256 planId accession form filingDate reportDate target candidate status reason origin
      availability).Safe u := h

end Row

theorem catalogOnlyRows_safe {scope : CatalogScopeAccession} {targets : List ProfileTarget} {rows : List TargetRow}
    (h : catalogOnlyRows u sha256 registry planId scope targets = .ok rows) : ∀ row ∈ rows, row.Safe u := by
  obtain ⟨identity, _, h⟩ := bind_eq_ok.mp h
  obtain ⟨catalogUrl, hcatalog, h⟩ := bind_eq_ok.mp h
  have hurl : ∀ url ∈ catalogUrl, Within u identity url := by
    rintro url rfl
    rw [catalogUrlFor] at hcatalog
    split_ifs at hcatalog
    · cases hcatalog
    · exact within_of_onlyPath (fun _ _ _ => primaryCandidate_within) hcatalog
  intro row hrow
  obtain ⟨target, _, htarget⟩ := (mem_mapM h).mp hrow
  obtain ⟨candidate, hcandidate, htarget⟩ := bind_eq_ok.mp htarget
  cases htarget
  exact targetRow_safe (catalogCandidate_safe hurl hcandidate)

theorem packageRow_safe {evidence : InventoryEvidenceRow} {target : ProfileTarget} {row : TargetRow}
    (h : packageRow u sha256 planId evidence target = .ok row) : row.Safe u := by
  simp only [packageRow] at h
  split_ifs at h
  · cases h
    exact targetRow_safe (Candidate.safe_of_none rfl)
  · obtain ⟨bundle, hbundle, h⟩ := bind_eq_ok.mp h
    obtain ⟨parsed, hparsed, h⟩ := bind_eq_ok.mp h
    obtain ⟨⟨⟩, htxt, h⟩ := bind_eq_ok.mp h
    cases h
    obtain ⟨rfl, archive, harchive⟩ := validatedBundleUrl_eq_ok hbundle
    apply targetRow_safe
    exact Candidate.safe_of_some rfl (package_within harchive hparsed (ensure_eq_ok.mp htxt))

theorem inventoryTargetRows_safe {first : InventoryEvidenceRow} {evidence : List InventoryEvidenceRow}
    {target : ProfileTarget} {rows : List TargetRow}
    (h : inventoryTargetRows u sha256 registry planId first evidence target = .ok rows) :
    ∀ row ∈ rows, row.Safe u := by
  intro row hrow
  simp only [inventoryTargetRows] at h
  split_ifs at h
  · cases h
    exact List.mem_singleton.mp hrow ▸ targetRow_safe (Candidate.safe_of_none rfl)
  · obtain ⟨package, hpackage, h⟩ := bind_eq_ok.mp h
    cases h
    exact List.mem_singleton.mp hrow ▸ packageRow_safe hpackage
  · cases h
    exact List.mem_singleton.mp hrow ▸ targetRow_safe (Candidate.safe_of_none rfl)
  · obtain ⟨entry, _, hentry⟩ := (mem_mapM h).mp hrow
    obtain ⟨candidate, hcandidate, hentry⟩ := bind_eq_ok.mp hentry
    cases hentry
    exact targetRow_safe (entryCandidate_safe hcandidate)

theorem inventoryRows_safe {evidence : List InventoryEvidenceRow} {targets : List ProfileTarget}
    {rows : List TargetRow} (h : inventoryRows u sha256 registry planId evidence targets = .ok rows) :
    ∀ row ∈ rows, row.Safe u := by
  cases evidence with
  | nil => cases h
  | cons first rest =>
    obtain ⟨groups, hgroups, h⟩ := bind_eq_ok.mp h
    cases h
    intro row hrow
    obtain ⟨group, hgroup, hmem⟩ := List.mem_flatten.mp hrow
    obtain ⟨target, _, htarget⟩ := (mem_mapM hgroups).mp hgroup
    exact inventoryTargetRows_safe htarget row hmem

/-- Whatever the catalog and the inventory hold, a planned URL lies below the accession of its row. -/
theorem planned_urls_within (u : Unicode) (sha256 : Bytes → String) (registry : FormRegistry) (planId : String)
    (targets : List ProfileTarget) :
    (∀ scope rows, catalogOnlyRows u sha256 registry planId scope targets = .ok rows →
      ∀ row ∈ rows, ∀ url ∈ row.targetUrl, Within u row.accession url) ∧
    (∀ evidence rows, inventoryRows u sha256 registry planId evidence targets = .ok rows →
      ∀ row ∈ rows, ∀ url ∈ row.targetUrl, Within u row.accession url) :=
  ⟨fun _ _ => catalogOnlyRows_safe, fun _ _ => inventoryRows_safe⟩

end Rows

/-! ## A host that only folds to the expected one -/

section Sample

def longSUnicode : Unicode where
  casefold c := if c = 'ſ' then ['s'] else [c]
  lower _ _ c := [c]
  upper c := if c = 'ſ' then ['S'] else [c]
  decimal c := if c = '١' then some 1 else none
  isDigit c := c = '١'
  nfkc text := text.map fun c => if c = 'ſ' then 's' else c
  decimal_space := by
    intro c hspace
    split_ifs with hdigit
    · rw [hdigit] at hspace
      exact absurd hspace (by decide)
    · rfl

def sampleTarget : ProfileTarget := ⟨.primary, "primary".toList, false, "primary", none, none⟩

def sampleScope (document : Chars) : CatalogScopeAccession :=
  ⟨"0000000012-20-000001".toList, "10-K".toList, some "2020-01-02".toList,
    [⟨"12".toList, some document, none, none⟩], none⟩

def sampleEvidence (archiveUrl : Chars) : List InventoryEvidenceRow :=
  [⟨"0000000012-20-000001".toList, "10-K".toList, "2020-01-02".toList, true, none,
    some ⟨some "entry".toList, some archiveUrl, none, some "a.htm".toList, some "document_format".toList,
      some "10-K".toList, none, .int 1, .null⟩, none, "index_html"⟩]

def sampleUrl : Chars := "https://www.sec.gov/Archives/edgar/data/12/000000001220000001/a.htm".toList

def longSUrl : Chars := "https://www.ſec.gov/Archives/edgar/data/١/000000001220000001/a.htm".toList

/-- The host `www.sec.gov` up to the case of ASCII letters, and a directory in ASCII digits. -/
def PlainlyWithin (accession url : Chars) : Prop :=
  ∃ origin cik document, url = origin ++ archivePath cik accession document ∧
    origin.map Char.toLower = secOrigin ∧ cik.all Char.isDigit = true

theorem planned_urls_within_sample :
    (∃ rows, catalogOnlyRows longSUnicode (fun _ => "") ⟨[], []⟩ "plan" (sampleScope "a.htm".toList) [sampleTarget] =
        .ok rows ∧ rows.map TargetRow.targetUrl = [some sampleUrl] ∧
      ∀ row ∈ rows, ∀ url ∈ row.targetUrl, Within longSUnicode row.accession url) ∧
    (∃ rows, inventoryRows longSUnicode (fun _ => "") ⟨[], []⟩ "plan" (sampleEvidence sampleUrl) [sampleTarget] =
        .ok rows ∧ rows.map TargetRow.targetUrl = [some sampleUrl] ∧
      ∀ row ∈ rows, ∀ url ∈ row.targetUrl, Within longSUnicode row.accession url) := by
  have hboth := planned_urls_within longSUnicode (fun _ => "") ⟨[], []⟩ "plan" [sampleTarget]
  have hcatalog : ((catalogOnlyRows longSUnicode (fun _ => "") ⟨[], []⟩ "plan" (sampleScope "a.htm".toList)
      [sampleTarget]).map fun rows => rows.map TargetRow.targetUrl) = .ok [some sampleUrl] := by
    decide +kernel
  have hinventory : ((inventoryRows longSUnicode (fun _ => "") ⟨[], []⟩ "plan" (sampleEvidence sampleUrl)
      [sampleTarget]).map fun rows => rows.map TargetRow.targetUrl) = .ok [some sampleUrl] := by
    decide +kernel
  obtain ⟨rows, hrows, hurls⟩ := map_eq_ok.mp hcatalog
  obtain ⟨rows', hrows', hurls'⟩ := map_eq_ok.mp hinventory
  exact ⟨⟨rows, hrows, hurls, hboth.1 _ rows hrows⟩, rows', hrows', hurls', hboth.2 _ rows' hrows'⟩

theorem planned_url_long_s :
    ∃ rows, inventoryRows longSUnicode (fun _ => "") ⟨[], []⟩ "plan" (sampleEvidence longSUrl) [sampleTarget] =
        .ok rows ∧ ∃ row ∈ rows, ∃ url ∈ row.targetUrl, ¬ PlainlyWithin "000000001220000001".toList url := by
  have hrun : ((inventoryRows longSUnicode (fun _ => "") ⟨[], []⟩ "plan" (sampleEvidence longSUrl)
      [sampleTarget]).map fun rows => rows.map TargetRow.targetUrl) = .ok [some longSUrl] := by
    decide +kernel
  obtain ⟨rows, hrows, hurls⟩ := map_eq_ok.mp hrun
  have hmem : some longSUrl ∈ rows.map TargetRow.targetUrl := hurls ▸ List.mem_singleton_self _
  obtain ⟨row, hrow, hurl⟩ := List.mem_map.mp hmem
  refine ⟨rows, hrows, row, hrow, longSUrl, hurl, ?_⟩
  intro hplain
  obtain ⟨origin, cik, document, htext, horigin, _⟩ := hplain
  have hlower : (longSUrl.map Char.toLower).take secOrigin.length = secOrigin := by
    rw [htext, List.map_append, horigin, List.take_left]
  exact absurd hlower (by decide)

end Sample
end EdgarSec.DocumentPlanning
