import EdgarSec.DocumentPlanning.SecUrls

/-! What a validated archive URL looks like: an origin, the archive root, digits, the accession
that was asked for, and a document below it. -/

namespace EdgarSec.DocumentPlanning
open Foundation Lib

def archivePath (cik accession document : Chars) : Chars :=
  archiveRoot ++ cik ++ ['/'] ++ accession ++ ['/'] ++ document

/-- A URL of a document below one accession. The host is `www.sec.gov` up to its case, and the
archive directory is a number in decimal digits of any script. -/
structure Inside (u : Unicode) (accession url scheme netloc cik document : Chars) : Prop where
  url_eq : url = scheme ++ "://".toList ++ netloc ++ archivePath cik accession document
  https : scheme.map Char.toLower = "https".toList
  host : ∃ name, (netloc = name ∨ netloc = name ++ [':']) ∧ u.folded (u.lowered name) = "www.sec.gov".toList
  no_credentials : '@' ∉ netloc
  archive_cik : cik ≠ [] ∧ cik.all u.isDecimal = true
  document_ne : document ≠ []
  no_query : '?' ∉ url ∧ '#' ∉ url
  no_escape : '%' ∉ url
  no_dots : ∀ segment ∈ (archivePath cik accession document).splitOn '/', segment ≠ ['.'] ∧ segment ≠ ['.', '.']

/-- The URL lies below the accession. -/
def Within (u : Unicode) (accession url : Chars) : Prop :=
  ∃ identity, accessionFromAny u accession = .ok identity ∧
    ∃ scheme netloc cik document, Inside u (withoutHyphens identity) url scheme netloc cik document

section Paths
variable {u : Unicode} {path url accession cik document : Chars}

theorem archiveGroups_eq_some (h : archiveGroups u path = some (cik, accession, document)) :
    path = archivePath cik accession document ∧ (cik ≠ [] ∧ cik.all u.isDecimal = true) ∧
      accession.all u.isDecimal = true ∧ document ≠ [] := by
  rw [archiveGroups] at h
  split_ifs at h with hroot
  have hprefix := List.prefix_iff_eq_append.mp (List.isPrefixOf_iff_prefix.mp hroot)
  rcases hcik : partition '/' (path.drop archiveRoot.length) with ⟨name, rest⟩
  rcases haccession : partition '/' (rest.getD []) with ⟨number, below⟩
  simp only [hcik, haccession] at h
  cases below with
  | none => exact absurd h.symm (Option.some_ne_none _)
  | some below =>
    simp only at h
    split_ifs at h with hgroups
    cases h
    have hbelow := eq_of_partition (congrArg Prod.snd haccession)
    rw [haccession] at hbelow
    -- the accession ends at a slash, so there is text behind the archive directory
    obtain ⟨after, rfl⟩ : ∃ after, rest = some after := by
      cases rest with
      | none => exact absurd hbelow (by simp)
      | some after => exact ⟨after, rfl⟩
    have hafter := eq_of_partition (congrArg Prod.snd hcik)
    rw [hcik] at hafter
    refine ⟨?_, ⟨hgroups.1, hgroups.2.1⟩, hgroups.2.2.1, hgroups.2.2.2.2.2.1⟩
    rw [← hprefix, hafter, show after = _ from hbelow, archivePath]
    simp

theorem isDecimal_hyphen : u.isDecimal '-' = false := rfl

theorem normalizeAccession_decimal {normalized : Chars} (hdigits : accession.all u.isDecimal = true)
    (h : normalizeAccession u accession = some normalized) : normalized = accession := by
  rw [List.all_eq_true] at hdigits
  have hstrip : stripChars accession = accession :=
    Unicode.stripChars_of_not_space fun c hc => Unicode.isDecimal_not_space (hdigits c hc)
  have hhyphens : withoutHyphens accession = accession := by
    rw [withoutHyphens, List.filter_eq_self]
    intro c hc
    have hne : c ≠ '-' := by
      rintro rfl
      exact absurd (hdigits _ hc) (by rw [isDecimal_hyphen]; exact Bool.false_ne_true)
    exact decide_eq_true hne
  rw [normalizeAccession, hstrip, hhyphens] at h
  split_ifs at h
  exact (Option.some.inj h).symm

theorem archiveParts_eq_some {archive : ArchiveUrlParts} (h : archiveParts u path url = some archive) :
    archive.url = url ∧ path = archivePath archive.archiveCik archive.accession archive.documentPath ∧
      (archive.archiveCik ≠ [] ∧ archive.archiveCik.all u.isDecimal = true) ∧ archive.documentPath ≠ [] := by
  rw [archiveParts] at h
  split at h
  · exact absurd h.symm (Option.some_ne_none _)
  · rename_i cik accession document hgroups
    obtain ⟨hpath, hcik, hdigits, hdocument⟩ := archiveGroups_eq_some hgroups
    split at h
    · exact absurd h.symm (Option.some_ne_none _)
    · rename_i normalized hnormal
      split_ifs at h
      cases h
      rw [normalizeAccession_decimal hdigits hnormal]
      exact ⟨rfl, hpath, hcik, hdocument⟩

end Paths

section Validation
variable {u : Unicode} {url accession : Chars} {expectedArchiveCik : Option Chars} {parts : SplitResult}
  {archive : ArchiveUrlParts}

theorem plain_of_checkUrlText (h : checkUrlText url = .ok ()) : Plain url := by
  obtain ⟨⟨⟩, _, h⟩ := bind_eq_ok.mp h
  obtain ⟨hquery, hfragment, hchars⟩ := ensure_eq_ok.mp h
  intro c hc
  have hchar := List.all_eq_true.mp hchars c hc
  rw [Bool.and_eq_true, decide_eq_true_eq] at hchar
  refine ⟨hchar.1, ?_, ?_⟩
  · rintro rfl
    exact hquery hc
  · rintro rfl
    exact hfragment hc

structure SafeOrigin (u : Unicode) (parts : SplitResult) : Prop where
  scheme : u.folded parts.scheme = "https".toList
  host : ∃ host, parts.hostname u = some host ∧ u.folded host = "www.sec.gov".toList
  port : parts.port u = .ok none
  username : parts.username = none
  no_escape : '%' ∉ parts.path
  no_dots : ∀ segment ∈ parts.path.splitOn '/', segment ≠ ['.'] ∧ segment ≠ ['.', '.']

theorem safeOrigin_of_checkOrigin (h : checkOrigin u parts = .ok ()) : SafeOrigin u parts := by
  obtain ⟨port, hport, h⟩ := bind_eq_ok.mp h
  obtain ⟨⟨⟩, horigin, hsegments⟩ := bind_eq_ok.mp h
  obtain ⟨hscheme, hhost, husername, _, rfl⟩ := ensure_eq_ok.mp horigin
  have hpath := ensure_eq_ok.mp hsegments
  simp only [hasUnsafeSegment, Bool.or_eq_false_iff, decide_eq_false_iff_not, List.any_eq_false,
    Bool.or_eq_true, decide_eq_true_eq, not_or] at hpath
  have hallowed : ∃ host, parts.hostname u = some host ∧ u.folded host = "www.sec.gov".toList := by
    cases hname : parts.hostname u with
    | none =>
      rw [hname] at hhost
      exact absurd hhost Bool.false_ne_true
    | some host =>
      rw [hname, Option.any_some, decide_eq_true_eq] at hhost
      exact ⟨host, rfl, List.mem_singleton.mp hhost⟩
  exact ⟨List.mem_singleton.mp hscheme, hallowed, mapError_eq_ok.mp hport, husername, hpath.1.1.1, hpath.2⟩

theorem validateArchiveUrl_eq_ok
    (h : validateArchiveUrl u url accession expectedArchiveCik = .ok archive) :
    ∃ parts identity, Plain url ∧ urlsplit u url = .ok parts ∧ SafeOrigin u parts ∧
      accessionFromAny u accession = .ok identity ∧ archiveParts u parts.path url = some archive ∧
      archive.accession = withoutHyphens identity := by
  obtain ⟨⟨⟩, htext, h⟩ := bind_eq_ok.mp h
  obtain ⟨parts, hparts, h⟩ := bind_eq_ok.mp h
  obtain ⟨⟨⟩, horigin, h⟩ := bind_eq_ok.mp h
  obtain ⟨identity, hidentity, h⟩ := bind_eq_ok.mp h
  split at h
  · cases h
  · rename_i found hfound
    obtain ⟨⟨⟩, hexpected, h⟩ := bind_eq_ok.mp h
    obtain ⟨⟨⟩, _, h⟩ := bind_eq_ok.mp h
    cases h
    exact ⟨parts, identity, plain_of_checkUrlText htext, mapError_eq_ok.mp hparts,
      safeOrigin_of_checkOrigin horigin, mapError_eq_ok.mp hidentity, hfound, ensure_eq_ok.mp hexpected⟩

theorem isAscii_toLower {c : Char} (h : isAscii c) : isAscii c.toLower := by
  by_cases hupper : c.isUpper
  · have hbounds : c.toNat ≤ 90 := by
      simp only [Char.isUpper, decide_eq_true_eq] at hupper
      exact hupper.2
    rw [Char.toLower_eq_of_isUpper hupper, isAscii, Char.toNat_ofNat, if_pos (by left; omega), decide_eq_true_eq]
    omega
  · rwa [Char.toLower_eq_of_not_isUpper hupper]

theorem isSchemeChar_ascii {c : Char} (h : isSchemeChar c) : isAscii c := by
  simp only [isSchemeChar, Bool.or_eq_true, decide_eq_true_eq] at h
  rcases h with ((halpha | rfl) | rfl) | rfl
  · simp only [Char.isAlphanum, Char.isAlpha, Char.isUpper, Char.isLower, Char.isDigit, Bool.or_eq_true,
      Bool.and_eq_true, decide_eq_true_eq, UInt32.le_iff_toNat_le, ge_iff_le] at halpha
    have hval : c.toNat = c.val.toNat := rfl
    have hZ : 'Z'.val.toNat = 90 := rfl
    have hz : 'z'.val.toNat = 122 := rfl
    have h9 : '9'.val.toNat = 57 := rfl
    rw [isAscii, decide_eq_true_eq]
    omega
  all_goals rfl

theorem netloc_ne_nil {host : Chars} (h : parts.hostname u = some host) : parts.netloc ≠ [] := by
  intro hnil
  rw [SplitResult.hostname, SplitResult.hostinfo, hnil] at h
  exact absurd h.symm (Option.some_ne_none host)

theorem SafeOrigin.inside {cik document : Chars} (horigin : SafeOrigin u parts) (hplain : Plain url)
    (hsplit : urlsplit u url = .ok parts) (hpath : parts.path = archivePath cik accession document)
    (hcik : cik ≠ [] ∧ cik.all u.isDecimal = true) (hdocument : document ≠ []) :
    ∃ scheme, scheme.map Char.toLower = parts.scheme ∧
      Inside u accession url scheme parts.netloc cik document := by
  obtain ⟨host, hhost, hfolded⟩ := horigin.host
  have hscheme : parts.scheme ≠ [] := by
    intro hnil
    have hfold := horigin.scheme
    rw [hnil] at hfold
    exact absurd hfold.symm (List.cons_ne_nil _ _)
  obtain ⟨scheme, htext, hlower, hchars, hbrackets⟩ :=
    urlsplit_plain hplain hsplit hscheme (netloc_ne_nil hhost)
  obtain ⟨name, hnetloc, hname⟩ := netloc_of_plain_host hbrackets horigin.username hhost horigin.port hfolded
    (by decide) (by decide) (by decide)
  rw [List.all_eq_true] at hchars
  have hascii : (scheme.map Char.toLower).all isAscii = true := by
    rw [List.all_eq_true]
    intro c hc
    obtain ⟨d, hd, rfl⟩ := List.mem_map.mp hc
    exact isAscii_toLower (isSchemeChar_ascii (hchars d hd))
  have hhttps : scheme.map Char.toLower = "https".toList := by
    have hfold := horigin.scheme
    rw [← hlower, Unicode.folded_ascii hascii, List.map_map] at hfold
    rw [← hfold]
    apply List.map_congr_left
    intro c _
    exact (Char.toLower_eq_of_not_isUpper (by simp)).symm
  -- neither a percent sign nor an at sign is lost when the name is folded
  have hkept : ∀ c, isAscii c = true → c.toLower = c → c ∉ "www.sec.gov".toList → c ≠ ':' → c ∉ parts.netloc := by
    intro c hascii hlower hc hcolon hmem
    have hc_name : c ∈ name := by
      rcases hnetloc with heq | heq
      · exact heq ▸ hmem
      · rw [heq, List.mem_append, List.mem_singleton] at hmem
        exact hmem.resolve_right hcolon
    exact hc (hname ▸ Unicode.mem_folded hascii hlower (Unicode.mem_lowered hascii hlower hc_name))
  have hpercent : '%' ∉ url := by
    rw [htext]
    simp only [List.mem_append, not_or]
    have hnot_scheme : '%' ∉ scheme := fun hc => absurd (hchars '%' hc) (by decide)
    exact ⟨⟨⟨hnot_scheme, by decide⟩, hkept '%' rfl rfl (by decide) (by decide)⟩, horigin.no_escape⟩
  refine ⟨scheme, hlower, ?_⟩
  exact {
    url_eq := by rw [htext, hpath]
    https := hhttps
    host := ⟨name, hnetloc, hname⟩
    no_credentials := hkept '@' rfl rfl (by decide) (by decide)
    archive_cik := hcik
    document_ne := hdocument
    no_query := ⟨fun hc => (hplain '?' hc).2.1 rfl, fun hc => (hplain '#' hc).2.2 rfl⟩
    no_escape := hpercent
    no_dots := hpath ▸ horigin.no_dots }

theorem validateArchiveUrl_within (h : validateArchiveUrl u url accession expectedArchiveCik = .ok archive) :
    archive.url = url ∧ Within u accession url := by
  obtain ⟨parts, identity, hplain, hsplit, horigin, hidentity, harchive, haccession⟩ := validateArchiveUrl_eq_ok h
  obtain ⟨hurl, hpath, hcik, hdocument⟩ := archiveParts_eq_some harchive
  rw [haccession] at hpath
  obtain ⟨scheme, _, hinside⟩ := horigin.inside hplain hsplit hpath hcik hdocument
  exact ⟨hurl, identity, hidentity, scheme, parts.netloc, archive.archiveCik, archive.documentPath, hinside⟩

theorem resolveArchiveHref_within {baseUrl : Chars}
    (h : resolveArchiveHref u baseUrl url accession expectedArchiveCik = .ok archive) :
    Within u accession archive.url := by
  obtain ⟨_, _, h⟩ := bind_eq_ok.mp h
  obtain ⟨resolved, _, h⟩ := bind_eq_ok.mp h
  obtain ⟨_, _, h⟩ := bind_eq_ok.mp h
  obtain ⟨_, _, h⟩ := bind_eq_ok.mp h
  obtain ⟨⟨⟩, _, h⟩ := bind_eq_ok.mp h
  obtain ⟨hurl, hwithin⟩ := validateArchiveUrl_within h
  rwa [hurl]

end Validation

/-! ## The package beside a bundle -/

section Package
variable {u : Unicode} {url accession cik document : Chars} {parts : SplitResult} {archive : ArchiveUrlParts}

/-- `parsed.path[:-4] + "-xbrl.zip"` -/
def packagePath (path : Chars) : Chars := path.take (path.length - 4) ++ "-xbrl.zip".toList

theorem packagePath_append {base : Chars} : packagePath (base ++ ".txt".toList) = base ++ "-xbrl.zip".toList := by
  have hlength : (base ++ ".txt".toList).length - 4 = base.length := by simp
  rw [packagePath, hlength, List.take_left]

theorem archivePath_append {tail : Chars} :
    archivePath cik accession (document ++ tail) = archivePath cik accession document ++ tail := by
  simp [archivePath]

theorem exists_of_txt (h : ".txt".toList <:+ archivePath cik accession document) :
    ∃ stem, document = stem ++ ".txt".toList := by
  obtain ⟨base, hbase⟩ := h
  have hsplit : base ++ ".txt".toList = (archiveRoot ++ cik ++ ['/'] ++ accession ++ ['/']) ++ document := hbase
  rcases List.append_eq_append_iff.mp hsplit with ⟨stem, _, htxt⟩ | ⟨stem, _, hdocument⟩
  · -- the suffix has no slash, so it begins where the document does
    rcases List.eq_nil_or_concat stem with rfl | ⟨front, c, rfl⟩
    · exact ⟨[], htxt.symm⟩
    · rename_i hfront
      have hc := congrArg List.getLast? hfront
      simp only [List.concat_eq_append, ← List.append_assoc, List.getLast?_append_cons,
        List.getLast?_singleton, Option.some.injEq] at hc
      have hmem : '/' ∈ ".txt".toList := by
        rw [htxt, hc]
        simp
      exact absurd hmem (by decide)
  · exact ⟨stem, hdocument⟩

theorem splitOn_last {before last : Chars} (h : '/' ∉ last) :
    (before ++ '/' :: last).splitOn '/' = before.splitOn '/' ++ [last] := by
  rw [List.splitOn_append_cons_self, List.splitOn_eq_singleton h]

theorem no_dots_append {path tail tail' : Chars} (hslash : '/' ∈ path) (htail : '/' ∉ tail) (htail' : '/' ∉ tail')
    (hlong : 2 < tail'.length)
    (h : ∀ segment ∈ (path ++ tail).splitOn '/', segment ≠ ['.'] ∧ segment ≠ ['.', '.']) :
    ∀ segment ∈ (path ++ tail').splitOn '/', segment ≠ ['.'] ∧ segment ≠ ['.', '.'] := by
  obtain ⟨before, last, rfl, hlast⟩ : ∃ before last, path = before ++ '/' :: last ∧ '/' ∉ last := by
    obtain ⟨last, before, hreverse, hlast⟩ := exists_of_mem_sep (List.mem_reverse.mpr hslash)
    refine ⟨before.reverse, last.reverse, ?_, by simpa using hlast⟩
    rw [← List.reverse_reverse path, hreverse]
    simp
  have hsplit : ∀ t : Chars, '/' ∉ t →
      ((before ++ '/' :: last) ++ t).splitOn '/' = before.splitOn '/' ++ [last ++ t] := by
    intro t ht
    rw [List.append_assoc, List.cons_append, splitOn_last]
    simp [hlast, ht]
  intro segment hsegment
  rw [hsplit tail' htail'] at hsegment
  rw [hsplit tail htail] at h
  rcases List.mem_append.mp hsegment with hbefore | hnew
  · exact h segment (List.mem_append_left _ hbefore)
  · rw [List.mem_singleton.mp hnew]
    constructor
    all_goals
      intro heq
      have hlength := congrArg List.length heq
      simp at hlength
      omega

theorem Inside.package {scheme netloc stem : Chars}
    (h : Inside u accession url scheme netloc cik (stem ++ ".txt".toList)) (hnetloc : netloc ≠ []) :
    Inside u accession
      (urlunsplit ⟨"https".toList, netloc, archivePath cik accession (stem ++ "-xbrl.zip".toList), [], []⟩)
      "https".toList netloc cik (stem ++ "-xbrl.zip".toList) := by
  have hhead : (archivePath cik accession (stem ++ "-xbrl.zip".toList)).head? = some '/' := rfl
  have hscheme : "https".toList ≠ [] := by decide
  have hurl := urlunsplit_path hscheme hnetloc hhead
  -- no character is new but those of the scheme and the suffix
  have hkept : ∀ c ∉ url, c ∉ "https://-xbrl.zip".toList →
      c ∉ "https".toList ++ "://".toList ++ netloc ++ archivePath cik accession (stem ++ "-xbrl.zip".toList) := by
    intro c hc hnew
    have hold := hc
    rw [h.url_eq, archivePath_append] at hold
    rw [archivePath_append]
    simp only [List.mem_append, not_or] at hold ⊢
    have hsuffix : c ∉ "https".toList ∧ c ∉ "://".toList ∧ c ∉ "-xbrl.zip".toList := by
      refine ⟨fun hmem => hnew ?_, fun hmem => hnew ?_, fun hmem => hnew ?_⟩
      all_goals
        simp at hmem ⊢
        tauto
    exact ⟨⟨⟨hsuffix.1, hsuffix.2.1⟩, hold.1.2⟩, hold.2.1, hsuffix.2.2⟩
  have hslash : '/' ∈ archivePath cik accession stem := List.mem_cons_self
  have hdots := h.no_dots
  rw [archivePath_append] at hdots
  exact {
    url_eq := hurl
    https := by decide
    host := h.host
    no_credentials := h.no_credentials
    archive_cik := h.archive_cik
    document_ne := by simp
    no_query := by
      rw [hurl]
      exact ⟨hkept '?' h.no_query.1 (by decide), hkept '#' h.no_query.2 (by decide)⟩
    no_escape := by
      rw [hurl]
      exact hkept '%' h.no_escape (by decide)
    no_dots := by
      rw [archivePath_append]
      exact no_dots_append hslash (by decide) (by decide) (by decide) hdots }

theorem package_within {expectedArchiveCik : Option Chars}
    (h : validateArchiveUrl u url accession expectedArchiveCik = .ok archive)
    (hparts : urlsplit u url = .ok parts) (htxt : ".txt".toList <:+ parts.path) :
    Within u accession (urlunsplit ⟨parts.scheme, parts.netloc, packagePath parts.path, [], []⟩) := by
  obtain ⟨parts', identity, hplain, hsplit, horigin, hidentity, harchive, haccession⟩ := validateArchiveUrl_eq_ok h
  obtain rfl : parts' = parts := Except.ok.inj (hsplit.symm.trans hparts)
  obtain ⟨hurl, hpath, hcik, hdocument⟩ := archiveParts_eq_some harchive
  rw [haccession] at hpath
  obtain ⟨scheme, hscheme, hinside⟩ := horigin.inside hplain hsplit hpath hcik hdocument
  obtain ⟨host, hhost, _⟩ := horigin.host
  rw [hpath] at htxt
  obtain ⟨stem, hstem⟩ := exists_of_txt htxt
  rw [hstem] at hinside
  refine ⟨identity, hidentity, "https".toList, parts'.netloc, archive.archiveCik, stem ++ "-xbrl.zip".toList, ?_⟩
  rw [← hscheme, hinside.https, hpath, hstem, archivePath_append, packagePath_append, ← archivePath_append]
  exact hinside.package (netloc_ne_nil hhost)

end Package
end EdgarSec.DocumentPlanning
