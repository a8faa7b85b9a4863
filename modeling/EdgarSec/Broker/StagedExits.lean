import EdgarSec.Broker.StagedFetch
import EdgarSec.SecHttp.AllOrNothing

/-! What a staged fetch leaves behind on its exits: the file, the answer that describes it and
the count of active requests. -/

namespace EdgarSec.Broker
open Foundation Lib DocumentPlanning SecHttp FilingCatalog

/-! ## Paths without escapes -/

theorem decodeReplace_ascii {text : Chars} (h : ∀ c ∈ text, isAscii c = true) :
    decodeReplace 0 (text.map fun c => UInt8.ofNat c.toNat) = text := by
  induction text with
  | nil => rfl
  | cons c text ih =>
    have hc : c.toNat < 128 := by simpa [isAscii] using h c List.mem_cons_self
    have hnat : (UInt8.ofNat c.toNat).toNat = c.toNat := by
      rw [UInt8.toNat_ofNat']
      omega
    have hstep : utf8Step (UInt8.ofNat c.toNat) (text.map fun c => UInt8.ofNat c.toNat) = (c, 0) := by
      have hlead : utf8Lead c.toNat = some (c.toNat, 0, 0, 0) := if_pos hc
      rw [utf8Step, hnat, hlead]
      simp [utf8Continuation, Char.ofNat_toNat]
    rw [List.map_cons, decodeReplace, hstep, ih fun d hd => h d (List.mem_cons_of_mem c hd)]

theorem unquoteFrom_plain {before text : Chars} (hbefore : ∀ c ∈ before, isAscii c = true)
    (h : '%' ∉ text) :
    unquoteFrom (before.map fun c => UInt8.ofNat c.toNat) text = before ++ text := by
  induction text generalizing before with
  | nil => rw [unquoteFrom, decodeReplace_ascii hbefore, List.append_nil]
  | cons c text ih =>
    have hc : c ≠ '%' := fun heq => h (heq ▸ List.mem_cons_self)
    have hrest : '%' ∉ text := fun hmem => h (List.mem_cons_of_mem c hmem)
    rw [unquoteFrom.eq_3 _ _ _ fun a b rest heq _ => hc heq]
    split_ifs with hascii
    · have hmore : ∀ d ∈ before ++ [c], isAscii d = true := by
        intro d hd
        rcases List.mem_append.mp hd with hd | hd
        · exact hbefore d hd
        · rw [List.mem_singleton.mp hd, hascii]
      have hmap : (before ++ [c]).map (fun c => UInt8.ofNat c.toNat) =
          before.map (fun c => UInt8.ofNat c.toNat) ++ [UInt8.ofNat c.toNat] := List.map_append
      rw [← hmap, ih hmore hrest, List.append_assoc, List.singleton_append]
    · have hnone := @ih [] (by simp) hrest
      rw [decodeReplace_ascii hbefore]
      exact congrArg (fun rest => before ++ c :: rest) hnone

theorem unquote_plain {text : Chars} (h : '%' ∉ text) : unquote text = text :=
  @unquoteFrom_plain [] text (by simp) h

/-! ## The archive directory -/

section Directory
variable {u : Unicode} {scope : Scope} {url : String}

theorem exists_class_of_fullmatch {classes : List (Char → Bool)} {text : Chars}
    (h : Unicode.fullmatch classes text = true) : ∀ c ∈ text, ∃ p ∈ classes, p c = true := by
  induction classes generalizing text with
  | nil =>
    have hnil : text = [] := by simpa [Unicode.fullmatch] using h
    simp [hnil]
  | cons p classes ih =>
    cases text with
    | nil => simp
    | cons d text =>
      have hboth : p d = true ∧ Unicode.fullmatch classes text = true := by
        simpa [Unicode.fullmatch] using h
      intro c hc
      rcases List.mem_cons.mp hc with rfl | hc
      · exact ⟨p, List.mem_cons_self, hboth.1⟩
      · obtain ⟨q, hq, hqc⟩ := ih hboth.2 c hc
        exact ⟨q, List.mem_cons_of_mem p hq, hqc⟩

theorem isDecimal_slash : ¬u.isDecimal '/' = true := by
  have hfalse : u.isDecimal '/' = false := rfl
  rw [hfalse]
  exact Bool.false_ne_true

theorem accessionNumber_slash {raw accession : Chars} (h : accessionNumber u raw = .ok accession) :
    '/' ∉ accession := by
  rw [accessionNumber] at h
  split_ifs at h with hform
  obtain rfl := Except.ok.inj h
  intro hslash
  obtain ⟨p, hp, hpslash⟩ := exists_class_of_fullmatch hform '/' hslash
  -- a slash is neither a decimal digit nor a hyphen
  have hclass : p = u.isDecimal ∨ p = (· == '-') := by
    simp only [hyphenatedClasses, List.mem_append, List.mem_replicate, List.mem_singleton] at hp
    tauto
  rcases hclass with rfl | rfl
  · exact absurd hpslash isDecimal_slash
  · exact absurd hpslash (by decide)

theorem accessionFromAny_slash {raw accession : Chars} (h : accessionFromAny u raw = .ok accession) :
    '/' ∉ withoutHyphens accession := by
  have hslash : '/' ∉ accession := by
    simp only [accessionFromAny] at h
    split_ifs at h <;> exact accessionNumber_slash h
  intro hmem
  exact hslash (List.mem_filter.mp hmem).1

theorem toString_int_slash (i : Int) : '/' ∉ (toString i).toList := by
  have hnat : ∀ n : Nat, '/' ∉ (toString n).toList := by
    intro n hmem
    rw [toList_toString_nat] at hmem
    have hdigit := Nat.isDigit_of_mem_toDigits (by decide) (by decide) hmem
    exact absurd hdigit (by decide)
  cases i with
  | ofNat n => exact hnat n
  | negSucc n =>
    have hdef : toString (Int.negSucc n) = "-" ++ toString (n + 1) := rfl
    rw [hdef, String.toList_append, List.mem_append]
    rintro (hminus | hdigits)
    · exact absurd hminus (by decide)
    · exact hnat (n + 1) hdigits

theorem accession_of_scope {archiveCik accessionNumber : Option Json}
    (h : accessionScope u archiveCik accessionNumber = .ok scope) :
    '/' ∉ withoutHyphens scope.accession := by
  obtain ⟨cik, _, h⟩ := bind_eq_ok.mp h
  obtain ⟨accession, haccession, h⟩ := bind_eq_ok.mp h
  obtain rfl := Except.ok.inj h
  unfold accessionOf at haccession
  split at haccession
  · exact accessionFromAny_slash haccession
  · cases haccession

theorem append_slash_inj {a b c d : Chars} (ha : '/' ∉ a) (hb : '/' ∉ b)
    (h : a ++ '/' :: c = b ++ '/' :: d) : a = b ∧ c = d := by
  have hparts : partition '/' (a ++ '/' :: c) = partition '/' (b ++ '/' :: d) := by rw [h]
  rw [partition_append ha, partition_append hb] at hparts
  obtain ⟨hfst, hsnd⟩ := Prod.mk.inj hparts
  exact ⟨hfst, Option.some.inj hsnd⟩

theorem Scope.validate_inside (hscope : '/' ∉ withoutHyphens scope.accession)
    (h : scope.validate u url = .ok ()) : ∃ scheme netloc document,
    Inside u (withoutHyphens scope.accession) url.toList scheme netloc (toString scope.cik).toList document := by
  obtain ⟨archive, harchive, h⟩ := bind_eq_ok.mp h
  obtain ⟨parsed, hparsed, h⟩ := bind_eq_ok.mp h
  obtain ⟨hdirectory, hrest, _⟩ := ensure_eq_ok.mp h
  obtain ⟨parts, identity, hplain, hsplit, horigin, hidentity, hparts, haccession⟩ :=
    validateArchiveUrl_eq_ok harchive
  obtain rfl : parsed = parts := Except.ok.inj (hparsed.symm.trans hsplit)
  obtain ⟨_, hpath, hcik, hdocument⟩ := archiveParts_eq_some hparts
  rw [unquote_plain horigin.no_escape] at hdirectory hrest
  -- the path has the shape of an archive path twice: the groups are equal
  obtain ⟨rest, hwhole⟩ := List.isPrefixOf_iff_prefix.mp hdirectory
  have hslash : '/' ∉ archive.archiveCik := by
    intro hmem
    have hdecimal := List.all_eq_true.mp hcik.2 '/' hmem
    exact absurd hdecimal isDecimal_slash
  have hcompare : archive.archiveCik ++ '/' :: (archive.accession ++ '/' :: archive.documentPath) =
      (toString scope.cik).toList ++ '/' :: (withoutHyphens scope.accession ++ '/' :: rest) := by
    have hsame := hwhole.trans hpath
    simp only [Scope.directory, archivePath, List.append_assoc, List.singleton_append] at hsame
    exact (List.append_cancel_left hsame).symm
  obtain ⟨hcik', hbelow⟩ := append_slash_inj hslash (toString_int_slash scope.cik) hcompare
  have haccession' : '/' ∉ archive.accession := haccession ▸ accessionFromAny_slash hidentity
  obtain ⟨hsame, _⟩ := append_slash_inj haccession' hscope hbelow
  rw [hcik', hsame] at hpath
  rw [hcik'] at hcik
  obtain ⟨scheme, _, hinside⟩ := horigin.inside hplain hsplit hpath hcik hdocument
  exact ⟨scheme, parsed.netloc, archive.documentPath, hinside⟩

end Directory

/-! ## The exits of the handler -/

section Exits
variable {site : Site} {client : StreamClient} {request : Fields} {call : Admitted} {staged : Staged}
  {streamed : Fields} {reply : StagedReply} {keep : Bool}

theorem checkRequest_eq_ok (h : checkRequest site request = .ok call) :
    get request "max_response_bytes" = some (.int call.limit) ∧
      accessionScope site.unicode (get request "accession_cik") (get request "accession_number") =
        .ok call.scope := by
  rw [checkRequest] at h
  split_ifs at h with hfields
  cases hurl : requestUrl request with
  | none =>
    rw [hurl] at h
    cases h
  | some url =>
    cases hlimit : requestLimit request with
    | none =>
      rw [hurl, hlimit] at h
      cases h
    | some limit =>
      cases hscope : requestScope site request url with
      | error message =>
        rw [hurl, hlimit] at h
        simp only [hscope] at h
        cases h
      | ok scope =>
        cases hroot : requestRoot site request with
        | none =>
          rw [hurl, hlimit] at h
          simp only [hscope, hroot] at h
          cases h
        | some root =>
          rw [hurl, hlimit] at h
          simp only [hscope, hroot] at h
          obtain rfl := Except.ok.inj h
          constructor
          · unfold requestLimit at hlimit
            split at hlimit
            · rename_i value hvalue
              split_ifs at hlimit
              obtain rfl := Option.some.inj hlimit
              exact hvalue
            · cases hlimit
          · obtain ⟨found, hfound, hrest⟩ := bind_eq_ok.mp hscope
            obtain ⟨_, _, hrest⟩ := bind_eq_ok.mp hrest
            obtain rfl := Except.ok.inj hrest
            exact hfound

/-- What an answer with `keep` says about the file. -/
structure Describes (site : Site) (call : Admitted) (staged : Staged) (streamed : Fields)
    (reply : StagedReply) : Prop where
  path : reply.path = some staged.path
  size : ∃ content, staged.file = some content ∧ reply.size = content.length
  bounded : 0 < reply.size ∧ reply.size ≤ call.limit
  final_url : ∃ finalUrl, reply.finalUrl = .str finalUrl ∧ call.scope.validate site.unicode finalUrl = .ok ()
  digest : ∃ digest, field streamed "sha256" .null = .str digest ∧ reply.sha256 = some digest

theorem acceptStreamed_eq_ok (h : acceptStreamed site request call staged streamed = .ok (reply, keep)) :
    reply.ok = keep ∧ (keep = true → Describes site call staged streamed reply) := by
  have hrefused : (failed request "transport_error" false .null .null, false) = (reply, keep) →
      reply.ok = keep ∧ (keep = true → Describes site call staged streamed reply) := by
    intro heq
    obtain ⟨rfl, rfl⟩ := Prod.mk.inj heq
    exact ⟨rfl, fun hkeep => absurd hkeep Bool.false_ne_true⟩
  unfold acceptStreamed at h
  split at h
  · rename_i digest size statusCode finalUrl hdigest hsize hstatus hfinal
    by_cases hfile : isSha256HexDigest digest = true ∧ 0 < size ∧ size ≤ call.limit ∧ staged.hasSize size = true
    · rw [if_pos hfile] at h
      obtain ⟨_, hpositive, hlimit, hcontent⟩ := hfile
      cases hvalid : call.scope.validate site.unicode finalUrl with
      | error message =>
        rw [hvalid] at h
        cases h
      | ok valid =>
        rw [hvalid] at h
        obtain ⟨rfl, rfl⟩ := Prod.mk.inj (Except.ok.inj h)
        refine ⟨rfl, fun _ => ⟨rfl, ?_, ⟨hpositive, hlimit⟩, ⟨finalUrl, rfl, hvalid⟩, digest, hdigest, rfl⟩⟩
        obtain ⟨content, hstored, hlength⟩ := (Option.any_eq_true _ _).mp hcontent
        exact ⟨content, hstored, (of_decide_eq_true hlength).symm⟩
    · rw [if_neg hfile] at h
      exact hrefused (Except.ok.inj h)
  · exact hrefused (Except.ok.inj h)

theorem reportFailure_eq_ok {code : Json} (h : reportFailure request code streamed = .ok (reply, keep)) :
    reply.ok = false ∧ keep = false := by
  unfold reportFailure at h
  cases code <;> simp only [Except.ok.injEq, Prod.mk.injEq, reduceCtorEq] at h <;>
    exact ⟨h.1 ▸ rfl, h.2.symm⟩

theorem judge_eq_ok (h : judge site request call staged streamed = .ok (reply, keep)) :
    reply.ok = keep ∧ (keep = true → Describes site call staged streamed reply) := by
  unfold judge at h
  split at h
  · exact acceptStreamed_eq_ok h
  · obtain ⟨hok, rfl⟩ := reportFailure_eq_ok h
    exact ⟨hok, fun hkeep => absurd hkeep Bool.false_ne_true⟩

theorem tryStream_eq_ok (h : (tryStream site client request call).answer = .ok (reply, keep)) :
    reply.ok = keep ∧ (keep = true → ∃ staged streamed before,
      (tryStream site client request call).staged = some staged ∧
      client (call.scope.validate site.unicode) ⟨call.url, staged.name, call.limit⟩ before =
        (staged.folder, .ok streamed) ∧ Describes site call staged streamed reply) := by
  cases hprepare : site.prepare call.root with
  | raised e =>
    rw [tryStream, hprepare] at h
    cases h
  | notDirectory =>
    rw [tryStream, hprepare] at h
    obtain ⟨rfl, rfl⟩ := Prod.mk.inj (Except.ok.inj h)
    exact ⟨rfl, fun hkeep => absurd hkeep Bool.false_ne_true⟩
  | directory root folder =>
    cases hmkstemp : site.mkstemp folder with
    | error e =>
      rw [tryStream, hprepare] at h
      simp only [hmkstemp] at h
      cases h
    | ok name =>
      rcases hclient : client (call.scope.validate site.unicode) ⟨call.url, name, call.limit⟩
        (folder.set name []) with ⟨left, result⟩
      cases result with
      | error e =>
        rw [tryStream, hprepare] at h
        simp only [hmkstemp, hclient] at h
        cases h
      | ok streamed =>
        rw [tryStream, hprepare] at h ⊢
        simp only [hmkstemp, hclient] at h ⊢
        obtain ⟨hok, hkept⟩ := judge_eq_ok h
        exact ⟨hok, fun hkeep => ⟨_, streamed, _, rfl, hclient, hkept hkeep⟩⟩

theorem file_unlink (staged : Staged) : staged.unlink.file = none := by
  rw [Staged.unlink, Staged.file, Dict.get?_erase, if_pos rfl]

/-- What holds when the handler has returned, with `active` the count before the request. -/
structure StagingConsistent (site : Site) (request : Fields) (active : Int) (exit : Exit) : Prop where
  staged_iff_ok : (∃ staged content, exit.staged = some staged ∧ staged.file = some content) ↔
    exit.reply.ok = true
  inside : exit.reply.ok = true → ∃ scope finalUrl scheme netloc document,
    accessionScope site.unicode (get request "accession_cik") (get request "accession_number") = .ok scope ∧
    exit.reply.finalUrl = .str finalUrl ∧ Inside site.unicode (withoutHyphens scope.accession) finalUrl.toList
      scheme netloc (toString scope.cik).toList document
  describes : exit.reply.ok = true → ∃ staged content limit, exit.staged = some staged ∧
    staged.file = some content ∧ exit.reply.path = some staged.path ∧ exit.reply.size = content.length ∧
    get request "max_response_bytes" = some (.int limit) ∧ 0 < exit.reply.size ∧ exit.reply.size ≤ limit
  active : exit.active = active

/-- The answer has the digest of the file. -/
def DigestDescribes (sha256 : Bytes → String) (exit : Exit) : Prop :=
  ∀ staged content, exit.reply.ok = true → exit.staged = some staged → staged.file = some content →
    exit.reply.sha256 = some (sha256 content)

def Reports (sha256 : Bytes → String) (client : StreamClient) : Prop :=
  ∀ validate call before after streamed digest content,
    client validate call before = (after, .ok streamed) → field streamed "sha256" .null = .str digest →
    after.get? call.target = some content → digest = sha256 content

theorem streamFile_cases (active : Int) :
    (∃ code, streamFile site client request active = ⟨failed request code false .null .null, none, active⟩) ∨
    ∃ call, checkRequest site request = .ok call ∧ ∃ reply keep,
      streamFile site client request active =
        ⟨reply, if keep then (tryStream site client request call).staged
          else (tryStream site client request call).staged.map Staged.unlink, active⟩ ∧
      reply.ok = keep ∧ (keep = true → (tryStream site client request call).answer = .ok (reply, keep)) := by
  cases hchecked : checkRequest site request with
  | error code =>
    left
    exact ⟨code, by rw [streamFile, hchecked]⟩
  | ok call =>
    right
    refine ⟨call, rfl, ?_⟩
    have hactive : active + 1 - 1 = active := add_sub_cancel_right active 1
    cases hanswer : (tryStream site client request call).answer with
    | error e =>
      refine ⟨rescued request e, false, ?_, ?_, fun hkeep => absurd hkeep Bool.false_ne_true⟩
      · rw [streamFile, hchecked]
        simp only [finish, hanswer, hactive]
      · cases e <;> rfl
    | ok answer =>
      obtain ⟨reply, keep⟩ := answer
      refine ⟨reply, keep, ?_, (tryStream_eq_ok hanswer).1, fun _ => rfl⟩
      rw [streamFile, hchecked]
      simp only [finish, hanswer, hactive]

theorem streamFile_consistent (site : Site) (client : StreamClient) (request : Fields) (active : Int) :
    StagingConsistent site request active (streamFile site client request active) := by
  rcases @streamFile_cases site client request active with ⟨code, hexit⟩ | ⟨call, hchecked, reply, keep, hexit, hok, hkept⟩
  · -- refused in front of the semaphore: there is no file
    rw [hexit]
    have hnot : ∀ p : Prop, (failed request code false .null .null).ok = true → p :=
      fun p hok => absurd hok Bool.false_ne_true
    refine ⟨⟨?_, hnot _⟩, hnot _, hnot _, rfl⟩
    rintro ⟨staged, content, hstaged, _⟩
    cases hstaged
  · obtain ⟨hlimit, hscope⟩ := checkRequest_eq_ok hchecked
    rw [hexit]
    cases keep with
    | false =>
      have hnot : ∀ p : Prop, reply.ok = true → p := by
        intro p htrue
        rw [hok] at htrue
        exact absurd htrue Bool.false_ne_true
      refine ⟨⟨?_, hnot _⟩, hnot _, hnot _, rfl⟩
      -- a destination that was made has been unlinked
      rintro ⟨staged, content, hstaged, hfile⟩
      obtain ⟨made, _, rfl⟩ := Option.map_eq_some_iff.mp hstaged
      rw [file_unlink] at hfile
      cases hfile
    | true =>
      obtain ⟨_, hmade⟩ := tryStream_eq_ok (hkept rfl)
      obtain ⟨staged, streamed, before, hstaged, _, hdescribes⟩ := hmade rfl
      obtain ⟨content, hfile, hsize⟩ := hdescribes.size
      obtain ⟨finalUrl, hfinal, hvalid⟩ := hdescribes.final_url
      have hexit' : (if true = true then (tryStream site client request call).staged
          else (tryStream site client request call).staged.map Staged.unlink) = some staged := hstaged
      refine ⟨⟨fun _ => hok, fun _ => ⟨staged, content, hexit', hfile⟩⟩, fun _ => ?_, fun _ => ?_, rfl⟩
      · obtain ⟨scheme, netloc, document, hinside⟩ := Scope.validate_inside (accession_of_scope hscope) hvalid
        exact ⟨call.scope, finalUrl, scheme, netloc, document, hscope, hfinal, hinside⟩
      · exact ⟨staged, content, call.limit, hexit', hfile, hdescribes.path, hsize, hlimit, hdescribes.bounded⟩

theorem streamFile_digest {sha256 : Bytes → String} (hclient : Reports sha256 client) (active : Int) :
    DigestDescribes sha256 (streamFile site client request active) := by
  intro staged content htrue hstaged hfile
  rcases @streamFile_cases site client request active with ⟨code, hexit⟩ | ⟨call, _, reply, keep, hexit, hok, hkept⟩
  · rw [hexit] at htrue
    exact absurd htrue Bool.false_ne_true
  · rw [hexit] at htrue hstaged ⊢
    obtain rfl : keep = true := hok.symm.trans htrue
    obtain ⟨_, hmade⟩ := tryStream_eq_ok (hkept rfl)
    obtain ⟨made, streamed, before, hmade, hrun, hdescribes⟩ := hmade rfl
    obtain rfl : made = staged := Option.some.inj (hmade.symm.trans hstaged)
    obtain ⟨digest, hdigest, hreply⟩ := hdescribes.digest
    rw [← hclient _ _ _ _ _ _ _ hrun hdigest hfile]
    exact hreply

end Exits

/-! ## The SEC client -/

theorem reports_secHttpClient (s : Surroundings) (settings : SecHttp.Client) (ledger : Option Ledger)
    (errorOf : String → StreamError) : Reports s.sha256 (secHttpClient s settings ledger errorOf) := by
  intro validate call before after streamed digest content hrun hdigest hfile
  unfold secHttpClient at hrun
  rcases hstream : streamToFile { s with validateRedirect := validate } settings call ⟨before, ledger, []⟩ with
    ⟨w, result⟩
  rw [hstream] at hrun
  cases result with
  | streamed r =>
    obtain ⟨rfl, hfields⟩ := Prod.mk.inj hrun
    obtain rfl := Except.ok.inj hfields
    obtain ⟨stored, hstored, hsha256, _⟩ := streamToFile_streamed hstream
    have hsame : stored = content := Option.some.inj (hstored.symm.trans hfile)
    have hfield : Json.str r.sha256 = .str digest := hdigest
    rw [← Json.str.inj hfield, hsha256, hsame]
  | failed f =>
    obtain ⟨rfl, hfields⟩ := Prod.mk.inj hrun
    obtain rfl := Except.ok.inj hfields
    -- a failure carries no digest
    cases hdigest
  | raised detail =>
    obtain ⟨_, hfields⟩ := Prod.mk.inj hrun
    cases hfields

/-- Whatever the client does, the file, the URL, the size and the count are in order, and with the
SEC client so is the digest. -/
theorem staged_fetch_consistent (site : Site) (request : Fields) (active : Int) :
    (∀ client, StagingConsistent site request active (streamFile site client request active)) ∧
      ∀ s settings ledger errorOf, DigestDescribes s.sha256
        (streamFile site (secHttpClient s settings ledger errorOf) request active) := by
  constructor
  · intro client
    exact streamFile_consistent site client request active
  · intro s settings ledger errorOf
    exact streamFile_digest (reports_secHttpClient s settings ledger errorOf) active

end EdgarSec.Broker
