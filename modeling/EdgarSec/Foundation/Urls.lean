import EdgarSec.Foundation.JsonText
import EdgarSec.Foundation.Unicode
import EdgarSec.Lib.Outcome

/-! `urllib.parse`: splitting a URL, reading its network location, and putting it together. -/

namespace EdgarSec.Foundation
open Lib

/-- `str.partition`; nothing stands behind a separator that does not occur. -/
def partition (sep : Char) (text : Chars) : Chars × Option Chars :=
  match text.dropWhile (· ≠ sep) with
  | [] => (text, none)
  | _ :: after => (text.takeWhile (· ≠ sep), some after)

def rpartition (sep : Char) (text : Chars) : Option Chars × Chars :=
  let (after, before) := partition sep text.reverse
  (before.map List.reverse, after.reverse)

section Partition
variable {sep : Char} {text before after : Chars}

theorem partition_of_not_mem (h : sep ∉ text) : partition sep text = (text, none) := by
  have hdrop : text.dropWhile (· ≠ sep) = [] := by
    rw [List.dropWhile_eq_nil_iff]
    intro c hc
    exact decide_eq_true fun heq => h (heq ▸ hc)
  rw [partition, hdrop]

theorem partition_append (h : sep ∉ before) :
    partition sep (before ++ sep :: after) = (before, some after) := by
  have hall : ∀ c ∈ before, decide (c ≠ sep) = true := by
    intro c hc
    exact decide_eq_true fun heq => h (heq ▸ hc)
  have hdrop : (before ++ sep :: after).dropWhile (· ≠ sep) = sep :: after := by
    rw [List.dropWhile_append_of_pos hall]
    exact List.dropWhile_cons_of_neg (by simp)
  have htake : (before ++ sep :: after).takeWhile (· ≠ sep) = before := by
    rw [List.takeWhile_append_of_pos hall]
    simp
  rw [partition, hdrop]
  exact congrArg (·, some after) htake

theorem exists_of_mem_sep (h : sep ∈ text) :
    ∃ before after, text = before ++ sep :: after ∧ sep ∉ before :=
  List.eq_append_cons_of_mem h

theorem partition_cons_fst {c : Char} (h : c ≠ sep) :
    (partition sep (c :: text)).1 = c :: (partition sep text).1 := by
  by_cases hmem : sep ∈ text
  · obtain ⟨before, after, rfl, hbefore⟩ := exists_of_mem_sep hmem
    have hcons : sep ∉ c :: before := by simp [hbefore, Ne.symm h]
    rw [← List.cons_append, partition_append hcons, partition_append hbefore]
  · have hcons : sep ∉ c :: text := by simp [hmem, Ne.symm h]
    rw [partition_of_not_mem hcons, partition_of_not_mem hmem]

theorem eq_of_partition (h : (partition sep text).2 = some after) :
    text = (partition sep text).1 ++ sep :: after := by
  by_cases hmem : sep ∈ text
  · obtain ⟨before, rest, rfl, hbefore⟩ := exists_of_mem_sep hmem
    rw [partition_append hbefore] at h ⊢
    rw [Option.some.inj h]
  · rw [partition_of_not_mem hmem] at h
    exact absurd h.symm (Option.some_ne_none after)

theorem partition_eq_none (h : (partition sep text).2 = none) : sep ∉ text := by
  intro hmem
  obtain ⟨before, after, rfl, hbefore⟩ := exists_of_mem_sep hmem
  rw [partition_append hbefore] at h
  exact absurd h (Option.some_ne_none after)

theorem rpartition_eq_none (h : (rpartition sep text).1 = none) : rpartition sep text = (none, text) := by
  have hnone : (partition sep text.reverse).2 = none := Option.map_eq_none_iff.mp h
  have hmem := partition_eq_none hnone
  rw [rpartition, partition_of_not_mem hmem]
  exact congrArg (none, ·) (List.reverse_reverse text)

end Partition

/-! ## Addresses in brackets -/

def isIpv4Octet (text : Chars) : Bool :=
  text ≠ [] && text.all Char.isDigit && text.length ≤ 3 && (text = ['0'] || text.head? ≠ some '0') &&
    text.foldl (fun n c => 10 * n + (c.toNat - 48)) 0 ≤ 255

def isIpv4Address (text : Chars) : Bool :=
  let octets := text.splitOn '.'
  octets.length = 4 && octets.all isIpv4Octet

def isHextet (text : Chars) : Bool :=
  text.length ≤ 4 && text.all fun c => c.isDigit || ('a' ≤ c && c ≤ 'f') || ('A' ≤ c && c ≤ 'F')

def skipIndices (groups : List Chars) : List Nat :=
  (List.range groups.length).filter fun i =>
    0 < i && i + 1 < groups.length && groups.getD i [] = []

/-- `IPv6Address._ip_int_from_string` -/
def isIpv6Groups (text : Chars) : Bool :=
  let split := text.splitOn ':'
  if split.length < 3 then false
  else
    let last := split.getLastD []
    let dotted := '.' ∈ last
    let groups := if dotted then split.dropLast ++ [['0'], ['0']] else split
    (!dotted || isIpv4Address last) && groups.length ≤ 9 && groups.all isHextet &&
      match skipIndices groups with
      | [] => groups.length = 8 && groups.headD [] ≠ [] && groups.getLastD [] ≠ []
      | [i] =>
        let hi := if groups.headD [] = [] then i - 1 else i
        let lo := if groups.getLastD [] = [] then groups.length - i - 2 else groups.length - i - 1
        (groups.headD [] ≠ [] || hi = 0) && (groups.getLastD [] ≠ [] || lo = 0) && hi + lo < 8
      | _ => false

def isIpv6Address (text : Chars) : Bool :=
  let (address, scope) := partition '%' text
  '/' ∉ text && (scope.all fun s => s ≠ [] && '%' ∉ s) && isIpv6Groups address

def isIpvFuture (text : Chars) : Bool :=
  let (version, rest) := partition '.' text
  version.head? = some 'v' && version.tail ≠ [] &&
    (version.tail.all fun c => c.isDigit || ('a' ≤ c && c ≤ 'f') || ('A' ≤ c && c ≤ 'F')) &&
    (rest.any fun r => r ≠ [] && '\n' ∉ r)

def checkBracketedHost (host : Chars) : Except String Unit :=
  if host.head? = some 'v' then ensure (isIpvFuture host) "IPvFuture address is invalid"
  else if isIpv4Address host then .error "An IPv4 address cannot be in brackets"
  else
    ensure (isIpv6Address host)
      s!"{pyRepr (String.ofList host)} does not appear to be an IPv4 or IPv6 address"

def checkBrackets (netloc : Chars) : Except String Unit := do
  ensure ('[' ∈ netloc ↔ ']' ∈ netloc) "Invalid IPv6 URL"
  match partition '[' netloc with
  | (_, some bracketed) => checkBracketedHost (partition ']' bracketed).1
  | (_, none) => .ok ()

/-! ## Splitting -/

structure SplitResult where
  scheme : Chars
  netloc : Chars
  path : Chars
  query : Chars
  fragment : Chars
  deriving DecidableEq

def isSchemeChar (c : Char) : Bool := c.isAlphanum || c = '+' || c = '-' || c = '.'

def splitScheme (url : Chars) : Chars × Chars :=
  match partition ':' url with
  | (c :: rest, some after) =>
    if c.isAlpha && (c :: rest).all isSchemeChar then ((c :: rest).map Char.toLower, after) else ([], url)
  | _ => ([], url)

def endsNetloc (c : Char) : Bool := c = '/' || c = '?' || c = '#'

/-- `_splitnetloc`, behind the two slashes. -/
def splitNetloc (url : Chars) : Chars × Chars :=
  (url.takeWhile fun c => !endsNetloc c, url.dropWhile fun c => !endsNetloc c)

section Unicode
variable (u : Unicode)

/-- `_checknetloc`: no delimiter appears under NFKC normalization. -/
def checkNetloc (netloc : Chars) : Except String Unit :=
  let plain := netloc.filter fun c => c ≠ '@' && c ≠ ':' && c ≠ '#' && c ≠ '?'
  ensure ((netloc.all isAscii || plain = u.nfkc plain ||
      ['/', '?', '#', '@', ':'].all fun c => decide (c ∉ u.nfkc plain)) = true)
    ("netloc '" ++ String.ofList netloc ++ "' contains invalid characters under NFKC normalization")

def urlsplit (text : Chars) : Except String SplitResult := do
  let url := (text.dropWhile fun c => c.toNat ≤ 32).filter fun c => c ≠ '\t' && c ≠ '\r' && c ≠ '\n'
  let (scheme, url) := splitScheme url
  let (netloc, url) := if ['/', '/'].isPrefixOf url then splitNetloc (url.drop 2) else ([], url)
  checkBrackets netloc
  let (url, fragment) := partition '#' url
  let (url, query) := partition '?' url
  checkNetloc u netloc
  .ok ⟨scheme, netloc, url, query.getD [], fragment.getD []⟩

namespace SplitResult
variable (parts : SplitResult)

def username : Option Chars := (rpartition '@' parts.netloc).1.map fun info => (partition ':' info).1

def password : Option Chars := (rpartition '@' parts.netloc).1.bind fun info => (partition ':' info).2

def hostinfo : Chars × Chars :=
  let info := (rpartition '@' parts.netloc).2
  match partition '[' info with
  | (_, some bracketed) =>
    let (host, after) := partition ']' bracketed
    (host, ((partition ':' (after.getD [])).2).getD [])
  | (_, none) =>
    let (host, port) := partition ':' info
    (host, port.getD [])

def hostname : Option Chars :=
  match parts.hostinfo.1 with
  | [] => none
  | host =>
    let (name, zone) := partition '%' host
    some (u.lowered name ++ (zone.map ('%' :: ·)).getD [])

def port : Except String (Option Nat) :=
  let text := parts.hostinfo.2
  if text = [] then .ok none
  else if text.all Char.isDigit = false then
    .error s!"Port could not be cast to integer value as {pyRepr (String.ofList text)}"
  else
    match u.int text with
    | .error e => .error e
    | .ok n => if 0 ≤ n ∧ n ≤ 65535 then .ok (some n.toNat) else .error "Port out of range 0-65535"

end SplitResult
end Unicode

def usesNetloc : List String :=
  ["", "ftp", "http", "gopher", "nntp", "telnet", "imap", "wais", "file", "mms", "https", "shttp",
    "snews", "prospero", "rtsp", "rtsps", "rtspu", "rsync", "svn", "svn+ssh", "sftp", "nfs", "git",
    "git+ssh", "ws", "wss", "itms-services"]

def urlunsplit (parts : SplitResult) : Chars :=
  let url := parts.path
  let url :=
    if parts.netloc ≠ [] ∨ (parts.scheme ≠ [] ∧ String.ofList parts.scheme ∈ usesNetloc) ∨
        ['/', '/'].isPrefixOf url = true then
      let url := if url ≠ [] ∧ url.head? ≠ some '/' then '/' :: url else url
      ['/', '/'] ++ parts.netloc ++ url
    else url
  let url := if parts.scheme ≠ [] then parts.scheme ++ [':'] ++ url else url
  let url := if parts.query ≠ [] then url ++ ['?'] ++ parts.query else url
  if parts.fragment ≠ [] then url ++ ['#'] ++ parts.fragment else url

/-! ## Queries -/

def utf8Lead (b : Nat) : Option (Nat × Nat × Nat × Nat) :=
  if b < 0x80 then some (b, 0, 0, 0)
  else if 0xC2 ≤ b ∧ b ≤ 0xDF then some (b - 0xC0, 1, 0x80, 0xBF)
  else if 0xE0 ≤ b ∧ b ≤ 0xEF then
    some (b - 0xE0, 2, if b = 0xE0 then 0xA0 else 0x80, if b = 0xED then 0x9F else 0xBF)
  else if 0xF0 ≤ b ∧ b ≤ 0xF4 then
    some (b - 0xF0, 3, if b = 0xF0 then 0x90 else 0x80, if b = 0xF4 then 0x8F else 0xBF)
  else none

def utf8Continuation (low high : Nat) : Nat → Bytes → Bytes
  | 0, _ => []
  | _, [] => []
  | n + 1, b :: rest =>
    if low ≤ b.toNat ∧ b.toNat ≤ high then b :: utf8Continuation 0x80 0xBF n rest else []

def utf8Step (b : UInt8) (rest : Bytes) : Char × Nat :=
  match utf8Lead b.toNat with
  | none => ('\uFFFD', 0)
  | some (payload, n, low, high) =>
    let tail := utf8Continuation low high n rest
    if tail.length = n then (Char.ofNat (tail.foldl (fun v b => 64 * v + (b.toNat - 0x80)) payload), n)
    else ('\uFFFD', tail.length)

/-- `decode("utf-8", "replace")`; `skip` bytes belong to a character already read. -/
def decodeReplace : Nat → Bytes → Chars
  | _, [] => []
  | skip + 1, _ :: rest => decodeReplace skip rest
  | 0, b :: rest => (utf8Step b rest).1 :: decodeReplace (utf8Step b rest).2 rest

/-- `unquote`: the bytes of a run of ASCII characters are decoded together. -/
def unquoteFrom (pending : Bytes) : Chars → Chars
  | [] => decodeReplace 0 pending
  | '%' :: a :: b :: rest =>
    match hexValue a, hexValue b with
    | some high, some low => unquoteFrom (pending ++ [UInt8.ofNat (16 * high + low)]) rest
    | _, _ => unquoteFrom (pending ++ [37]) (a :: b :: rest)
  | c :: rest =>
    if isAscii c then unquoteFrom (pending ++ [UInt8.ofNat c.toNat]) rest
    else decodeReplace 0 pending ++ c :: unquoteFrom [] rest

def unquotePlus (text : Chars) : Chars :=
  unquoteFrom [] (text.map fun c => if c = '+' then ' ' else c)

/-- `parse_qs(…, keep_blank_values=True, strict_parsing=True)`, with the fields in their order. -/
def parseQs (query : Chars) : Option (List (Chars × Chars)) :=
  if query = [] then some []
  else
    (query.splitOn '&').mapM fun field =>
      match partition '=' field with
      | (name, some value) => some (unquotePlus name, unquotePlus value)
      | (_, none) => none

/-! ## What has been split is what stood in the text -/

section Splitting
variable {u : Unicode} {text url target : Chars} {parts : SplitResult}

theorem splitScheme_ne_nil (h : (splitScheme url).1 ≠ []) : ∃ scheme, url = scheme ++ ':' :: (splitScheme url).2 ∧
    scheme.map Char.toLower = (splitScheme url).1 ∧ scheme.all isSchemeChar := by
  by_cases hmem : ':' ∈ url
  · obtain ⟨scheme, after, rfl, hscheme⟩ := exists_of_mem_sep hmem
    rw [splitScheme, partition_append hscheme] at h ⊢
    cases scheme with
    | nil => exact absurd rfl h
    | cons c rest =>
      simp only at h ⊢
      split_ifs at h ⊢ with hchars
      · rw [Bool.and_eq_true] at hchars
        exact ⟨c :: rest, rfl, rfl, hchars.2⟩
      · exact absurd rfl h
  · rw [splitScheme, partition_of_not_mem hmem] at h
    exact absurd (by cases url <;> rfl) h

theorem splitNetloc_append : (splitNetloc url).1 ++ (splitNetloc url).2 = url := by
  rw [splitNetloc]
  exact List.takeWhile_append_dropWhile

/-- Nothing that `urlsplit` drops or cuts at, apart from the scheme and the location. -/
def Plain (text : Chars) : Prop := ∀ c ∈ text, 32 < c.toNat ∧ c ≠ '?' ∧ c ≠ '#'

theorem urlsplit_plain (hplain : Plain text) (h : urlsplit u text = .ok parts) (hscheme : parts.scheme ≠ [])
    (hnetloc : parts.netloc ≠ []) :
    ∃ scheme, text = scheme ++ "://".toList ++ parts.netloc ++ parts.path ∧
      scheme.map Char.toLower = parts.scheme ∧ scheme.all isSchemeChar ∧
      checkBrackets parts.netloc = .ok () := by
  have hclean : ((text.dropWhile fun c => c.toNat ≤ 32).filter
      fun c => c ≠ '\t' && c ≠ '\r' && c ≠ '\n') = text := by
    have hdrop : (text.dropWhile fun c => c.toNat ≤ 32) = text := by
      cases text with
      | nil => rfl
      | cons c rest =>
        have hc := (hplain c List.mem_cons_self).1
        exact List.dropWhile_cons_of_neg (by simpa using hc)
    rw [hdrop, List.filter_eq_self]
    intro c hc
    have hspace := (hplain c hc).1
    have hne : ∀ d : Char, d.toNat ≤ 32 → c ≠ d := fun d hd heq => by
      rw [heq] at hspace
      omega
    simp [hne '\t' (by decide), hne '\r' (by decide), hne '\n' (by decide)]
  rw [urlsplit, hclean] at h
  rcases hsplit : splitScheme text with ⟨name, rest⟩
  rcases hlocation : (if ['/', '/'].isPrefixOf rest then splitNetloc (rest.drop 2) else ([], rest)) with
    ⟨netloc, path⟩
  simp only [hsplit, hlocation] at h
  obtain ⟨⟨⟩, hbrackets, h⟩ := bind_eq_ok.mp h
  obtain ⟨⟨⟩, _, h⟩ := bind_eq_ok.mp h
  cases h
  -- an authority has been read, so two slashes stand behind the scheme
  obtain ⟨hslashes, hcut⟩ : ['/', '/'].isPrefixOf rest = true ∧ splitNetloc (rest.drop 2) = (netloc, path) := by
    split_ifs at hlocation with hslashes
    · exact ⟨hslashes, hlocation⟩
    · exact absurd (congrArg Prod.fst hlocation).symm hnetloc
  obtain ⟨scheme, htext, hlower, hchars⟩ : ∃ scheme, text = scheme ++ ':' :: rest ∧
      scheme.map Char.toLower = name ∧ scheme.all isSchemeChar := by
    have hname : (splitScheme text).1 ≠ [] := by rwa [hsplit]
    simpa only [hsplit] using splitScheme_ne_nil hname
  have hrest : rest = '/' :: '/' :: (netloc ++ path) := by
    have hjoin : netloc ++ path = rest.drop 2 := by
      simpa only [hcut] using @splitNetloc_append (rest.drop 2)
    have hprefix := List.prefix_iff_eq_append.mp (List.isPrefixOf_iff_prefix.mp hslashes)
    rw [hjoin]
    exact hprefix.symm
  -- no delimiter is left to cut the path at
  have hpath : ∀ c ∈ path, c ≠ '?' ∧ c ≠ '#' := by
    intro c hc
    have hmem : c ∈ text := by
      rw [htext, hrest]
      simp [hc]
    exact (hplain c hmem).2
  have hfragment : partition '#' path = (path, none) := partition_of_not_mem fun hc => (hpath '#' hc).2 rfl
  have hquery : partition '?' path = (path, none) := partition_of_not_mem fun hc => (hpath '?' hc).1 rfl
  refine ⟨scheme, ?_, hlower, hchars, hbrackets⟩
  rw [htext, hrest]
  simp [hfragment, hquery]

theorem urlunsplit_path {scheme netloc path : Chars} (hscheme : scheme ≠ []) (hnetloc : netloc ≠ [])
    (hpath : path.head? = some '/') :
    urlunsplit ⟨scheme, netloc, path, [], []⟩ = scheme ++ "://".toList ++ netloc ++ path := by
  simp [urlunsplit, hscheme, hnetloc, hpath]

/-! ## Which locations have a plain host -/

theorem folded_append (a b : Chars) : u.folded (a ++ b) = u.folded a ++ u.folded b := List.flatMap_append

theorem mem_of_isIpv6Groups (h : isIpv6Groups text) : ':' ∈ text := by
  by_contra hmem
  rw [isIpv6Groups, List.splitOn_eq_singleton hmem] at h
  exact absurd h Bool.false_ne_true

theorem bracketed_host (h : checkBracketedHost text = .ok ()) :
    text.head? = some 'v' ∨ ':' ∈ (partition '%' text).1 := by
  rw [checkBracketedHost] at h
  split_ifs at h with hfuture
  · exact Or.inl hfuture
  · right
    have hv6 := ensure_eq_ok.mp h
    simp only [isIpv6Address, Bool.and_eq_true] at hv6
    exact mem_of_isIpv6Groups hv6.2

theorem hostname_eq_some {host : Chars} (h : parts.hostname u = some host) :
    host = u.lowered (partition '%' parts.hostinfo.1).1 ++
      ((partition '%' parts.hostinfo.1).2.map ('%' :: ·)).getD [] := by
  rw [SplitResult.hostname] at h
  split at h
  · exact absurd h.symm (Option.some_ne_none host)
  · exact (Option.some.inj h).symm

theorem hostinfo_of_bracket {before bracketed : Chars} (huser : parts.username = none)
    (hnetloc : parts.netloc = before ++ '[' :: bracketed) (hbefore : '[' ∉ before) :
    parts.hostinfo.1 = (partition ']' bracketed).1 := by
  have hrpart := rpartition_eq_none (Option.map_eq_none_iff.mp huser)
  rw [SplitResult.hostinfo, hrpart, hnetloc]
  simp only [partition_append hbefore]

theorem hostinfo_of_no_bracket (huser : parts.username = none) (hnetloc : '[' ∉ parts.netloc) :
    parts.hostinfo = ((partition ':' parts.netloc).1, (partition ':' parts.netloc).2.getD []) := by
  have hrpart := rpartition_eq_none (Option.map_eq_none_iff.mp huser)
  rw [SplitResult.hostinfo, hrpart]
  simp only [partition_of_not_mem hnetloc]

theorem port_eq_none (h : parts.port u = .ok none) : parts.hostinfo.2 = [] := by
  by_contra hne
  rw [SplitResult.port, if_neg hne] at h
  split_ifs at h
  split at h
  · cases h
  · split_ifs at h
    exact absurd (Except.ok.inj h) (Option.some_ne_none _)

theorem netloc_of_plain_host {host : Chars} (hbrackets : checkBrackets parts.netloc = .ok ())
    (huser : parts.username = none) (hhost : parts.hostname u = some host) (hport : parts.port u = .ok none)
    (htarget : u.folded host = target) (hcolon : ':' ∉ target) (hzone : '%' ∉ target)
    (hv : target.head? ≠ some 'v') :
    ∃ name, (parts.netloc = name ∨ parts.netloc = name ++ [':']) ∧ u.folded (u.lowered name) = target := by
  have hfold : u.folded (u.lowered (partition '%' parts.hostinfo.1).1) ++
      u.folded (((partition '%' parts.hostinfo.1).2.map ('%' :: ·)).getD []) = target := by
    rw [← folded_append, ← hostname_eq_some hhost, htarget]
  by_cases hopen : '[' ∈ parts.netloc
  · -- an address in brackets has a colon or begins with a `v`, and neither is lost on the way
    exfalso
    obtain ⟨before, bracketed, hnetloc, hbefore⟩ := exists_of_mem_sep hopen
    have hinfo := hostinfo_of_bracket huser hnetloc hbefore
    have hchecked : checkBracketedHost parts.hostinfo.1 = .ok () := by
      rw [checkBrackets, hnetloc] at hbrackets
      obtain ⟨⟨⟩, _, hbrackets⟩ := bind_eq_ok.mp hbrackets
      simp only [partition_append hbefore] at hbrackets
      rwa [hinfo]
    rcases bracketed_host hchecked with hfuture | haddress
    · obtain ⟨rest, hrest⟩ := List.head?_eq_some_iff.mp hfuture
      rw [hrest, partition_cons_fst (by decide)] at hfold
      exact hv (hfold ▸ rfl)
    · have hlower := Unicode.mem_lowered (u := u) (by decide) (by decide) haddress
      have hmem := Unicode.mem_folded (u := u) (by decide) (by decide) hlower
      exact hcolon (hfold ▸ List.mem_append_left _ hmem)
  · have hinfo := hostinfo_of_no_bracket huser hopen
    have hno_zone : '%' ∉ parts.hostinfo.1 := by
      intro hmem
      obtain ⟨before, zone, hcut, hbefore⟩ := exists_of_mem_sep hmem
      rw [hcut, partition_append hbefore] at hfold
      have hpercent := Unicode.mem_folded (u := u) (by decide) (by decide) (List.mem_cons_self (a := '%') (l := zone))
      exact hzone (hfold ▸ List.mem_append_right _ hpercent)
    rw [partition_of_not_mem hno_zone] at hfold
    refine ⟨parts.hostinfo.1, ?_, by simpa [Unicode.folded] using hfold⟩
    have hempty := port_eq_none hport
    rw [hinfo] at hempty ⊢
    by_cases hport : ':' ∈ parts.netloc
    · obtain ⟨name, port, hcut, hname⟩ := exists_of_mem_sep hport
      right
      rw [hcut, partition_append hname] at hempty ⊢
      exact congrArg (name ++ ':' :: ·) hempty
    · left
      rw [partition_of_not_mem hport]

end Splitting

end EdgarSec.Foundation
