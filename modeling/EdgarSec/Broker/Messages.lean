import EdgarSec.Foundation.JsonText
import EdgarSec.Lib.Dict

/-! The frames of the broker protocol: how requests and replies are written, and how a client reads a
reply from the bytes it has received so far. -/

namespace EdgarSec.Broker
open Foundation

/-! ## Frames -/

/-- `struct.Struct("!I").pack`; a longer payload is a `struct.error`. -/
def packLength (n : Nat) : Option Bytes :=
  if n < 4294967296 then
    some [UInt8.ofNat (n / 16777216), UInt8.ofNat (n / 65536 % 256), UInt8.ofNat (n / 256 % 256),
      UInt8.ofNat (n % 256)]
  else none

def unpackLength (raw : Bytes) : Nat := raw.foldl (fun n b => 256 * n + b.toNat) 0

def frame (payload : Bytes) : Option Bytes := (packLength payload.length).map (· ++ payload)

theorem packLength_eq_some {n : Nat} {raw : Bytes} (h : packLength n = some raw) :
    raw.length = 4 ∧ unpackLength raw = n := by
  rw [packLength] at h
  split at h
  · rename_i hn
    obtain rfl := Option.some.inj h
    have h1 : n / 16777216 < 256 := by omega
    refine ⟨rfl, ?_⟩
    simp only [unpackLength, List.foldl_cons, List.foldl_nil, UInt8.toNat_ofNat']
    omega
  · cases h

/-- `json.dumps(obj, sort_keys=True, separators=(",", ":")).encode("utf-8")` -/
def jsonDumps (j : Json) : Bytes := utf8 (canonicalJson j)

inductive FrameError where
  | broker (message : String)
  | value
deriving DecidableEq

/-- `_json_loads`: anything but an object is refused by the broker's own error. -/
def jsonLoads (raw : Bytes) : Except FrameError (List (String × Json)) :=
  match (decodeUtf8 raw).bind loads with
  | none => .error .value
  | some (.obj members) => .ok members
  | some _ => .error (.broker "broker sent a non-object JSON frame")

def get (members : List (String × Json)) (name : String) : Option Json := members.lookup name

def ofOption {α : Type} (f : α → Json) : Option α → Json
  | none => .null
  | some a => f a

/-! ## The broker's answer -/

inductive HttpErrorKind where
  | permanentHttpError
  | responseTooLarge
  | retryExhausted
  | other
deriving DecidableEq

/-- An exception of the SEC client: its text, the name of its class, its `status_code`. -/
structure HttpError where
  kind : HttpErrorKind
  text : String
  className : String
  statusCode : Option Int

structure HttpClient where
  peekCache : Option Bytes
  getBytes : Except HttpError (Option Bytes)

/-- The dictionary `SecBroker.fetch` returns. -/
structure FetchResult where
  status : String
  error : Option String
  errorCode : Option String
  statusCode : Option Int
  payloadLength : Nat
  payload : Option Bytes
  cacheSource : Option String
deriving DecidableEq

def healthcheckUrl : String := "healthcheck://broker"

def FetchResult.ok (payload : Option Bytes) (cacheSource : Option String) : FetchResult :=
  ⟨"ok", none, none, none, (payload.getD []).length, payload, cacheSource⟩

/-- `str(exc) or type(exc).__name__` -/
def HttpError.message (e : HttpError) : String := if e.text = "" then e.className else e.text

def HttpError.code (e : HttpError) : Option String :=
  match e.kind with
  | .responseTooLarge => some "response_too_large"
  | .permanentHttpError => if e.statusCode = some 404 then some "http_not_found" else some "http_error"
  | .retryExhausted => some "http_error"
  | .other => none

def fetch (archiveUrl : String) (forceRefresh : Bool) (client : HttpClient) : FetchResult :=
  if archiveUrl = healthcheckUrl then .ok (some []) none
  else
    match if forceRefresh then none else client.peekCache with
    | some peeked => .ok (some peeked) (some "http_cache")
    | none =>
      match client.getBytes with
      | .ok payload => .ok payload (some "network")
      | .error e =>
        ⟨"failed", some e.message, e.code, if e.kind = .other then none else e.statusCode, 0, none, none⟩

/-- What streaming the file for a `stream_to_file` request came to. -/
structure StreamReply where
  status : String
  path : Option String
  sha256 : Option String
  size : Int
  requestedUrl : String
  finalUrl : Option String
  statusCode : Option Int
  contentType : Option String
  contentEncoding : Option String
  errorCode : Option String
  retryable : Option Bool

structure Reply where
  header : List (String × Json)
  payload : Bytes

def fetchHeader (requestId : Json) (r : FetchResult) : List (String × Json) :=
  [("request_id", requestId), ("status", .str r.status), ("error", ofOption .str r.error),
    ("error_code", ofOption .str r.errorCode), ("status_code", ofOption .int r.statusCode),
    ("payload_length", .int r.payloadLength), ("cache_source", ofOption .str r.cacheSource)]

def streamHeader (requestId : Json) (r : StreamReply) : List (String × Json) :=
  [("request_id", requestId), ("status", .str r.status), ("path", ofOption .str r.path),
    ("sha256", ofOption .str r.sha256), ("size", .int r.size), ("requested_url", .str r.requestedUrl),
    ("final_url", ofOption .str r.finalUrl), ("status_code", ofOption .int r.statusCode),
    ("content_type", ofOption .str r.contentType),
    ("content_encoding", ofOption .str r.contentEncoding),
    ("error_code", ofOption .str r.errorCode), ("retryable", ofOption .bool r.retryable)]

def malformedHeader (requestId : Json) : List (String × Json) :=
  [("request_id", requestId), ("status", .str "failed"),
    ("error", .str "malformed request: request_id and archive_url are required"),
    ("payload_length", .int 0)]

/-- One turn of the loop of `handle_connection`, between the two frames. -/
def respond (request : List (String × Json)) (client : HttpClient) (stream : StreamReply) : Reply :=
  let requestId := (get request "request_id").getD .null
  match get request "operation" with
  | some (.str "stream_to_file") => ⟨streamHeader requestId stream, []⟩
  | _ =>
    match get request "request_id", get request "archive_url" with
    | some (.str _), some (.str archiveUrl) =>
      let result := fetch archiveUrl (((get request "force_refresh").getD (.bool false)).truthy) client
      ⟨fetchHeader requestId result, result.payload.getD []⟩
    | _, _ => ⟨malformedHeader requestId, []⟩

def Reply.bytes (r : Reply) : Option Bytes :=
  (frame (jsonDumps (.obj r.header))).map (· ++ r.payload)

/-! ## The client's request and result -/

structure StreamCall where
  url : String
  maxResponseBytes : Int
  accessionCik : String ⊕ Int
  accessionNumber : String
  stagingRoot : Option String

inductive Call where
  | fetch (archiveUrl : String) (forceRefresh : Bool)
  | streamToFile (values : StreamCall)

def Call.request (requestId : String) : Call → List (String × Json)
  | .fetch archiveUrl forceRefresh =>
    [("request_id", .str requestId), ("archive_url", .str archiveUrl),
      ("force_refresh", .bool forceRefresh)]
  | .streamToFile v =>
    [("operation", .str "stream_to_file"), ("request_id", .str requestId), ("url", .str v.url),
      ("max_response_bytes", .int v.maxResponseBytes),
      ("accession_cik", match v.accessionCik with | .inl text => .str text | .inr n => .int n),
      ("accession_number", .str v.accessionNumber)] ++
      match v.stagingRoot with
      | some root => [("staging_root", .str root)]
      | none => []

def Call.bytes (requestId : String) (call : Call) : Bytes := jsonDumps (.obj (call.request requestId))

/-- `int(header.get("payload_length", 0) or 0)`. A float, which Python would cut off, is refused; no
header of the broker holds one. -/
def payloadLength (header : List (String × Json)) : Option Nat :=
  match get header "payload_length" with
  | none => some 0
  | some v =>
    if !v.truthy then some 0
    else
      match v with
      | .int n => some n.toNat
      | .bool _ => some 1
      | .str s => s.toInt?.map Int.toNat
      | _ => none

/-- How far `_exchange` is with the bytes it has received. -/
inductive Reading where
  | wants (count : Nat)
  | done (header : List (String × Json)) (payload : Bytes)
  | failed (e : FrameError)

/-- `_exchange` after `sendall`: the size, the header, the body. -/
def receive (got : Bytes) : Reading :=
  if got.length < 4 then .wants (4 - got.length)
  else
    let length := unpackLength (got.take 4)
    if got.length < 4 + length then .wants (4 + length - got.length)
    else
      match jsonLoads ((got.drop 4).take length) with
      | .error e => .failed e
      | .ok header =>
        match payloadLength header with
        | none => .failed .value
        | some n =>
          if got.length < 4 + length + n then .wants (4 + length + n - got.length)
          else .done header (got.drop (4 + length))

/-- The dictionary `SecBrokerClient.fetch` returns. -/
structure ClientResult where
  status : String
  error : Json
  errorCode : Option Json
  statusCode : Option Json
  payload : Option Bytes
  cacheSource : Option Json

def orElse (v : Option Json) (fallback : String) : Json :=
  match v with
  | some v => if v.truthy then v else .str fallback
  | none => .str fallback

def readReply (header : List (String × Json)) (payload : Bytes) : ClientResult :=
  match get header "status" with
  | some (.str "ok") =>
    ⟨"ok", .null, none, none, some payload, some (orElse (get header "cache_source") "network")⟩
  | _ =>
    ⟨"failed", orElse (get header "error") "broker reported failure", some ((get header "error_code").getD .null),
      some ((get header "status_code").getD .null), none, none⟩

def transportFailure (message : String) : ClientResult :=
  ⟨"failed", .str message, none, none, none, none⟩

def clientView (r : FetchResult) : ClientResult :=
  if r.status = "ok" then
    ⟨"ok", .null, none, none, some (r.payload.getD []),
      some (orElse (some (ofOption .str r.cacheSource)) "network")⟩
  else
    ⟨"failed", orElse (some (ofOption .str r.error)) "broker reported failure",
      some (ofOption .str r.errorCode), some (ofOption .int r.statusCode), none, none⟩

/-! ## Reading back a message -/

def Scalar : Json → Prop
  | .null | .bool _ | .int _ | .str _ => True
  | _ => False

@[simp] theorem scalar_bool (b : Bool) : Scalar (.bool b) := trivial
@[simp] theorem scalar_int (n : Int) : Scalar (.int n) := trivial
@[simp] theorem scalar_str (s : String) : Scalar (.str s) := trivial

structure Flat (members : List (String × Json)) : Prop where
  nodup : (members.map Prod.fst).Nodup
  scalar : ∀ m ∈ members, Scalar m.2

theorem Scalar.sortKeys {j : Json} (h : Scalar j) : j.sortKeys = j := by
  cases j <;> first | rfl | exact h.elim

theorem Scalar.exact {j : Json} (h : Scalar j) : j.Exact := by
  cases j <;> trivial

@[simp] theorem scalar_ofOption {α : Type} {f : α → Json} {o : Option α} (hf : ∀ a, Scalar (f a)) :
    Scalar (ofOption f o) := by
  cases o with
  | none => trivial
  | some a => exact hf a

variable {members : List (String × Json)}

theorem Flat.sortMembers (h : Flat members) : sortMembers members = members := by
  rw [sortMembers_eq_map]
  have hsame : ∀ m ∈ members, ((m.1, m.2.sortKeys) : String × Json) = m := fun m hm => by
    rw [(h.scalar m hm).sortKeys]
  rw [List.map_congr_left hsame, List.map_id']

theorem Flat.exact (h : Flat members) : (Json.obj members).Exact := by
  rw [Json.Exact, exactMembers_iff]
  exact ⟨h.nodup, fun m hm => (h.scalar m hm).exact⟩

def sorted (members : List (String × Json)) : List (String × Json) := members.insertionSort keyLe

theorem Flat.jsonLoads (h : Flat members) : jsonLoads (jsonDumps (.obj members)) = .ok (sorted members) := by
  rw [Broker.jsonLoads, jsonDumps, decodeUtf8_utf8, Option.bind_some, loads_canonicalJson h.exact,
    Json.sortKeys, h.sortMembers]
  rfl

theorem Flat.get_sorted (h : Flat members) (name : String) : get (sorted members) name = get members name := by
  have hperm : (sorted members).Perm members := List.perm_insertionSort keyLe members
  have hnodup : ((sorted members).map Prod.fst).Nodup := (hperm.map Prod.fst).nodup_iff.mpr h.nodup
  refine Option.ext fun v => ?_
  constructor
  · intro hv
    exact Lib.Dict.lookup_eq_some_of_mem h.nodup (hperm.mem_iff.mp (Lib.Dict.mem_of_lookup_eq_some hv))
  · intro hv
    exact Lib.Dict.lookup_eq_some_of_mem hnodup (hperm.mem_iff.mpr (Lib.Dict.mem_of_lookup_eq_some hv))

theorem Flat.sorted (h : Flat members) : Flat (Broker.sorted members) := by
  have hperm : (Broker.sorted members).Perm members := List.perm_insertionSort keyLe members
  exact ⟨(hperm.map Prod.fst).nodup_iff.mpr h.nodup, fun m hm => h.scalar m (hperm.mem_iff.mp hm)⟩

theorem Flat.scalar_get (h : Flat members) {name : String} {v : Json} (hv : get members name = some v) :
    Scalar v :=
  h.scalar (name, v) (Lib.Dict.mem_of_lookup_eq_some hv)

theorem flat_request (requestId : String) (call : Call) : Flat (call.request requestId) := by
  cases call with
  | fetch archiveUrl forceRefresh =>
    exact ⟨by simp [Call.request], by simp [Call.request]⟩
  | streamToFile v =>
    cases hcik : v.accessionCik <;> cases hroot : v.stagingRoot <;>
      exact ⟨by simp [Call.request, hroot], by simp [Call.request, hcik, hroot]⟩

structure Reply.WellFormed (r : Reply) : Prop where
  flat : Flat r.header
  counted : payloadLength r.header = some r.payload.length

theorem payloadLength_int {n : Nat} (h : get members "payload_length" = some (.int n)) :
    payloadLength members = some n := by
  rw [payloadLength, h]
  rcases Nat.eq_zero_or_pos n with rfl | hn
  · rfl
  · have htrue : (Json.int n).truthy = true := by simp [Json.truthy]; omega
    simp [htrue]

theorem fetch_payloadLength (archiveUrl : String) (forceRefresh : Bool) (client : HttpClient) :
    (fetch archiveUrl forceRefresh client).payloadLength =
      ((fetch archiveUrl forceRefresh client).payload.getD []).length := by
  unfold fetch
  split
  · rfl
  · split
    · rfl
    · split <;> rfl

theorem wellFormed_fetch {requestId : Json} (hid : Scalar requestId) {r : FetchResult}
    (h : r.payloadLength = (r.payload.getD []).length) :
    Reply.WellFormed ⟨fetchHeader requestId r, r.payload.getD []⟩ := by
  refine ⟨⟨by simp [fetchHeader], ?_⟩, ?_⟩
  · simp [fetchHeader, hid]
  · exact h ▸ payloadLength_int rfl

theorem wellFormed_respond {request : List (String × Json)} (h : Flat request) (client : HttpClient)
    (stream : StreamReply) : (respond request client stream).WellFormed := by
  have hid : Scalar ((get request "request_id").getD .null) := by
    cases hget : get request "request_id" with
    | none => trivial
    | some v => exact h.scalar_get hget
  unfold respond
  split
  · refine ⟨⟨by simp [streamHeader], ?_⟩, rfl⟩
    simp [streamHeader, hid]
  · split
    · exact wellFormed_fetch hid (fetch_payloadLength _ _ _)
    · refine ⟨⟨by simp [malformedHeader], ?_⟩, rfl⟩
      simp [malformedHeader, hid]

theorem Reply.WellFormed.sorted {r : Reply} (h : r.WellFormed) :
    payloadLength (Broker.sorted r.header) = some r.payload.length := by
  have hget := h.flat.get_sorted "payload_length"
  rw [payloadLength, hget]
  exact h.counted

theorem receive_prefix {r : Reply} {raw got : Bytes} (h : r.WellFormed) (hraw : r.bytes = some raw)
    (hgot : got <+: raw) :
    (got = raw ∧ receive got = .done (sorted r.header) r.payload) ∨
    (got ≠ raw ∧ ∃ count, 0 < count ∧ receive got = .wants count) := by
  obtain ⟨framed, hframed, rfl⟩ := Option.map_eq_some_iff.mp hraw
  obtain ⟨size, hsize, rfl⟩ := Option.map_eq_some_iff.mp hframed
  obtain ⟨hfour, hcount⟩ := packLength_eq_some hsize
  have hlength : got.length ≤ (size ++ jsonDumps (.obj r.header) ++ r.payload).length := hgot.length_le
  simp only [List.length_append, hfour] at hlength
  unfold receive
  split
  · rename_i hshort
    refine Or.inr ⟨?_, _, by omega, rfl⟩
    rintro rfl
    simp only [List.length_append, hfour] at hshort
    omega
  · rename_i hlong
    have htake : got.take 4 = size := by
      have hstart := List.prefix_iff_eq_take.mp hgot
      rw [hstart, List.take_take, min_eq_left (by omega), List.append_assoc,
        List.take_append_of_le_length (by omega), List.take_of_length_le (by omega)]
    rw [htake, hcount]
    dsimp only
    split
    · rename_i hshort
      refine Or.inr ⟨?_, _, by omega, rfl⟩
      rintro rfl
      simp only [List.length_append, hfour] at hshort
      omega
    · rename_i hheader
      obtain ⟨rest, hrest⟩ := hgot
      have hdrop : (got.drop 4).take (jsonDumps (.obj r.header)).length = jsonDumps (.obj r.header) := by
        have hboth : (got ++ rest).drop 4 = jsonDumps (.obj r.header) ++ r.payload := by
          rw [hrest, List.append_assoc, List.drop_append, hfour]
          simp [List.drop_of_length_le (Nat.le_of_eq hfour)]
        rw [List.drop_append_of_le_length (by omega)] at hboth
        have htake' := congrArg (List.take (jsonDumps (.obj r.header)).length) hboth
        rw [List.take_append_of_le_length (by simp; omega), List.take_left] at htake'
        exact htake'
      rw [hdrop, h.flat.jsonLoads]
      dsimp only
      rw [h.sorted]
      dsimp only
      split
      · rename_i hshort
        refine Or.inr ⟨?_, _, by omega, rfl⟩
        rintro rfl
        simp only [List.length_append, hfour] at hshort
        omega
      · rename_i hbody
        have hnil : rest = [] := by
          have hall := congrArg List.length hrest
          simp only [List.length_append, hfour] at hall
          exact List.length_eq_zero_iff.mp (by omega)
        subst hnil
        rw [List.append_nil] at hrest
        refine Or.inl ⟨hrest, ?_⟩
        have hlen : 4 + (jsonDumps (.obj r.header)).length =
            (size ++ jsonDumps (.obj r.header)).length := by rw [List.length_append, hfour]
        rw [hrest, hlen, List.drop_left]

end EdgarSec.Broker
