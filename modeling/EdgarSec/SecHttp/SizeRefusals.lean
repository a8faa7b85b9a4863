import EdgarSec.SecHttp.LedgerEffects

/-! What a refusal for its size means to a later call with another limit. -/

namespace EdgarSec.SecHttp
open Foundation Lib

/-! ## Histories -/

inductive Wanted where
  | bytes (s : FetchSurroundings) (fetch : Fetch)
  | json (s : FetchSurroundings) (fetch : Fetch) (loads : Bytes → Parsed)
  | file (s : Surroundings) (call : StreamCall)

structure ClientCall where
  cacheDir : Option String
  client : Client
  wanted : Wanted

def Wanted.url : Wanted → String
  | .bytes _ fetch => fetch.url
  | .json _ fetch _ => fetch.url
  | .file _ call => call.url

/-- A step of a history: a call, or the rows `clear_cache` has chosen deleted. -/
inductive Op where
  | call (c : ClientCall)
  | clear (cacheDir : String) (responses : CachedResponse → Bool) (failures : FailureEntry → Bool)

structure Host where
  folder : Folder
  stores : Dict String Store

def Host.store (h : Host) (cacheDir : Option String) : Option Store :=
  cacheDir.map fun dir => (h.stores.get? dir).getD .empty

def Host.put (h : Host) (cacheDir : Option String) (store : Option Store) : Host :=
  match cacheDir, store with
  | some dir, some store => { h with stores := h.stores.set dir store }
  | _, _ => h

inductive Outcome where
  | fetched (result : FetchResult)
  | streamed (result : StreamResult)
  deriving DecidableEq, Repr

structure Effect where
  folder : Folder
  store : Option Store
  outcome : Outcome
  requests : Nat

section Steps
variable (sha256 : Bytes → String)

def Surroundings.hashing (s : Surroundings) : Surroundings := { s with sha256 := sha256 }

def Wanted.perform (client : Client) (folder : Folder) (store : Option Store) : Wanted → Effect
  | .bytes s fetch =>
    let out := getBytes sha256 s client fetch ⟨store, 0⟩
    ⟨folder, out.1.store, .fetched out.2, out.1.sent⟩
  | .json s fetch loads =>
    let out := getJson sha256 s client fetch loads ⟨store, 0⟩
    ⟨folder, out.1.store, .fetched out.2, out.1.sent⟩
  | .file s call =>
    let out := streamToFile (s.hashing sha256) client call ⟨folder, store.map (·.failures), []⟩
    ⟨out.1.folder, store.map fun st => { st with failures := out.1.ledger.getD st.failures },
      .streamed out.2, out.1.sent.length⟩

def ClientCall.effect (h : Host) (c : ClientCall) : Effect :=
  c.wanted.perform sha256 c.client h.folder (h.store c.cacheDir)

def step (h : Host) : Op → Host
  | .call c =>
    let effect := c.effect sha256 h
    Host.put { h with folder := effect.folder } c.cacheDir effect.store
  | .clear dir responses failures =>
    let store := (h.stores.get? dir).getD .empty
    let kept : Store := ⟨store.responses.filter fun row => !responses row.2,
      store.failures.filter fun row => !failures row.2⟩
    { h with stores := h.stores.set dir kept }

def run (h : Host) (history : List Op) : Host := history.foldl (step sha256) h

end Steps

def Outcome.Succeeded : Outcome → Prop
  | .fetched result => ∃ payload, result = .content payload
  | .streamed result => ∃ response, result = .streamed response

def Outcome.TooLarge : Outcome → Prop
  | .fetched result => ∃ e, result = .tooLarge e
  | .streamed result => ∃ f, result = .failed f ∧ f.code = .responseTooLarge

/-! ## What the transport answers -/

section Served
variable (sha256 : Bytes → String)

def FetchServed (s : FetchSurroundings) (client : Client) (fetch : Fetch) (good : Bytes → Prop) :
    Nat → Nat → FetchWorld → Prop
  | 0, _, _ => False
  | left + 1, attempt, w =>
    (∃ retryAfter content, s.answer w.sent = .answered 200 retryAfter content ∧
      exceeded client content = none ∧ good content) ∨
    ∃ w', fetchOnce sha256 s client fetch attempt (left = 0) w = (w', .again) ∧
      s.waits attempt = true ∧ FetchServed s client fetch good left (attempt + 1) w'

def StreamServed (s : Surroundings) (call : StreamCall) : Nat → Nat → World → Prop
  | 0, _, _ => False
  | left + 1, attempt, w =>
    (∃ w' r currentUrl content, exchange s attempt followedRedirects w call.url =
        (w', .answered r currentUrl) ∧ r.status = 200 ∧ Opened s call attempt r ∧
      receiveAll s call attempt r = .complete content ∧ content ≠ [] ∧
      (s.disk attempt).sync = true ∧ (s.disk attempt).close = true ∧ (s.disk attempt).replace = true) ∨
    ∃ w', attemptOnce s call attempt (left = 0) w = (w', .again) ∧ s.waits attempt = true ∧
      StreamServed s call left (attempt + 1) w'

/-- Without the failures on record the call would succeed: the transport answers 200 with a
response within the limit, and what is on this side works. -/
def Wanted.Served (client : Client) (folder : Folder) (store : Option Store) : Wanted → Prop
  | .bytes s fetch => s.putReturns = true ∧ s.clearReturns = true ∧
      FetchServed sha256 s client fetch (fun _ => True) (client.maxRetries + 1).toNat 0 ⟨store, 0⟩
  | .json s fetch loads => s.putReturns = true ∧ s.clearReturns = true ∧
      (∀ payload, cachedPayload sha256 s fetch store = some payload → loads payload = .object) ∧
      FetchServed sha256 s client fetch (fun payload => loads payload = .object)
        (client.maxRetries + 1).toNat 0 ⟨store, 0⟩
  | .file s call => 0 < call.maxResponseBytes ∧ s.clearReturns = true ∧
      StreamServed (s.hashing sha256) call (attemptBudget client) 0
        ⟨folder, store.map (·.failures), []⟩

def Wanted.Cached (store : Option Store) : Wanted → Prop
  | .bytes s fetch => cachedPayload sha256 s fetch store ≠ none
  | .json s fetch _ => cachedPayload sha256 s fetch store ≠ none
  | .file _ _ => False

/-- A step that leaves the failures of a URL in a directory alone: its calls mind the failures
on record, and no clearing deletes failures. -/
def Op.Minds (cacheDir : Option String) (url : String) : Op → Prop
  | .call c => c.cacheDir = cacheDir → sha256Text sha256 c.wanted.url = sha256Text sha256 url →
      c.client.ignoreFailureHistory = false
  | .clear dir _ failures => cacheDir = some dir → ∀ entry, failures entry = false

end Served

section Attempts
variable {attempt : Nat}

theorem attempts_served {s : Surroundings} {call : StreamCall} {w : World} {left : Nat}
    (hclear : s.clearReturns = true)
    (h : StreamServed s call left attempt w) :
    ∃ response, (attempts s call left attempt w).2 = .streamed response := by
  induction left generalizing attempt w with
  | zero => exact h.elim
  | succ left ih =>
    rw [attempts]
    rcases h with ⟨w₁, r, currentUrl, content, hexchange, hstatus, hopened, hreceived, hne, hsync,
      hclose, hreplace⟩ | ⟨w₁, hagain, hwaits, hrest⟩
    · have honce : ∃ w₂, attemptOnce s call attempt (left = 0) w =
          (w₂, .done (.streamed (streamedResponse s call r currentUrl content))) := by
        unfold attemptOnce
        rw [hexchange]
        simp only
        rw [if_pos hstatus, download, if_neg (not_lt.mpr hopened.1), if_neg (by simp [hopened.2])]
        simp only [hreceived]
        rw [if_neg hne, publish, if_neg (by simp [hsync]), if_neg (by simp [hclose, hreplace])]
        simp only [hclear, if_true]
        split
        · exact ⟨_, rfl⟩
        · exact ⟨_, rfl⟩
      obtain ⟨w₂, honce⟩ := honce
      rw [honce]
      exact ⟨_, rfl⟩
    · rw [hagain]
      simp only
      rw [if_pos hwaits]
      exact ih hrest

theorem fetchAttempts_served {sha256 : Bytes → String} {s : FetchSurroundings} {client : Client}
    {fetch : Fetch} {w : FetchWorld} {good : Bytes → Prop} {left : Nat} (hput : s.putReturns = true)
    (hclear : s.clearReturns = true) (h : FetchServed sha256 s client fetch good left attempt w) :
    ∃ payload, (fetchAttempts sha256 s client fetch left attempt w).2 = .content payload ∧
      good payload := by
  induction left generalizing attempt w with
  | zero => exact h.elim
  | succ left ih =>
    rw [fetchAttempts]
    rcases h with ⟨retryAfter, content, hanswer, hfits, hgood⟩ | ⟨w₁, hagain, hwaits, hrest⟩
    · have honce : ∃ w₂, fetchOnce sha256 s client fetch attempt (left = 0) w =
          (w₂, .done (.content content)) := by
        rw [fetchOnce, hanswer, settle, if_pos rfl, hfits]
        simp only
        unfold accept
        split
        · exact ⟨_, rfl⟩
        · rw [if_neg (by simp [hput]), if_pos hclear]
          exact ⟨_, rfl⟩
      obtain ⟨w₂, honce⟩ := honce
      rw [honce]
      exact ⟨content, rfl, hgood⟩
    · rw [hagain]
      simp only
      rw [if_pos hwaits]
      exact ih hrest

end Attempts

/-! ## Calls that mind the failures on record -/

section Calls
variable {sha256 : Bytes → String} {client : Client} {folder : Folder} {store : Option Store}

theorem failuresOf_file (s : Surroundings) (call : StreamCall) :
    failuresOf (((Wanted.file s call).perform sha256 client folder store).store) =
      (streamToFile (s.hashing sha256) client call
        ⟨folder, failuresOf store, []⟩).1.ledger := by
  have hentered := @entered_streamToFile (s.hashing sha256) call
    ⟨folder, failuresOf store, []⟩ client
  have hthere := hentered.framed.there
  simp only [Wanted.perform, failuresOf] at hthere ⊢
  cases store with
  | none =>
    symm
    simpa using hthere
  | some st =>
    simp only [Option.map_some, Option.isSome_some] at hthere ⊢
    obtain ⟨l, hl⟩ := Option.isSome_iff_exists.mp hthere
    rw [hl]
    rfl

theorem framed_perform (wanted : Wanted) :
    Framed sha256 wanted.url (failuresOf store)
      (failuresOf (wanted.perform sha256 client folder store).store) := by
  cases wanted with
  | bytes s fetch => exact (@entered_getBytes sha256 s client fetch ⟨store, 0⟩).framed
  | json s fetch loads => exact (@entered_getJson sha256 s client fetch ⟨store, 0⟩ loads).framed
  | file s call =>
    rw [failuresOf_file]
    exact (@entered_streamToFile (s.hashing sha256) call ⟨folder, failuresOf store, []⟩ client).framed

theorem marked_of_tooLarge (wanted : Wanted) (hstore : store ≠ none)
    (h : (wanted.perform sha256 client folder store).outcome.TooLarge) :
    Marked sha256 (failuresOf (wanted.perform sha256 client folder store).store) wanted.url := by
  have hsome : failuresOf store ≠ none := by simpa [failuresOf] using hstore
  cases wanted with
  | bytes s fetch =>
    obtain ⟨e, he⟩ := h
    exact (@entered_getBytes sha256 s client fetch ⟨store, 0⟩).tooLarge e he hsome
  | json s fetch loads =>
    obtain ⟨e, he⟩ := h
    exact (@entered_getJson sha256 s client fetch ⟨store, 0⟩ loads).tooLarge e he hsome
  | file s call =>
    obtain ⟨f, hf, hcode⟩ := h
    rw [failuresOf_file]
    have hentered := @entered_streamToFile (s.hashing sha256) call ⟨folder, failuresOf store, []⟩ client
    exact hentered.tooLarge f hf hcode hsome

theorem marked_perform {url : String} (wanted : Wanted)
    (h : Marked sha256 (failuresOf store) url)
    (hminds : sha256Text sha256 wanted.url = sha256Text sha256 url →
      client.ignoreFailureHistory = false) :
    Marked sha256 (failuresOf (wanted.perform sha256 client folder store).store) url := by
  by_cases hdigest : sha256Text sha256 wanted.url = sha256Text sha256 url
  · have hmarked : Marked sha256 (failuresOf store) wanted.url := (marked_congr hdigest).mpr h
    have hbarred := barred_of_marked hmarked (hminds hdigest)
    rw [← marked_congr hdigest]
    cases wanted with
    | bytes s fetch =>
      obtain ⟨hsame, -⟩ := @getBytes_barred sha256 s client fetch ⟨store, 0⟩ hbarred
      simp only [Wanted.perform, hsame]
      exact hmarked
    | json s fetch loads =>
      obtain ⟨hsame, ⟨payload, -, hresult⟩ | ⟨-, e, hresult⟩⟩ :=
        @getBytes_barred sha256 s client fetch ⟨store, 0⟩ hbarred
      · have hout : getBytes sha256 s client fetch ⟨store, 0⟩ = (⟨store, 0⟩, .content payload) :=
          Prod.ext hsame hresult
        simp only [Wanted.perform, getJson, hout]
        cases hloads : loads payload with
        | malformed detail =>
          -- the failure on record is replaced by another permanent one
          simp only [recorded]
          cases store with
          | none => exact hmarked
          | some st =>
            simp only
            split
            · exact marked_record st.failures rfl
            · exact hmarked
        | object => exact hmarked
        | other => exact hmarked
        | raised detail => exact hmarked
      · have hout : getBytes sha256 s client fetch ⟨store, 0⟩ = (⟨store, 0⟩, .permanent e) :=
          Prod.ext hsame hresult
        simp only [Wanted.perform, getJson, hout]
        exact hmarked
    | file s call =>
      rw [failuresOf_file]
      obtain ⟨hsame, -⟩ := @streamToFile_barred (s.hashing sha256) call
        ⟨folder, failuresOf store, []⟩ client hbarred
      rw [hsame]
      exact hmarked
  · have hframed := @framed_perform sha256 client folder store wanted
    unfold Marked
    rw [hframed.others url (fun he => hdigest he.symm)]
    exact h

theorem getBytes_served {s : FetchSurroundings} {fetch : Fetch} {good : Bytes → Prop}
    (hput : s.putReturns = true) (hclear : s.clearReturns = true)
    (hgood : ∀ payload, cachedPayload sha256 s fetch store = some payload → good payload)
    (hserved : FetchServed sha256 s client fetch good (client.maxRetries + 1).toNat 0 ⟨store, 0⟩) :
    ((cachedPayload sha256 s fetch store ≠ none ∨ ¬ Barred sha256 client (failuresOf store) fetch.url) ∧
      ∃ w payload, getBytes sha256 s client fetch ⟨store, 0⟩ = (w, .content payload) ∧ good payload) ∨
    ((cachedPayload sha256 s fetch store = none ∧ Barred sha256 client (failuresOf store) fetch.url) ∧
      ∃ e, getBytes sha256 s client fetch ⟨store, 0⟩ = (⟨store, 0⟩, .permanent e)) := by
  by_cases hbarred : Barred sha256 client (failuresOf store) fetch.url
  · obtain ⟨hsame, ⟨payload, hpayload, hresult⟩ | ⟨hcached, e, hresult⟩⟩ :=
      @getBytes_barred sha256 s client fetch ⟨store, 0⟩ hbarred
    · have hcached : cachedPayload sha256 s fetch store ≠ none := fun hnone => by
        rw [hnone] at hpayload
        cases hpayload
      exact Or.inl ⟨Or.inl hcached, _, payload, Prod.ext hsame hresult, hgood payload hpayload⟩
    · exact Or.inr ⟨⟨hcached, hbarred⟩, e, Prod.ext hsame hresult⟩
  · refine Or.inl ⟨Or.inr hbarred, ?_⟩
    unfold getBytes
    cases hcached : cachedPayload sha256 s fetch store with
    | some payload => exact ⟨_, payload, rfl, hgood payload hcached⟩
    | none =>
      have hskip : preflightSkip sha256 client (store.map (·.failures)) fetch.url = none :=
        preflightSkip_eq_none_iff.mpr hbarred
      obtain ⟨payload, hresult, hpayload⟩ := fetchAttempts_served hput hclear hserved
      simp only [hskip]
      exact ⟨_, payload, Prod.ext rfl hresult, hpayload⟩

theorem perform_served {wanted : Wanted} (h : wanted.Served sha256 client folder store) :
    ((wanted.perform sha256 client folder store).outcome.Succeeded ↔
      wanted.Cached sha256 store ∨ ¬ Barred sha256 client (failuresOf store) wanted.url) ∧
    (¬ (wanted.perform sha256 client folder store).outcome.Succeeded →
      (wanted.perform sha256 client folder store).requests = 0) := by
  cases wanted with
  | bytes s fetch =>
    obtain ⟨hput, hclear, hserved⟩ := h
    obtain ⟨hfree, w, payload, hout, -⟩ | ⟨⟨hcached, hbarred⟩, e, hout⟩ :=
      getBytes_served hput hclear (fun _ _ => trivial) hserved
    · have hsucceeded : ((Wanted.bytes s fetch).perform sha256 client folder store).outcome.Succeeded := by
        refine ⟨payload, ?_⟩
        rw [hout]
      exact ⟨⟨fun _ => hfree, fun _ => hsucceeded⟩, fun hnot => absurd hsucceeded hnot⟩
    · simp [Wanted.perform, Outcome.Succeeded, Wanted.Cached, Wanted.url, hout, hcached, hbarred]
  | json s fetch loads =>
    obtain ⟨hput, hclear, hloads, hserved⟩ := h
    obtain ⟨hfree, w, payload, hout, hobject⟩ | ⟨⟨hcached, hbarred⟩, e, hout⟩ :=
      getBytes_served hput hclear hloads hserved
    · have hsucceeded :
          ((Wanted.json s fetch loads).perform sha256 client folder store).outcome.Succeeded := by
        refine ⟨payload, ?_⟩
        simp only [getJson, hout, hobject]
      exact ⟨⟨fun _ => hfree, fun _ => hsucceeded⟩, fun hnot => absurd hsucceeded hnot⟩
    · simp [Wanted.perform, getJson, Outcome.Succeeded, Wanted.Cached, Wanted.url, hout, hcached, hbarred]
  | file s call =>
    obtain ⟨hlimit, hclear, hserved⟩ := h
    by_cases hbarred : Barred sha256 client (failuresOf store) call.url
    · obtain ⟨hsame, hnone⟩ := @streamToFile_barred (s.hashing sha256) call
        ⟨folder, failuresOf store, []⟩ client hbarred
      have hfailed : ¬ (Outcome.streamed (streamToFile (s.hashing sha256) client call
          ⟨folder, failuresOf store, []⟩).2).Succeeded := fun ⟨response, hresponse⟩ =>
        hnone response hresponse
      refine ⟨⟨fun hs => absurd hs hfailed, ?_⟩, fun _ => ?_⟩
      · rintro (hcached | hnot)
        · exact hcached.elim
        · exact absurd hbarred hnot
      · exact congrArg (fun w => w.sent.length) hsame
    · have hskip : preflightSkip (s.hashing sha256).sha256 client (failuresOf store) call.url = none :=
        preflightSkip_eq_none_iff.mpr hbarred
      obtain ⟨response, hresult⟩ := @attempts_served 0 (s.hashing sha256) call _ _ hclear hserved
      have hsucceeded : (Outcome.streamed (streamToFile (s.hashing sha256) client call
          ⟨folder, failuresOf store, []⟩).2).Succeeded := by
        refine ⟨response, ?_⟩
        unfold streamToFile
        rw [if_neg (not_le.mpr hlimit), hskip]
        exact hresult
      exact ⟨⟨fun _ => Or.inr hbarred, fun _ => hsucceeded⟩, fun hnot => absurd hsucceeded hnot⟩

end Calls

/-! ## Histories of calls -/

section Runs
variable {sha256 : Bytes → String} {h : Host} {url : String}

theorem store_put (cacheDir dir : Option String) (store : Option Store)
    (hsome : cacheDir ≠ none → store ≠ none) :
    (h.put cacheDir store).store dir =
      if dir = cacheDir ∧ cacheDir ≠ none then store else h.store dir := by
  cases cacheDir with
  | none => simp [Host.put]
  | some name =>
    obtain ⟨st, rfl⟩ := Option.ne_none_iff_exists'.mp (hsome (by simp))
    cases dir with
    | none => simp [Host.put, Host.store]
    | some other =>
      simp only [Host.put, Host.store, Option.map_some, Dict.get?_set, Option.some.injEq]
      by_cases hname : other = name
      · simp [hname]
      · simp [hname]

theorem store_step_call (c : ClientCall) (dir : Option String) :
    (step sha256 h (.call c)).store dir =
      if dir = c.cacheDir ∧ c.cacheDir ≠ none then (c.effect sha256 h).store else h.store dir := by
  have hthere : (c.effect sha256 h).store.isSome = (h.store c.cacheDir).isSome := by
    simpa [failuresOf, ClientCall.effect] using
      (@framed_perform sha256 c.client h.folder (h.store c.cacheDir) c.wanted).there
  refine (store_put c.cacheDir dir _ fun hdir hnone => ?_).trans rfl
  obtain ⟨name, hname⟩ := Option.ne_none_iff_exists'.mp hdir
  rw [hnone, hname] at hthere
  simp [Host.store] at hthere

theorem marked_step {cacheDir : Option String} {op : Op}
    (hmarked : Marked sha256 (failuresOf (h.store cacheDir)) url)
    (hminds : op.Minds sha256 cacheDir url) :
    Marked sha256 (failuresOf ((step sha256 h op).store cacheDir)) url := by
  cases op with
  | call c =>
    rw [store_step_call]
    split
    · rename_i hsame
      obtain ⟨rfl, -⟩ := hsame
      exact marked_perform c.wanted hmarked (hminds rfl)
    · exact hmarked
  | clear dir responses failures =>
    cases cacheDir with
    | none => exact hmarked
    | some name =>
      by_cases hname : name = dir
      · subst hname
        have hkept : ∀ entry, failures entry = false := hminds rfl
        have hall : ((h.stores.get? name).getD .empty).failures.filter (fun row => !failures row.2) =
            ((h.stores.get? name).getD .empty).failures :=
          Dict.filter_eq_self fun e _ => by simp [hkept]
        simp only [step, Host.store, Option.map_some, Dict.get?_set, if_true, Option.getD_some,
          failuresOf, hall]
        exact hmarked
      · simp only [step, Host.store, Option.map_some, Dict.get?_set, hname, if_false]
        exact hmarked

theorem marked_run {cacheDir : Option String} {history : List Op}
    (hmarked : Marked sha256 (failuresOf (h.store cacheDir)) url)
    (hminds : ∀ op ∈ history, op.Minds sha256 cacheDir url) :
    Marked sha256 (failuresOf ((run sha256 h history).store cacheDir)) url := by
  induction history generalizing h with
  | nil => exact hmarked
  | cons op history ih =>
    have hstep := marked_step hmarked (hminds op List.mem_cons_self)
    exact ih hstep fun op' hop' => hminds op' (List.mem_cons_of_mem op hop')

def before (sha256 : Bytes → String) (h : Host) (earlier : List Op) (refused : ClientCall)
    (between : List Op) : Host :=
  run sha256 h (earlier ++ .call refused :: between)

/-- After a refusal for the size, a later call for the URL whose response is within its limit
succeeds exactly when the cache answers it or nothing on record keeps it from its requests; when
it fails, it has made none. Where the calls between mind the failures on record and none are
cleared, only a client that ignores them gets through. -/
theorem laterCall_succeeds_iff {earlier between : List Op} {refused later : ClientCall}
    (hrefused : (refused.effect sha256 (run sha256 h earlier)).outcome.TooLarge)
    (hurl : later.wanted.url = refused.wanted.url)
    (hserved : later.wanted.Served sha256 later.client (before sha256 h earlier refused between).folder
      ((before sha256 h earlier refused between).store later.cacheDir)) :
    let host := before sha256 h earlier refused between
    ((later.effect sha256 host).outcome.Succeeded ↔
      later.wanted.Cached sha256 (host.store later.cacheDir) ∨
      ¬ Barred sha256 later.client (failuresOf (host.store later.cacheDir)) later.wanted.url) ∧
    (¬ (later.effect sha256 host).outcome.Succeeded → (later.effect sha256 host).requests = 0) ∧
    (later.cacheDir = refused.cacheDir → refused.cacheDir ≠ none →
      (∀ op ∈ between, op.Minds sha256 refused.cacheDir refused.wanted.url) →
      ((later.effect sha256 host).outcome.Succeeded ↔
        later.wanted.Cached sha256 (host.store later.cacheDir) ∨
        later.client.ignoreFailureHistory = true)) := by
  intro host
  obtain ⟨hsucceeds, hrequests⟩ := perform_served hserved
  refine ⟨hsucceeds, hrequests, fun hdir hcache hminds => ?_⟩
  have hrecorded : Marked sha256 (failuresOf ((step sha256 (run sha256 h earlier)
      (.call refused)).store refused.cacheDir)) refused.wanted.url := by
    rw [store_step_call, if_pos ⟨rfl, hcache⟩]
    refine marked_of_tooLarge refused.wanted ?_ hrefused
    obtain ⟨name, hname⟩ := Option.ne_none_iff_exists'.mp hcache
    simp [hname, Host.store]
  have hmarked : Marked sha256 (failuresOf (host.store later.cacheDir)) later.wanted.url := by
    have hrun := marked_run hrecorded hminds
    rw [hdir, hurl]
    simpa only [host, before, run, List.foldl_append, List.foldl_cons] using hrun
  refine hsucceeds.trans (or_congr_right ?_)
  constructor
  · intro hfree
    by_contra hignore
    exact hfree (barred_of_marked hmarked (by simpa using hignore))
  · intro hignore hbarred
    simp [hbarred.1] at hignore

end Runs

/-! ## Two limits -/

def steadyServer : Surroundings :=
  { fullDisk with
    reply := fun _ => .response { status := 200, chunks := [[60, 97, 47, 62]] }
    disk := fun _ => {} }

def archiveCall (maxResponseBytes : Int) (ignoreFailureHistory : Bool) : ClientCall where
  cacheDir := some "cache"
  client := { oneAttempt with ignoreFailureHistory := ignoreFailureHistory }
  wanted := .file steadyServer ⟨"https://www.sec.gov/Archives/a.txt", "a.txt", maxResponseBytes⟩

def archiveDigest (_ : Bytes) : String :=
  "8a5a22abce081587db4d57fec5437eaf0ebbcb16845a1fa726f336d5fe4b30b5"

def newHost : Host := ⟨.empty, .empty⟩

theorem archiveCall_tooLarge :
    ((archiveCall 3 false).effect archiveDigest (run archiveDigest newHost [])).outcome.TooLarge :=
  ⟨_, rfl, rfl⟩

theorem archiveCall_served (ignoreFailureHistory : Bool) (folder : Folder) (store : Option Store) :
    (archiveCall 4 ignoreFailureHistory).wanted.Served archiveDigest
      (archiveCall 4 ignoreFailureHistory).client folder store := by
  refine ⟨by decide, rfl, Or.inl ⟨_, _, _, [60, 97, 47, 62], rfl, rfl, ⟨by decide, rfl⟩, rfl, ?_⟩⟩
  exact ⟨by simp, rfl, rfl, rfl⟩

/-- With the failures on record ignored the larger limit is enough. -/
theorem laterCall_ignoring_succeeds :
    ((archiveCall 4 true).effect archiveDigest
      (before archiveDigest newHost [] (archiveCall 3 false) [])).outcome.Succeeded := by
  have hcall := @laterCall_succeeds_iff archiveDigest newHost [] [] (archiveCall 3 false)
    (archiveCall 4 true) archiveCall_tooLarge rfl (archiveCall_served true _ _)
  have hminds : ∀ op ∈ ([] : List Op), op.Minds archiveDigest (archiveCall 3 false).cacheDir
      (archiveCall 3 false).wanted.url := fun _ hop => absurd hop List.not_mem_nil
  exact (hcall.2.2 rfl (by simp [archiveCall]) hminds).mpr (Or.inr rfl)

/-- The limit of three bytes refuses the file, and the limit of four gets it no more: the call
fails without a request. -/
theorem laterCall_refused_without_request :
    ((archiveCall 3 false).effect archiveDigest newHost).outcome.TooLarge ∧
      (let host := before archiveDigest newHost [] (archiveCall 3 false) []
      (archiveCall 4 false).wanted.Served archiveDigest (archiveCall 4 false).client host.folder
          (host.store (some "cache")) ∧
        ¬ ((archiveCall 4 false).effect archiveDigest host).outcome.Succeeded ∧
        ((archiveCall 4 false).effect archiveDigest host).requests = 0) := by
  refine ⟨archiveCall_tooLarge, archiveCall_served false _ _, ?_, rfl⟩
  intro ⟨response, hresponse⟩
  cases hresponse

end EdgarSec.SecHttp
