import EdgarSec.SecHttp.Fetching
import EdgarSec.SecHttp.AllOrNothing

/-! What the calls of a client write to the failure ledger, and the calls that an entry there
keeps from their requests. -/

namespace EdgarSec.SecHttp
open Foundation Lib

/-! ## Failures on record -/

section Record
variable (sha256 : Bytes → String)

def onRecord (ledger : Option Ledger) (url : String) : Option FailureEntry :=
  ledger.bind fun l => l.load sha256 url

/-- The failure on record keeps the client from requesting the URL. -/
def Barred (client : Client) (ledger : Option Ledger) (url : String) : Prop :=
  client.ignoreFailureHistory = false ∧ ∃ entry, onRecord sha256 ledger url = some entry ∧
    (entry.permanent = true ∨
      0 < client.maxFailureAttempts ∧ client.maxFailureAttempts ≤ entry.failedRuns)

def Marked (ledger : Option Ledger) (url : String) : Prop :=
  ∃ entry, onRecord sha256 ledger url = some entry ∧ entry.permanent = true

end Record

section Ledgers
variable {sha256 : Bytes → String} {url : String}

theorem load_record (l : Ledger) (url : String) (report : FailureReport) (url' : String) :
    (l.record sha256 url report).load sha256 url' =
      if sha256Text sha256 url' = sha256Text sha256 url then
        some (Ledger.entryOf (l.load sha256 url) url report)
      else l.load sha256 url' :=
  Dict.get?_set l _ _ _

theorem load_clear (l : Ledger) (url url' : String) :
    (l.clear sha256 url).load sha256 url' =
      if sha256Text sha256 url' = sha256Text sha256 url then none else l.load sha256 url' :=
  Dict.get?_erase l _ _

structure Framed (sha256 : Bytes → String) (url : String) (l l' : Option Ledger) : Prop where
  there : l'.isSome = l.isSome
  others : ∀ url', sha256Text sha256 url' ≠ sha256Text sha256 url →
    onRecord sha256 l' url' = onRecord sha256 l url'

theorem Framed.refl (l : Option Ledger) : Framed sha256 url l l := ⟨rfl, fun _ _ => rfl⟩

theorem Framed.trans {l l' l'' : Option Ledger} (h : Framed sha256 url l l')
    (h' : Framed sha256 url l' l'') : Framed sha256 url l l'' where
  there := h'.there.trans h.there
  others url' hne := (h'.others url' hne).trans (h.others url' hne)

theorem framed_record (l : Ledger) (report : FailureReport) :
    Framed sha256 url (some l) (some (l.record sha256 url report)) where
  there := rfl
  others url' hne := by
    simp only [onRecord, Option.bind_some]
    rw [load_record, if_neg hne]

theorem framed_clear (l : Ledger) : Framed sha256 url (some l) (some (l.clear sha256 url)) where
  there := rfl
  others url' hne := by
    simp only [onRecord, Option.bind_some]
    rw [load_clear, if_neg hne]

theorem marked_record (l : Ledger) {report : FailureReport} (h : report.permanent = true) :
    Marked sha256 (some (l.record sha256 url report)) url := by
  refine ⟨Ledger.entryOf (l.load sha256 url) url report, ?_, h⟩
  simp only [onRecord, Option.bind_some]
  rw [load_record, if_pos rfl]

theorem preflightSkip_eq_none_iff {client : Client} {ledger : Option Ledger} :
    preflightSkip sha256 client ledger url = none ↔ ¬ Barred sha256 client ledger url := by
  unfold preflightSkip Barred onRecord
  cases hignore : client.ignoreFailureHistory with
  | true => simp
  | false =>
    simp only [Bool.false_eq_true, if_false, true_and]
    cases hentry : ledger.bind fun l => l.load sha256 url with
    | none => simp
    | some entry =>
      have hskip : skipReason client entry = none ↔ ¬ (entry.permanent = true ∨
          0 < client.maxFailureAttempts ∧ client.maxFailureAttempts ≤ entry.failedRuns) := by
        unfold skipReason
        split
        · rename_i hpermanent
          simp [hpermanent]
        · rename_i hpermanent
          split
          · rename_i hbudget
            simp [hbudget]
          · rename_i hbudget
            simp only [true_iff, not_or]
            exact ⟨hpermanent, hbudget⟩
      simp [hskip]

theorem barred_of_marked {client : Client} {ledger : Option Ledger}
    (h : Marked sha256 ledger url) (hminds : client.ignoreFailureHistory = false) :
    Barred sha256 client ledger url := by
  obtain ⟨entry, hentry, hpermanent⟩ := h
  exact ⟨hminds, entry, hentry, Or.inl hpermanent⟩

theorem preflightSkip_of_barred {client : Client} {ledger : Option Ledger}
    (h : Barred sha256 client ledger url) : ∃ skipped, preflightSkip sha256 client ledger url = some skipped := by
  have hne : preflightSkip sha256 client ledger url ≠ none :=
    fun hnone => preflightSkip_eq_none_iff.mp hnone h
  exact Option.ne_none_iff_exists'.mp hne

theorem onRecord_congr {ledger : Option Ledger} {url url' : String}
    (h : sha256Text sha256 url = sha256Text sha256 url') :
    onRecord sha256 ledger url = onRecord sha256 ledger url' := by
  unfold onRecord Ledger.load
  rw [h]

theorem marked_congr {ledger : Option Ledger} {url url' : String}
    (h : sha256Text sha256 url = sha256Text sha256 url') :
    Marked sha256 ledger url ↔ Marked sha256 ledger url' := by
  unfold Marked
  rw [onRecord_congr h]

end Ledgers

/-! ## Streams -/

section Streams
variable {s : Surroundings} {call : StreamCall} {attempt : Nat} {w : World}

structure Noted (s : Surroundings) (call : StreamCall) (l : Option Ledger) (out : World × Turn) :
    Prop where
  framed : Framed s.sha256 call.url l out.1.ledger
  again : out.2 = .again → out.1.ledger = l
  tooLarge : ∀ f, out.2 = .done (.failed f) → f.code = .responseTooLarge → l ≠ none →
    Marked s.sha256 out.1.ledger call.url

theorem noted_of_same {out : World × Turn} (h : out.1.ledger = w.ledger)
    (hturn : ∀ f, out.2 ≠ .done (.failed f)) : Noted s call w.ledger out where
  framed := by
    rw [h]
    exact Framed.refl _
  again _ := h
  tooLarge f hf := absurd hf (hturn f)

theorem noted_giveUp (code : StreamFailureCode) (detail : String) (retryable : Bool)
    (status : Option Int) (kind : String) (permanent : Bool)
    (hlarge : code = .responseTooLarge → permanent = true) :
    Noted s call w.ledger (giveUp s call w code detail retryable status kind permanent) := by
  unfold giveUp failure
  cases hledger : w.ledger with
  | none =>
    refine ⟨?_, fun h => by simp at h, fun _ _ _ hne => absurd rfl hne⟩
    simp only
    rw [hledger]
    exact Framed.refl _
  | some ledger =>
    simp only
    split
    · refine ⟨framed_record _ _, fun h => by simp at h, fun f hf hcode _ => ?_⟩
      obtain rfl := StreamResult.failed.inj (Turn.done.inj hf)
      exact marked_record ledger (hlarge hcode)
    · refine ⟨?_, fun h => by simp at h, fun f hf => by simp at hf⟩
      simp only
      rw [hledger]
      exact Framed.refl _

theorem noted_handle (last : Bool) (e : TransportError) :
    Noted s call w.ledger (handle s call last w e) := by
  have hagain : Noted s call w.ledger (w, .again) := noted_of_same rfl (by simp)
  cases e with
  | timeout detail =>
    rw [handle]
    split
    · exact noted_giveUp _ _ _ _ _ _ (by simp)
    · exact hagain
  | request detail =>
    rw [handle]
    split
    · exact noted_giveUp _ _ _ _ _ _ (by simp)
    · exact hagain
  | other detail => exact noted_of_same rfl (by simp [handle])

theorem noted_refuse (last : Bool) (status : Int) :
    Noted s call w.ledger (refuse s call last w status) := by
  unfold refuse
  split
  · exact noted_giveUp _ _ _ _ _ _ (by simp)
  · split
    · split
      · exact noted_giveUp _ _ _ _ _ _ (by simp)
      · exact noted_of_same rfl (by simp)
    · exact noted_giveUp _ _ _ _ _ _ (by simp)

theorem noted_discard (temporary : String) (code : StreamFailureCode) (detail : String)
    (status : Int) (kind : String) :
    Noted s call w.ledger (discard s call attempt w temporary code detail status kind) := by
  unfold discard
  split
  · exact @noted_giveUp s call (w.unlink temporary) _ _ _ _ _ _ (fun _ => rfl)
  · exact noted_of_same rfl (by simp)

theorem noted_cleanUp {out : World × Turn} {l : Option Ledger} (temporary : String)
    (h : Noted s call l out) : Noted s call l (cleanUp s attempt out.1 temporary out.2) := by
  unfold cleanUp
  split
  · exact ⟨h.framed, h.again, h.tooLarge⟩
  · exact ⟨h.framed, fun ha => by simp at ha, fun f hf => by simp at hf⟩

theorem noted_publish (temporary : String) (r : Response) (currentUrl : String) (content : Bytes) :
    Noted s call w.ledger (publish s call attempt w temporary r currentUrl content) := by
  unfold publish
  split
  · have hraised : Noted s call w.ledger (w, .done (.raised "OSError")) := noted_of_same rfl (by simp)
    exact noted_cleanUp temporary hraised
  · split
    · exact noted_of_same rfl (by simp)
    · cases hledger : w.ledger with
      | none =>
        simp only [World.write, World.unlink, hledger]
        exact ⟨Framed.refl _, fun h => by simp at h, fun f hf => by simp at hf⟩
      | some ledger =>
        simp only [World.write, World.unlink, hledger]
        split
        · exact ⟨framed_clear _, fun h => by simp at h, fun f hf => by simp at hf⟩
        · exact ⟨Framed.refl _, fun h => by simp at h, fun f hf => by simp at hf⟩

theorem noted_download (last : Bool) (r : Response) (currentUrl : String) :
    Noted s call w.ledger (download s call attempt last w r currentUrl) := by
  unfold download
  split
  · exact noted_giveUp _ _ _ _ _ _ (fun _ => rfl)
  · split
    · exact noted_of_same rfl (by simp)
    · cases hreceived : receiveAll s call attempt r with
      | failed content e =>
        apply noted_cleanUp
        exact @noted_handle s call (w.write (s.mkstemp w.folder) content) last e
      | tooLarge content => exact @noted_discard s call attempt (w.write _ content) _ _ _ _ _
      | complete content =>
        simp only
        split
        · exact @noted_discard s call attempt (w.write _ content) _ _ _ _ _
        · exact @noted_publish s call attempt (w.write _ content) _ _ _ _

theorem ledger_exchange {left : Nat} {url : String} :
    (exchange s attempt left w url).1.ledger = w.ledger := by
  induction left generalizing w url with
  | zero =>
    rcases hrequest : request s attempt w url with ⟨next, hop⟩
    obtain ⟨rfl, -, -⟩ := request_spec hrequest
    rw [exchange, hrequest]
    cases hop with
    | settled sent => rfl
    | redirected status redirectUrl => rfl
  | succ left ih =>
    rcases hrequest : request s attempt w url with ⟨next, hop⟩
    obtain ⟨rfl, -, -⟩ := request_spec hrequest
    rw [exchange, hrequest]
    cases hop with
    | settled sent => rfl
    | redirected status redirectUrl => exact ih

theorem noted_attemptOnce (last : Bool) :
    Noted s call w.ledger (attemptOnce s call attempt last w) := by
  have hledger := @ledger_exchange s attempt w followedRedirects call.url
  unfold attemptOnce
  rcases hexchange : exchange s attempt followedRedirects w call.url with ⟨w₁, sent⟩
  rw [hexchange] at hledger
  rw [← hledger]
  cases sent with
  | raised e => exact noted_handle last e
  | rejected status detail => exact noted_giveUp _ _ _ _ _ _ (by simp)
  | answered r currentUrl =>
    simp only
    split
    · exact noted_download last r currentUrl
    · exact noted_refuse last r.status

structure Entered (s : Surroundings) (call : StreamCall) (l : Option Ledger)
    (out : World × StreamResult) : Prop where
  framed : Framed s.sha256 call.url l out.1.ledger
  tooLarge : ∀ f, out.2 = .failed f → f.code = .responseTooLarge → l ≠ none →
    Marked s.sha256 out.1.ledger call.url

theorem entered_attempts {left : Nat} :
    Entered s call w.ledger (attempts s call left attempt w) := by
  induction left generalizing attempt w with
  | zero =>
    have hgiven := @noted_giveUp s call w .transportError "exhausted all retry attempts" true none
      "network" false (by simp)
    exact ⟨hgiven.framed, fun f hf => hgiven.tooLarge f (congrArg Turn.done hf)⟩
  | succ left ih =>
    have honce := @noted_attemptOnce s call attempt w (left = 0)
    rw [attempts]
    rcases hattempt : attemptOnce s call attempt (left = 0) w with ⟨w₁, turn⟩
    rw [hattempt] at honce
    cases turn with
    | done result =>
      exact ⟨honce.framed, fun f hf => honce.tooLarge f (congrArg Turn.done hf)⟩
    | again =>
      simp only
      split
      · have hsame : w₁.ledger = w.ledger := honce.again rfl
        rw [← hsame]
        exact ih
      · exact ⟨honce.framed, fun f hf => by simp at hf⟩

theorem entered_streamToFile (client : Client) :
    Entered s call w.ledger (streamToFile s client call w) := by
  unfold streamToFile
  split
  · exact ⟨Framed.refl _, fun f hf => by simp at hf⟩
  · cases hskip : preflightSkip s.sha256 client w.ledger call.url with
    | some skipped =>
      refine ⟨Framed.refl _, fun f hf hcode => ?_⟩
      obtain rfl := StreamResult.failed.inj hf
      simp at hcode
    | none => exact entered_attempts

theorem streamToFile_barred {client : Client}
    (h : Barred s.sha256 client w.ledger call.url) :
    (streamToFile s client call w).1 = w ∧
      ∀ response, (streamToFile s client call w).2 ≠ .streamed response := by
  obtain ⟨skipped, hskip⟩ := preflightSkip_of_barred h
  unfold streamToFile
  split
  · exact ⟨rfl, by simp⟩
  · rw [hskip]
    exact ⟨rfl, by simp⟩

end Streams

/-! ## Fetches -/

section Fetches
variable {sha256 : Bytes → String} {s : FetchSurroundings} {client : Client} {fetch : Fetch}
  {attempt : Nat} {w : FetchWorld}

def failuresOf (store : Option Store) : Option Ledger := store.map (·.failures)

def FetchWorld.ledger (w : FetchWorld) : Option Ledger := failuresOf w.store

structure FetchEntered (sha256 : Bytes → String) (fetch : Fetch) (l : Option Ledger)
    (out : FetchWorld × FetchResult) : Prop where
  framed : Framed sha256 fetch.url l out.1.ledger
  tooLarge : ∀ e, out.2 = .tooLarge e → l ≠ none → Marked sha256 out.1.ledger fetch.url

structure FetchNoted (sha256 : Bytes → String) (fetch : Fetch) (l : Option Ledger)
    (out : FetchWorld × FetchTurn) : Prop where
  done : ∀ result, out.2 = .done result → FetchEntered sha256 fetch l (out.1, result)
  again : out.2 = .again → out.1.ledger = l

theorem fetchEntered_of_same {result : FetchResult} (h : ∀ e, result ≠ .tooLarge e) :
    FetchEntered sha256 fetch w.ledger (w, result) :=
  ⟨Framed.refl _, fun e he => absurd he (h e)⟩

theorem entered_recorded {report : FailureReport} {result : FetchResult}
    (hlarge : ∀ e, result = .tooLarge e → report.permanent = true) :
    FetchEntered sha256 fetch w.ledger (recorded sha256 s fetch w report result) := by
  unfold recorded FetchWorld.ledger
  cases hstore : w.store with
  | none =>
    simp only
    refine ⟨?_, fun _ _ hne => absurd rfl hne⟩
    rw [FetchWorld.ledger, hstore]
    exact Framed.refl _
  | some store =>
    simp only
    split
    · exact ⟨framed_record _ _, fun e he _ => marked_record store.failures (hlarge e he)⟩
    · refine ⟨?_, fun _ he => by simp at he⟩
      rw [FetchWorld.ledger, hstore]
      exact Framed.refl _

theorem result_recorded {report : FailureReport} {result : FetchResult} :
    (recorded sha256 s fetch w report result).2 = result ∨
      ∃ detail, (recorded sha256 s fetch w report result).2 = .raised detail := by
  unfold recorded
  cases w.store with
  | none => exact Or.inl rfl
  | some store =>
    simp only
    split
    · exact Or.inl rfl
    · exact Or.inr ⟨_, rfl⟩

theorem noted_ended {report : FailureReport} {result : FetchResult}
    (hlarge : ∀ e, result = .tooLarge e → report.permanent = true) :
    FetchNoted sha256 fetch w.ledger (ended sha256 s fetch w report result) where
  done result' h := by
    have hentered := @entered_recorded sha256 s fetch w report result hlarge
    obtain rfl := FetchTurn.done.inj h
    exact hentered
  again h := by simp [ended] at h

theorem noted_retried {last : Bool} {report : FailureReport} {reason : String}
    {statusCode : Option Int} :
    FetchNoted sha256 fetch w.ledger (retried sha256 s fetch last w report reason statusCode) := by
  unfold retried
  split
  · exact noted_ended (by simp)
  · exact ⟨fun _ h => by simp at h, fun _ => rfl⟩

theorem noted_done {result : FetchResult} (h : ∀ e, result ≠ .tooLarge e) :
    FetchNoted sha256 fetch w.ledger (w, .done result) where
  done result' hresult := by
    obtain rfl := FetchTurn.done.inj hresult
    exact fetchEntered_of_same h
  again h := by simp at h

theorem noted_accept {content : Bytes} :
    FetchNoted sha256 fetch w.ledger (accept sha256 s fetch w content) := by
  unfold accept
  cases hstore : w.store with
  | none => exact noted_done (by simp)
  | some store =>
    have hledger : w.ledger = some store.failures := by rw [FetchWorld.ledger, failuresOf, hstore, Option.map_some]
    simp only
    split
    · exact noted_done (by simp)
    · rw [hledger]
      split
      · refine ⟨fun result h => ?_, fun h => by simp at h⟩
        obtain rfl := FetchTurn.done.inj h
        exact ⟨framed_clear _, fun e he => by simp at he⟩
      · refine ⟨fun result h => ?_, fun h => by simp at h⟩
        obtain rfl := FetchTurn.done.inj h
        exact ⟨Framed.refl _, fun e he => by simp at he⟩

theorem noted_settle {last : Bool} (answer : Answer) :
    FetchNoted sha256 fetch w.ledger (settle sha256 s client fetch attempt last w answer) := by
  cases answer with
  | timeout detail => exact noted_retried
  | request detail => exact noted_retried
  | other detail => exact noted_done (by simp)
  | answered status retryAfter content =>
    rw [settle]
    split
    · cases hexceeded : exceeded client content with
      | some limit => exact noted_ended (fun _ _ => rfl)
      | none => exact noted_accept
    · cases hkind : classify status with
      | throttle =>
        simp only
        split
        · exact noted_done (by simp)
        · exact noted_retried
      | retry => exact noted_retried
      | ok => exact noted_ended (by simp)
      | permanent => exact noted_ended (by simp)

theorem entered_fetchAttempts {left : Nat} :
    FetchEntered sha256 fetch w.ledger (fetchAttempts sha256 s client fetch left attempt w) := by
  induction left generalizing attempt w with
  | zero => exact fetchEntered_of_same (by simp)
  | succ left ih =>
    have honce : FetchNoted sha256 fetch w.ledger
        (fetchOnce sha256 s client fetch attempt (left = 0) w) :=
      @noted_settle sha256 s client fetch attempt { w with sent := w.sent + 1 } (left = 0) _
    rw [fetchAttempts]
    rcases hattempt : fetchOnce sha256 s client fetch attempt (left = 0) w with ⟨w₁, turn⟩
    rw [hattempt] at honce
    cases turn with
    | done result => exact honce.done result rfl
    | again =>
      have hsame : w₁.ledger = w.ledger := honce.again rfl
      simp only
      rw [← hsame]
      split
      · exact ih
      · exact fetchEntered_of_same (by simp)

theorem entered_getBytes : FetchEntered sha256 fetch w.ledger (getBytes sha256 s client fetch w) := by
  unfold getBytes
  cases hcached : cachedPayload sha256 s fetch w.store with
  | some payload => exact fetchEntered_of_same (by simp)
  | none =>
    simp only
    cases hskip : preflightSkip sha256 client (w.store.map (·.failures)) fetch.url with
    | some skipped => exact fetchEntered_of_same (by simp)
    | none => exact entered_fetchAttempts

theorem entered_getJson {loads : Bytes → Parsed} :
    FetchEntered sha256 fetch w.ledger (getJson sha256 s client fetch loads w) := by
  have hbytes := @entered_getBytes sha256 s client fetch w
  unfold getJson
  rcases hout : getBytes sha256 s client fetch w with ⟨w₁, result⟩
  rw [hout] at hbytes
  have hkept : ∀ result', (∀ e, result' ≠ .tooLarge e) →
      FetchEntered sha256 fetch w.ledger (w₁, result') := by
    intro result' hother
    exact ⟨hbytes.framed, fun e he => absurd he (hother e)⟩
  cases result with
  | content payload =>
    simp only
    cases hloads : loads payload with
    | malformed detail =>
      have hrecorded := @entered_recorded sha256 s fetch w₁
        ⟨"bad_json", "malformed JSON: " ++ detail, some 200, true⟩
        (.permanent ⟨fetch.url, "invalid JSON response: " ++ detail, none⟩) (by simp)
      have hresult := @result_recorded sha256 s fetch w₁
        ⟨"bad_json", "malformed JSON: " ++ detail, some 200, true⟩
        (.permanent ⟨fetch.url, "invalid JSON response: " ++ detail, none⟩)
      refine ⟨hbytes.framed.trans hrecorded.framed, fun e he => ?_⟩
      simp only at he
      rw [he] at hresult
      simp at hresult
    | object => exact hkept _ (by simp)
    | other => exact hkept _ (by simp)
    | raised detail => exact hkept _ (by simp)
  | permanent e => exact hbytes
  | tooLarge e => exact hbytes
  | exhausted e => exact hbytes
  | raised detail => exact hbytes

theorem getBytes_barred (h : Barred sha256 client w.ledger fetch.url) :
    (getBytes sha256 s client fetch w).1 = w ∧
      ((∃ payload, cachedPayload sha256 s fetch w.store = some payload ∧
        (getBytes sha256 s client fetch w).2 = .content payload) ∨
      cachedPayload sha256 s fetch w.store = none ∧
        ∃ e, (getBytes sha256 s client fetch w).2 = .permanent e) := by
  obtain ⟨skipped, hskip⟩ := preflightSkip_of_barred h
  rw [FetchWorld.ledger, failuresOf] at hskip
  unfold getBytes
  cases hcached : cachedPayload sha256 s fetch w.store with
  | some payload => exact ⟨rfl, Or.inl ⟨payload, rfl, rfl⟩⟩
  | none =>
    rw [hskip]
    exact ⟨rfl, Or.inr ⟨rfl, skipped, rfl⟩⟩

end Fetches

end EdgarSec.SecHttp
