import EdgarSec.SecHttp.Streaming

/-! When a streamed download is all or nothing: the target holds the whole body of one
response, or the directory is as it was. -/

namespace EdgarSec.SecHttp
open Foundation Lib

/-! ## The property -/

def SameFiles (w w' : World) : Prop := ∀ name, w'.folder.get? name = w.folder.get? name

structure Delivered (s : Surroundings) (call : StreamCall) (w w' : World) (r : Response)
    (result : StreamedResponse) : Prop where
  accepted : r.status = 200 ∧ r.ending = none
  folder : ∀ name, w'.folder.get? name =
    if name = call.target then some r.chunks.flatten else w.folder.get? name
  byteSize : result.byteSize = r.chunks.flatten.length
  sha256 : result.sha256 = s.sha256 r.chunks.flatten
  bounded : (r.chunks.flatten.length : Int) ≤ call.maxResponseBytes

def Bounded (s : Surroundings) (call : StreamCall) (budget : Nat) (sent : List (Nat × String)) : Prop :=
  (∀ request ∈ sent, request.1 < budget ∧
    (request.2 = call.url ∨ s.validateRedirect request.2 = .ok ())) ∧
  ∀ attempt, (sent.filter fun request => request.1 = attempt).length ≤ followedRedirects + 1

/-- A success has delivered what the last response held; without one nothing has changed. -/
def Settled (s : Surroundings) (call : StreamCall) (w w' : World) (result : StreamResult) : Prop :=
  (∀ response, result = .streamed response →
    ∃ r, s.reply (w'.sent.length - 1) = .response r ∧ Delivered s call w w' r response) ∧
  ((∀ response, result ≠ .streamed response) → SameFiles w w')

/-- From `w` a call has left `w'` with a result. -/
structure AllOrNothing (s : Surroundings) (client : Client) (call : StreamCall) (w w' : World)
    (result : StreamResult) : Prop where
  bounded : ∃ sent, w'.sent = w.sent ++ sent ∧ Bounded s call (attemptBudget client) sent
  settled : Settled s call w w' result

/-! ## The condition -/

section Condition
variable (s : Surroundings) (call : StreamCall) (attempt : Nat)

def Opened (r : Response) : Prop :=
  declaredSize s r ≤ call.maxResponseBytes ∧ (s.disk attempt).create = true

def Stranded (r : Response) : Prop :=
  Opened s call attempt r ∧ (s.disk attempt).close = false ∧
    ((∃ content e, receiveAll s call attempt r = .failed content e) ∨
      ∃ content, receiveAll s call attempt r = .complete content ∧ content ≠ [] ∧
        (s.disk attempt).sync = false)

def Uncleared (w : World) (r : Response) : Prop :=
  ∃ content, Opened s call attempt r ∧ receiveAll s call attempt r = .complete content ∧
    content ≠ [] ∧ (s.disk attempt).sync = true ∧ (s.disk attempt).close = true ∧
    (s.disk attempt).replace = true ∧ w.ledger ≠ none ∧ s.clearReturns = false ∧
    w.folder.get? call.target ≠ some content

def DownloadClean (w : World) (r : Response) : Prop :=
  ¬ Stranded s call attempt r ∧ ¬ Uncleared s call attempt w r

def AttemptClean (w : World) : Prop :=
  ∀ w' r currentUrl, exchange s attempt followedRedirects w call.url = (w', .answered r currentUrl) →
    r.status = 200 → DownloadClean s call attempt w' r

end Condition

def AttemptsClean (s : Surroundings) (call : StreamCall) : Nat → Nat → World → Prop
  | 0, _, _ => True
  | left + 1, attempt, w => AttemptClean s call attempt w ∧
    ∀ w', attemptOnce s call attempt (left = 0) w = (w', .again) → s.waits attempt = true →
      AttemptsClean s call left (attempt + 1) w'

/-- A call that gets as far as its attempts makes clean ones. -/
def CallClean (s : Surroundings) (client : Client) (call : StreamCall) (w : World) : Prop :=
  0 < call.maxResponseBytes → preflightSkip s.sha256 client w.ledger call.url = none →
    AttemptsClean s call (attemptBudget client) 0 w

/-! ## Exits of an attempt -/

section Exits
variable {s : Surroundings} {call : StreamCall} {attempt : Nat} {w : World}

theorem SameFiles.refl (w : World) : SameFiles w w := fun _ => rfl

structure Exit (s : Surroundings) (call : StreamCall) (r : Response) (clean : Prop) (w : World)
    (out : World × Turn) : Prop where
  sent : out.1.sent = w.sent
  delivered : clean → ∀ result, out.2 = .done (.streamed result) → Delivered s call w out.1 r result
  kept : clean → (∀ result, out.2 ≠ .done (.streamed result)) → SameFiles w out.1
  spoiled : ¬ clean → (∃ detail, out.2 = .done (.raised detail)) ∧ ¬ SameFiles w out.1

structure Quiet (w : World) (out : World × Turn) : Prop where
  sent : out.1.sent = w.sent
  folder : out.1.folder = w.folder
  turn : ∀ result, out.2 ≠ .done (.streamed result)

theorem Quiet.exit {r : Response} {clean : Prop} {out : World × Turn} (h : Quiet w out) (hclean : clean) :
    Exit s call r clean w out where
  sent := h.sent
  delivered _ result hresult := absurd hresult (h.turn result)
  kept _ _ name := by rw [h.folder]
  spoiled hnot := absurd hclean hnot

theorem quiet_giveUp (code : StreamFailureCode) (detail : String) (retryable : Bool)
    (status : Option Int) (kind : String) (permanent : Bool) :
    Quiet w (giveUp s call w code detail retryable status kind permanent) := by
  unfold giveUp failure
  cases w.ledger with
  | none => exact ⟨rfl, rfl, fun _ => by simp⟩
  | some ledger =>
    simp only
    split
    · exact ⟨rfl, rfl, fun _ => by simp⟩
    · exact ⟨rfl, rfl, fun _ => by simp⟩

theorem quiet_handle (last : Bool) (e : TransportError) : Quiet w (handle s call last w e) := by
  have hagain : Quiet w (w, .again) := ⟨rfl, rfl, fun _ => by simp⟩
  cases e with
  | timeout detail =>
    rw [handle]
    split
    · exact quiet_giveUp _ _ _ _ _ _
    · exact hagain
  | request detail =>
    rw [handle]
    split
    · exact quiet_giveUp _ _ _ _ _ _
    · exact hagain
  | other detail => exact ⟨rfl, rfl, fun _ => by simp [handle]⟩

theorem quiet_refuse (last : Bool) (status : Int) : Quiet w (refuse s call last w status) := by
  unfold refuse
  split
  · exact quiet_giveUp _ _ _ _ _ _
  · split
    · split
      · exact quiet_giveUp _ _ _ _ _ _
      · exact ⟨rfl, rfl, fun _ => by simp⟩
    · exact quiet_giveUp _ _ _ _ _ _

/-! ## Temporary files -/

theorem get?_write (w : World) (name other : String) (content : Bytes) :
    (w.write name content).folder.get? other = if other = name then some content else w.folder.get? other :=
  Dict.get?_set w.folder name other content

theorem get?_unlink (w : World) (name other : String) :
    (w.unlink name).folder.get? other = if other = name then none else w.folder.get? other :=
  Dict.get?_erase w.folder name other

theorem sameFiles_unlink_write {name : String} (h : w.folder.get? name = none) (content : Bytes) :
    SameFiles w ((w.write name content).unlink name) := by
  intro other
  rw [get?_unlink, get?_write]
  split
  · rename_i hname
    rw [hname, h]
  · rfl

theorem not_sameFiles_write {name : String} (h : w.folder.get? name = none) (content : Bytes) :
    ¬ SameFiles w (w.write name content) := by
  intro hsame
  have hname := hsame name
  rw [get?_write, if_pos rfl, h] at hname
  cases hname

/-! ## The body -/

theorem receive_complete {write : Nat → Bool} {limit : Int} {ending : Option TransportError}
    {written : Nat} {content whole : Bytes} {chunks : List Bytes}
    (h : receive write limit ending written content chunks = .complete whole) :
    whole = content ++ chunks.flatten ∧ ending = none ∧
      ((content.length : Int) ≤ limit → (whole.length : Int) ≤ limit) := by
  induction chunks generalizing written content with
  | nil =>
    unfold receive at h
    cases hending : ending with
    | none =>
      rw [hending] at h
      obtain rfl := Received.complete.inj h
      exact ⟨by simp, rfl, id⟩
    | some e =>
      rw [hending] at h
      cases h
  | cons chunk chunks ih =>
    rw [receive] at h
    split at h
    · rename_i hempty
      rw [List.flatten_cons, hempty, List.nil_append]
      exact ih h
    · split at h
      · cases h
      · rename_i hfits
        split at h
        · obtain ⟨hwhole, hending, hlimit⟩ := ih h
          refine ⟨?_, hending, fun _ => hlimit (not_lt.mp hfits)⟩
          rw [hwhole, List.flatten_cons, List.append_assoc]
        · cases h

variable {r : Response} {currentUrl : String}

theorem delivered_publish {content : Bytes} {w' : World} (hstatus : r.status = 200)
    (hlimit : 0 ≤ call.maxResponseBytes) (hreceived : receiveAll s call attempt r = .complete content)
    (hfolder : ∀ name, w'.folder.get? name =
      if name = call.target then some content else w.folder.get? name) :
    Delivered s call w w' r (streamedResponse s call r currentUrl content) := by
  obtain ⟨hcontent, hending, hbounded⟩ := receive_complete hreceived
  rw [List.nil_append] at hcontent
  subst hcontent
  exact ⟨⟨hstatus, hending⟩, hfolder, rfl, rfl, hbounded (by simpa using hlimit)⟩

theorem get?_placed {temporary : String} (hfresh : w.folder.get? temporary = none) (content : Bytes)
    (name : String) :
    ((((w.write temporary content).unlink temporary).write call.target content).folder).get? name =
      if name = call.target then some content else w.folder.get? name := by
  rw [get?_write]
  split
  · rfl
  · exact sameFiles_unlink_write hfresh content name

theorem exit_publish (hstatus : r.status = 200) (hlimit : 0 ≤ call.maxResponseBytes)
    (hopened : Opened s call attempt r) {content : Bytes}
    (hreceived : receiveAll s call attempt r = .complete content) (hne : content ≠ [])
    {temporary : String} (hfresh : w.folder.get? temporary = none) :
    Exit s call r (DownloadClean s call attempt w r) w
      (publish s call attempt (w.write temporary content) temporary r currentUrl content) := by
  have hback := sameFiles_unlink_write hfresh content
  have hplaced := @get?_placed call w temporary hfresh content
  unfold publish
  by_cases hsync : (s.disk attempt).sync = false
  · rw [if_pos hsync, cleanUp]
    by_cases hclose : (s.disk attempt).close = true
    · have hclean : DownloadClean s call attempt w r := by
        refine ⟨fun hstranded => ?_, fun ⟨_, _, _, _, hsynced, _⟩ => ?_⟩
        · exact absurd hstranded.2.1 (by simp [hclose])
        · exact absurd hsynced (by simp [hsync])
      rw [if_pos hclose]
      exact ⟨rfl, fun _ _ h => by simp at h, fun _ _ => hback, fun h => absurd hclean h⟩
    · have hspoiled : ¬ DownloadClean s call attempt w r := by
        refine fun hclean => hclean.1 ⟨hopened, by simpa using hclose, Or.inr ?_⟩
        exact ⟨content, hreceived, hne, hsync⟩
      rw [if_neg hclose]
      exact ⟨rfl, fun h => absurd h hspoiled, fun h => absurd h hspoiled,
        fun _ => ⟨⟨_, rfl⟩, not_sameFiles_write hfresh content⟩⟩
  · have hnotStranded : ¬ Stranded s call attempt r := by
      rintro ⟨-, -, ⟨other, e, hfailed⟩ | ⟨other, hcomplete, -, hfalse⟩⟩
      · rw [hreceived] at hfailed
        cases hfailed
      · exact hsync hfalse
    rw [if_neg hsync]
    by_cases hfault : (s.disk attempt).close = false ∨ (s.disk attempt).replace = false
    · have hclean : DownloadClean s call attempt w r := by
        refine ⟨hnotStranded, fun ⟨_, _, _, _, _, hclosed, hreplaced, _⟩ => ?_⟩
        rcases hfault with hfault | hfault
        · simp [hclosed] at hfault
        · simp [hreplaced] at hfault
      rw [if_pos hfault]
      exact ⟨rfl, fun _ _ h => by simp at h, fun _ _ => hback, fun h => absurd hclean h⟩
    · obtain ⟨hclose, hreplace⟩ := not_or.mp hfault
      rw [if_neg hfault]
      simp only
      cases hledger : w.ledger with
      | none =>
        have hclean : DownloadClean s call attempt w r :=
          ⟨hnotStranded, fun ⟨_, _, _, _, _, _, _, hsome, _⟩ => hsome hledger⟩
        have hledger' : ((w.write temporary content).unlink temporary).ledger = none := hledger
        simp only [World.write, World.unlink, hledger]
        refine ⟨rfl, fun _ result hresult => ?_, fun _ h => absurd rfl (h _), fun h => absurd hclean h⟩
        obtain rfl := StreamResult.streamed.inj (Turn.done.inj hresult)
        exact delivered_publish hstatus hlimit hreceived hplaced
      | some ledger =>
        simp only [World.write, World.unlink, hledger]
        by_cases hclear : s.clearReturns = true
        · have hclean : DownloadClean s call attempt w r :=
            ⟨hnotStranded, fun ⟨_, _, _, _, _, _, _, _, hfails, _⟩ => by simp [hclear] at hfails⟩
          rw [if_pos hclear]
          refine ⟨rfl, fun _ result hresult => ?_, fun _ h => absurd rfl (h _), fun h => absurd hclean h⟩
          obtain rfl := StreamResult.streamed.inj (Turn.done.inj hresult)
          exact delivered_publish hstatus hlimit hreceived hplaced
        · rw [if_neg hclear]
          refine ⟨rfl, fun _ _ h => by simp at h, fun hclean _ => ?_, fun hspoiled => ⟨⟨_, rfl⟩, ?_⟩⟩
          · -- the target held this content before
            have hsame : w.folder.get? call.target = some content := by
              by_contra hother
              exact hclean.2 ⟨content, hopened, hreceived, hne, by simpa using hsync,
                by simpa using hclose, by simpa using hreplace, by simp [hledger],
                by simpa using hclear, hother⟩
            intro name
            refine (hplaced name).trans ?_
            split
            · rename_i hname
              rw [hname, hsame]
            · rfl
          · intro hsame
            refine hspoiled ⟨hnotStranded, fun ⟨other, _, hcomplete, _, _, _, _, _, _, hother⟩ => ?_⟩
            obtain rfl := Received.complete.inj (hreceived.symm.trans hcomplete)
            have htarget := (hplaced call.target).symm.trans (hsame call.target)
            rw [if_pos rfl] at htarget
            exact hother htarget.symm

theorem downloadClean_of_not_opened (h : ¬ Opened s call attempt r) :
    DownloadClean s call attempt w r :=
  ⟨fun hstranded => h hstranded.1, fun ⟨_, hopened, _⟩ => h hopened⟩

theorem exit_of_unlinked {clean : Prop} (hclean : clean) {temporary : String} {content : Bytes}
    (hfresh : w.folder.get? temporary = none) {out : World × Turn}
    (h : Quiet ((w.write temporary content).unlink temporary) out) : Exit s call r clean w out where
  sent := h.sent
  delivered _ result hresult := absurd hresult (h.turn result)
  kept _ _ name := by
    rw [h.folder]
    exact sameFiles_unlink_write hfresh content name
  spoiled hnot := absurd hclean hnot

theorem exit_discard {clean : Prop} (hclean : clean) {temporary : String} {content : Bytes}
    (hfresh : w.folder.get? temporary = none) (code : StreamFailureCode) (detail : String)
    (status : Int) (kind : String) :
    Exit s call r clean w (discard s call attempt (w.write temporary content) temporary code detail
      status kind) := by
  apply exit_of_unlinked hclean hfresh
  unfold discard
  split
  · exact quiet_giveUp _ _ _ _ _ _
  · exact ⟨rfl, rfl, fun _ => by simp⟩

theorem exit_failed {last : Bool} {content : Bytes} {e : TransportError}
    (hopened : Opened s call attempt r) (hreceived : receiveAll s call attempt r = .failed content e)
    {temporary : String} (hfresh : w.folder.get? temporary = none) :
    Exit s call r (DownloadClean s call attempt w r) w
      (cleanUp s attempt (handle s call last (w.write temporary content) e).1 temporary
        (handle s call last (w.write temporary content) e).2) := by
  have hquiet := @quiet_handle s call (w.write temporary content) last e
  unfold cleanUp
  by_cases hclose : (s.disk attempt).close = true
  · have hclean : DownloadClean s call attempt w r := by
      refine ⟨fun hstranded => ?_, fun ⟨_, _, hcomplete, _⟩ => ?_⟩
      · exact absurd hstranded.2.1 (by simp [hclose])
      · rw [hreceived] at hcomplete
        cases hcomplete
    rw [if_pos hclose]
    refine @exit_of_unlinked s call w r _ hclean temporary content hfresh _ ⟨hquiet.sent, ?_, hquiet.turn⟩
    simp only [World.unlink, hquiet.folder]
  · have hspoiled : ¬ DownloadClean s call attempt w r := by
      refine fun hclean => hclean.1 ⟨hopened, by simpa using hclose, Or.inl ⟨content, e, hreceived⟩⟩
    rw [if_neg hclose]
    refine ⟨hquiet.sent, fun h => absurd h hspoiled, fun h => absurd h hspoiled,
      fun _ => ⟨⟨_, rfl⟩, fun hsame => ?_⟩⟩
    refine not_sameFiles_write hfresh content fun name => ?_
    have hname := hsame name
    rwa [hquiet.folder] at hname

theorem exit_download {last : Bool} (hstatus : r.status = 200) (hlimit : 0 ≤ call.maxResponseBytes) :
    Exit s call r (DownloadClean s call attempt w r) w
      (download s call attempt last w r currentUrl) := by
  have hfresh := s.mkstemp_fresh w.folder
  unfold download
  by_cases hdeclared : call.maxResponseBytes < declaredSize s r
  · have hclosed : ¬ Opened s call attempt r := fun h => absurd h.1 (not_le.mpr hdeclared)
    rw [if_pos hdeclared]
    exact (quiet_giveUp _ _ _ _ _ _).exit (downloadClean_of_not_opened hclosed)
  · rw [if_neg hdeclared]
    by_cases hcreate : (s.disk attempt).create = false
    · have hclosed : ¬ Opened s call attempt r := fun h => by simp [h.2] at hcreate
      have hquiet : Quiet w (w, .done (.raised "OSError")) := ⟨rfl, rfl, fun _ => by simp⟩
      rw [if_pos hcreate]
      exact hquiet.exit (downloadClean_of_not_opened hclosed)
    · have hopened : Opened s call attempt r := ⟨not_lt.mp hdeclared, by simpa using hcreate⟩
      rw [if_neg hcreate]
      cases hreceived : receiveAll s call attempt r with
      | failed content e => exact exit_failed hopened hreceived hfresh
      | tooLarge content =>
        have hclean : DownloadClean s call attempt w r := by
          refine ⟨?_, fun ⟨_, _, hcomplete, _⟩ => ?_⟩
          · rintro ⟨-, -, ⟨_, _, hother⟩ | ⟨_, hother, -⟩⟩
            · rw [hreceived] at hother
              cases hother
            · rw [hreceived] at hother
              cases hother
          · rw [hreceived] at hcomplete
            cases hcomplete
        exact exit_discard hclean hfresh _ _ _ _
      | complete content =>
        simp only
        split
        · rename_i hempty
          have hclean : DownloadClean s call attempt w r := by
            refine ⟨?_, fun ⟨other, _, hcomplete, hne, _⟩ => ?_⟩
            · rintro ⟨-, -, ⟨_, _, hother⟩ | ⟨other, hother, hne, -⟩⟩
              · rw [hreceived] at hother
                cases hother
              · obtain rfl := Received.complete.inj (hreceived.symm.trans hother)
                exact hne hempty
            · obtain rfl := Received.complete.inj (hreceived.symm.trans hcomplete)
              exact hne hempty
          exact exit_discard hclean hfresh _ _ _ _
        · rename_i hne
          exact exit_publish hstatus hlimit hopened hreceived hne hfresh

/-! ## One attempt -/

def Requests (s : Surroundings) (call : StreamCall) (attempt most : Nat) (w w' : World) : Prop :=
  ∃ urls : List String, w'.sent = w.sent ++ urls.map (Prod.mk attempt) ∧ urls.length ≤ most ∧
    ∀ u ∈ urls, u = call.url ∨ s.validateRedirect u = .ok ()

theorem request_spec {url : String} {w' : World} {hop : Hop}
    (h : request s attempt w url = (w', hop)) :
    w' = { w with sent := w.sent ++ [(attempt, url)] } ∧
      (∀ r currentUrl, hop = .settled (.answered r currentUrl) →
        s.reply (w'.sent.length - 1) = .response r) ∧
      ∀ status next, hop = .redirected status next → s.validateRedirect next = .ok () := by
  unfold request at h
  cases hreply : s.reply w.sent.length with
  | raised e =>
    simp only [hreply, Prod.mk.injEq] at h
    obtain ⟨rfl, rfl⟩ := h
    exact ⟨rfl, by simp, by simp⟩
  | response r =>
    simp only [hreply] at h
    cases hredirect : redirectTo r with
    | none =>
      simp only [hredirect, Prod.mk.injEq] at h
      obtain ⟨rfl, rfl⟩ := h
      refine ⟨rfl, fun r' u hs => ?_, by simp⟩
      obtain ⟨rfl, -⟩ := Sent.answered.inj (Hop.settled.inj hs)
      simpa using hreply
    | some location =>
      simp only [hredirect] at h
      cases hjoin : s.urljoin (responseUrl r url) location with
      | error detail =>
        simp only [hjoin, Prod.mk.injEq] at h
        obtain ⟨rfl, rfl⟩ := h
        exact ⟨rfl, by simp, by simp⟩
      | ok redirectUrl =>
        simp only [hjoin] at h
        cases hvalid : s.validateRedirect redirectUrl with
        | error detail =>
          simp only [hvalid, Prod.mk.injEq] at h
          obtain ⟨rfl, rfl⟩ := h
          exact ⟨rfl, by simp, by simp⟩
        | ok _ =>
          simp only [hvalid, Prod.mk.injEq] at h
          obtain ⟨rfl, rfl⟩ := h
          refine ⟨rfl, by simp, fun status next hs => ?_⟩
          obtain ⟨-, rfl⟩ := Hop.redirected.inj hs
          exact hvalid

theorem exchange_spec {left : Nat} {url : String} {w' : World} {sent : Sent}
    (hurl : url = call.url ∨ s.validateRedirect url = .ok ())
    (h : exchange s attempt left w url = (w', sent)) :
    w'.folder = w.folder ∧ Requests s call attempt (left + 1) w w' ∧
      ∀ r currentUrl, sent = .answered r currentUrl → s.reply (w'.sent.length - 1) = .response r := by
  have hasked : ∀ most, Requests s call attempt (most + 1) w
      { w with sent := w.sent ++ [(attempt, url)] } := by
    intro most
    exact ⟨[url], rfl, by simp, fun u hu => List.mem_singleton.mp hu ▸ hurl⟩
  induction left generalizing w url with
  | zero =>
    unfold exchange at h
    rcases hrequest : request s attempt w url with ⟨next, hop⟩
    obtain ⟨rfl, hanswered, -⟩ := request_spec hrequest
    rw [hrequest] at h
    cases hop with
    | settled settled =>
      obtain ⟨rfl, rfl⟩ := Prod.mk.inj h
      exact ⟨rfl, hasked 0, fun r u hs => hanswered r u (hs ▸ rfl)⟩
    | redirected status redirectUrl =>
      obtain ⟨rfl, rfl⟩ := Prod.mk.inj h
      exact ⟨rfl, hasked 0, by simp⟩
  | succ left ih =>
    unfold exchange at h
    rcases hrequest : request s attempt w url with ⟨next, hop⟩
    obtain ⟨rfl, hanswered, hredirected⟩ := request_spec hrequest
    rw [hrequest] at h
    cases hop with
    | settled settled =>
      obtain ⟨rfl, rfl⟩ := Prod.mk.inj h
      exact ⟨rfl, hasked (left + 1), fun r u hs => hanswered r u (hs ▸ rfl)⟩
    | redirected status redirectUrl =>
      have hnext : redirectUrl = call.url ∨ s.validateRedirect redirectUrl = .ok () :=
        Or.inr (hredirected status redirectUrl rfl)
      have hmore : ∀ most, Requests s call attempt (most + 1)
          { w with sent := w.sent ++ [(attempt, url)] }
          { w with sent := w.sent ++ [(attempt, url)] ++ [(attempt, redirectUrl)] } := by
        intro most
        exact ⟨[redirectUrl], rfl, by simp, fun u hu => List.mem_singleton.mp hu ▸ hnext⟩
      obtain ⟨hfolder, ⟨urls, hsent, hlength, hall⟩, hreply⟩ := ih hnext h hmore
      refine ⟨hfolder, ⟨url :: urls, ?_, by simpa using hlength, ?_⟩, hreply⟩
      · rw [hsent, List.map_cons, List.append_assoc, List.singleton_append]
      · intro u hu
        rcases List.mem_cons.mp hu with rfl | hu
        · exact hurl
        · exact hall u hu

theorem attemptOnce_spec {last : Bool} {w' : World} {turn : Turn} (hlimit : 0 ≤ call.maxResponseBytes)
    (h : attemptOnce s call attempt last w = (w', turn)) :
    Requests s call attempt (followedRedirects + 1) w w' ∧
      (AttemptClean s call attempt w →
        (∀ result, turn = .done (.streamed result) →
          ∃ r, s.reply (w'.sent.length - 1) = .response r ∧ Delivered s call w w' r result) ∧
        ((∀ result, turn ≠ .done (.streamed result)) → SameFiles w w')) ∧
      (¬ AttemptClean s call attempt w → (∃ detail, turn = .done (.raised detail)) ∧
        ¬ SameFiles w w') := by
  rcases hexchange : exchange s attempt followedRedirects w call.url with ⟨w₁, sent⟩
  obtain ⟨hfolder, ⟨urls, hsent, hlength, hall⟩, hreply⟩ := exchange_spec (Or.inl rfl) hexchange
  unfold attemptOnce at h
  rw [hexchange] at h
  -- the exits that touch nothing
  have hquiet : ∀ out : World × Turn, Quiet w₁ out → AttemptClean s call attempt w → out = (w', turn) →
      Requests s call attempt (followedRedirects + 1) w w' ∧
      (AttemptClean s call attempt w →
        (∀ result, turn = .done (.streamed result) →
          ∃ r, s.reply (w'.sent.length - 1) = .response r ∧ Delivered s call w w' r result) ∧
        ((∀ result, turn ≠ .done (.streamed result)) → SameFiles w w')) ∧
      (¬ AttemptClean s call attempt w → (∃ detail, turn = .done (.raised detail)) ∧
        ¬ SameFiles w w') := by
    intro out hout hclean heq
    subst heq
    refine ⟨⟨urls, hout.sent.trans hsent, hlength, hall⟩, fun _ => ⟨fun result hresult => ?_, ?_⟩,
      fun hnot => absurd hclean hnot⟩
    · exact absurd hresult (hout.turn result)
    · intro _ name
      rw [hout.folder, hfolder]
  cases sent with
  | raised e =>
    refine hquiet _ (quiet_handle last e) (fun _ _ _ he => ?_) h
    rw [hexchange] at he
    cases he
  | rejected status detail =>
    refine hquiet _ (quiet_giveUp _ _ _ _ _ _) (fun _ _ _ he => ?_) h
    rw [hexchange] at he
    cases he
  | answered r currentUrl =>
    have hclean : AttemptClean s call attempt w ↔ (r.status = 200 → DownloadClean s call attempt w₁ r) := by
      constructor
      · intro hall hstatus
        exact hall w₁ r currentUrl hexchange hstatus
      · intro hone w₂ r' u he hstatus
        rw [hexchange] at he
        obtain ⟨rfl, hsame⟩ := Prod.mk.inj he
        obtain ⟨rfl, -⟩ := Sent.answered.inj hsame
        exact hone hstatus
    simp only at h
    split at h
    · rename_i hstatus
      have hexit := @exit_download s call attempt w₁ r currentUrl last hstatus hlimit
      rw [h] at hexit
      have hfiles : ∀ w₂, SameFiles w w₂ ↔ SameFiles w₁ w₂ := by
        intro w₂
        unfold SameFiles
        rw [hfolder]
      refine ⟨⟨urls, hexit.sent.trans hsent, hlength, hall⟩, fun hc => ⟨fun result hresult => ?_, ?_⟩, ?_⟩
      · have hdelivered := hexit.delivered (hclean.mp hc hstatus) result hresult
        refine ⟨r, ?_, ?_⟩
        · rw [hexit.sent]
          exact hreply r currentUrl rfl
        · refine ⟨hdelivered.accepted, ?_, hdelivered.byteSize, hdelivered.sha256, hdelivered.bounded⟩
          intro name
          rw [hdelivered.folder, hfolder]
      · intro hnone
        exact (hfiles w').mpr (hexit.kept (hclean.mp hc hstatus) hnone)
      · intro hnot
        obtain ⟨hraised, hchanged⟩ := hexit.spoiled fun hd => hnot (hclean.mpr fun _ => hd)
        exact ⟨hraised, fun hsame => hchanged ((hfiles w').mp hsame)⟩
    · rename_i hstatus
      refine hquiet _ (quiet_refuse last r.status) (hclean.mpr fun h200 => absurd h200 hstatus) h

theorem Settled.congr {w' : World} {result : StreamResult} {w₀ : World} (h : SameFiles w w₀) :
    Settled s call w w' result ↔ Settled s call w₀ w' result := by
  have hfiles : SameFiles w w' ↔ SameFiles w₀ w' :=
    forall_congr' fun name => by rw [h name]
  have hdelivered : ∀ r response, Delivered s call w w' r response ↔ Delivered s call w₀ w' r response := by
    intro r response
    constructor
    · intro hd
      exact ⟨hd.accepted, fun name => by rw [hd.folder, h name], hd.byteSize, hd.sha256, hd.bounded⟩
    · intro hd
      exact ⟨hd.accepted, fun name => by rw [hd.folder, h name], hd.byteSize, hd.sha256, hd.bounded⟩
  unfold Settled
  simp only [hfiles, hdelivered]

/-! ## The attempts -/

theorem attempts_bounded {left : Nat} {w' : World} {result : StreamResult}
    (hlimit : 0 ≤ call.maxResponseBytes) (h : attempts s call left attempt w = (w', result)) :
    ∃ sent, w'.sent = w.sent ++ sent ∧
      (∀ request ∈ sent, (attempt ≤ request.1 ∧ request.1 < attempt + left) ∧
        (request.2 = call.url ∨ s.validateRedirect request.2 = .ok ())) ∧
      ∀ n, (sent.filter fun request => request.1 = n).length ≤ followedRedirects + 1 := by
  induction left generalizing attempt w with
  | zero =>
    have hquiet := @quiet_giveUp s call w .transportError "exhausted all retry attempts" true none
      "network" false
    refine ⟨[], ?_, by simp, by simp⟩
    have hworld : w' = (giveUp s call w .transportError "exhausted all retry attempts" true none
        "network" false).1 := congrArg Prod.fst h.symm
    rw [hworld, hquiet.sent, List.append_nil]
  | succ left ih =>
    rw [attempts] at h
    rcases honce : attemptOnce s call attempt (left = 0) w with ⟨w₁, turn⟩
    obtain ⟨⟨urls, hsent, hlength, hall⟩, -, -⟩ := attemptOnce_spec hlimit honce
    have hfirst : ∀ request ∈ urls.map (Prod.mk attempt), request.1 = attempt ∧
        (request.2 = call.url ∨ s.validateRedirect request.2 = .ok ()) := by
      intro request hrequest
      obtain ⟨url, hurl, rfl⟩ := List.mem_map.mp hrequest
      exact ⟨rfl, hall url hurl⟩
    have hcount : ∀ n, ((urls.map (Prod.mk attempt)).filter fun request => request.1 = n).length ≤
        followedRedirects + 1 := by
      intro n
      refine (List.length_filter_le _ _).trans ?_
      rwa [List.length_map]
    have honly : w₁ = w' → ∃ sent, w'.sent = w.sent ++ sent ∧
        (∀ request ∈ sent, (attempt ≤ request.1 ∧ request.1 < attempt + (left + 1)) ∧
          (request.2 = call.url ∨ s.validateRedirect request.2 = .ok ())) ∧
        ∀ n, (sent.filter fun request => request.1 = n).length ≤ followedRedirects + 1 := by
      intro hw
      refine ⟨urls.map (Prod.mk attempt), hw ▸ hsent, fun request hrequest => ?_, hcount⟩
      obtain ⟨hn, hurl⟩ := hfirst request hrequest
      exact ⟨⟨hn.ge, by omega⟩, hurl⟩
    rw [honce] at h
    cases turn with
    | done outcome => exact honly (congrArg Prod.fst h)
    | again =>
      simp only at h
      split at h
      · obtain ⟨sent, hmore, hrest, hrestCount⟩ := ih h
        refine ⟨urls.map (Prod.mk attempt) ++ sent, ?_, fun request hrequest => ?_, fun n => ?_⟩
        · rw [hmore, hsent, List.append_assoc]
        · rcases List.mem_append.mp hrequest with hin | hin
          · obtain ⟨hn, hurl⟩ := hfirst request hin
            exact ⟨⟨hn.ge, by omega⟩, hurl⟩
          · obtain ⟨⟨hge, hlt⟩, hurl⟩ := hrest request hin
            exact ⟨⟨by omega, by omega⟩, hurl⟩
        · -- the requests of an attempt stand together
          rw [List.filter_append, List.length_append]
          by_cases hn : n = attempt
          · have hnone : (sent.filter fun request => request.1 = n) = [] := by
              refine List.filter_eq_nil_iff.mpr fun request hin => ?_
              have hge := (hrest request hin).1.1
              simp only [decide_eq_true_eq]
              omega
            rw [hnone, List.length_nil, Nat.add_zero]
            exact hcount n
          · have hnone : ((urls.map (Prod.mk attempt)).filter fun request => request.1 = n) = [] := by
              refine List.filter_eq_nil_iff.mpr fun request hin => ?_
              have hsame := (hfirst request hin).1
              simp only [decide_eq_true_eq]
              exact fun he => hn (he.symm.trans hsame)
            rw [hnone, List.length_nil, Nat.zero_add]
            exact hrestCount n
      · exact honly (congrArg Prod.fst h)

theorem attempts_settled_iff {left : Nat} {w' : World} {result : StreamResult}
    (hlimit : 0 ≤ call.maxResponseBytes) (h : attempts s call left attempt w = (w', result)) :
    Settled s call w w' result ↔ AttemptsClean s call left attempt w := by
  induction left generalizing attempt w with
  | zero =>
    have hquiet := @quiet_giveUp s call w .transportError "exhausted all retry attempts" true none
      "network" false
    have hout : giveUp s call w .transportError "exhausted all retry attempts" true none
        "network" false = (w', .done result) := by
      unfold giveUp
      simp only
      rw [show failure s call w .transportError "exhausted all retry attempts" true none "network"
        false = (w', result) from h]
    rw [hout] at hquiet
    refine ⟨fun _ => trivial, fun _ => ⟨fun response hresponse => ?_, fun _ name => ?_⟩⟩
    · exact absurd (congrArg Turn.done hresponse) (hquiet.turn response)
    · rw [show w'.folder = w.folder from hquiet.folder]
  | succ left ih =>
    rw [attempts] at h
    rcases honce : attemptOnce s call attempt (left = 0) w with ⟨w₁, turn⟩
    obtain ⟨-, hclean, hspoiled⟩ := attemptOnce_spec hlimit honce
    rw [honce] at h
    rw [AttemptsClean, honce]
    by_cases hattempt : AttemptClean s call attempt w
    · obtain ⟨hdelivered, hkept⟩ := hclean hattempt
      cases turn with
      | done outcome =>
        obtain ⟨rfl, rfl⟩ := Prod.mk.inj h
        have hsettled : Settled s call w w₁ outcome := by
          refine ⟨fun response hresponse => hdelivered response (congrArg _ hresponse), fun hnone => ?_⟩
          exact hkept fun response hresponse => hnone response (Turn.done.inj hresponse)
        exact ⟨fun _ => ⟨hattempt, fun _ he => by simp at he⟩, fun _ => hsettled⟩
      | again =>
        have hsame : SameFiles w w₁ := hkept (by simp)
        simp only at h
        split at h
        · rename_i hwaits
          rw [Settled.congr hsame, ih h]
          refine ⟨fun hrest => ⟨hattempt, fun w₂ he _ => ?_⟩, fun hrest => hrest.2 w₁ rfl hwaits⟩
          obtain ⟨rfl, -⟩ := Prod.mk.inj he
          exact hrest
        · rename_i hwaits
          obtain ⟨rfl, rfl⟩ := Prod.mk.inj h
          refine ⟨fun _ => ⟨hattempt, fun _ _ hw => absurd hw hwaits⟩, fun _ => ⟨by simp, fun _ => hsame⟩⟩
    · obtain ⟨⟨detail, rfl⟩, hchanged⟩ := hspoiled hattempt
      obtain ⟨rfl, rfl⟩ := Prod.mk.inj h
      refine ⟨fun hsettled => ?_, fun hrest => absurd hrest.1 hattempt⟩
      exact absurd (hsettled.2 (by simp)) hchanged

end Exits

/-! ## The call -/

section Result
variable {s : Surroundings} {client : Client} {call : StreamCall} {w : World}

theorem allOrNothing_of_quiet {result : StreamResult} (h : ∀ response, result ≠ .streamed response) :
    AllOrNothing s client call w w result where
  bounded := ⟨[], by simp, by simp, by simp⟩
  settled := ⟨fun response hresponse => absurd hresponse (h response), fun _ => SameFiles.refl w⟩

theorem attempts_streamed {left attempt : Nat} {w' : World} {response : StreamedResponse}
    (hlimit : 0 ≤ call.maxResponseBytes)
    (h : attempts s call left attempt w = (w', .streamed response)) :
    ∃ content, w'.folder.get? call.target = some content ∧ response.sha256 = s.sha256 content ∧
      response.byteSize = content.length := by
  induction left generalizing attempt w with
  | zero =>
    have hquiet := @quiet_giveUp s call w .transportError "exhausted all retry attempts" true none
      "network" false
    have hresult : (attempts s call 0 attempt w).2 = .streamed response := congrArg Prod.snd h
    exact absurd (congrArg Turn.done hresult) (hquiet.turn response)
  | succ left ih =>
    rw [attempts] at h
    rcases honce : attemptOnce s call attempt (left = 0) w with ⟨w₁, turn⟩
    obtain ⟨_, hclean, hspoiled⟩ := attemptOnce_spec hlimit honce
    rw [honce] at h
    cases turn with
    | done outcome =>
      obtain ⟨rfl, rfl⟩ := Prod.mk.inj h
      by_cases hattempt : AttemptClean s call attempt w
      · obtain ⟨r, _, hdelivered⟩ := (hclean hattempt).1 response rfl
        refine ⟨r.chunks.flatten, ?_, hdelivered.sha256, hdelivered.byteSize⟩
        rw [hdelivered.folder, if_pos rfl]
      · obtain ⟨⟨detail, hraised⟩, _⟩ := hspoiled hattempt
        cases hraised
    | again =>
      simp only at h
      split at h
      · exact ih h
      · cases h

theorem streamToFile_streamed {w' : World} {response : StreamedResponse}
    (h : streamToFile s client call w = (w', .streamed response)) :
    ∃ content, w'.folder.get? call.target = some content ∧ response.sha256 = s.sha256 content ∧
      response.byteSize = content.length := by
  unfold streamToFile at h
  by_cases hlimit : call.maxResponseBytes ≤ 0
  · rw [if_pos hlimit] at h
    cases h
  · rw [if_neg hlimit] at h
    cases hskip : preflightSkip s.sha256 client w.ledger call.url with
    | some skipped =>
      rw [hskip] at h
      cases h
    | none =>
      rw [hskip] at h
      exact attempts_streamed (not_le.mp hlimit).le h

/-- The download is all or nothing exactly when its attempts are clean. -/
theorem streamToFile_allOrNothing_iff :
    AllOrNothing s client call w (streamToFile s client call w).1 (streamToFile s client call w).2 ↔
      CallClean s client call w := by
  unfold streamToFile CallClean
  by_cases hlimit : call.maxResponseBytes ≤ 0
  · rw [if_pos hlimit]
    refine ⟨fun _ hpositive => absurd hlimit (not_le.mpr hpositive), fun _ => ?_⟩
    exact allOrNothing_of_quiet (by simp)
  · have hpositive : 0 < call.maxResponseBytes := not_le.mp hlimit
    rw [if_neg hlimit]
    cases hskip : preflightSkip s.sha256 client w.ledger call.url with
    | some skipped =>
      simp only [reduceCtorEq, false_implies, implies_true, iff_true]
      exact allOrNothing_of_quiet (by simp)
    | none =>
      simp only [hpositive, true_implies]
      rcases hrun : attempts s call (attemptBudget client) 0 w with ⟨w', result⟩
      have hsettled := attempts_settled_iff hpositive.le hrun
      constructor
      · intro h
        exact hsettled.mp h.settled
      · intro hclean
        obtain ⟨sent, hsent, hall, hcount⟩ := attempts_bounded hpositive.le hrun
        refine ⟨⟨sent, hsent, fun request hrequest => ?_, hcount⟩, hsettled.mpr hclean⟩
        obtain ⟨⟨-, hlt⟩, hurl⟩ := hall request hrequest
        exact ⟨by omega, hurl⟩

theorem callClean_of_sound (hclose : ∀ attempt, (s.disk attempt).close = true)
    (hclear : s.clearReturns = true) : CallClean s client call w := by
  have hall : ∀ attempt w, AttemptClean s call attempt w := by
    intro attempt w _ r _ _ _
    refine ⟨fun hstranded => ?_, fun ⟨_, _, _, _, _, _, _, _, hfails, _⟩ => ?_⟩
    · exact absurd hstranded.2.1 (by simp [hclose])
    · exact absurd hfails (by simp [hclear])
  have hrun : ∀ left attempt w, AttemptsClean s call left attempt w := by
    intro left
    induction left with
    | zero => exact fun _ _ => trivial
    | succ left ih => exact fun attempt w => ⟨hall attempt w, fun w' _ _ => ih (attempt + 1) w'⟩
  exact fun _ _ => hrun _ _ _

end Result

/-! ## A full disk -/

def freshName (folder : Folder) : String :=
  String.ofList (List.replicate ((folder.keys.map String.length).sum + 1) 't')

theorem get?_freshName (folder : Folder) : folder.get? (freshName folder) = none := by
  rw [Dict.get?_eq_none_iff]
  intro hin
  have hle : (freshName folder).length ≤ (folder.keys.map String.length).sum :=
    List.single_le_sum (fun _ _ => Nat.zero_le _) _ (List.mem_map_of_mem hin)
  have hlength : (freshName folder).length = (folder.keys.map String.length).sum + 1 := by
    simp [freshName, ← String.length_toList]
  omega

def asciiOnly : Unicode where
  casefold c := [c]
  lower _ _ c := [c]
  upper c := [c]
  decimal _ := none
  isDigit _ := false
  nfkc text := text
  decimal_space := no_decimal_space

/-- One response with a short body, and a disk without room for it: writing only fills the
buffer, and flushing it raises, in `flush` and again in `close`. -/
def fullDisk : Surroundings where
  unicode := asciiOnly
  sha256 _ := ""
  urljoin _ location := .ok location
  validateRedirect _ := .ok ()
  reply _ := .response { status := 200, chunks := [[60, 62]] }
  disk _ := { sync := false, close := false }
  waits _ := true
  recordReturns := true
  clearReturns := true
  mkstemp := freshName
  mkstemp_fresh := get?_freshName

def oneAttempt : Client where
  maxRetries := 0
  maxFailureAttempts := 3
  ignoreFailureHistory := false

def smallCall : StreamCall := ⟨"https://www.sec.gov/Archives/a.txt", "a.txt", 100⟩

/-- The call raises, and its temporary file stays in the directory. -/
theorem streamToFile_leaves_temporary :
    (streamToFile fullDisk oneAttempt smallCall ⟨.empty, none, []⟩).2 = .raised "OSError" ∧
      (streamToFile fullDisk oneAttempt smallCall ⟨.empty, none, []⟩).1.folder.get? "t" =
        some [60, 62] ∧
      ¬ AllOrNothing fullDisk oneAttempt smallCall ⟨.empty, none, []⟩
        (streamToFile fullDisk oneAttempt smallCall ⟨.empty, none, []⟩).1
        (streamToFile fullDisk oneAttempt smallCall ⟨.empty, none, []⟩).2 := by
  have hraised : (streamToFile fullDisk oneAttempt smallCall ⟨.empty, none, []⟩).2 =
      .raised "OSError" := rfl
  have hleft : (streamToFile fullDisk oneAttempt smallCall ⟨.empty, none, []⟩).1.folder.get? "t" =
      some [60, 62] := rfl
  refine ⟨hraised, hleft, fun h => ?_⟩
  have hsame := h.settled.2 (by rw [hraised]; simp) "t"
  rw [hleft] at hsame
  cases hsame

end EdgarSec.SecHttp
