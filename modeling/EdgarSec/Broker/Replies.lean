import EdgarSec.Broker.Connections

/-! Every reply answers the request of the call that reads it. A thread's connection is in step with
the thread, or dead with at most a part of the right reply left on it. -/

namespace EdgarSec.Broker
open Foundation Lib

variable {ι : Type}

def Conn.Dead (conn : Conn ι) : Prop := conn.alive = false ∨ conn.server = .closed

structure Conn.Quiet (conn : Conn ι) : Prop where
  down : conn.down = []
  idle : conn.Dead ∨ (conn.up = [] ∧ conn.server = .reading [])

def Pending.asRead (p : Pending) : List (String × Json) := sorted (p.call.request p.requestId)

structure Answers (served : List (Served ι)) (a : ι) (p : Pending) (e : Served ι) : Prop where
  mem : e ∈ served.drop p.since
  client : e.client = a
  request : e.request = p.asRead

/-- The request is on its way to the broker, `left` of it not sent yet, or it has just been read. -/
inductive Conn.Requested (p : Pending) (left : Bytes) (conn : Conn ι) : Prop where
  | coming (got framed : Bytes) : conn.server = .reading got → frame p.bytes = some framed →
      got ++ conn.up ++ left = framed → got ≠ framed → Conn.Requested p left conn
  | read : conn.server = .serving p.asRead → conn.up = [] → left = [] → Conn.Requested p left conn

/-- A part of the reply has been read, a part is under way, and the broker sends the rest, or never
will. -/
inductive Conn.Replying (e : Served ι) (got : Bytes) (conn : Conn ι) : Prop where
  | coming (raw left : Bytes) : e.reply.bytes = some raw → got ++ conn.down ++ left = raw →
      conn.up = [] → conn.server = (if left = [] then .reading [] else .sending left) →
      Conn.Replying e got conn
  | broken (raw : Bytes) : e.reply.bytes = some raw → got ++ conn.down <+: raw → conn.Dead →
      Conn.Replying e got conn

inductive InSync (served : List (Served ι)) (a : ι) (p : Pending) (conn : Conn ι) : Stage → Prop where
  | sending (left : Bytes) : left ≠ [] → conn.down = [] → conn.Dead ∨ conn.Requested p left →
      InSync served a p conn (.sending left)
  | waiting : conn.down = [] → conn.Dead ∨ conn.Requested p [] → InSync served a p conn (.receiving [])
  | reading (got : Bytes) (e : Served ι) : Answers served a p e → conn.Replying e got →
      InSync served a p conn (.receiving got)

def Attached (served : List (Served ι)) (a : ι) (conn : Conn ι) : Activity → Prop
  | .idle => conn.Quiet
  | .connecting _ _ => conn.Quiet
  | .exchanging p _ _ stage => InSync served a p conn stage

def Activity.pending : Activity → Option Pending
  | .idle => none
  | .connecting p _ => some p
  | .exchanging p _ _ _ => some p

/-- What the client may return. -/
def Answered (served : List (Served ι)) (f : Finished ι) : Prop :=
  ∀ archiveUrl forceRefresh, f.pending.call = .fetch archiveUrl forceRefresh →
    (∃ message, f.result = .fetched (transportFailure message)) ∨
    (f.result = .raised ∧ frame f.pending.bytes = none) ∨
    ∃ e, Answers served f.client f.pending e ∧
      f.result = .fetched (clientView (fetch archiveUrl forceRefresh e.http))

structure ThreadSafe (s : System ι) (a : ι) : Prop where
  attached : ∀ c, (s.threads a).sock = some c →
    ∃ conn, s.conns[c]? = some conn ∧ conn.owner = a ∧ Attached s.served a conn (s.threads a).activity
  exchanging : ∀ p attempt c stage, (s.threads a).activity = .exchanging p attempt c stage →
    (s.threads a).sock = some c
  since : ∀ p, (s.threads a).activity.pending = some p → p.since ≤ s.served.length

structure System.Safe (s : System ι) : Prop where
  threads : ∀ a, ThreadSafe s a
  finished : ∀ f ∈ s.finished, Answered s.served f

/-! ## Messages -/

theorem flat_asRead (p : Pending) : Flat p.asRead := (flat_request p.requestId p.call).sorted

theorem Answers.wellFormed {served : List (Served ι)} {a : ι} {p : Pending} {e : Served ι}
    (h : Answers served a p e) : e.reply.WellFormed := by
  rw [Served.reply, h.request]
  exact wellFormed_respond (flat_asRead p) _ _

theorem Answers.mono {served : List (Served ι)} {a : ι} {p : Pending} {e : Served ι}
    (h : Answers served a p e) (more : List (Served ι)) : Answers (served ++ more) a p e where
  mem := by
    rw [List.drop_append]
    exact List.mem_append_left _ h.mem
  client := h.client
  request := h.request

theorem InSync.mono {served : List (Served ι)} {a : ι} {p : Pending} {conn : Conn ι} {stage : Stage}
    (h : InSync served a p conn stage) (more : List (Served ι)) :
    InSync (served ++ more) a p conn stage := by
  cases h with
  | sending left hleft hdown hcase => exact .sending left hleft hdown hcase
  | waiting hdown hcase => exact .waiting hdown hcase
  | reading got e hanswers hreply => exact .reading got e (hanswers.mono more) hreply

theorem Attached.mono {served : List (Served ι)} {a : ι} {conn : Conn ι} {activity : Activity}
    (h : Attached served a conn activity) (more : List (Served ι)) :
    Attached (served ++ more) a conn activity := by
  cases activity with
  | idle => exact h
  | connecting => exact h
  | exchanging => exact InSync.mono h more

theorem Answered.mono {served : List (Served ι)} {f : Finished ι} (h : Answered served f)
    (more : List (Served ι)) : Answered (served ++ more) f := by
  intro archiveUrl forceRefresh hcall
  rcases h archiveUrl forceRefresh hcall with hfailed | hraised | ⟨e, hanswers, hresult⟩
  · exact Or.inl hfailed
  · exact Or.inr (Or.inl hraised)
  · exact Or.inr (Or.inr ⟨e, hanswers.mono more, hresult⟩)

theorem wanted_frame {payload framed got : Bytes} (h : frame payload = some framed)
    (hgot : got <+: framed) : 4 ≤ got.length ∧ Conn.wanted got = 0 ↔ got = framed := by
  obtain ⟨size, hsize, rfl⟩ := Option.map_eq_some_iff.mp h
  obtain ⟨hfour, hcount⟩ := packLength_eq_some hsize
  have hlength := hgot.length_le
  rw [List.length_append, hfour] at hlength
  have htake : 4 ≤ got.length → unpackLength (got.take 4) = payload.length := by
    intro hlong
    have heq := List.prefix_iff_eq_take.mp hgot
    rw [heq, List.take_take, min_eq_left hlong, List.take_append_of_le_length (by omega),
      List.take_of_length_le (by omega)]
    exact hcount
  constructor
  · rintro ⟨hlong, hzero⟩
    rw [Conn.wanted, if_neg (by omega), htake hlong] at hzero
    exact hgot.eq_of_length (by rw [List.length_append, hfour]; omega)
  · rintro rfl
    have hlong : 4 ≤ (size ++ payload).length := by rw [List.length_append]; omega
    refine ⟨hlong, ?_⟩
    rw [Conn.wanted, if_neg (by omega), htake hlong, List.length_append, hfour]
    omega

theorem frame_drop {payload framed : Bytes} (h : frame payload = some framed) :
    framed.drop 4 = payload := by
  obtain ⟨size, hsize, rfl⟩ := Option.map_eq_some_iff.mp h
  obtain ⟨hfour, _⟩ := packLength_eq_some hsize
  rw [← hfour, List.drop_left]

theorem frame_ne_nil {payload framed : Bytes} (h : frame payload = some framed) : framed ≠ [] := by
  obtain ⟨size, hsize, rfl⟩ := Option.map_eq_some_iff.mp h
  obtain ⟨hfour, _⟩ := packLength_eq_some hsize
  intro hnil
  have hlength := congrArg List.length hnil
  rw [List.length_append, hfour] at hlength
  simp at hlength

theorem readReply_fetch (archiveUrl : String) (forceRefresh : Bool) (requestId : String)
    (http : HttpClient) (stream : StreamReply) :
    readReply
      (sorted (respond (sorted ((Call.fetch archiveUrl forceRefresh).request requestId)) http stream).header)
      (respond (sorted ((Call.fetch archiveUrl forceRefresh).request requestId)) http stream).payload =
    clientView (fetch archiveUrl forceRefresh http) := by
  have hflat := flat_request requestId (.fetch archiveUrl forceRefresh)
  have hrespond : respond (sorted ((Call.fetch archiveUrl forceRefresh).request requestId)) http stream =
      ⟨fetchHeader (.str requestId) (fetch archiveUrl forceRefresh http),
        (fetch archiveUrl forceRefresh http).payload.getD []⟩ := by
    simp only [respond, hflat.get_sorted]
    cases forceRefresh <;> rfl
  rw [hrespond]
  generalize hresult : fetch archiveUrl forceRefresh http = r
  have hwell : Reply.WellFormed ⟨fetchHeader (.str requestId) r, r.payload.getD []⟩ :=
    wellFormed_fetch (scalar_str _) (hresult ▸ fetch_payloadLength _ _ _)
  have hget := hwell.flat.get_sorted
  dsimp only at hget ⊢
  have hstatus : get (fetchHeader (.str requestId) r) "status" = some (.str r.status) := rfl
  have hcache : get (fetchHeader (.str requestId) r) "cache_source" =
      some (ofOption .str r.cacheSource) := rfl
  have herror : get (fetchHeader (.str requestId) r) "error" = some (ofOption .str r.error) := rfl
  have hcode : get (fetchHeader (.str requestId) r) "error_code" =
      some (ofOption .str r.errorCode) := rfl
  have hnumber : get (fetchHeader (.str requestId) r) "status_code" =
      some (ofOption .int r.statusCode) := rfl
  rw [readReply, clientView, hget, hget, hget, hget, hget, hstatus, hcache, herror, hcode, hnumber]
  split
  · rename_i hok
    obtain hok : r.status = "ok" := by simpa using hok
    rw [if_pos hok]
  · rename_i hnot
    rw [if_neg fun hok => hnot (by rw [hok])]
    rfl

/-! ## What the broker and the network do to a connection -/

section Connection
variable {served : List (Served ι)} {a : ι} {conn conn' : Conn ι} {activity : Activity}

theorem Attached.broken (h : Attached served a conn activity) (hdead : conn'.Dead)
    (hdown : conn'.down <+: conn.down) : Attached served a conn' activity := by
  have hnil : conn.down = [] → conn'.down = [] := fun hd => List.prefix_nil.mp (hd ▸ hdown)
  have hquiet : conn.Quiet → conn'.Quiet := fun hq => ⟨hnil hq.down, Or.inl hdead⟩
  cases activity with
  | idle => exact hquiet h
  | connecting => exact hquiet h
  | exchanging p attempt c stage =>
    cases h with
    | sending left hleft hd _ => exact .sending left hleft (hnil hd) (Or.inl hdead)
    | waiting hd _ => exact .waiting (hnil hd) (Or.inl hdead)
    | reading got e hanswers hreply =>
      refine .reading got e hanswers ?_
      cases hreply with
      | coming raw left hraw hsum _ _ =>
        have hpart : got ++ conn.down <+: raw := ⟨left, hsum⟩
        exact .broken raw hraw (((List.prefix_append_right_inj got).mpr hdown).trans hpart) hdead
      | broken raw hraw hpart _ =>
        exact .broken raw hraw (((List.prefix_append_right_inj got).mpr hdown).trans hpart) hdead

theorem Conn.Dead.not_alive (h : conn.Dead) (hserver : conn.server ≠ .closed) : conn.alive = false :=
  h.resolve_right hserver

theorem Conn.take_owner (got : Bytes) (count : Nat) :
    (conn.take got count).owner = conn.owner := by
  simp only [Conn.take]
  split
  · split <;> rfl
  · rfl

theorem Conn.take_alive (got : Bytes) (count : Nat) : (conn.take got count).alive = conn.alive := by
  simp only [Conn.take]
  split
  · split <;> rfl
  · rfl

theorem Conn.take_down (got : Bytes) (count : Nat) : (conn.take got count).down = conn.down := by
  simp only [Conn.take]
  split
  · split <;> rfl
  · rfl

theorem Conn.Requested.take {p : Pending} {left got : Bytes} {count : Nat}
    (h : conn.Requested p left) (hserver : conn.server = .reading got) :
    (conn.take got count).Requested p left := by
  cases h with
  | read hserving => rw [hserver] at hserving; cases hserving
  | coming got' framed hgot hframed hsum hne =>
    obtain rfl : got = got' := by rw [hserver] at hgot; exact ServerStage.reading.inj hgot
    have hsplit : got ++ conn.up.take count ++ (conn.up.drop count ++ left) = framed := by
      rw [← hsum]
      conv_rhs => rw [← List.take_append_drop count conn.up]
      simp only [List.append_assoc]
    have hpart : got ++ conn.up.take count <+: framed := ⟨_, hsplit⟩
    have hwanted := wanted_frame hframed hpart
    by_cases hdone : got ++ conn.up.take count = framed
    · have hrest : conn.up.drop count ++ left = [] := by
        rw [hdone] at hsplit
        simpa using hsplit
      obtain ⟨hup, hleft⟩ := List.append_eq_nil_iff.mp hrest
      have hloads : jsonLoads ((got ++ conn.up.take count).drop 4) = .ok p.asRead := by
        rw [hdone, frame_drop hframed]
        exact (flat_request p.requestId p.call).jsonLoads
      have htake : conn.take got count =
          { conn with up := conn.up.drop count, server := .serving p.asRead } := by
        simp only [Conn.take, if_pos (hwanted.mpr hdone), hloads]
      rw [htake]
      exact .read rfl hup hleft
    · have htake : conn.take got count =
          { conn with up := conn.up.drop count, server := .reading (got ++ conn.up.take count) } := by
        simp only [Conn.take, if_neg (mt hwanted.mp hdone)]
      rw [htake]
      exact .coming _ framed rfl hframed (by rw [← hsplit, List.append_assoc]) hdone

theorem Attached.take {got : Bytes} {count : Nat} (h : Attached served a conn activity)
    (hserver : conn.server = .reading got) (hcount : 0 < count ∧ count ≤ conn.up.length) :
    Attached served a (conn.take got count) activity := by
  have hopen : conn.server ≠ .closed := by rw [hserver]; simp
  have hup : conn.up ≠ [] := by
    intro hnil
    rw [hnil] at hcount
    simp at hcount
    omega
  have hdead : conn.Dead → Attached served a (conn.take got count) activity := fun hd =>
    h.broken (Or.inl (by rw [Conn.take_alive]; exact hd.not_alive hopen))
      (by rw [Conn.take_down])
  have hquiet : conn.Quiet → Attached served a (conn.take got count) activity := fun hq =>
    hdead (hq.idle.resolve_right fun hidle => hup hidle.1)
  cases activity with
  | idle => exact hquiet h
  | connecting => exact hquiet h
  | exchanging p attempt c stage =>
    cases h with
    | sending left hleft hdown hcase =>
      rcases hcase with hd | hrequested
      · exact hdead hd
      · exact .sending left hleft (by rw [Conn.take_down]; exact hdown)
          (Or.inr (hrequested.take hserver))
    | waiting hdown hcase =>
      rcases hcase with hd | hrequested
      · exact hdead hd
      · exact .waiting (by rw [Conn.take_down]; exact hdown) (Or.inr (hrequested.take hserver))
    | reading got' e hanswers hreply =>
      cases hreply with
      | coming raw left _ _ hnil _ => exact absurd hnil hup
      | broken raw _ _ hd => exact hdead hd

theorem Conn.answer_owner (r : Reply) : (conn.answer r).owner = conn.owner := by
  unfold Conn.answer
  split <;> rfl

theorem Conn.answer_alive (r : Reply) : (conn.answer r).alive = conn.alive := by
  unfold Conn.answer
  split <;> rfl

theorem Conn.answer_down (r : Reply) : (conn.answer r).down = conn.down := by
  unfold Conn.answer
  split <;> rfl

theorem Reply.bytes_ne_nil {r : Reply} {raw : Bytes} (h : r.bytes = some raw) : raw ≠ [] := by
  obtain ⟨framed, hframed, rfl⟩ := Option.map_eq_some_iff.mp h
  intro hnil
  exact frame_ne_nil hframed (List.append_eq_nil_iff.mp hnil).1

theorem Attached.answer {request : List (String × Json)} {http : HttpClient} {stream : StreamReply}
    (h : Attached served a conn activity) (hserver : conn.server = .serving request)
    (hsince : ∀ p, activity.pending = some p → p.since ≤ served.length) :
    Attached (served ++ [⟨a, request, http, stream⟩]) a
      (conn.answer (respond request http stream)) activity := by
  have hopen : conn.server ≠ .closed := by rw [hserver]; simp
  have hdead : conn.Dead → Attached (served ++ [⟨a, request, http, stream⟩]) a
      (conn.answer (respond request http stream)) activity := fun hd =>
    (h.mono _).broken (Or.inl (by rw [Conn.answer_alive]; exact hd.not_alive hopen))
      (by rw [Conn.answer_down])
  have hquiet : conn.Quiet → Attached (served ++ [⟨a, request, http, stream⟩]) a
      (conn.answer (respond request http stream)) activity := fun hq =>
    hdead (hq.idle.resolve_right fun hidle => by rw [hserver] at hidle; cases hidle.2)
  cases activity with
  | idle => exact hquiet h
  | connecting => exact hquiet h
  | exchanging p attempt c stage =>
    cases h with
    | sending left hleft hdown hcase =>
      rcases hcase with hd | hrequested
      · exact hdead hd
      · cases hrequested with
        | coming got framed hgot => rw [hserver] at hgot; cases hgot
        | read _ _ hnil => exact absurd hnil hleft
    | waiting hdown hcase =>
      rcases hcase with hd | hrequested
      · exact hdead hd
      · cases hrequested with
        | coming got framed hgot => rw [hserver] at hgot; cases hgot
        | read hserving hup _ =>
          obtain rfl : request = p.asRead := by
            rw [hserver] at hserving
            exact ServerStage.serving.inj hserving
          have hlength : p.since ≤ served.length := hsince p rfl
          have hanswers : Answers (served ++ [⟨a, p.asRead, http, stream⟩]) a p
              ⟨a, p.asRead, http, stream⟩ := by
            refine ⟨?_, rfl, rfl⟩
            rw [List.drop_append_of_le_length hlength]
            exact List.mem_append_right _ (List.mem_singleton_self _)
          cases hbytes : (respond p.asRead http stream).bytes with
          | none =>
            have hclosed : (conn.answer (respond p.asRead http stream)).server = .closed := by
              simp only [Conn.answer, hbytes]
            exact .waiting (by rw [Conn.answer_down]; exact hdown) (Or.inl (Or.inr hclosed))
          | some raw =>
            have hnext : conn.answer (respond p.asRead http stream) =
                { conn with server := .sending raw } := by
              simp only [Conn.answer, hbytes]
            rw [hnext]
            refine .reading [] _ hanswers (.coming raw raw hbytes ?_ hup ?_)
            · simp [hdown]
            · rw [if_neg (Reply.bytes_ne_nil hbytes)]
    | reading got e hanswers hreply =>
      cases hreply with
      | broken raw _ _ hd => exact hdead hd
      | coming raw left _ _ _ hsent =>
        rw [hserver] at hsent
        split at hsent <;> cases hsent

theorem Conn.replied_owner (left : Bytes) (count : Nat) :
    (conn.replied left count).owner = conn.owner := by
  unfold Conn.replied Conn.pushDown
  split <;> rfl

theorem Attached.replied {left : Bytes} {count : Nat} (h : Attached served a conn activity)
    (hserver : conn.server = .sending left) : Attached served a (conn.replied left count) activity := by
  have hopen : conn.server ≠ .closed := by rw [hserver]; simp
  have hsame : conn.alive = false → (conn.replied left count).alive = false ∧
      (conn.replied left count).down = conn.down := by
    intro halive
    simp [Conn.replied, Conn.pushDown, halive]
  have hdead : conn.Dead → Attached served a (conn.replied left count) activity := by
    intro hd
    obtain ⟨halive, hdown⟩ := hsame (hd.not_alive hopen)
    exact h.broken (Or.inl halive) (hdown ▸ List.prefix_rfl)
  have hquiet : conn.Quiet → Attached served a (conn.replied left count) activity := fun hq =>
    hdead (hq.idle.resolve_right fun hidle => by rw [hserver] at hidle; cases hidle.2)
  have hnot : ∀ p left', ¬conn.Requested p left' := by
    intro p left' hrequested
    cases hrequested with
    | coming got framed hgot => rw [hserver] at hgot; cases hgot
    | read hserving => rw [hserver] at hserving; cases hserving
  cases activity with
  | idle => exact hquiet h
  | connecting => exact hquiet h
  | exchanging p attempt c stage =>
    cases h with
    | sending left' hleft hdown hcase => exact hdead (hcase.resolve_right (hnot p _))
    | waiting hdown hcase => exact hdead (hcase.resolve_right (hnot p _))
    | reading got e hanswers hreply =>
      cases hreply with
      | broken raw _ _ hd => exact hdead hd
      | coming raw left' hraw hsum hup hsent =>
        by_cases halive : conn.alive = true
        · obtain rfl : left = left' := by
            rw [hserver] at hsent
            split at hsent
            · cases hsent
            · exact ServerStage.sending.inj hsent
          refine .reading got e hanswers (.coming raw (left.drop count) hraw ?_ ?_ ?_)
          · rw [← hsum]
            simp [Conn.replied, Conn.pushDown, halive]
          · simpa [Conn.replied, Conn.pushDown, halive] using hup
          · simp [Conn.replied, List.isEmpty_iff]
        · exact hdead (Or.inl (by simpa using halive))

end Connection

/-! ## What a client does -/

section Client
variable {s s' : System ι} {a : ι} {p : Pending} {attempt c : Nat}

theorem onConn_self (s : System ι) (f : Conn ι → Conn ι) {conn : Conn ι}
    (h : s.conns[c]? = some conn) : (s.onConn c f).conns[c]? = some (f conn) := by
  simp [System.onConn, h]

theorem onConn_of_ne (s : System ι) (f : Conn ι → Conn ι) {c c' : Nat} (h : c ≠ c') :
    (s.onConn c f).conns[c']? = s.conns[c']? := by
  simp [System.onConn, h]

structure Untouched (a : ι) (s s' : System ι) : Prop where
  threads : ∀ b, b ≠ a → s'.threads b = s.threads b
  served : s'.served = s.served
  conns : ∀ (c : Nat) (conn : Conn ι), s.conns[c]? = some conn → conn.owner ≠ a →
    s'.conns[c]? = some conn

theorem Untouched.refl (a : ι) (s : System ι) : Untouched a s s :=
  ⟨fun _ _ => rfl, rfl, fun _ _ h _ => h⟩

theorem Untouched.finish (h : Untouched a s s') (p : Pending) (r : Result) :
    Untouched a s (s'.finish a p r) := ⟨h.threads, h.served, h.conns⟩

theorem Untouched.onConn (h : Untouched a s s') {c : Nat} {f : Conn ι → Conn ι}
    (howner : ∀ conn, s.conns[c]? = some conn → conn.owner = a) : Untouched a s (s'.onConn c f) where
  threads := h.threads
  served := h.served
  conns c' conn hconn hne := by
    have hother : c ≠ c' := by
      rintro rfl
      exact hne (howner conn hconn)
    rw [onConn_of_ne s' f hother]
    exact h.conns c' conn hconn hne

theorem ThreadSafe.other {b : ι} (hb : b ≠ a) (h : ThreadSafe s b) (hun : Untouched a s s') :
    ThreadSafe s' b := by
  constructor
  · intro c hc
    rw [hun.threads b hb] at hc ⊢
    obtain ⟨conn, hconn, howner, hattached⟩ := h.attached c hc
    refine ⟨conn, hun.conns c conn hconn (howner ▸ hb), howner, ?_⟩
    rw [hun.served]
    exact hattached
  · intro p attempt c stage hactivity
    rw [hun.threads b hb] at hactivity ⊢
    exact h.exchanging p attempt c stage hactivity
  · intro p hp
    rw [hun.threads b hb] at hp
    rw [hun.served]
    exact h.since p hp

theorem System.Safe.client (h : s.Safe) (hun : Untouched a s s') (hthread : ThreadSafe s' a)
    (hfinished : ∀ f ∈ s'.finished, f ∈ s.finished ∨ Answered s.served f) : s'.Safe where
  threads b := by
    by_cases hb : b = a
    · exact hb ▸ hthread
    · exact (h.threads b).other hb hun
  finished f hf := by
    rw [hun.served]
    exact (hfinished f hf).elim (h.finished f) id

theorem threadSafe_of_thread {t : Thread} (ht : s'.threads a = t)
    (hattached : ∀ c, t.sock = some c →
      ∃ conn, s'.conns[c]? = some conn ∧ conn.owner = a ∧ Attached s'.served a conn t.activity)
    (hexchanging : ∀ p attempt c stage, t.activity = .exchanging p attempt c stage → t.sock = some c)
    (hsince : ∀ p, t.activity.pending = some p → p.since ≤ s'.served.length) : ThreadSafe s' a := by
  subst ht
  exact ⟨hattached, hexchanging, hsince⟩

theorem threadSafe_unconnected {activity : Activity} (ht : s'.threads a = ⟨none, activity⟩)
    (hidle : ∀ p attempt c stage, activity ≠ .exchanging p attempt c stage)
    (hsince : ∀ p, activity.pending = some p → p.since ≤ s'.served.length) : ThreadSafe s' a := by
  apply threadSafe_of_thread ht
  · intro c hc
    cases hc
  · intro p attempt c stage hactivity
    exact absurd hactivity (hidle p attempt c stage)
  · exact hsince

theorem threadSafe_quiet {c : Nat} {conn : Conn ι} {activity : Activity}
    (ht : s'.threads a = ⟨some c, activity⟩) (hconn : s'.conns[c]? = some conn) (howner : conn.owner = a)
    (hattached : Attached s'.served a conn activity)
    (hidle : ∀ p attempt c stage, activity ≠ .exchanging p attempt c stage)
    (hsince : ∀ p, activity.pending = some p → p.since ≤ s'.served.length) : ThreadSafe s' a := by
  apply threadSafe_of_thread ht
  · intro d hd
    obtain rfl := Option.some.inj hd
    exact ⟨conn, hconn, howner, hattached⟩
  · intro p attempt c stage hactivity
    exact absurd hactivity (hidle p attempt c stage)
  · exact hsince

theorem threadSafe_exchanging {stage : Stage} {conn : Conn ι}
    (ht : s'.threads a = ⟨some c, .exchanging p attempt c stage⟩) (hconn : s'.conns[c]? = some conn)
    (howner : conn.owner = a) (hsync : InSync s'.served a p conn stage)
    (hsince : p.since ≤ s'.served.length) : ThreadSafe s' a := by
  apply threadSafe_of_thread ht
  · intro d hd
    obtain rfl := Option.some.inj hd
    exact ⟨conn, hconn, howner, hsync⟩
  · intro p' attempt' c' stage' hactivity
    cases hactivity
    rfl
  · intro p' hp
    obtain rfl := Option.some.inj hp
    exact hsince

theorem ThreadSafe.owner (h : ThreadSafe s a) (hsock : (s.threads a).sock = some c) :
    ∀ conn, s.conns[c]? = some conn → conn.owner = a := by
  intro conn hconn
  obtain ⟨conn', hconn', howner, _⟩ := h.attached c hsock
  rw [hconn] at hconn'
  exact Option.some.inj hconn' ▸ howner

theorem InSync.begin {served : List (Served ι)} {conn : Conn ι} {framed : Bytes} (h : conn.Quiet)
    (hframed : frame p.bytes = some framed) : InSync served a p conn (.sending framed) := by
  refine .sending framed (frame_ne_nil hframed) h.down (h.idle.imp_right fun hidle => ?_)
  obtain ⟨hup, hserver⟩ := hidle
  exact .coming [] framed hserver hframed (by simp [hup]) (frame_ne_nil hframed).symm

theorem Conn.Requested.pushUp {conn : Conn ι} {left : Bytes} (h : conn.Requested p left)
    (hleft : left ≠ []) (halive : conn.alive = true) (count : Nat) :
    (conn.pushUp (left.take count)).Requested p (left.drop count) := by
  cases h with
  | read _ _ hnil => exact absurd hnil hleft
  | coming got framed hserver hframed hsum hne =>
    refine .coming got framed ?_ hframed ?_ hne
    · simpa [Conn.pushUp, halive] using hserver
    · simpa [Conn.pushUp, halive, List.append_assoc] using hsum

theorem Conn.pushUp_owner (conn : Conn ι) (bytes : Bytes) : (conn.pushUp bytes).owner = conn.owner := by
  unfold Conn.pushUp
  split <;> rfl

theorem InSync.send {served : List (Served ι)} {conn : Conn ι} {left : Bytes} (count : Nat)
    (h : InSync served a p conn (.sending left)) :
    InSync served a p (conn.pushUp (left.take count))
      (if (left.drop count).isEmpty then .receiving [] else .sending (left.drop count)) := by
  cases h with
  | sending _ hleft hdown hcase =>
    have hdown' : (conn.pushUp (left.take count)).down = [] := by
      unfold Conn.pushUp
      split <;> exact hdown
    have hcase' : (conn.pushUp (left.take count)).Dead ∨
        (conn.pushUp (left.take count)).Requested p (left.drop count) := by
      by_cases halive : conn.alive = true
      · rcases hcase with hdead | hrequested
        · refine Or.inl (Or.inr ?_)
          have hserver := hdead.resolve_left (by simp [halive])
          simpa [Conn.pushUp, halive] using hserver
        · exact Or.inr (hrequested.pushUp hleft halive count)
      · refine Or.inl (Or.inl ?_)
        simp [Conn.pushUp, halive]
    split
    · rename_i hempty
      rw [List.isEmpty_iff] at hempty
      rw [hempty] at hcase'
      exact .waiting hdown' hcase'
    · rename_i hmore
      exact .sending _ (by simpa using hmore) hdown' hcase'

theorem InSync.receive {served : List (Served ι)} {conn : Conn ι} {got : Bytes} {count : Nat}
    (h : InSync served a p conn (.receiving got)) (hcount : 0 < count ∧ count ≤ conn.down.length) :
    ∃ e, Answers served a p e ∧
      ((∃ more, Broker.receive (got ++ conn.down.take count) = .wants more ∧
          InSync served a p { conn with down := conn.down.drop count }
            (.receiving (got ++ conn.down.take count))) ∨
        (Broker.receive (got ++ conn.down.take count) =
            .done (sorted e.reply.header) e.reply.payload ∧
          Conn.Quiet { conn with down := conn.down.drop count })) := by
  cases h with
  | waiting hdown _ =>
    rw [hdown] at hcount
    simp at hcount
    omega
  | reading _ e hanswers hreply =>
    refine ⟨e, hanswers, ?_⟩
    have hsplit : got ++ conn.down = got ++ conn.down.take count ++ conn.down.drop count := by
      rw [List.append_assoc, List.take_append_drop]
    obtain ⟨raw, hraw, hpart⟩ : ∃ raw, e.reply.bytes = some raw ∧ got ++ conn.down <+: raw := by
      cases hreply with
      | coming raw left hraw hsum _ _ => exact ⟨raw, hraw, left, hsum⟩
      | broken raw hraw hpart _ => exact ⟨raw, hraw, hpart⟩
    have hpart' : got ++ conn.down.take count <+: raw :=
      (List.prefix_append _ _).trans (hsplit ▸ hpart)
    rcases receive_prefix hanswers.wellFormed hraw hpart' with ⟨hall, hdone⟩ | ⟨_, more, _, hwants⟩
    · refine Or.inr ⟨hdone, ?_⟩
      have hdrop : conn.down.drop count = [] := by
        rw [hsplit, hall] at hpart
        have hlength := hpart.length_le
        rw [List.length_append] at hlength
        exact List.length_eq_zero_iff.mp (by omega)
      refine ⟨hdrop, ?_⟩
      cases hreply with
      | broken _ _ _ hdead => exact Or.inl hdead
      | coming raw' left hraw' hsum hup hserver =>
        obtain rfl : raw' = raw := Option.some.inj (hraw'.symm.trans hraw)
        have hleft : left = [] := by
          rw [hsplit, hdrop, List.append_nil, hall] at hsum
          simpa using hsum
        exact Or.inr ⟨hup, by rw [hserver, if_pos hleft]⟩
    · refine Or.inl ⟨more, hwants, .reading _ e hanswers ?_⟩
      cases hreply with
      | broken raw' hraw' hpart hdead => exact .broken raw' hraw' (by rw [← hsplit]; exact hpart) hdead
      | coming raw' left hraw' hsum hup hserver =>
        exact .coming raw' left hraw' (by rw [← hsplit]; exact hsum) hup hserver

theorem safe_initial : (System.initial : System ι).Safe where
  threads a := threadSafe_unconnected rfl (by simp) (by simp [Activity.pending])
  finished f hf := by cases hf

variable [DecidableEq ι]

theorem become_self (s : System ι) (a : ι) (t : Thread) : (s.become a t).threads a = t :=
  Function.update_self _ _ _

theorem become_of_ne {b : ι} (h : b ≠ a) (s : System ι) (t : Thread) :
    (s.become a t).threads b = s.threads b := Function.update_of_ne h _ _

theorem Untouched.become (h : Untouched a s s') (t : Thread) : Untouched a s (s'.become a t) where
  threads b hb := by rw [become_of_ne hb, h.threads b hb]
  served := h.served
  conns := h.conns

theorem ThreadSafe.untouched_resetSocket (h : ThreadSafe s a) (hun : Untouched a s s')
    (hsock : (s'.threads a).sock = (s.threads a).sock) (activity : Activity) :
    Untouched a s (s'.resetSocket a activity) := by
  unfold System.resetSocket
  split
  · rename_i c hc
    exact (hun.onConn (h.owner (hsock ▸ hc))).become _
  · exact hun.become _

theorem resetSocket_thread (s : System ι) (a : ι) (activity : Activity) :
    (s.resetSocket a activity).threads a = ⟨none, activity⟩ := by
  unfold System.resetSocket
  split <;> exact become_self _ _ _

theorem resetSocket_served (s : System ι) (a : ι) (activity : Activity) :
    (s.resetSocket a activity).served = s.served := by
  unfold System.resetSocket
  split <;> rfl

theorem resetSocket_finished (s : System ι) (a : ι) (activity : Activity) :
    (s.resetSocket a activity).finished = s.finished := by
  unfold System.resetSocket
  split <;> rfl

theorem System.Safe.resetSocket (h : s.Safe) : (s.resetSocket a .idle).Safe := by
  apply h.client ((h.threads a).untouched_resetSocket (.refl a s) rfl _)
  · exact threadSafe_unconnected (resetSocket_thread s a _) (by simp) (by simp [Activity.pending])
  · intro f hf
    rw [resetSocket_finished] at hf
    exact Or.inl hf

theorem System.Safe.failed (h : s.Safe) (hun : Untouched a s s') (hfinished : s'.finished = s.finished)
    (hsock : (s'.threads a).sock = (s.threads a).sock) (hsince : p.since ≤ s.served.length)
    (message : String) : (s'.failed a p attempt message).Safe := by
  unfold System.failed
  split
  · apply h.client (((h.threads a).untouched_resetSocket hun hsock _).finish _ _)
    · exact threadSafe_unconnected (resetSocket_thread s' a .idle) (by simp) (by simp [Activity.pending])
    · intro f hf
      rw [System.finish, resetSocket_finished, hfinished] at hf
      rcases List.mem_append.mp hf with hold | hnew
      · exact Or.inl hold
      · obtain rfl := List.mem_singleton.mp hnew
        refine Or.inr fun archiveUrl forceRefresh hcall => Or.inl ⟨message, ?_⟩
        dsimp only at hcall ⊢
        rw [hcall]
  · apply h.client ((h.threads a).untouched_resetSocket hun hsock _)
    · refine threadSafe_unconnected (resetSocket_thread s' a _) (by simp) ?_
      intro q hq
      obtain rfl := Option.some.inj hq
      rw [resetSocket_served, hun.served]
      exact hsince
    · intro f hf
      rw [resetSocket_finished, hfinished] at hf
      exact Or.inl hf

theorem System.Safe.returned {result : Result} {conn : Conn ι} (h : s.Safe) (hun : Untouched a s s')
    (hfinished : s'.finished = s.finished) (hsock : (s'.threads a).sock = some c)
    (hconn : s'.conns[c]? = some conn) (howner : conn.owner = a) (hquiet : conn.Quiet)
    (hanswered : Answered s.served ⟨a, p, result⟩) :
    ((s'.become a ⟨(s'.threads a).sock, .idle⟩).finish a p result).Safe := by
  apply h.client ((hun.become _).finish _ _)
  · have ht : ((s'.become a ⟨(s'.threads a).sock, .idle⟩).finish a p result).threads a =
        ⟨some c, .idle⟩ := by
      rw [← hsock]
      exact become_self _ _ _
    exact threadSafe_quiet ht hconn howner hquiet (by simp) (by simp [Activity.pending])
  · intro f hf
    rcases List.mem_append.mp hf with hold | hnew
    · exact Or.inl (hfinished ▸ hold)
    · exact Or.inr (List.mem_singleton.mp hnew ▸ hanswered)

theorem System.Safe.completed {conn : Conn ι} {e : Served ι} (h : s.Safe) (hun : Untouched a s s')
    (hfinished : s'.finished = s.finished) (hsame : (s'.threads a).sock = (s.threads a).sock)
    (hsock : (s'.threads a).sock = some c) (hconn : s'.conns[c]? = some conn) (howner : conn.owner = a) (hquiet : conn.Quiet)
    (hanswers : Answers s.served a p e) (hsince : p.since ≤ s.served.length) :
    (s'.completed a p attempt (sorted e.reply.header) e.reply.payload).Safe := by
  unfold System.completed
  split
  · rename_i archiveUrl forceRefresh hcall
    apply h.returned hun hfinished hsock hconn howner hquiet
    intro url force hcall'
    refine Or.inr (Or.inr ⟨e, hanswers, ?_⟩)
    dsimp only at hcall' ⊢
    obtain ⟨rfl, rfl⟩ := Call.fetch.inj (hcall.symm.trans hcall')
    rw [Served.reply, hanswers.request, Pending.asRead, hcall, readReply_fetch]
  · rename_i values hcall
    split
    · apply h.returned hun hfinished hsock hconn howner hquiet
      intro url force hcall'
      dsimp only at hcall'
      rw [hcall] at hcall'
      cases hcall'
    · exact h.failed hun hfinished hsame hsince _

theorem System.Safe.connected {conn : Conn ι} (h : s.Safe) (hun : Untouched a s s')
    (hfinished : s'.finished = s.finished) (hconn : s'.conns[c]? = some conn) (howner : conn.owner = a)
    (hquiet : conn.Quiet) (hsince : p.since ≤ s.served.length) :
    (match frame p.bytes with
    | some bytes => s'.become a ⟨some c, .exchanging p attempt c (.sending bytes)⟩
    | none => (s'.become a ⟨some c, .idle⟩).finish a p .raised).Safe := by
  cases hframed : frame p.bytes with
  | some framed =>
    apply h.client (hun.become _)
    · exact threadSafe_exchanging (become_self _ _ _) hconn howner (.begin hquiet hframed)
        (hun.served ▸ hsince)
    · intro f hf
      exact Or.inl (hfinished ▸ hf)
  | none =>
    apply h.client ((hun.become _).finish _ _)
    · exact threadSafe_quiet (become_self s' a ⟨some c, .idle⟩) hconn howner hquiet (by simp)
        (by simp [Activity.pending])
    · intro f hf
      rcases List.mem_append.mp hf with hold | hnew
      · exact Or.inl (hfinished ▸ hold)
      · obtain rfl := List.mem_singleton.mp hnew
        exact Or.inr fun _ _ _ => Or.inr (Or.inl ⟨rfl, hframed⟩)

theorem System.Safe.connect (h : s.Safe) (hactivity : (s.threads a).activity = .connecting p attempt) :
    (s.connect a p attempt).Safe := by
  have hsince : p.since ≤ s.served.length := (h.threads a).since p (by rw [hactivity]; rfl)
  unfold System.connect
  cases hsock : (s.threads a).sock with
  | some c =>
    obtain ⟨conn, hconn, howner, hattached⟩ := (h.threads a).attached c hsock
    rw [hactivity] at hattached
    exact h.connected (.refl a s) rfl hconn howner hattached hsince
  | none =>
    have hun : Untouched a s { s with conns := s.conns ++ [Conn.fresh a] } := by
      refine ⟨fun _ _ => rfl, rfl, fun c conn hconn _ => ?_⟩
      have hlt : c < s.conns.length := (List.getElem?_eq_some_iff.mp hconn).1
      dsimp only
      rw [List.getElem?_append_left hlt]
      exact hconn
    have hquiet : (Conn.fresh a).Quiet := ⟨rfl, Or.inr ⟨rfl, rfl⟩⟩
    have hnew : (s.conns ++ [Conn.fresh a])[s.conns.length]? = some (Conn.fresh a) := by simp
    exact h.connected hun rfl hnew rfl hquiet hsince

theorem System.Safe.receive {conn : Conn ι} {got : Bytes} {count : Nat} (h : s.Safe)
    (hactivity : (s.threads a).activity = .exchanging p attempt c (.receiving got))
    (hconn : s.conns[c]? = some conn) (hcount : 0 < count ∧ count ≤ conn.down.length) :
    ((s.onConn c fun conn => { conn with down := conn.down.drop count }).advance a p attempt c
      (got ++ conn.down.take count)).Safe := by
  have hsock := (h.threads a).exchanging p attempt c _ hactivity
  have hsince : p.since ≤ s.served.length := (h.threads a).since p (by rw [hactivity]; rfl)
  obtain ⟨conn', hconn', howner, hattached⟩ := (h.threads a).attached c hsock
  obtain rfl : conn' = conn := Option.some.inj (hconn'.symm.trans hconn)
  rw [hactivity] at hattached
  have hun : Untouched a s (s.onConn c fun conn => { conn with down := conn.down.drop count }) :=
    (Untouched.refl a s).onConn ((h.threads a).owner hsock)
  have hnext := onConn_self s (fun conn => { conn with down := conn.down.drop count }) hconn
  obtain ⟨e, hanswers, ⟨more, hwants, hsync⟩ | ⟨hdone, hquiet⟩⟩ := InSync.receive hattached hcount
  · unfold System.advance
    rw [hwants]
    apply h.client (hun.become _)
    · exact threadSafe_exchanging (become_self _ _ _) hnext howner hsync hsince
    · intro f hf
      exact Or.inl hf
  · unfold System.advance
    rw [hdone]
    exact h.completed hun rfl rfl hsock hnext howner hquiet hanswers hsince

theorem System.Safe.send {left : Bytes} {count : Nat} (h : s.Safe)
    (hactivity : (s.threads a).activity = .exchanging p attempt c (.sending left)) :
    ((s.onConn c (·.pushUp (left.take count))).become a ⟨some c, .exchanging p attempt c
      (if (left.drop count).isEmpty then .receiving [] else .sending (left.drop count))⟩).Safe := by
  have hsock := (h.threads a).exchanging p attempt c _ hactivity
  have hsince : p.since ≤ s.served.length := (h.threads a).since p (by rw [hactivity]; rfl)
  obtain ⟨conn, hconn, howner, hattached⟩ := (h.threads a).attached c hsock
  rw [hactivity] at hattached
  have hun : Untouched a s (s.onConn c (·.pushUp (left.take count))) :=
    (Untouched.refl a s).onConn ((h.threads a).owner hsock)
  apply h.client (hun.become _)
  · exact threadSafe_exchanging (become_self _ _ _) (onConn_self s _ hconn)
      ((Conn.pushUp_owner conn _).trans howner) (InSync.send count hattached) hsince
  · intro f hf
    exact Or.inl hf

omit [DecidableEq ι] in
/-- What the broker and the network do to one connection keeps it attached to its thread. -/
theorem System.Safe.onConn {f : Conn ι → Conn ι} (h : s.Safe) (more : List (Served ι))
    (hstep : ∀ conn, s.conns[c]? = some conn → (f conn).owner = conn.owner ∧
      ∀ activity, (∀ p, activity.pending = some p → p.since ≤ s.served.length) →
        Attached s.served conn.owner conn activity →
        Attached (s.served ++ more) conn.owner (f conn) activity) :
    System.Safe { s.onConn c f with served := s.served ++ more } where
  threads a := by
    have hthread := h.threads a
    apply threadSafe_of_thread rfl
    · intro d hd
      obtain ⟨conn, hconn, howner, hattached⟩ := hthread.attached d hd
      by_cases hcd : c = d
      · subst hcd
        obtain ⟨hsame, hnext⟩ := hstep conn hconn
        subst howner
        exact ⟨f conn, onConn_self s f hconn, hsame, hnext _ hthread.since hattached⟩
      · exact ⟨conn, (onConn_of_ne s f hcd).trans hconn, howner, hattached.mono more⟩
    · exact hthread.exchanging
    · intro p hp
      have hlength := hthread.since p hp
      simp only [List.length_append]
      omega
  finished g hg := (h.finished g hg).mono more

theorem System.Safe.step {event : Event ι} (h : s.Safe) (hstep : s.step event = some s') : s'.Safe := by
  have hbroker : ∀ (c : Nat) (f : Conn ι → Conn ι),
      (∀ conn, s.conns[c]? = some conn → (f conn).owner = conn.owner ∧
        ∀ activity, Attached s.served conn.owner conn activity →
          Attached s.served conn.owner (f conn) activity) → (s.onConn c f).Safe := by
    intro c f hf
    have hsafe := h.onConn (f := f) [] fun conn hconn => by
      rw [List.append_nil]
      exact ⟨(hf conn hconn).1, fun activity _ => (hf conn hconn).2 activity⟩
    rw [List.append_nil] at hsafe
    exact hsafe
  cases event with
  | call a call requestId =>
    simp only [System.step] at hstep
    split at hstep
    · rename_i hidle
      cases hstep
      apply h.client ((Untouched.refl a s).become _)
      · apply threadSafe_of_thread (become_self _ _ _)
        · intro c hc
          obtain ⟨conn, hconn, howner, hattached⟩ := (h.threads a).attached c hc
          rw [hidle] at hattached
          exact ⟨conn, hconn, howner, hattached⟩
        · intro p attempt c stage hactivity
          cases hactivity
        · intro p hp
          obtain rfl := Option.some.inj hp
          exact le_refl _
      · intro f hf
        exact Or.inl hf
    · cases hstep
  | connect a =>
    simp only [System.step] at hstep
    split at hstep
    · rename_i p attempt hactivity
      cases hstep
      exact h.connect hactivity
    · cases hstep
  | send a count =>
    simp only [System.step] at hstep
    split at hstep
    · rename_i p attempt c left hactivity
      split at hstep
      · cases hstep
        exact h.send hactivity
      · cases hstep
    · cases hstep
  | receive a count =>
    simp only [System.step] at hstep
    split at hstep
    · rename_i p attempt c got hactivity
      split at hstep
      · rename_i most conn _ hconn
        split at hstep
        · rename_i hcount
          cases hstep
          exact h.receive hactivity hconn ⟨hcount.1, hcount.2.2⟩
        · cases hstep
      · cases hstep
    · cases hstep
  | fail a message =>
    simp only [System.step] at hstep
    split at hstep
    · cases hstep
    · rename_i p attempt hactivity
      cases hstep
      exact h.failed (.refl a s) rfl rfl ((h.threads a).since p (by rw [hactivity]; rfl)) message
    · rename_i p attempt c stage hactivity
      cases hstep
      exact h.failed (.refl a s) rfl rfl ((h.threads a).since p (by rw [hactivity]; rfl)) message
  | close a =>
    simp only [System.step] at hstep
    split at hstep
    · cases hstep
      exact h.resetSocket
    · cases hstep
  | deliver c count =>
    simp only [System.step] at hstep
    split at hstep
    · rename_i conn hconn
      split at hstep
      · rename_i got hserver
        split at hstep
        · rename_i hcount
          cases hstep
          apply hbroker
          intro conn' hconn'
          obtain rfl := Option.some.inj (hconn.symm.trans hconn')
          exact ⟨Conn.take_owner _ _, fun activity ha => ha.take hserver ⟨hcount.1, hcount.2.2⟩⟩
        · cases hstep
      · cases hstep
    · cases hstep
  | serve c http stream =>
    simp only [System.step] at hstep
    split at hstep
    · rename_i conn hconn
      split at hstep
      · rename_i request hserver
        cases hstep
        apply h.onConn
        intro conn' hconn'
        obtain rfl := Option.some.inj (hconn.symm.trans hconn')
        exact ⟨Conn.answer_owner _, fun activity hsince ha => ha.answer hserver hsince⟩
      · cases hstep
    · cases hstep
  | reply c count =>
    simp only [System.step] at hstep
    split at hstep
    · rename_i conn hconn
      split at hstep
      · rename_i left hserver
        split at hstep
        · cases hstep
          apply hbroker
          intro conn' hconn'
          obtain rfl := Option.some.inj (hconn.symm.trans hconn')
          exact ⟨Conn.replied_owner _ _, fun activity ha => ha.replied hserver⟩
        · cases hstep
      · cases hstep
    · cases hstep
  | hangUp c =>
    cases hstep
    exact hbroker c _ fun conn _ => ⟨rfl, fun activity ha => ha.broken (Or.inr rfl) List.prefix_rfl⟩
  | cut c up down =>
    cases hstep
    exact hbroker c _ fun conn _ =>
      ⟨rfl, fun activity ha => ha.broken (Or.inl rfl) (List.take_prefix down conn.down)⟩

/-- A client's `fetch` reports a failure, or returns what the broker got for its own request. -/
theorem fetch_answered {events : List (Event ι)}
    (hrun : run System.step System.initial events = some s) :
    ∀ f ∈ s.finished, Answered s.served f :=
  (run_preserves (fun _ _ _ hs hstep => System.Safe.step hs hstep) safe_initial hrun).finished

end Client
section Retry

def page (body : UInt8) : HttpClient := ⟨none, .ok (some [body])⟩
def unstreamed : StreamReply := ⟨"failed", none, none, 0, "", none, none, none, none, none, none⟩
def pageCall : Call := .fetch "a" false

def requestLength : Nat := ((frame (pageCall.bytes "1")).getD []).length

def replyLength (body : UInt8) : Nat :=
  ((respond (sorted (pageCall.request "1")) (page body) unstreamed).bytes.getD []).length

def retried : List (Event Unit) :=
  [.call () pageCall "1", .connect (), .send () requestLength, .deliver 0 4,
    .deliver 0 (requestLength - 4), .serve 0 (page 1) unstreamed, .reply 0 (replyLength 1),
    .receive () 4, .fail () "timed out", .connect (), .send () requestLength, .deliver 1 4,
    .deliver 1 (requestLength - 4), .serve 1 (page 2) unstreamed, .reply 1 (replyLength 2),
    .receive () 4, .receive () (replyLength 2 - 5), .receive () 1]

def bodies (s : System Unit) : List (Option Bytes) :=
  s.finished.map fun f => match f.result with
    | .fetched r => r.payload
    | _ => none

/-- The reply that was left on the abandoned connection is not returned. -/
theorem fetch_answered_retried : ∃ s, run System.step System.initial retried = some s ∧
    bodies s = [some [2]] ∧ ∀ f ∈ s.finished, Answered s.served f := by
  have hbodies : (run System.step System.initial retried).map bodies = some [some [2]] := by
    decide +kernel
  obtain ⟨s, hrun, hbody⟩ := Option.map_eq_some_iff.mp hbodies
  exact ⟨s, hrun, hbody, fetch_answered hrun⟩

end Retry
end EdgarSec.Broker
