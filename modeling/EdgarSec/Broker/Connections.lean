import EdgarSec.Broker.Messages
import EdgarSec.Lib.Transition

/-! Client threads and the broker over reused connections, byte by byte: any thread may be ahead of any
other, and a connection may break before, inside or after every frame. -/

namespace EdgarSec.Broker
open Foundation Lib

/-- Where `handle_connection` is: in `_recv_frame` with the bytes it has, in `fetch`, in `sendall` with
the bytes left, or gone. -/
inductive ServerStage where
  | reading (got : Bytes)
  | serving (request : List (String × Json))
  | sending (left : Bytes)
  | closed

structure Conn (ι : Type) where
  owner : ι
  up : Bytes
  down : Bytes
  alive : Bool
  server : ServerStage

structure Pending where
  call : Call
  requestId : String
  since : Nat

inductive Stage where
  | sending (left : Bytes)
  | receiving (got : Bytes)

inductive Activity where
  | idle
  | connecting (p : Pending) (attempt : Nat)
  | exchanging (p : Pending) (attempt : Nat) (conn : Nat) (stage : Stage)

structure Thread where
  sock : Option Nat
  activity : Activity

inductive Result where
  | fetched (r : ClientResult)
  | streamed (header : Option (List (String × Json)))
  | raised

structure Served (ι : Type) where
  client : ι
  request : List (String × Json)
  http : HttpClient
  stream : StreamReply

structure Finished (ι : Type) where
  client : ι
  pending : Pending
  result : Result

structure System (ι : Type) where
  threads : ι → Thread
  conns : List (Conn ι)
  served : List (Served ι)
  finished : List (Finished ι)

/-- `receive`, `deliver` and their counterparts move any number of bytes; `fail` is an `OSError` or a
`BrokerError` of a client, `hangUp` the end of a connection's thread in the broker, and `cut` a broken
connection of which some bytes still arrive. -/
inductive Event (ι : Type) where
  | call (a : ι) (call : Call) (requestId : String)
  | connect (a : ι)
  | send (a : ι) (count : Nat)
  | receive (a : ι) (count : Nat)
  | fail (a : ι) (message : String)
  | close (a : ι)
  | deliver (c : Nat) (count : Nat)
  | serve (c : Nat) (http : HttpClient) (stream : StreamReply)
  | reply (c : Nat) (count : Nat)
  | hangUp (c : Nat)
  | cut (c : Nat) (up down : Nat)

def Served.reply {ι : Type} (e : Served ι) : Reply := respond e.request e.http e.stream

def Pending.bytes (p : Pending) : Bytes := p.call.bytes p.requestId

namespace Conn
variable {ι : Type}

def fresh (a : ι) : Conn ι := ⟨a, [], [], true, .reading []⟩

def abandon (conn : Conn ι) : Conn ι := { conn with alive := false, down := [] }

def pushUp (conn : Conn ι) (bytes : Bytes) : Conn ι :=
  if conn.alive then { conn with up := conn.up ++ bytes } else conn

def pushDown (conn : Conn ι) (bytes : Bytes) : Conn ι :=
  if conn.alive then { conn with down := conn.down ++ bytes } else conn

/-- How many bytes the broker's `_recv_frame` still asks for. -/
def wanted (got : Bytes) : Nat :=
  if got.length < 4 then 4 - got.length else 4 + unpackLength (got.take 4) - got.length

def take (conn : Conn ι) (got : Bytes) (count : Nat) : Conn ι :=
  let got := got ++ conn.up.take count
  let conn := { conn with up := conn.up.drop count }
  if 4 ≤ got.length ∧ wanted got = 0 then
    match jsonLoads (got.drop 4) with
    | .ok request => { conn with server := .serving request }
    | .error _ => { conn with server := .closed }
  else { conn with server := .reading got }

def answer (conn : Conn ι) (r : Reply) : Conn ι :=
  match r.bytes with
  | some bytes => { conn with server := .sending bytes }
  | none => { conn with server := .closed }

def replied (conn : Conn ι) (left : Bytes) (count : Nat) : Conn ι :=
  { conn.pushDown (left.take count) with
    server := if (left.drop count).isEmpty then .reading [] else .sending (left.drop count) }

end Conn

namespace System
variable {ι : Type} [DecidableEq ι]

def initial : System ι := ⟨fun _ => ⟨none, .idle⟩, [], [], []⟩

def become (s : System ι) (a : ι) (t : Thread) : System ι :=
  { s with threads := Function.update s.threads a t }

def onConn (s : System ι) (c : Nat) (f : Conn ι → Conn ι) : System ι :=
  { s with conns := s.conns.modify c f }

def finish (s : System ι) (a : ι) (p : Pending) (r : Result) : System ι :=
  { s with finished := s.finished ++ [⟨a, p, r⟩] }

def resetSocket (s : System ι) (a : ι) (activity : Activity) : System ι :=
  match (s.threads a).sock with
  | some c => (s.onConn c Conn.abandon).become a ⟨none, activity⟩
  | none => s.become a ⟨none, activity⟩

/-- The `except` branch of the loop: once again on a new connection, or the failure. -/
def failed (s : System ι) (a : ι) (p : Pending) (attempt : Nat) (message : String) : System ι :=
  if attempt = 2 then
    let result := match p.call with
      | .fetch _ _ => Result.fetched (transportFailure message)
      | .streamToFile _ => Result.streamed none
    (s.resetSocket a .idle).finish a p result
  else s.resetSocket a (.connecting p (attempt + 1))

def raised (s : System ι) (a : ι) (p : Pending) : System ι :=
  (s.become a ⟨(s.threads a).sock, .idle⟩).finish a p .raised

def echoes (header : List (String × Json)) (requestId : String) : Bool :=
  match get header "request_id" with
  | some (.str id) => decide (id = requestId)
  | _ => false

def completed (s : System ι) (a : ι) (p : Pending) (attempt : Nat) (header : List (String × Json))
    (payload : Bytes) : System ι :=
  match p.call with
  | .fetch _ _ =>
    (s.become a ⟨(s.threads a).sock, .idle⟩).finish a p (.fetched (readReply header payload))
  | .streamToFile _ =>
    if payload.isEmpty then
      (s.become a ⟨(s.threads a).sock, .idle⟩).finish a p
        (.streamed (if echoes header p.requestId then some header else none))
    else s.failed a p attempt "stream response unexpectedly contained a body"

def advance (s : System ι) (a : ι) (p : Pending) (attempt : Nat) (c : Nat) (got : Bytes) : System ι :=
  match Broker.receive got with
  | .wants _ => s.become a ⟨some c, .exchanging p attempt c (.receiving got)⟩
  | .done header payload => s.completed a p attempt header payload
  | .failed .value => s.raised a p
  | .failed (.broker message) => s.failed a p attempt message

/-- `_get_socket`, and the frame that will be sent. -/
def connect (s : System ι) (a : ι) (p : Pending) (attempt : Nat) : System ι :=
  let (s, c) := match (s.threads a).sock with
    | some c => (s, c)
    | none => (({ s with conns := s.conns ++ [Conn.fresh a] } : System ι), s.conns.length)
  match frame p.bytes with
  | some bytes => s.become a ⟨some c, .exchanging p attempt c (.sending bytes)⟩
  | none => (s.become a ⟨some c, .idle⟩).finish a p .raised

def step (s : System ι) : Event ι → Option (System ι)
  | .call a call requestId =>
    match (s.threads a).activity with
    | .idle =>
      some (s.become a ⟨(s.threads a).sock, .connecting ⟨call, requestId, s.served.length⟩ 1⟩)
    | _ => none
  | .connect a =>
    match (s.threads a).activity with
    | .connecting p attempt => some (s.connect a p attempt)
    | _ => none
  | .send a count =>
    match (s.threads a).activity with
    | .exchanging p attempt c (.sending left) =>
      if 0 < count ∧ count ≤ left.length then
        let stage := if (left.drop count).isEmpty then .receiving [] else .sending (left.drop count)
        some ((s.onConn c (·.pushUp (left.take count))).become a ⟨some c, .exchanging p attempt c stage⟩)
      else none
    | _ => none
  | .receive a count =>
    match (s.threads a).activity with
    | .exchanging p attempt c (.receiving got) =>
      match Broker.receive got, s.conns[c]? with
      | .wants most, some conn =>
        if 0 < count ∧ count ≤ most ∧ count ≤ conn.down.length then
          some ((s.onConn c fun conn => { conn with down := conn.down.drop count }).advance a p attempt c
            (got ++ conn.down.take count))
        else none
      | _, _ => none
    | _ => none
  | .fail a message =>
    match (s.threads a).activity with
    | .idle => none
    | .connecting p attempt => some (s.failed a p attempt message)
    | .exchanging p attempt _ _ => some (s.failed a p attempt message)
  | .close a =>
    match (s.threads a).activity with
    | .idle => some (s.resetSocket a .idle)
    | _ => none
  | .deliver c count =>
    match s.conns[c]? with
    | some conn =>
      match conn.server with
      | .reading got =>
        if 0 < count ∧ count ≤ Conn.wanted got ∧ count ≤ conn.up.length then
          some (s.onConn c (·.take got count))
        else none
      | _ => none
    | none => none
  | .serve c http stream =>
    match s.conns[c]? with
    | some conn =>
      match conn.server with
      | .serving request =>
        some { s.onConn c (·.answer (respond request http stream)) with
          served := s.served ++ [⟨conn.owner, request, http, stream⟩] }
      | _ => none
    | none => none
  | .reply c count =>
    match s.conns[c]? with
    | some conn =>
      match conn.server with
      | .sending left =>
        if 0 < count ∧ count ≤ left.length then some (s.onConn c (·.replied left count)) else none
      | _ => none
    | none => none
  | .hangUp c => some (s.onConn c fun conn => { conn with server := .closed })
  | .cut c up down =>
    some (s.onConn c fun conn =>
      { conn with alive := false, up := conn.up.take up, down := conn.down.take down })

end System
end EdgarSec.Broker
