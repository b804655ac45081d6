import Elegance.RpcCalls

/-!
# Two sessions joined by links

The client calls, the server answers, and each link delivers in order. The request objects are the
numbers of the calls; a message in flight carries, for the statement only, the number of the call it
belongs to.
-/

namespace Elegance

open CInt

structure RpcLink where
  client : RPCSession ℕ
  server : RPCSession ℕ
  requests : List (ℕ × List Byte) := []
  responses : List (ℕ × List Byte) := []
  calls : ℕ := 0
  produced : List (ℕ × List Byte) := []
  calledBack : List (ℕ × List Byte) := []
  halted : Bool := false

inductive LinkEvent where
  | asyncCall (data : List Byte)
  /-- The server takes a request; its handlers end as in `results`. -/
  | serve (results : List HandleResult)
  /-- The client takes a response. -/
  | respond

/-- The messages among what a session does. -/
def sends {ρ : Type} (calls : List (SessionCall ρ)) : List (List Byte) :=
  calls.filterMap fun
    | .send _ data => some data
    | _ => none

namespace RpcLink

variable (H : HostLayout)

def start (clientHandlers serverHandlers : List Addr) (clientCh serverCh : Byte) : RpcLink where
  client := { handlerList := clientHandlers, reserveCh := clientCh }
  server := { handlerList := serverHandlers, reserveCh := serverCh }

def step (w : RpcLink) : LinkEvent → RpcLink
  | .asyncCall data =>
    match w.client.asyncCall H w.calls data with
    | .givenUp => { w with calls := w.calls + 1 }
    | .badCopy => { w with halted := true }
    | .sent _ message client =>
      { w with client, requests := w.requests ++ [(w.calls, message)], calls := w.calls + 1 }
  | .serve results =>
    match w.requests with
    | [] => w
    | (n, message) :: requests =>
      let (server, calls) := w.server.onRecv H message results
      { w with
        server, requests
        responses := w.responses ++ (sends calls).map fun m => (n, m)
        produced := w.produced ++
          (results.filter HandleResult.answers).map fun r => (n, r.resultData) }
  | .respond =>
    match w.responses with
    | [] => w
    | (_, message) :: responses =>
      let (client, calls) := w.client.onRecv H message []
      { w with client, responses, calledBack := w.calledBack ++ callBacks calls }

/-- A call leaves at most `SHRT_MAX` requests outstanding; a message is taken where one is waiting,
and every handler is asked. -/
def Can (w : RpcLink) : LinkEvent → Prop
  | .asyncCall data => w.halted = false ∧ w.client.Room data
  | .serve results => w.requests ≠ [] ∧ results.length = w.server.handlerList.length
  | .respond => w.responses ≠ []

/-- At most one handler answers the request. -/
def OneAnswer (_ : RpcLink) : LinkEvent → Prop
  | .serve results => (results.filter HandleResult.answers).length ≤ 1
  | _ => True

instance (w : RpcLink) : ∀ ev, Decidable (w.Can ev)
  | .asyncCall _ => inferInstanceAs (Decidable (_ ∧ _))
  | .serve _ => inferInstanceAs (Decidable (_ ∧ _))
  | .respond => inferInstanceAs (Decidable (_ ≠ _))

instance (w : RpcLink) : ∀ ev, Decidable (w.OneAnswer ev)
  | .serve _ => inferInstanceAs (Decidable (_ ≤ _))
  | .asyncCall _ | .respond => .isTrue trivial

/-- No call is called back twice, and each with what a handler produced for it. -/
def Agrees (w : RpcLink) : Prop :=
  (w.calledBack.map Prod.fst).Nodup ∧ ∀ x ∈ w.calledBack, x ∈ w.produced

end RpcLink

end Elegance
