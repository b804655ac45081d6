import Elegance.RpcManager

/-!
# What `OnRecv` reads of a message

The offsets of the bytes `RPCManager::OnRecv` and `RPCSession::OnRecv` read from `data` on, which may
be in the memory `beyond` the message. A `std::string` is made of `key_str` by reading up to its NUL.
The body of a session message is only passed on.
-/

namespace Elegance

open StdString

namespace RPCSession

variable {ρ : Type}

/-- The offsets of `type`. -/
def typeReads : List ℕ := [0]

/-- The offsets of `message_id`. -/
def messageIdReads : List ℕ := [2, 3]

/-- What `RPCSession::OnRecv` reads; an answer is given the id of its request. -/
def onRecvReads (s : RPCSession ρ) (data : List Byte) (results : List HandleResult) : List ℕ :=
  if data.length ≤ sizeofRPCMessageHeader then []
  else
    typeReads ++
      if (messageHeader data).type = rpcMessageTypeResponse then messageIdReads
      else if (messageHeader data).type = rpcMessageTypeRequest then
        (s.handlerList.zip results).flatMap fun p => if p.2.answers then messageIdReads else []
      else []

end RPCSession

namespace RPCManager

variable {ρ : Type}

/-- What `RPCManager::OnRecv` and the session it calls read. -/
def onRecvReads (m : RPCManager ρ) (networkId : NetworkID) (data beyond : List Byte)
    (results : List HandleResult) : List ℕ :=
  0 :: if data.headD 0 = rpcMessageTypeCheckKey then
    List.range' keyStrOffset ((receiveKey data beyond).length + 1)
  else if data.headD 0 = rpcMessageTypeCheckKeyResponse then [1]
  else
    match m.sessionMap.find (m.networkId2SessionIdMap.index networkId []).2 with
    | none => []
    | some session => session.onRecvReads data results

/-- Every byte that is read is one of the message. -/
def ReadsInside (m : RPCManager ρ) (networkId : NetworkID) (data beyond : List Byte)
    (results : List HandleResult) : Prop :=
  ∀ offset ∈ m.onRecvReads networkId data beyond results, offset < data.length

/-- A key message has the NUL of its key, and a response to one the byte it is. -/
def WellFormed (data : List Byte) : Prop :=
  (data.headD 0 = rpcMessageTypeCheckKey → 0 ∈ data.drop keyStrOffset) ∧
    (data.headD 0 = rpcMessageTypeCheckKeyResponse → 2 ≤ data.length)

instance (data : List Byte) : Decidable (WellFormed data) :=
  inferInstanceAs (Decidable ((_ → _) ∧ (_ → _)))

end RPCManager

end Elegance
