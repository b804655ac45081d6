import Elegance.NetworkThreads
import Elegance.SerializeManager

/-!
# The threads of a `SerializeNetworkManager`

Its `OnRecvPackage` runs on the thread of the connection: the base class leaves the package to the
handlers, then the object made of it is handed to those of `serialize_handler_list_`.
-/

namespace Elegance

open CInt StdString Sessions

namespace SerializeNetworkManager

def registSerializeHandler (m : SerializeNetworkManager) (handler : Addr) :
    SerializeNetworkManager where
  toNetworkManager := m.toNetworkManager.registHandler handler
  serializeHandlerList :=
    if handler ∈ m.serializeHandlerList then m.serializeHandlerList
    else m.serializeHandlerList.orderedInsert (· ≤ ·) handler

/-- A manager in single-thread mode, with the handlers of the calls of `RegistHandler` and of those
of `RegistSerializeHandler`. -/
def new (others registered : List Addr) : SerializeNetworkManager :=
  registered.foldl registSerializeHandler
    { others.foldl NetworkManager.registHandler { singleThreadHandleMode := true } with }

/-- What `OnRecvPackage` does after the base class. -/
def afterPackage (behind : Behind) (declared : List GeneratedClass) (fuel : ℕ)
    (m : SerializeNetworkManager) (netId : NetworkID) (data : List Byte) (length : ℤ) :
    Option (List (Addr × NetworkID × Data)) :=
  (createFrom behind declared fuel data length).map fun
    | none => []
    | some serializeData => m.serializeHandlerList.map fun h => (h, netId, serializeData)

/-- The name at the front of a package is that of a class, and the package does not end in it. -/
def HoldsObject (declared : List GeneratedClass) (data : List Byte) (length : ℤ) : Prop :=
  let nameLen := littleEndian.readShort (data.take sizeofShort)
  sizeofShort + nameLen ≤ data.length ∧ 0 < nameLen ∧ nameLen < serializeClassNameMaxLen ∧
    (findClass declared (cString ((data.drop sizeofShort).take nameLen.toNat ++ [0]))).isSome ∧
    0 ≤ wrap32 (length - sizeofShort - nameLen)

instance (declared : List GeneratedClass) (data : List Byte) (length : ℤ) :
    Decidable (HoldsObject declared data length) :=
  inferInstanceAs (Decidable (_ ∧ _ ∧ _ ∧ _ ∧ _))

/-- The base class's part of `OnRecvPackage`, and then the rest. -/
theorem onRecvPackage_eq (behind : Behind) (declared : List GeneratedClass) (fuel : ℕ)
    (m : SerializeNetworkManager) (netId : NetworkID) (data : List Byte) (length : ℤ) :
    m.onRecvPackage behind declared fuel netId data length =
      (m.toNetworkManager.onRecvPackage netId data length).bind fun r =>
        (m.afterPackage behind declared fuel netId data length).map fun calls =>
          ({ m with toNetworkManager := r.1 }, r.2.map (fun c => .handler c.1 c.2) ++
            calls.map fun c => .onRecv c.1 c.2.1 c.2.2) := by
  unfold onRecvPackage afterPackage
  rcases m.toNetworkManager.onRecvPackage netId data length with _ | r
  · rfl
  · rcases createFrom behind declared fuel data length with _ | _ | d
    · rfl
    · rfl
    · simp [Function.comp_def]

end SerializeNetworkManager

/-- The package `OnRecvPackage` goes on with after the base class. -/
def ThreadAt.package {κ : Type} : ThreadAt κ → Option (List Byte × ℤ)
  | .afterPackage data length _ => some (data, length)
  | _ => none

namespace NetworkThreads

/-- A new `SerializeNetworkManager`, without connections. -/
def serializeStart (others registered : List Addr) : NetworkThreads (NetworkID × Data) where
  mgr := (SerializeNetworkManager.new others registered).toNetworkManager

/-- No object is made of a package. -/
def NoObject {κ : Type} (declared : List GeneratedClass) (w : NetworkThreads κ) :
    ThreadsEvent → Prop
  | .run i => ∀ c ∈ w.threads[i]?, ∀ package ∈ c.pos.package,
    ¬ SerializeNetworkManager.HoldsObject declared package.1 package.2
  | _ => True

instance {κ : Type} (declared : List GeneratedClass) (w : NetworkThreads κ) :
    ∀ ev, Decidable (w.NoObject declared ev)
  | .run i => inferInstanceAs (Decidable (∀ c ∈ w.threads[i]?, ∀ package ∈ c.pos.package,
    ¬ SerializeNetworkManager.HoldsObject declared package.1 package.2))
  | .accept _ _ _ _ | .connect _ _ _ _ | .recv _ _ | .disconnect _ | .handleNetTask
  | .insertSocket _ _ | .eraseSocket _ _ | .listenFail _ | .connectFail _ _ _ | .handle =>
    .isTrue trivial

end NetworkThreads

namespace Callback

/-- A call for a net id. -/
def About (x : Callback (NetworkID × Data)) (netId : NetworkID) : Prop :=
  match x.call with
  | .inl call => (call.phase netId).isSome
  | .inr (n, _) => n = netId

/-- The `OnAccept` or `OnConnect` of a net id. -/
def Opens (x : Callback (NetworkID × Data)) (netId : NetworkID) : Prop :=
  ∃ call, x.call = .inl call ∧ call.phase netId = some .opened

end Callback

/-- The callbacks of a handler are all made in `HandleNetTask`, and none for a net id before the
`OnAccept` or `OnConnect` of its connection. -/
def SingleThread (handler : Addr) (trace : List (Callback (NetworkID × Data))) : Prop :=
  (∀ x ∈ trace, x.handler = handler → x.inTask = true) ∧
    ∀ pre x netId, pre ++ [x] <+: trace → x.handler = handler → x.About netId →
      ∃ y ∈ pre ++ [x], y.handler = handler ∧ y.thread = x.thread ∧ y.Opens netId

end Elegance
