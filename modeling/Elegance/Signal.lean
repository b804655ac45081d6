import Elegance.Socket
import Elegance.Lib.Run

/-!
# `ISignal` and `SignalManager_`

Objects that want to be told of a signal, and the manager that sets what the process does on one
from the types they have (`platform/thread/signal.cpp`). Calls come one after another.
-/

namespace Elegance

inductive SignalType where
  | interrupt
  | count
  deriving DecidableEq, Repr

/-- `SIGHUP`. -/
def sigHup : ℤ := 1

/-- `SIGINT`. -/
def sigInt : ℤ := 2

/-- What the process does on a signal. -/
inductive Disposition where
  | dfl
  | ign
  /-- `SignalManager_::Handle` is called. -/
  | handle
  | other (handler : Addr)
  deriving DecidableEq, Repr

structure SignalManager where
  signalSet : Finset Addr := ∅
  /-- The `type_set_` of each object. -/
  typeSet : Addr → Finset SignalType := fun _ => ∅
  disposition : ℤ → Disposition

namespace SignalManager

/-- `signal(sig, handler)`. -/
def signal (m : SignalManager) (sig : ℤ) (handler : Disposition) : SignalManager :=
  { m with disposition := Function.update m.disposition sig handler }

def checkType (m : SignalManager) (object : Addr) (type : SignalType) : Bool :=
  type ∈ m.typeSet object

/-- The types before `COUNT`. -/
def signalTypes : List SignalType := [.interrupt]

def realSignalValueList : List ℤ := [sigInt]

/-- Whether some object has each type. -/
def signalStatusList (m : SignalManager) : List Bool :=
  signalTypes.map fun type => decide (∃ object ∈ m.signalSet, m.checkType object type)

/-- The second loop; a status that is true is the signal number 1. -/
def updateSignal (m : SignalManager) : SignalManager :=
  (realSignalValueList.zip m.signalStatusList).foldl (fun m (real, status) =>
    if status then (m.signal real .dfl).signal status.toNat .handle else m.signal real .dfl) m

def addType (m : SignalManager) (object : Addr) (type : SignalType) : SignalManager :=
  updateSignal
    { m with typeSet := Function.update m.typeSet object (insert type (m.typeSet object)) }

def removeType (m : SignalManager) (object : Addr) (type : SignalType) : SignalManager :=
  updateSignal
    { m with typeSet := Function.update m.typeSet object ((m.typeSet object).erase type) }

/-- `Register`. -/
def register (m : SignalManager) (object : Addr) : SignalManager :=
  updateSignal { m with signalSet := insert object m.signalSet }

/-- `Unregister`. -/
def unregister (m : SignalManager) (object : Addr) : SignalManager :=
  updateSignal { m with signalSet := m.signalSet.erase object }

/-- `ISignal(type)`: the type is added before the object is registered. -/
def construct (m : SignalManager) (object : Addr) (type : SignalType) : SignalManager :=
  (addType { m with typeSet := Function.update m.typeSet object ∅ } object type).register object

/-- The objects whose `OnReceive(INTERRUPT)` a signal calls. -/
def received (m : SignalManager) (sig : ℤ) : Finset Addr :=
  if m.disposition sig = .handle then m.signalSet.filter (m.checkType · .interrupt) else ∅

inductive Call where
  | construct (object : Addr) (type : SignalType)
  | destroy (object : Addr)
  | addType (object : Addr) (type : SignalType)
  | removeType (object : Addr) (type : SignalType)
  deriving DecidableEq, Repr

def step (m : SignalManager) : Call → SignalManager
  | .construct object type => m.construct object type
  | .destroy object => m.unregister object
  | .addType object type => m.addType object type
  | .removeType object type => m.removeType object type

/-- Some registered object wants to be told of `SIGINT`. -/
def Wanted (m : SignalManager) : Prop := ∃ object ∈ m.signalSet, .interrupt ∈ m.typeSet object

instance (m : SignalManager) : Decidable m.Wanted :=
  inferInstanceAs (Decidable (∃ object ∈ m.signalSet, _))

/-- `SIGINT` is handled where an object wants it, and the other signals are as they were. -/
def Right (before : ℤ → Disposition) (m : SignalManager) : Prop :=
  m.disposition sigInt = (if m.Wanted then .handle else .dfl) ∧
    ∀ sig, sig ≠ sigInt → m.disposition sig = before sig

/-- The call gives no registered object the type `INTERRUPT`. -/
def Quiet (m : SignalManager) : Call → Prop
  | .construct _ type => type ≠ .interrupt
  | .addType object type => object ∈ m.signalSet → type ≠ .interrupt
  | _ => True

end SignalManager

end Elegance
