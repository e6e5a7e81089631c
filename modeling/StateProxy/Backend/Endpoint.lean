import StateProxy.Net
import Mathlib.Data.Prod.Lex

/-! Endpoints, their identities, and the events that a service discovery task sends about them. -/

namespace StateProxy.Backend

open Net

/-- An event sent from a service discovery task. -/
inductive EndpointEvent
  | add (uid : String) (isAvailable : Bool) (externalPort : UInt16) (externalProtocol : String)
      (backendAddress : SocketAddr) (backendProtocol : String)
  | delete (uid : String)
  | suspend (uid : String)
  | resume (uid : String)
deriving DecidableEq, Repr

/-- The unique ID that an event carries. -/
def EndpointEvent.uid : EndpointEvent → String
  | .add uid _ _ _ _ _ => uid
  | .delete uid => uid
  | .suspend uid => uid
  | .resume uid => uid

def EndpointEvent.isAdd : EndpointEvent → Bool
  | .add .. => true
  | _ => false

/-- An endpoint's identity: the name of the discovery task that announced it, and the ID it has
there. -/
structure EndpointId where
  endpointDiscoveryName : String
  uid : String
deriving DecidableEq, Repr

/-- An identity is one by its discovery task and then by its ID. -/
theorem EndpointId.toLex_injective :
    Function.Injective fun id : EndpointId => toLex (id.endpointDiscoveryName, id.uid) := by
  intro a b h
  obtain ⟨hname, huid⟩ := Prod.mk.inj (toLex.injective h)
  obtain ⟨name, uid⟩ := a
  exact (EndpointId.mk.injEq ..).mpr ⟨hname, huid⟩

structure Endpoint where
  isAvailable : Bool
  address : SocketAddr
  protocol : String
deriving DecidableEq, Repr

end StateProxy.Backend
