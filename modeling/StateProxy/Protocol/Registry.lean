import StateProxy.ProofKit.Registry

/-! The registry of the protocols that the proxy can use.  A protocol is a value of any type; the
registry asks it for its name only.  The first protocol of a name stays: a second one is answered with an
error that names it, and changes nothing. -/

namespace StateProxy.Protocol

open ProofKit

variable {P : Type} (name : P → String)

structure ProtocolRegistry (P : Type) where
  protocols : HashMap String P

namespace ProtocolRegistry

inductive Error
  | duplicateRegistration (name : String)
deriving DecidableEq, Repr

def Error.message : Error → String
  | duplicateRegistration name => s!"Protocol '{name}' is already registered"

def new : ProtocolRegistry P := ⟨∅⟩

def register (protocol : P) : EStateM Error (ProtocolRegistry P) Unit := do
  let registry ← MonadState.get
  match registry.protocols.lookup (name protocol) with
  | none =>
    set { registry with protocols := registry.protocols.insert (name protocol) protocol }
  | some _ => throw (.duplicateRegistration (name protocol))

def get (registry : ProtocolRegistry P) (name : String) : Option P :=
  registry.protocols.lookup name

theorem register_registers : Registers (register name) protocols (fun _ => mk) name id
    (fun protocol => .duplicateRegistration (name protocol)) := by
  refine ⟨fun _ _ => rfl, ?_, ?_⟩
  · intro protocol registry hfree
    have hget : (MonadState.get : EStateM Error (ProtocolRegistry P) _) registry =
        .ok registry registry := rfl
    simp only [register, bind_of_ok hget, hfree]
    rfl
  · intro protocol registry htaken
    have hget : (MonadState.get : EStateM Error (ProtocolRegistry P) _) registry =
        .ok registry registry := rfl
    obtain ⟨held, hheld⟩ := Option.ne_none_iff_exists'.mp htaken
    simp only [register, bind_of_ok hget, hheld]
    rfl

/-- Whatever protocols are registered one after another, each call succeeds exactly when no protocol of
its name was registered before it, fails else with the name, and in the end `get` gives the first
protocol of a name. -/
theorem registrations_are_first_come (before after : List P) (protocol : P) :
    (callAll (register name) (before ++ protocol :: after) new).1[before.length]? =
      some (if name protocol ∈ before.map name then .error (.duplicateRegistration (name protocol))
        else .ok ()) ∧
    ∀ key, (callAll (register name) (before ++ protocol :: after) new).2.get key =
      (before ++ protocol :: after).find? (name · = key) := by
  refine ⟨(register_registers name).answer rfl before protocol after, fun key => ?_⟩
  have hlookup := (register_registers name).lookup (s := new) rfl (before ++ protocol :: after) key
  rwa [Option.map_id] at hlookup

end ProtocolRegistry

end StateProxy.Protocol
