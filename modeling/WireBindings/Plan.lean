import WireBindings.Binding
import WireBindings.Failure
import WireBindings.Identifier.Case

/-!
# Planned methods

Commands become method signatures, and events subscriptions. Parameters are never reordered, so
optional ones have to come last.
-/

namespace WireBindings.Plan

open Binding (Field Descriptor)

/-- How optional parameters become methods: one more method without the parameter for a command with
exactly one of them, or always one method. -/
inductive Overloads
  | tiered
  | full
  deriving DecidableEq, Repr

namespace Overloads

def name : Overloads → String
  | .tiered => "tiered"
  | .full => "full"

def ofName (s : String) : Except Failure Overloads :=
  match ([.tiered, .full] : List Overloads).find? fun policy => policy.name = s with
  | some policy => .ok policy
  | none => .error (.unknownPolicy s)

end Overloads

structure Signature where
  name : String
  parameters : List Field
  returns : Option Descriptor
  advisory : Advisory := {}
  deriving DecidableEq, Repr

namespace Signature

def required (s : Signature) : List Field := s.parameters.filter fun p => !p.optional
def optional (s : Signature) : List Field := s.parameters.filter Member.optional

end Signature

structure Subscription where
  name : String
  eventName : String
  payload : Binding.TypeName
  advisory : Advisory := {}
  deriving DecidableEq, Repr

structure Domain where
  domain : Binding.Domain
  methods : List Signature
  subscriptions : List Subscription
  deriving DecidableEq, Repr

structure Protocol where
  protocol : Binding.Protocol
  domains : List Domain
  policy : Overloads
  deriving DecidableEq, Repr

def checkTrailing (domain member : String) : List Field → Except CompileError Unit
  | [] => .ok ()
  | p :: parameters =>
    if p.optional then
      match parameters.find? fun q => !q.optional with
      | some q => .error (.requiredAfterOptional domain member q.name)
      | none => .ok ()
    else checkTrailing domain member parameters

def signatures (policy : Overloads) (domain : String) (c : Binding.Command) :
    Except CompileError (List Signature) := do
  checkTrailing domain c.name c.parameters
  let signature (parameters : List Field) : Signature :=
    { name := c.name, parameters, returns := c.result, advisory := c.advisory }
  if policy = .tiered ∧ (c.parameters.filter Member.optional).length = 1 then
    return [signature (c.parameters.filter fun p => !p.optional), signature c.parameters]
  else return [signature c.parameters]

def subscription (domain : String) (e : Binding.Event) : Except CompileError Subscription := do
  checkTrailing domain e.name e.parameters
  return { name := "on" ++ Identifier.pascal e.name, eventName := e.name, payload := e.payload,
           advisory := e.advisory }

def Domain.ofBinding (policy : Overloads) (d : Binding.Domain) : Except CompileError Domain := do
  let methods ← d.commands.mapM (signatures policy d.name)
  let subscriptions ← d.events.mapM (subscription d.name)
  return { domain := d, methods := methods.flatten, subscriptions }

def Protocol.ofBinding (policy : Overloads) (p : Binding.Protocol) :
    Except CompileError Protocol := do
  return { protocol := p, domains := ← p.domains.mapM (Domain.ofBinding policy), policy }

end WireBindings.Plan
