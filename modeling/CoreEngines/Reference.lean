/-!
References to shared objects.  Objects live in a world and are reached by reference; two
references are equal exactly when they name one object.
-/

namespace CoreEngines

/-- The kinds of object that are shared by reference. -/
inductive Kind
  | counter
  | mailbox
  | thread
  | registry
  | context
  | engine
deriving DecidableEq, Repr

/-- A reference to an object of one kind: its place in the world's store for that kind. -/
structure Ref (kind : Kind) where
  index : Nat
deriving DecidableEq, Repr, Inhabited

/-- A thread manager, numbered by the host that made it. -/
structure ManagerRef where
  index : Nat
deriving DecidableEq, Repr

/-- A template cache, which only the host can look into. -/
structure CacheRef where
  index : Nat
deriving DecidableEq, Repr

/-- What holders of threads pass around: a handle refers to a thread or to none. -/
inductive Handle
  | empty
  | thread (target : Ref .thread)
deriving DecidableEq, Repr

namespace Handle

def isEmpty : Handle → Bool
  | empty => true
  | thread _ => false

def thread? : Handle → Option (Ref .thread)
  | empty => none
  | thread target => some target

/-- Whether two handles refer to one thread, or both to none. -/
def ptrEq : Handle → Handle → Bool
  | thread left, thread right => left = right
  | empty, empty => true
  | _, _ => false

instance : BEq Handle where
  beq := ptrEq

end Handle

end CoreEngines
