/-!
Numbers of scopes and packets, and the references that conditions and sizes hold. A number is
issued when its scope or packet is created, in order of creation; holding one does not show that
it was issued, so every reader of a number says what it does with one that was not.
-/

namespace PacketSchema

structure ScopeId where
  index : Nat
deriving DecidableEq, Repr

structure PacketId where
  index : Nat
deriving DecidableEq, Repr

/-- A resolved reference to an always field: its identifier and the scope that declares it. -/
structure FieldRef where
  scope : ScopeId
  ident : String
deriving DecidableEq, Repr

end PacketSchema
