import PacketSchema.Model.Schema

/-!
When two fields or two packets count as the same. Both are told apart by identifier alone: two
fields of different kinds, or two packets with different parents, are the same if they share
their identifier. Equality of the values themselves is another matter.
-/

namespace PacketSchema

def Field.sameIdent (left right : Field) : Bool := left.ident == right.ident

def Packet.sameIdent (left right : Packet) : Bool := left.ident == right.ident

/-- For each element of a sequence, whether no earlier one is the same. -/
def newcomers {Item : Type} (same : Item → Item → Bool) (items : List Item) : List Bool :=
  items.zipIdx.map fun (item, index) => !(items.take index).any (same item)

end PacketSchema
