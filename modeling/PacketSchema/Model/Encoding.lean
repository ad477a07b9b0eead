import PacketSchema.Model.Identity

/-!
How one scalar field is laid out: its type, the width of one element and how many elements there
are. A width or a count is a number or is read from an earlier field. Without a width an element
has one byte, without a count there is one element.
-/

namespace PacketSchema

inductive ScalarType where
  /-- Bits that are skipped on reading and zero on writing. -/
  | ignored
  | signed
  | unsigned
deriving DecidableEq, Repr

def ScalarType.keyword : ScalarType → String
  | .ignored => "_"
  | .signed => "sint"
  | .unsigned => "uint"

inductive ByteOrder where
  | big
  | little
deriving DecidableEq, Repr

def ByteOrder.keyword : ByteOrder → String
  | .big => "be"
  | .little => "le"

/-- Only a width in bytes can have a byte order. -/
inductive WidthUnit where
  | bits
  | bytes (order : Option ByteOrder)
deriving DecidableEq, Repr

def WidthUnit.text : WidthUnit → String
  | .bits => "bits"
  | .bytes none => "bytes"
  | .bytes (some order) => "bytes " ++ order.keyword

inductive Size where
  | literal (value : UInt64)
  | field (reference : FieldRef)
deriving DecidableEq, Repr

namespace Size

def one : Size := .literal 1

def text : Size → String
  | .literal value => toString value.toNat
  | .field reference => "&" ++ reference.ident

def references : Size → List FieldRef
  | .literal _ => []
  | .field reference => [reference]

end Size

structure Width where
  count : Size
  unit : WidthUnit
deriving DecidableEq, Repr

namespace Width

def oneByte : Width := ⟨.one, .bytes none⟩

def text (width : Width) : String := width.count.text ++ " " ++ width.unit.text

/-- The width in bits, where it is a number below 2^64 known without reading a field. -/
def bits? (width : Width) : Option UInt64 :=
  match width.count, width.unit with
  | .literal value, .bits => some value
  | .literal value, .bytes _ => if value.toNat * 8 < UInt64.size then some (value * 8) else none
  | .field _, _ => none

end Width

structure Encoding where
  scalar : ScalarType
  width : Width
  count : Size
deriving DecidableEq, Repr

namespace Encoding

/-- Fills in what was left out: one byte, once. -/
def ofParts (scalar : ScalarType) (width : Option Width) (count : Option Size) : Encoding :=
  ⟨scalar, width.getD .oneByte, count.getD .one⟩

/-- The width always shows, the count only where it is not the number one. -/
def text (encoding : Encoding) : String :=
  encoding.scalar.keyword ++ " : " ++ encoding.width.text ++
    (if encoding.count = .one then "" else " : " ++ encoding.count.text)

def references (encoding : Encoding) : List FieldRef :=
  encoding.width.count.references ++ encoding.count.references

end Encoding

end PacketSchema
