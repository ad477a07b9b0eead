import PacketSchema.Build.Diagnostic
import PacketSchema.Model.Scope
import PacketSchema.Text.Numeral
import PacketSchema.Tree.Basic

/-!
From what is written to what is meant: numerals become numbers in range, references become fields
that are visible from a scope, conditions and descriptors become those of the model. Nothing here
changes a scope, and every fault is found, from left to right.
-/

namespace PacketSchema.Tree

/-- Sizes are unsigned: a numeral stands for a number below 2^64. -/
def unsignedNumber (numeral : Token) : Checked UInt64 :=
  match Numeral.value? numeral.item with
  | some value => .accepted value
  | none => .refused [⟨numeral.location, .integerOutOfRange numeral.item⟩]

/-- Discriminants and the numbers in conditions are signed: a numeral stands for a number below
2^63. -/
def signedNumber (numeral : Token) : Checked Int64 :=
  match Numeral.value? numeral.item with
  | some value =>
      if value.toNat < signedSize then .accepted (Int64.ofNat value.toNat)
      else .refused [⟨numeral.location, .integerOutOfRange numeral.item⟩]
  | none => .refused [⟨numeral.location, .integerOutOfRange numeral.item⟩]

def resolveReference (forest : ScopeForest) (scope : ScopeId) (ident : Token) : Checked FieldRef :=
  .ofExcept ident.location (forest.resolve scope ident.item)

def Value.resolveSize (forest : ScopeForest) (scope : ScopeId) : Value → Checked Size
  | .integer numeral => (unsignedNumber numeral).map .literal
  | .reference ident => (resolveReference forest scope ident).map .field

def Value.resolveLeaf (forest : ScopeForest) (scope : ScopeId) : Value → Checked Condition
  | .integer numeral => (signedNumber numeral).map .integer
  | .reference ident => (resolveReference forest scope ident).map .field

mutual

def Disjunction.resolve (forest : ScopeForest) (scope : ScopeId) :
    Disjunction → Checked Condition
  | .single item => item.resolve forest scope
  | .or left right =>
      .both (.conjunction .either) (left.resolve forest scope) (right.resolve forest scope)

def Conjunction.resolve (forest : ScopeForest) (scope : ScopeId) :
    Conjunction → Checked Condition
  | .single item => item.resolve forest scope
  | .and left right =>
      .both (.conjunction .both) (left.resolve forest scope) (right.resolve forest scope)

def Relation.resolve (forest : ScopeForest) (scope : ScopeId) : Relation → Checked Condition
  | .operand only => only.resolve forest scope
  | .compare left comparison right =>
      .both (.relation comparison.item) (left.resolve forest scope) (right.resolve forest scope)

def Operand.resolve (forest : ScopeForest) (scope : ScopeId) : Operand → Checked Condition
  | .value written => written.resolveLeaf forest scope
  | .negation _ operand => (operand.resolve forest scope).map .negation
  | .group _ inner => inner.resolve forest scope

end

def Measure.widthUnit : Measure → WidthUnit
  | .bits => .bits
  | .bytes order => .bytes (order.map Located.item)

def Width.resolve (forest : ScopeForest) (scope : ScopeId) (width : Width) :
    Checked PacketSchema.Width :=
  (width.count.resolveSize forest scope).map fun count => ⟨count, width.unit.item.widthUnit⟩

/-- A descriptor must say a width or a count. That neither is there is found only where nothing
else is wrong, at the scalar type. -/
def Descriptor.resolve (forest : ScopeForest) (scope : ScopeId) (ident : String)
    (descriptor : Descriptor) : Checked Encoding :=
  match descriptor.width, descriptor.count with
  | none, none => .refused [⟨descriptor.scalar.location, .bareDescriptor ident⟩]
  | width, count =>
      .both (.ofParts descriptor.scalar.item)
        (.option (fun written => written.resolve forest scope) width)
        (.option (fun written => written.resolveSize forest scope) count)

def Tag.resolve (tag : Tag) : Checked PacketSchema.Tag :=
  (signedNumber tag.value).map fun value => ⟨tag.label.item, value⟩

end PacketSchema.Tree
