import PacketSchema.Proofs.Scope.Resolution
import PacketSchema.Text.Numeral
import PacketSchema.Tree.Basic

/-!
# Conditions and sizes as they read

A formula says what a condition or a size says and leaves out how it is written or found: an
integer is its number, a reference its identifier, and parentheses leave nothing. Both a written
condition and a resolved one have a formula. The owners of references are not in it; within one
scope the identifiers determine them, so formulas tell grounded conditions apart. A layout is the
same for the encoding of a scalar.
-/

namespace PacketSchema

/-- An integer has the number that its text stands for, if it stands for one. -/
inductive Formula where
  | integer (number : Option Int)
  | field (ident : String)
  | negation (operand : Formula)
  | relation (comparison : Comparison) (left right : Formula)
  | conjunction (connective : Connective) (left right : Formula)
deriving DecidableEq, Repr

def Condition.formula : Condition → Formula
  | .integer value => .integer (some value.toInt)
  | .field reference => .field reference.ident
  | .negation operand => .negation operand.formula
  | .relation comparison left right => .relation comparison left.formula right.formula
  | .conjunction connective left right => .conjunction connective left.formula right.formula

def Size.formula : Size → Formula
  | .literal value => .integer (some value.toNat)
  | .field reference => .field reference.ident

/-- How a scalar is laid out, its sizes as they read. -/
structure Layout where
  scalar : ScalarType
  width : Formula
  unit : WidthUnit
  count : Formula
deriving DecidableEq, Repr

def Encoding.layout (encoding : Encoding) : Layout :=
  ⟨encoding.scalar, encoding.width.count.formula, encoding.width.unit, encoding.count.formula⟩

def selectionReferences : Option Condition → List FieldRef
  | none => []
  | some condition => condition.references

namespace Tree

/-- The number that a numeral stands for, of any size. -/
def number? (numeral : Token) : Option Nat :=
  Numeral.natural? (trimWhiteSpace numeral.item.toList)

def Value.formula : Value → Formula
  | .integer numeral => .integer ((number? numeral).map Int.ofNat)
  | .reference ident => .field ident.item

mutual

def Disjunction.formula : Disjunction → Formula
  | .single item => item.formula
  | .or left right => .conjunction .either left.formula right.formula

def Conjunction.formula : Conjunction → Formula
  | .single item => item.formula
  | .and left right => .conjunction .both left.formula right.formula

def Relation.formula : Relation → Formula
  | .operand only => only.formula
  | .compare left comparison right => .relation comparison.item left.formula right.formula

def Operand.formula : Operand → Formula
  | .value written => written.formula
  | .negation _ operand => .negation operand.formula
  | .group _ inner => inner.formula

end

mutual

/-- The integers and references of a condition, from left to right. -/
def Disjunction.leaves : Disjunction → List Value
  | .single item => item.leaves
  | .or left right => left.leaves ++ right.leaves

def Conjunction.leaves : Conjunction → List Value
  | .single item => item.leaves
  | .and left right => left.leaves ++ right.leaves

def Relation.leaves : Relation → List Value
  | .operand only => only.leaves
  | .compare left _ right => left.leaves ++ right.leaves

def Operand.leaves : Operand → List Value
  | .value written => [written]
  | .negation _ operand => operand.leaves
  | .group _ inner => inner.leaves

end

def selectionFormula (condition : Option Disjunction) : Option Formula :=
  condition.map Disjunction.formula

def selectionLeaves (condition : Option Disjunction) : List Value :=
  condition.elim [] Disjunction.leaves

/-- A descriptor without a width means one byte, one without a count means one element. -/
def Descriptor.layout (descriptor : Descriptor) : Layout where
  scalar := descriptor.scalar.item
  width := (descriptor.width.map fun width => width.count.formula).getD (.integer (some 1))
  unit := (descriptor.width.map fun width =>
    match width.unit.item with
    | .bits => WidthUnit.bits
    | .bytes order => .bytes (order.map Located.item)).getD (.bytes none)
  count := (descriptor.count.map Value.formula).getD (.integer (some 1))

def Descriptor.leaves (descriptor : Descriptor) : List Value :=
  (descriptor.width.map Width.count).toList ++ descriptor.count.toList

def Arm.guard : Arm → Option Disjunction
  | .mk _ guard _ _ => guard

def Arm.tag : Arm → Tag
  | .mk _ _ tag _ => tag

/-- An arm reads as it was written, its body left aside. -/
structure Arm.Means (written : Arm) (arm : PacketSchema.Arm) : Prop where
  condition : arm.condition.map Condition.formula = selectionFormula written.guard
  label : arm.tag.label = written.tag.label.item
  value : (number? written.tag.value).map Int.ofNat = some arm.tag.value.toInt

end Tree

namespace ScopeForest

variable {forest : ScopeForest} {scope : ScopeId}

theorem reference_eq_of_ident {left right : FieldRef}
    (leftGrounded : forest.resolve scope left.ident = .ok left)
    (rightGrounded : forest.resolve scope right.ident = .ok right)
    (same : left.ident = right.ident) : left = right := by
  rw [same, rightGrounded] at leftGrounded
  exact (Except.ok.inj leftGrounded).symm

/-- Grounded in one scope, two conditions that read the same are the same. -/
theorem condition_eq_of_formula {left right : Condition}
    (leftGrounded : forest.Grounds scope left.references)
    (rightGrounded : forest.Grounds scope right.references)
    (same : left.formula = right.formula) : left = right := by
  induction left generalizing right with
  | integer value =>
      cases right <;> simp only [Condition.formula, Formula.integer.injEq, Option.some.injEq,
        reduceCtorEq] at same
      rw [Int64.toInt.inj same]
  | field reference =>
      cases right <;> simp only [Condition.formula, Formula.field.injEq, reduceCtorEq] at same
      rw [reference_eq_of_ident (grounds_singleton.mp leftGrounded)
        (grounds_singleton.mp rightGrounded) same]
  | negation operand inner =>
      cases right <;> simp only [Condition.formula, Formula.negation.injEq, reduceCtorEq] at same
      simp only [Condition.references] at leftGrounded rightGrounded
      rw [inner leftGrounded rightGrounded same]
  | relation comparison first second firstHalf secondHalf =>
      cases right <;> simp only [Condition.formula, Formula.relation.injEq, reduceCtorEq] at same
      simp only [Condition.references, grounds_append] at leftGrounded rightGrounded
      obtain ⟨rfl, sameFirst, sameSecond⟩ := same
      rw [firstHalf leftGrounded.1 rightGrounded.1 sameFirst,
        secondHalf leftGrounded.2 rightGrounded.2 sameSecond]
  | conjunction connective first second firstHalf secondHalf =>
      cases right <;> simp only [Condition.formula, Formula.conjunction.injEq,
        reduceCtorEq] at same
      simp only [Condition.references, grounds_append] at leftGrounded rightGrounded
      obtain ⟨rfl, sameFirst, sameSecond⟩ := same
      rw [firstHalf leftGrounded.1 rightGrounded.1 sameFirst,
        secondHalf leftGrounded.2 rightGrounded.2 sameSecond]

theorem selection_eq_of_formula {left right : Option Condition}
    (leftGrounded : forest.Grounds scope (selectionReferences left))
    (rightGrounded : forest.Grounds scope (selectionReferences right))
    (same : left.map Condition.formula = right.map Condition.formula) : left = right := by
  cases left <;> cases right <;> simp only [Option.map_some, Option.map_none, Option.some.injEq,
    reduceCtorEq] at same
  · rfl
  · rw [condition_eq_of_formula leftGrounded rightGrounded same]

theorem size_eq_of_formula {left right : Size}
    (leftGrounded : forest.Grounds scope left.references)
    (rightGrounded : forest.Grounds scope right.references)
    (same : left.formula = right.formula) : left = right := by
  cases left with
  | literal value =>
      cases right <;> simp only [Size.formula, Formula.integer.injEq, Option.some.injEq,
        reduceCtorEq] at same
      rw [UInt64.toNat_inj.mp (Int.ofNat.inj same)]
  | field reference =>
      cases right <;> simp only [Size.formula, Formula.field.injEq, reduceCtorEq] at same
      rw [reference_eq_of_ident (grounds_singleton.mp leftGrounded)
        (grounds_singleton.mp rightGrounded) same]

theorem encoding_eq_of_layout {left right : Encoding}
    (leftGrounded : forest.Grounds scope left.references)
    (rightGrounded : forest.Grounds scope right.references)
    (same : left.layout = right.layout) : left = right := by
  obtain ⟨scalar, ⟨width, unit⟩, count⟩ := left
  obtain ⟨otherScalar, ⟨otherWidth, otherUnit⟩, otherCount⟩ := right
  simp only [Encoding.layout, Layout.mk.injEq] at same
  simp only [Encoding.references, grounds_append] at leftGrounded rightGrounded
  obtain ⟨rfl, sameWidth, rfl, sameCount⟩ := same
  rw [size_eq_of_formula leftGrounded.1 rightGrounded.1 sameWidth,
    size_eq_of_formula leftGrounded.2 rightGrounded.2 sameCount]

end ScopeForest

end PacketSchema
