import PacketSchema.Text.Location
import PacketSchema.Text.Blank
import PacketSchema.Text.Numeral
import PacketSchema.Model.Identity
import PacketSchema.Model.Condition
import PacketSchema.Model.Encoding
import PacketSchema.Model.Error
import PacketSchema.Model.Field
import PacketSchema.Model.Scope
import PacketSchema.Model.Schema
import PacketSchema.Model.Distinct
import PacketSchema.Tree.Basic
import PacketSchema.Tree.Node
import PacketSchema.Grammar.Rule
import PacketSchema.Grammar.Frontier
import PacketSchema.Grammar.Parser
import PacketSchema.Grammar.Gap
import PacketSchema.Grammar.Word
import PacketSchema.Grammar.Descriptor
import PacketSchema.Grammar.Condition
import PacketSchema.Grammar.Statement
import PacketSchema.Grammar.Module
import PacketSchema.Grammar.SyntaxError
import PacketSchema.Grammar.Production
import PacketSchema.Build.Diagnostic
import PacketSchema.Build.Resolve
import PacketSchema.Build.Walk
import PacketSchema.Dump
import PacketSchema.Compile
import PacketSchema.Session
import PacketSchema.Indexed
import PacketSchema.InPlace
import PacketSchema.Proofs.Scope.Lineage
import PacketSchema.Proofs.Scope.Visibility
import PacketSchema.Proofs.Scope.Resolution
import PacketSchema.Proofs.Formula
import PacketSchema.Proofs.Resolving
import PacketSchema.Proofs.Walk.Step
import PacketSchema.Proofs.Walk.Reach
import PacketSchema.Proofs.ReferenceIntegrity
import PacketSchema.Proofs.Walk.Course
import PacketSchema.Proofs.Walk.Confinement
import PacketSchema.Proofs.Walk.Faultless
import PacketSchema.Proofs.Walk.Valid
import PacketSchema.Proofs.Rules.Lawful
import PacketSchema.Proofs.Rules.Sight
import PacketSchema.Proofs.Rules.Acceptance
import PacketSchema.Proofs.Rules.Union
import PacketSchema.Proofs.Rules.Body
import PacketSchema.Proofs.Rules.Statements
import PacketSchema.Proofs.Rules.Exact
import PacketSchema.Proofs.Image.Faithful
import PacketSchema.Proofs.Grammar.Regular
import PacketSchema.Proofs.Dump.Outline
import PacketSchema.Proofs.Dump.Text
import PacketSchema.Proofs.Dump.Heading
import PacketSchema.Proofs.Dump.Legible
import PacketSchema.Proofs.Dump.Reading
import PacketSchema.Proofs.Dump.Twin
import PacketSchema.Proofs.Image.Edges
import PacketSchema.Proofs.Dump.Identity
import PacketSchema.Proofs.Numbers.Stored
import PacketSchema.Proofs.Numbers.Answered
import PacketSchema.Proofs.Numbers.Reported
import PacketSchema.Proofs.Walk.Cut
import PacketSchema.Proofs.Walk.Halting
import PacketSchema.Proofs.Grammar.Lexeme
import PacketSchema.Proofs.Grammar.Draft
import PacketSchema.Proofs.Grammar.Bare
import PacketSchema.Proofs.Grammar.Writing
import PacketSchema.Proofs.Grammar.Reads
import PacketSchema.Proofs.Grammar.Reading.Condition
import PacketSchema.Proofs.Grammar.Reading.Module
import PacketSchema.Proofs.Grammar.Spelling
import PacketSchema.Proofs.Grammar.Drafting
import PacketSchema.Proofs.Grammar.Accounts
import PacketSchema.Proofs.Grammar.Accounting
import PacketSchema.Proofs.Scope.Ancestry
import PacketSchema.Proofs.Walk.Nested
import PacketSchema.Proofs.Walk.Nesting
import PacketSchema.Proofs.Layout.Backward
import PacketSchema.Proofs.Walk.Visits
import PacketSchema.Proofs.Layout.Naming
import PacketSchema.Proofs.Dispatch.Agreement
import PacketSchema.Proofs.Grammar.Enclosed
import PacketSchema.Proofs.Grammar.Joining
import PacketSchema.Proofs.Layout.Later
import PacketSchema.Proofs.Layout.Chain
import PacketSchema.Proofs.Session.Tables
import PacketSchema.Proofs.Session.Consistency
import PacketSchema.Proofs.Dispatch.Unambiguous
import PacketSchema.Proofs.Image.Blocks
import PacketSchema.Proofs.Image.Placed
import PacketSchema.Proofs.Image.Bodies
import PacketSchema.Proofs.Image.Mirror
import PacketSchema.Proofs.Scope.Stability
import PacketSchema.Proofs.Session.Refusal
import PacketSchema.Proofs.Grammar.Reading.Canonical
import PacketSchema.Proofs.Grammar.Position
import PacketSchema.Proofs.Grammar.Standing
import PacketSchema.Proofs.Walk.Faults
import PacketSchema.Proofs.Grammar.Placing
import PacketSchema.Proofs.Pointing
import PacketSchema.Proofs.Grammar.Reading.Encoding
import PacketSchema.Proofs.Grammar.Reading.Grouping
import PacketSchema.Proofs.Grammar.Ordering
import PacketSchema.Proofs.Leaves
import PacketSchema.Proofs.Omission
import PacketSchema.Proofs.Scope.Commuting
import PacketSchema.Proofs.Arms.Kept
import PacketSchema.Proofs.Grammar.Climbing
import PacketSchema.Proofs.Walk.Adding
import PacketSchema.Proofs.Arms.Attributed
import PacketSchema.Proofs.Arms.Offered
import PacketSchema.Proofs.Arms.Around
import PacketSchema.Proofs.Arms.Checked
import PacketSchema.Proofs.Literals.Positional
import PacketSchema.Proofs.Literals.Reported
import PacketSchema.Proofs.Literals.Spelling
import PacketSchema.Proofs.Literals.Meaning
import PacketSchema.Proofs.Grammar.Boundary
import PacketSchema.Proofs.Scope.TreeOrder
