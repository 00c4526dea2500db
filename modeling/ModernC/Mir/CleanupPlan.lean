import ModernC.Mir.OwnershipFlow

/-!
# The ownership cleanup plan

The events of an admitted function that put a root under compiler-run cleanup
(`auto_drop`, `explicit_drop`), and those that take it out again (`move_out`,
`explicit_drop`), as `buildOwnershipCleanupPlan` collects them in event order.  The
well-formedness of a single event is checked against the tables of the module.
-/

namespace ModernC.Mir

end ModernC.Mir

/-!
## Cleanup edges and the plan of one exit

`buildOwnershipCleanupEdgeTable` gives every edge that leaves a scope the auto-drop actions
of the whole function in reverse, less those cancelled on the edge.  An exit then asks
`buildCleanupEdgePlan` for the actions of all edges of its kind that answer its source
point.  The cleanup CFG is the one built from ownership edges alone, so it holds no `defer`
action.
-/

namespace ModernC.Mir

/-! ## Source points -/

/-- The source point of an edge that has none. -/
def SourcePoint.isEmpty (source : SourcePoint) : Bool :=
  source.offset == 0 && source.len == 0 && source.line == 0 && source.column == 0

def sourcePointForSpanId (function : Function) (typedSpanId : SpanId) : Option SourcePoint :=
  if !typedSpanId.isValid then none
  else
    match function.spanIdentities[typedSpanId.index]? with
    | none => none
    | some identity => if identity.id.eql typedSpanId then some identity.source else none

def instructionSourcePoint (function : Function) (instruction : Instruction) :
    Option SourcePoint :=
  sourcePointForSpanId function instruction.typedSpanId

end ModernC.Mir
