/-
Loops.

Every loop must have an expression that can be taken apart.  A platform that splits loops
has room for an item and an index only, and both must be identifiers.
-/
import TemplateCompiler.Iteration
import TemplateCompiler.Adapter.Basic

namespace TemplateCompiler

/-- The loop fits into attributes for one item and one index. -/
def Iteration.isSplittable (it : Iteration) : Bool :=
  it.aliases.length ≤ 2 && it.hasSimpleAliases

/-- The attributes that stand for a split loop. -/
def Iteration.attributes (it : Iteration) (itemName indexName sourceName : String)
    (encoding : Encoding) : List Attribute :=
  [(itemName, some it.item), (indexName, some it.index), (sourceName, some (encoding.encode it.source))]

namespace Adapter

/-- Adapts the first `v-for`. -/
def iteration : Adapter := fun setting site attrs =>
  match attrs.directive? .forEach with
  | none => .ok attrs
  | some d =>
    match Iteration.parse? d.expression with
    | none => .error (.badIteration site.tag d.expression site.span)
    | some it =>
      match setting.dialect.iteration with
      | .keep => .ok attrs
      | .split itemName indexName sourceName encoding =>
        if it.isSplittable then
          .ok (attrs.replaceD d.name (it.attributes itemName indexName sourceName encoding))
        else .error (.badIteration site.tag d.expression site.span)

end Adapter

end TemplateCompiler
