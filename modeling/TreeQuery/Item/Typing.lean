import TreeQuery.Item

/-!
# Types of items

Whether a value has a type as it stands. Maps and arrays can be called, so they are functions too.
-/

namespace TreeQuery.Item

/-- Whether one item has a type. -/
def hasItemType (forest : Forest) (item : Item) : ItemType → Bool
  | .item => true
  | .atomic type => item.atomic?.any fun a => a.hasType type
  | .node test => item.node?.any fun n => n.passesKind forest test
  | .map => match item with | .map _ => true | _ => false
  | .array => match item with | .array _ => true | _ => false
  | .function => match item with | .function _ | .map _ | .array _ => true | _ => false

/-- Whether a value has a type. -/
def hasType (forest : Forest) (item : Item) : SequenceType → Bool
  | .empty => item.isEmpty
  | .items type occurrence =>
    occurrence.allows item.count && item.items.all fun i => i.hasItemType forest type

end TreeQuery.Item
