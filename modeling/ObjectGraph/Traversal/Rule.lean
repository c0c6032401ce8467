import ObjectGraph.Node

/-!
# Rules of a walk

A rule says for which nodes it holds, into which of their members the walk descends, and whether the
walk shows them. Of a list of rules the first that holds for a node is its active rule; where none
holds, the default rule is active, which descends into every member and shows the node.
-/

namespace ObjectGraph

/-- How a walk treats the nodes that one of the conditions holds for. -/
structure Rule where
  conditions : List (Node → Bool)
  /-- Names of the members to descend into. -/
  members : Node → List String
  /-- Whether the nodes are shown. -/
  yields : Bool

namespace Rule

/-- A rule for nodes with one property, which shows them and descends into nothing. -/
def when (condition : Node → Bool) : Rule where
  conditions := [condition]
  members := fun _ => []
  yields := true

/-- Lets the rule hold for more nodes. -/
def orWhen (r : Rule) (condition : Node → Bool) : Rule :=
  { r with conditions := r.conditions ++ [condition] }

/-- Descends into the members that a selector names. -/
def descend (r : Rule) (members : Node → List String) : Rule :=
  { r with members }

/-- Descends into members of fixed names. -/
def descendInto (r : Rule) (names : List String) : Rule :=
  r.descend fun _ => names

/-- Descends into the members of one kind. -/
def descendKind (r : Rule) (kind : MemberKind) : Rule :=
  r.descend fun n => n.memberNames kind

/-- Descends into every declared and dynamic member. -/
def descendAll (r : Rule) : Rule :=
  r.descendKind .all

/-- Descends into nothing. -/
def descendNone (r : Rule) : Rule :=
  r.descend fun _ => []

/-- Shows the nodes or hides them. -/
def showing (r : Rule) (yields : Bool) : Rule :=
  { r with yields }

/-- Whether the rule holds for a node. -/
def applies (r : Rule) (n : Node) : Bool :=
  r.conditions.any fun condition => condition n

/-- The rule where no other one holds. -/
def default : Rule :=
  (when fun _ => true).descendAll

/-- The first rule of a list that holds for a node, or the default rule. -/
def active (rules : List Rule) (n : Node) : Rule :=
  (rules.find? fun r => r.applies n).getD default

/-- The rule as it is shown to a programmer. -/
def summary (r : Rule) : String :=
  "TraversalRule \x7b conditions: " ++ r.conditions.length.repr ++ ", should_yield: " ++
    (if r.yields then "true" else "false") ++ ", .. \x7d"

end Rule

/-! ## Stock rules

Rule lists for the usual walks. Nodes with a display value are shown with their hosted elements
only, and results of an analysis are shown but never opened.
-/

namespace Node

/-- Names of the members that hold what a node looks like. -/
def displayNames : List String := ["displayValue", "@displayValue"]

/-- Names of the members that hold hosted nodes. -/
def elementNames : List String := ["elements", "@elements"]

/-- The namespace of the results of an analysis. -/
def resultsNamespace : String := "Objects.Structural.Results"

/-- Whether a display value is there and not null. -/
def hasDisplayValue (n : Node) : Bool :=
  displayNames.any fun name => ((n.get? name).map fun v => !v.isNull).getD false

/-- The node that a display value is, or the nodes that stand directly in its list. -/
def displayVertices : Value → List Vertex
  | .node handle content => [⟨handle, content⟩]
  | .list items => items.filterMap Value.asVertex?
  | _ => []

/-- The nodes that a node's display values name. -/
def displayValues (n : Node) : List Vertex :=
  displayNames.flatMap fun name => ((n.get? name).map displayVertices).getD []

/-- Whether the node is a result of an analysis. -/
def isStructuralResult (n : Node) : Bool :=
  Text.contains n.typeName resultsNamespace

end Node

namespace Rule

/-- Results of an analysis are not opened. -/
def ignoreResults : Rule :=
  (when Node.isStructuralResult).descendNone

/-- Displayable nodes are opened at their hosted elements only, other nodes at every member. -/
def displayable : List Rule :=
  [ignoreResults, (when Node.hasDisplayValue).descendInto Node.elementNames]

/-- Like `displayable`, but nodes that can be converted are opened at their hosted elements only as
well. -/
def convertible (canConvert : Node → Bool) : List Rule :=
  [((when canConvert).orWhen Node.hasDisplayValue).descendInto Node.elementNames, ignoreResults]

end Rule

end ObjectGraph
