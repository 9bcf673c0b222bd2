import RelAlg.Yaml.Node

/-!
# Following aliases

Aliases are followed while a document is read: the value of a node can be large even where its text
is small, so the number of aliases that are followed is limited by the size of the text.  An alias
may stand for a node that contains it; what limits such a value is the depth up to which it is read.

* `Yaml.Reading`: reading with the anchored nodes at hand and some aliases left to follow;
* `Node.follow` : the node that an alias stands for;
* `Node.value?` : the value of a whole document.
-/

namespace RelAlg

namespace Yaml

/-- Reading, given the anchored nodes with the last one first, and the number of aliases that may
still be followed. -/
abbrev Reading := ReaderT (List (Nat × Node)) (StateT Nat Option)

namespace Node

/-- The node itself, or the node that it is an alias for.  An anchored node is no alias, so one
step is enough. -/
def follow : Node → Reading Node
  | .alias anchor => do
    let left ← get
    guard (0 < left)
    set (left - 1)
    (← read).lookup anchor
  | n => pure n

/-- How many aliases may be followed for each step of the text. -/
def followedPerStep : Nat := 100

/-- The value of a document. -/
def value? {α : Type} (value : Node → Reading α) (root : Node) : Option α :=
  ((value root).run root.anchored.reverse).run' (followedPerStep * root.size)

end Node

end Yaml

end RelAlg
