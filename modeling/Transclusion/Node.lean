import Transclusion.Content
import Transclusion.Target

/-!
# Resolved trees

A resolution yields a tree: for every target its content, with all inclusions
made and transforms applied, and the nodes of what it includes, in the order of
the text. `Node.walk` lists a tree from the top down with the depth of each
node.
-/

set_option autoImplicit false

namespace Transclusion

/-- A resolved target, its content and what it includes. -/
inductive Node where
  | mk (target : Target) (content : Content) (children : List Node)

namespace Node

/-- The target of a node. -/
def target : Node → Target
  | .mk target _ _ => target

/-- The content of a node. -/
def content : Node → Content
  | .mk _ content _ => content

/-- The nodes of what a node includes. -/
def children : Node → List Node
  | .mk _ _ children => children

/-- A node that includes nothing. -/
def leaf (target : Target) (content : Content) : Node := .mk target content []

/-- The node with another content. -/
def withContent (node : Node) (content : Content) : Node :=
  .mk node.target content node.children

/-- An entry of a walk. -/
structure Visit where
  depth : Nat
  target : Target
  content : Content
deriving DecidableEq

mutual

/-- The visits of a tree whose top stands at a depth. -/
def walkAt (depth : Nat) : Node → List Visit
  | .mk target content children => ⟨depth, target, content⟩ :: walkForest (depth + 1) children

/-- The visits of some trees, one after the other. -/
def walkForest (depth : Nat) : List Node → List Visit
  | [] => []
  | node :: rest => walkAt depth node ++ walkForest depth rest

end

/-- The visits of a tree, from the top down and from left to right. -/
def walk (node : Node) : List Visit := walkAt 0 node

end Node

end Transclusion
