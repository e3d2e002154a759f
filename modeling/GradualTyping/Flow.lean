/-
# The flow graph

Checking records a node for every program point that it passes, with the
environment there and the nodes that lead to it.
-/

import GradualTyping.Narrowing.Environment
import GradualTyping.Program.Span

namespace GradualTyping

inductive FlowKind where
  /-- The start of a unit or of the body of a function. -/
  | entry
  | statement
  /-- The edge of a condition that holds. -/
  | branchTrue
  /-- The edge of a condition that fails. -/
  | branchFalse
  | join
  /-- The start of a clause of a switch. -/
  | caseClause
  | loopHeader
  | unreachable
deriving DecidableEq, Repr, Inhabited

structure FlowNode where
  kind : FlowKind
  /-- The numbers of the nodes that lead here. -/
  preds : List Nat
  env : TypeEnv
  span : Span
deriving DecidableEq, Repr, Inhabited

/-- Nodes are numbered in the order in which they are recorded. -/
structure FlowGraph where
  nodes : Array FlowNode := #[]
deriving DecidableEq, Repr, Inhabited

namespace FlowGraph

def size (g : FlowGraph) : Nat := g.nodes.size

/-- Record a node; one with an unreachable environment is of that kind. -/
def add (g : FlowGraph) (kind : FlowKind) (preds : List Nat) (env : TypeEnv) (span : Span) :
    Nat × FlowGraph :=
  (g.nodes.size, ⟨g.nodes.push ⟨if env.reachable then kind else .unreachable, preds, env, span⟩⟩)

/-- The type of a variable at a node. -/
def typeAt? (g : FlowGraph) (node : Nat) (var : String) : Option TypeId :=
  g.nodes[node]?.bind (·.env.get? var)

/-- The nodes of a kind whose span starts at an offset. -/
def nodesAt (g : FlowGraph) (kind : FlowKind) (offset : Nat) : List Nat :=
  (List.range g.size).filter fun i =>
    g.nodes[i]?.any fun n => n.kind == kind && n.span.start == offset

end FlowGraph

end GradualTyping
