import NullFlow.Body.Format
import NullFlow.FlowGraph.Order
/-!
The JSON form of control-flow graphs over the numbers of a body.
-/

namespace NullFlow

/-- An edge, by the block at its other end. -/
def EdgeKind.toJson (block : BlockId) : EdgeKind → Json
  | always => .array [.natural block, .string "goto"]
  | whenTrue => .array [.natural block, .string "true"]
  | whenFalse => .array [.natural block, .string "false"]
  | arm index => .array [.natural block, .string "arm", .natural index]

def Step.toJson : Step StmtId ExprId → Json
  | simple stmt => .object [("stmt", .natural stmt)]
  | update expr => .object [("expr", .natural expr)]

def SwitchTarget.toJson (arm : SwitchTarget) : Json := .object [
  ("pattern", .optional Pattern.toJson arm.pattern?), ("target", .natural arm.target)]

def Terminator.toJson : Terminator ExprId → Json
  | goto target => .tagged "goto" [("target", .natural target)]
  | branch condition whenTrue whenFalse => .tagged "branch" [
      ("condition", .natural condition), ("when_true", .natural whenTrue),
      ("when_false", .natural whenFalse)]
  | switch scrutinee targets => .tagged "switch" [
      ("scrutinee", .natural scrutinee), ("targets", .list SwitchTarget.toJson targets)]
  | returnValue value? span => .tagged "return" [
      ("value", .optional .natural value?), ("span", span.toJson)]
  | throwValue value? => .tagged "throw" [("value", .optional .natural value?)]
  | exit => .tagged "exit" []

namespace FlowGraph

def edgesToJson (edges : List (BlockId × EdgeKind)) : Json :=
  .list (fun (block, kind) => kind.toJson block) edges

/-- A block with its number and the edges into it. -/
def blockToJson (block : Block StmtId ExprId) (id : BlockId)
    (incoming : List (BlockId × EdgeKind)) : Json := .object [
  ("id", .natural id), ("steps", .list Step.toJson block.steps),
  ("terminator", block.terminator.toJson),
  ("successors", edgesToJson block.terminator.successors),
  ("predecessors", edgesToJson incoming)]

def toJson (graph : FlowGraph StmtId ExprId) : Json :=
  let incoming := graph.incoming
  .object [
    ("entry", .natural entry), ("block_count", .natural graph.blocks.size),
    ("reverse_postorder", .list .natural graph.reversePostorder),
    ("blocks", .list (fun (block, id) => blockToJson block id (incoming.getD id []))
      graph.blocks.toList.zipIdx)]

end FlowGraph
end NullFlow
