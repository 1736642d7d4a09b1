import RubySyntax.YamlGraph

/-!
# Merged mappings of YAML

A mapping takes over the entries of those that it names under its merge keys, in
front of its own.  The merge keys are then gone, also for the other nodes that
refer to the mapping, and the keys of default values are texts.
-/

namespace RubySyntax

namespace YamlGraph

/-- The value of the first merge key among entries, and the other entries. -/
def takeMerge? (graph : YamlGraph) (entries : List (Nat × Nat)) :
    Option (Nat × List (Nat × Nat)) :=
  match entries.span fun entry => graph.tag entry.1 != YamlTag.merge with
  | (_, []) => none
  | (before, merge :: behind) => some (merge.2, before ++ behind)

/-- The graph in which a key of a default value is a text. -/
def retagDefaultKey (graph : YamlGraph) (key : Nat) : YamlGraph :=
  match graph.node? key with
  | some node =>
    if node.tag = YamlTag.value then graph.replace key (node.withTag YamlTag.text) else graph
  | none => graph

/-- The graph in which a mapping has some entries in front of its own, and in which its keys of
default values are texts. -/
def finishMerge (graph : YamlGraph) (number : Nat) (merged : List (Nat × Nat)) : YamlGraph :=
  let own := graph.entries number
  let graph := (own.map Prod.fst).foldl retagDefaultKey graph
  if merged.isEmpty then graph else graph.setEntries number (merged ++ own)

/-- The entries that are taken over from the value of a merge key, and the graph behind it.  The
value is a mapping, or a sequence of mappings of which the last one comes first; `merge` lets a
mapping take over its own merged entries before. -/
def mergedEntries (merge : Nat → YamlGraph → Except YamlFault YamlGraph) (number : Nat)
    (graph : YamlGraph) : Except YamlFault (List (Nat × Nat) × YamlGraph) :=
  let ofMapping := fun (number : Nat) (graph : YamlGraph) =>
    match graph.node? number with
    | some (.mapping _ _) => do
      let graph ← merge number graph
      return (graph.entries number, graph)
    | _ => throw .malformed
  match graph.node? number with
  | some (.sequence _ items) =>
    items.foldlM
      (fun (merged, graph) item => do
        let (entries, graph) ← ofMapping item graph
        return (entries ++ merged, graph))
      ([], graph)
  | _ => ofMapping number graph

/-- The graph in which a mapping has taken over the entries that its merge keys name, behind the
given ones.  Each step uses up a merge key, so the number of entries of a graph bounds the
steps. -/
def mergeInto : Nat → List (Nat × Nat) → Nat → YamlGraph → Except YamlFault YamlGraph
  | 0, _, _, _ => .error .malformed
  | bound + 1, merged, number, graph =>
    match graph.takeMerge? (graph.entries number) with
    | none => .ok (graph.finishMerge number merged)
    | some (value, others) => do
      let (entries, graph) ← mergedEntries (fun number graph => mergeInto bound [] number graph)
        value (graph.setEntries number others)
      mergeInto bound (merged ++ entries) number graph

/-- The graph in which the mapping with a number has no merge keys; the bound is more than the
number of entries with merge keys. -/
def flatten (bound : Nat) (graph : YamlGraph) (number : Nat) : Except YamlFault YamlGraph :=
  mergeInto bound [] number graph

end YamlGraph

end RubySyntax
