import WorldShuffle.Logic.Expression
import WorldShuffle.World.Topology

namespace WorldShuffle

inductive Pattern
  | exact (name : String)
  | leading (word : String)
  | trailing (word : String)
  | any
  | group (name : String)
  | not (p : Pattern)
  deriving DecidableEq

inductive PatternError
  | wildcard (word : String)
  | missing
  | invalid (ts : List Token)
  | deepGroup
  | noNode (name : String) (scene : SceneId)
  | unknownGroup (name : String) (scene : SceneId)

def PatternError.message : PatternError → String
  | .wildcard word => s!"unsupported wildcard in '{word}'"
  | .missing => "missing node pattern"
  | .invalid ts => s!"invalid node pattern '{showTokens ts}'"
  | .deepGroup => "group nesting too deep"
  | .noNode name scene => s!"no node {name} in scene {scene.toInt}"
  | .unknownGroup name scene => s!"unknown group ${name} in scene {scene.toInt}"

/-- A star alone stands for every name, one at the end for the names that begin so, and else one
at the start for those that end so. -/
def Pattern.ofWord (word : String) : Except PatternError Pattern :=
  let cs := word.toList
  if cs = ['*'] then .ok .any
  else if cs.getLast? = some '*' then .ok (.leading (String.ofList cs.dropLast))
  else if cs.head? = some '*' then .ok (.trailing (String.ofList cs.tail))
  else if '*' ∈ cs then .error (.wildcard word)
  else .ok (.exact word)

def Pattern.ofTokens : List Token → Except PatternError Pattern
  | .bang :: ts => Pattern.not <$> Pattern.ofTokens ts
  | [.group name] => .ok (.group name)
  | [.ident word] => Pattern.ofWord word
  | [] => .error .missing
  | ts => .error (.invalid ts)

abbrev Groups := Table (SceneId × String) (List Pattern)

def nameBegins (word name : String) : Bool := word.toList.isPrefixOf name.toList

def nameEnds (word name : String) : Bool := word.toList.isSuffixOf name.toList

def Topology.sceneNodesWhere (t : Topology) (scene : SceneId) (p : String → Bool) : List Nat :=
  (t.sceneNodes scene).filter fun n => (t.node? n).any (p ·.name)

/-- The nodes of the scene that a pattern describes, where groups and complements may be nested
less deep than the given number of levels. -/
def Pattern.resolve (t : Topology) (groups : Groups) (scene : SceneId) :
    Nat → Pattern → Except PatternError (List Nat)
  | 0, _ => .error .deepGroup
  | levels + 1, p =>
    match p with
    | .exact name =>
      match t.nodeNamed? scene name with
      | some n => .ok [n]
      | none => .error (.noNode name scene)
    | .leading word => .ok (t.sceneNodesWhere scene (nameBegins word))
    | .trailing word => .ok (t.sceneNodesWhere scene (nameEnds word))
    | .any => .ok (t.sceneNodes scene)
    | .group name =>
      match groups.get? (scene, name) with
      | none => .error (.unknownGroup name scene)
      | some ps => do
        let parts ← ps.mapM (Pattern.resolve t groups scene levels)
        return parts.flatten.eraseDups
    | .not p => do
      let excluded ← Pattern.resolve t groups scene levels p
      return (t.sceneNodes scene).filter (· ∉ excluded)

end WorldShuffle
