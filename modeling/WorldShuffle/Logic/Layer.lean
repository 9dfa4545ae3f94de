import WorldShuffle.Logic.Clause
import WorldShuffle.World.Topology

namespace WorldShuffle

structure Layer where
  name : String
  logic : Table Nat (List Clause) := {}
  scenes : Table SceneId (List Nat) := {}

namespace Layer

variable (l : Layer)

def get (edge : Nat) : List Clause := (l.logic.get? edge).getD []

def size : Nat := l.logic.size

def file (scene : SceneId) (edge : Nat) : Layer :=
  let filed := (l.scenes.get? scene).getD []
  { l with scenes := l.scenes.set scene (if edge ∈ filed then filed else filed ++ [edge]) }

/-- Adds alternatives to those the edge has. When their counts overflow, the edge keeps its place in
the scene and loses the alternatives it had. -/
def insert (scene : SceneId) (edge : Nat) (alternatives : List Clause) :
    Layer × Option CountOverflow :=
  let filed := l.file scene edge
  match normalizeAlternatives (l.get edge ++ alternatives) with
  | .ok cs => ({ filed with logic := l.logic.set edge cs }, none)
  | .error e => ({ filed with logic := l.logic.set edge [] }, some e)

def insertAll (scene : SceneId) (alternatives : List Clause) :
    List Nat → Layer → Layer × Option CountOverflow
  | [], l => (l, none)
  | e :: es, l =>
    match l.insert scene e alternatives with
    | (l, none) => insertAll scene alternatives es l
    | (l, some overflow) => (l, some overflow)

end Layer

end WorldShuffle
