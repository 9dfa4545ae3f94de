import WorldShuffle.Doors.Swaps
import WorldShuffle.Json.Printer
import WorldShuffle.Placement.Mapping
import WorldShuffle.World.Topology

namespace WorldShuffle

structure PlacementNote where
  location : String
  item : String
  state : String

structure RoundNote where
  round : Nat
  discovered : Nat
  frontier : Nat
  unlockedEdge : String
  missing : List String
  placements : List PlacementNote

structure SwapNote where
  source : String
  target : String

structure MappingNote where
  location : String
  saveId : String
  replacement : String

structure Spoiler where
  seed : String
  attempt : Nat := 0
  swaps : List SwapNote := []
  rounds : List RoundNote := []
  fillAtWill : List PlacementNote := []
  leftover : List String := []
  mapping : List MappingNote

namespace Topology

variable (t : Topology)

def edgeLabel (e : Nat) : String :=
  match t.edges[e]? with
  | some edge => s!"{t.label edge.source} -> {t.label edge.target}"
  | none => ""

def itemLabel (n : Nat) : String :=
  match t.check? n with
  | some c => s!"{c.describe} ({t.state n})"
  | none => t.label n

def placementNote (location item : Nat) : PlacementNote :=
  { location := t.label location, item := t.itemLabel item, state := t.state item }

def swapNotes (s : Swaps) : List SwapNote :=
  s.pairs.map fun (a, b) => { source := t.label a, target := t.label b }

def replacementLabel : Replacement → String
  | .check item => t.itemLabel item
  | .filler slot => s!"Filler #{slot}"
  | .obtained => "Obtained"

def mappingNotes (m : Mapping) : List MappingNote :=
  m.toList.map fun (location, r) =>
    { location := t.label location
      saveId := ((t.check? location).map Check.saveId).getD ""
      replacement := t.replacementLabel r }

end Topology

def PlacementNote.json (p : PlacementNote) : Json := .object [
  ("location", .string p.location), ("item", .string p.item), ("state", .string p.state)]

def RoundNote.json (r : RoundNote) : Json := .object [
  ("round", .nat r.round),
  ("discovered", .nat r.discovered),
  ("frontier", .nat r.frontier),
  ("unlocked_edge", .string r.unlockedEdge),
  ("missing", .list (r.missing.map .string)),
  ("placements", .list (r.placements.map PlacementNote.json))]

def SwapNote.json (s : SwapNote) : Json := .object [
  ("from", .string s.source), ("to", .string s.target)]

def MappingNote.json (m : MappingNote) : Json := .object [
  ("location", .string m.location), ("save_id", .string m.saveId),
  ("replacement", .string m.replacement)]

def mappingJson (ms : List MappingNote) : Json := .list (ms.map MappingNote.json)

def Spoiler.json (s : Spoiler) : Json := .object [
  ("seed", .string s.seed),
  ("attempt", .nat s.attempt),
  ("swaps", .list (s.swaps.map SwapNote.json)),
  ("rounds", .list (s.rounds.map RoundNote.json)),
  ("fill_at_will", .list (s.fillAtWill.map PlacementNote.json)),
  ("leftover_items", .list (s.leftover.map .string)),
  ("mapping", mappingJson s.mapping)]

end WorldShuffle
