import WorldShuffle.Table
import WorldShuffle.World.CheckKind

namespace WorldShuffle

structure Save where
  flags : Table String Bool := {}
  counters : Table String Int32 := {}

def Save.flag (s : Save) (name : String) : Bool := (s.flags.get? name).getD false

def Save.setFlag (s : Save) (name : String) (value : Bool) : Save :=
  { s with flags := s.flags.set name value }

def Save.counter (s : Save) (name : String) : Int32 := (s.counters.get? name).getD 0

def Save.addCounter (s : Save) (name : String) (amount : Int32) : Save :=
  { s with counters := s.counters.set name (s.counter name + amount) }

def Save.give (s : Save) (kind : CheckKind) (id : Int32) (saveId : String) : Save :=
  let s := s.setFlag saveId true
  match kind with
  | .item => s.addCounter s!"item.{id.toInt}" 1
  | .ability => s.setFlag s!"ability.{id.toInt}" true
  | .toggle => s.setFlag s!"toggle.{id.toInt}" true
  | .shop => s.addCounter s!"shop.{id.toInt}" 1
  | .key => s.addCounter s!"key.{id.toInt}" 1
  | .currency => s.addCounter "currency" id

end WorldShuffle
