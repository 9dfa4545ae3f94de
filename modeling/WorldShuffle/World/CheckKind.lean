namespace WorldShuffle

inductive CheckKind
  | item
  | ability
  | toggle
  | shop
  | key
  | currency
  deriving DecidableEq

def CheckKind.all : List CheckKind := [.item, .ability, .toggle, .shop, .key, .currency]

def CheckKind.name : CheckKind → String
  | .item => "Item"
  | .ability => "Ability"
  | .toggle => "Toggle"
  | .shop => "Shop"
  | .key => "Key"
  | .currency => "Currency"

def CheckKind.ofName? (name : String) : Option CheckKind := CheckKind.all.find? (·.name = name)

def CheckKind.tag : CheckKind → Nat
  | .item => 0
  | .ability => 1
  | .toggle => 2
  | .shop => 3
  | .key => 4
  | .currency => 5

def CheckKind.ofTag? (tag : Nat) : Option CheckKind := CheckKind.all.find? (·.tag = tag)

theorem CheckKind.ofTag?_tag (k : CheckKind) : CheckKind.ofTag? k.tag = some k := by
  cases k <;> rfl

def unknownTagMessage (tag : Nat) : String :=
  s!"No discriminant in enum `CheckType` matches the value `{tag}`"

def CheckKind.describe (k : CheckKind) (id : Int32) : String :=
  match k with
  | .item => s!"Item #{id.toInt}"
  | .ability => s!"Ability #{id.toInt}"
  | .toggle => s!"Toggle #{id.toInt}"
  | .shop => s!"Shop slot #{id.toInt}"
  | .key => s!"Key #{id.toInt}"
  | .currency => s!"{id.toInt} Currency"

end WorldShuffle
