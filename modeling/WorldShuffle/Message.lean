namespace WorldShuffle

inductive Level
  | debug
  | info
  | warn
  deriving DecidableEq

structure Message where
  level : Level
  text : String
  deriving DecidableEq

def Level.label : Level → String
  | .debug => "DEBUG"
  | .info => "INFO"
  | .warn => "WARN"

def Message.line (m : Message) : String := s!"{m.level.label}: {m.text}"

end WorldShuffle
