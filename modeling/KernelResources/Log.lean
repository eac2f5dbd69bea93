namespace KernelResources

inductive Level where
  | info
  | debug
  | trace
  deriving DecidableEq, Repr

def Level.text : Level → String
  | .info => "INFO"
  | .debug => "DEBUG"
  | .trace => "TRACE"

structure LogLine where
  level : Level
  message : String
  deriving DecidableEq, Repr

def LogLine.text (line : LogLine) : String := line.level.text ++ " " ++ line.message

end KernelResources
