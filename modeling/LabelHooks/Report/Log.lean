import LabelHooks.Text.Basic

/-!
Records of what the program did, for whoever asks.
-/

namespace LabelHooks

inductive LogLevel where
  | debug | info | warn | error
deriving DecidableEq, Repr

namespace LogLevel

def name : LogLevel → Text
  | .debug => "DEBUG"
  | .info => "INFO"
  | .warn => "WARN"
  | .error => "ERROR"

end LogLevel

structure LogRecord where
  level : LogLevel
  message : Text
  attrs : List (Text × Text)
deriving DecidableEq, Repr

namespace LogRecord

def debug (message : Text) (attrs : List (Text × Text)) : LogRecord := ⟨.debug, message, attrs⟩

end LogRecord
end LabelHooks
