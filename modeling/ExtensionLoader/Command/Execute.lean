import ExtensionLoader.Command.Completions
import ExtensionLoader.Command.Generate
import ExtensionLoader.Command.Init
import ExtensionLoader.Command.List

/-! # Executing a request -/

namespace ExtensionLoader.Command

variable {m : Type → Type} [Monad m]

/-- Run the command an invocation asks for. -/
def Invocation.execute (invocation : Invocation) (terminal : Terminal m) :
    m (Except Fault Unit) := do
  match invocation.request with
  | .generate inputs apis output crlf =>
    generate terminal inputs apis output crlf invocation.debug
  | .init directory force => init terminal directory force
  | .list inputs json => list terminal inputs json invocation.debug
  | .completions shell => return .ok (← terminal.print (completionLine shell))

end ExtensionLoader.Command
