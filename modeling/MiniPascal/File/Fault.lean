/-!
# File faults

The ways in which reading or writing a file fails, by kind, with the text shown for each.
-/

namespace MiniPascal

/-- The kind of a failed file operation. -/
inductive FileFault where
  | notFound
  | permissionDenied
  | alreadyExists
  | invalidInput
  | invalidData
  | timedOut
  | writeZero
  | interrupted
  | unexpectedEnd
  | brokenPipe
  | wouldBlock
  | isDirectory
  | notDirectory
  | tooManyLinks
  | other
  deriving DecidableEq, Repr

/-- The kind in words. -/
def FileFault.text : FileFault → String
  | .notFound => "entity not found"
  | .permissionDenied => "permission denied"
  | .alreadyExists => "entity already exists"
  | .invalidInput => "invalid input parameter"
  | .invalidData => "invalid data"
  | .timedOut => "timed out"
  | .writeZero => "write zero"
  | .interrupted => "operation interrupted"
  | .unexpectedEnd => "unexpected end of file"
  | .brokenPipe => "broken pipe"
  | .wouldBlock => "operation would block"
  | .isDirectory => "is a directory"
  | .notDirectory => "not a directory"
  | .tooManyLinks => "filesystem loop or indirection limit (e.g. symlink loop)"
  | .other => "other error"

end MiniPascal
