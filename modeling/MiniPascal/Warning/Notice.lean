import MiniPascal.Warning.Basic

/-!
# Notices

A notice is a warning together with the program it is about. Who wants to know of them gives the
compiler something to emit them to, such as a `NoticeBoard`, which counts the notices it is given
and may keep them until they are taken.
-/

namespace MiniPascal

/-- A warning about a program. -/
structure Notice where
  path : String
  source : String
  warning : Warning

/-- Counts notices and may keep them. -/
structure NoticeBoard where
  keeps : Bool
  count : Nat := 0
  notices : List Notice := []

namespace NoticeBoard

/-- Takes note of a notice. -/
def post (b : NoticeBoard) (n : Notice) : NoticeBoard :=
  { b with count := b.count + 1, notices := if b.keeps then b.notices ++ [n] else b.notices }

/-- Emits a notice to the board at hand. -/
def emit (n : Notice) : StateM NoticeBoard Unit := modify fun b ↦ b.post n

/-- The notices kept so far; they are not kept any longer, but stay counted. -/
def take (b : NoticeBoard) : List Notice × NoticeBoard := (b.notices, { b with notices := [] })

end NoticeBoard

end MiniPascal
