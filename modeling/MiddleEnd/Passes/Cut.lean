import MiddleEnd.Passes.Blocks

/-!
Statements that are never reached: those after a `return` or `break` in the same block.
-/

namespace MiddleEnd

def cutBlock : BlockEdit
  | [] => return []
  | s :: ss =>
    if s.isTerminator then
      match ss with
      | [] => return [s]
      | _ => .replace [s]
    else return s :: (← cutBlock ss)

end MiddleEnd
