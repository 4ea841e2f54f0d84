import GSConferencing.Serv.Dev

/-!
# Interpretation

`interp.c` and `apply_interp_mode` of `cmd_interp.c`: a tag may replicate another one, and every
change is broadcast.
-/

namespace GSConferencing.Serv.Interp

open GSConferencing.Serv.Dev

/-- `notify_interp_rep`. -/
def notifyInterpRep (s : Server) (t : ℤ) : Server :=
  s.send (.interpRep t ((s.tag t).interpRep.getD 0))

/-- `interp_set_rep_tag`. -/
def interpSetRepTag (s : Server) (t : ℤ) (rep : Option ℤ) : Server :=
  notifyInterpRep (s.setTag t fun T => { T with interpRep := rep }) t

/-- `interp_del_rep`. -/
def interpDelRep (s : Server) (t : ℤ) : Server := interpSetRepTag s t none

/-- `apply_interp_mode`.  In the mode `INTERP_RE` a device without a subscription makes the code
read `subscription[1]`, beyond the end of the array. -/
def applyInterpMode (s : Server) (t d : ℤ) : Option Server :=
  let mode := (s.tag t).interpMode
  if mode = interpNo then some (interpDelRep s t)
  else if mode = interpOr then
    some (interpSetRepTag s t (if (1 : ℤ) ∈ s.tags then some 1 else none))
  else if mode = interpRe then
    match (s.dev d).subscription with
    | some rep => some (interpSetRepTag s t (some rep))
    | none => none
  else some s

end GSConferencing.Serv.Interp
