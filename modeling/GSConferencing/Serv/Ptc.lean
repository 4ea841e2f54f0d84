import GSConferencing.Serv.Devctl

/-!
# Pan-tilt control

`ptc.c`: the list of the devices the camera has been pointed at, the last one first, and the
commands sent to the camera devices.
-/

namespace GSConferencing.Serv.Ptc

open GSConferencing.Lib.CyclicList GSConferencing.Include.ListHead
open GSConferencing.Serv.Strutil GSConferencing.Serv.Dev GSConferencing.Serv.Devctl

/-! ## Messages -/

/-- `add_ptc`: the array holds 32 devices. -/
def addPtc (s : Server) (ptc : ℤ) : Server :=
  if ptc ∈ s.ptc.ptcs ∨ 32 ≤ s.ptc.ptcs.length then s
  else { s with ptc := { s.ptc with ptcs := s.ptc.ptcs ++ [ptc] } }

/-- `ptc_send`. -/
def ptcSend (s : Server) (d : ℤ) : Server :=
  let ptc := (s.row d).ptcId
  if ptc ∈ s.devs then
    let ptcmd := (s.row d).ptcCmd
    let s :=
      if ptcmd = [] then s
      else deviceCmd s ptc
        (fmtInt d ++ " ptc ".toList ++ fmtInt ptc ++ ' ' :: ptcmd ++ ['\n'])
    addPtc s ptc
  else s

/-- `ptc_default`: the loop over `ptcs[]` reads the entries it adds itself. -/
def ptcDefault (s : Server) : Server :=
  (List.range 32).foldl (fun s i =>
    match s.ptc.ptcs[i]? with
    | none => s
    | some p => ptcSend s p) s

/-! ## The list -/

/-- A device whose links are both set is in the list. -/
def isPushed (s : Server) (d : ℤ) : Bool :=
  (s.ptc.links.prev (.entry d)).isSome && (s.ptc.links.next (.entry d)).isSome

def setLinks (s : Server) (links : Links Unit ℤ) : Server :=
  { s with ptc := { s.ptc with links := links } }

def setCurr (s : Server) (curr : Option ℤ) : Server :=
  { s with ptc := { s.ptc with curr := curr } }

/-- `ptc_put`. -/
def ptcPut (s : Server) (d : ℤ) : Option Server :=
  (if isPushed s d then listMove s.ptc.links (.entry d) (.head ())
    else listAdd s.ptc.links (.entry d) (.head ())).map fun links =>
      setCurr (setLinks s links) (some d)

/-- `ptc_push`. -/
def ptcPush (s : Server) (d : ℤ) : Option Server := (ptcPut s d).map fun s => ptcSend s d

/-- The device a node belongs to; the head belongs to none. -/
def listEntry (x : Option (Node Unit ℤ)) : Option ℤ :=
  match x with
  | some (.entry d) => some d
  | _ => none

/-- `ptc_remove`. -/
def ptcRemove (s : Server) (d : ℤ) : Option Server :=
  if isPushed s d then do
    let links ← listDel s.ptc.links (.entry d)
    let s := setLinks s links
    if listEmpty links (.head ()) then some (setCurr (ptcDefault s) none)
    else if s.ptc.curr = some d then
      (listEntry (links.next (.head ()))).map fun d' => ptcSend (setCurr s (some d')) d'
    else some s
  else some s

/-- `ptc_go_current`. -/
def ptcGoCurrent (s : Server) : Server :=
  match s.ptc.curr with
  | some d => ptcSend s d
  | none => ptcDefault s

/-- `is_ptc`. -/
def isPtc (s : Server) (d : ℤ) : Bool := (s.row d).ptcId = d

end GSConferencing.Serv.Ptc
