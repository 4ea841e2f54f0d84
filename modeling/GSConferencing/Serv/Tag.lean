import GSConferencing.Serv.Dev

/-!
# Tags and their mix slots

`tag.c` without the mixing thread: a tag is created on demand, and the open microphones of a tag
take its eight slots `mix_devs`.  The open and close hooks are those of the tag the device has
(`MIX_OPEN_DEV`): the soft mixer has none, the net mixer hands out one of its eight resources.
-/

namespace GSConferencing.Serv.Tag

open GSConferencing.Lib.CyclicList
open GSConferencing.Serv.Strutil GSConferencing.Serv.Dev

/-! ## The net mixer -/

/-- `resources[i].addr`. -/
def resourceAddr (i : Fin 8) : Str := "192.168.1.1".toList ++ fmtInt (i.val + 1)

/-- `netmx_open_dev`. -/
def netmxOpenDev (s : Server) (d : ℤ) : Server :=
  match (List.finRange 8).find? fun i => s.avail i with
  | none => s
  | some i =>
    { s with avail := Function.update s.avail i false }.setDev d fun D =>
      { D with mixerRes := i.val + 1, mixerInfo := some (resourceAddr i) }

/-- `netmx_close_dev`. -/
def netmxCloseDev (s : Server) (d : ℤ) : Server :=
  match (List.finRange 8).find? fun i => (s.dev d).mixerRes = i.val + 1 with
  | none => s
  | some i =>
    { s with avail := Function.update s.avail i true }.setDev d fun D =>
      { D with mixerRes := 0, mixerInfo := none }

/-- `MIX_OPEN_DEV`. -/
def mixOpenDev (s : Server) (d : ℤ) : Server :=
  match (s.tag (s.dev d).tag).mixer with
  | .soft => s
  | .net => netmxOpenDev s d

/-- `MIX_CLOSE_DEV`. -/
def mixCloseDev (s : Server) (d : ℤ) : Server :=
  match (s.tag (s.dev d).tag).mixer with
  | .soft => s
  | .net => netmxCloseDev s d

/-! ## Slots -/

/-- `tag_add_outstanding`: a device that has no slot gets the first free one, if there is one. -/
def tagAddOutstanding (s : Server) (t d : ℤ) : Server :=
  if (s.dev d).mixbit ≠ 0 then s
  else match (List.finRange 8).find? fun i => ((s.tag t).mixDevs i).isNone with
    | none => s
    | some i =>
      let s := s.setTag t fun T => { T with mixDevs := Function.update T.mixDevs i (some d) }
      let s := s.setDev d fun D => { D with mixbit := 2 ^ i.val, timeouts := 0 }
      let s := s.setTag t fun T =>
        { T with
          mixRef := if (T.mixDevs T.mixRef).isNone then i else T.mixRef
          mixCount := T.mixCount + 1 }
      mixOpenDev s d

/-- `tag_rm_outstanding`. -/
def tagRmOutstanding (s : Server) (t d : ℤ) : Server :=
  let s := match (List.finRange 8).find? fun i => (s.tag t).mixDevs i = some d with
    | none => s
    | some i => s.setTag t fun T =>
      { T with
        mixRef :=
          if T.mixRef = i then
            ((List.finRange 8).find? fun j => j ≠ i && (T.mixDevs j).isSome).getD T.mixRef
          else T.mixRef
        mixDevs := Function.update T.mixDevs i none
        mixCount := T.mixCount - 1 }
  let s := s.setDev d fun D => { D with mixbit := 0 }
  mixCloseDev s d

/-! ## Creation -/

/-- The tag `tag_create` makes. -/
def newTag (s : Server) (tid : ℤ) : Tag where
  deviceHead := []
  subscribeHead := []
  mixer := if tid = 1 then s.optMixer else .soft
  mixDevs := fun _ => none
  mixCount := 0
  mixRef := 0
  mode := if tid = 1 then s.grp.dbData.discussMode else discmodeAuto
  maxuser :=
    if tid = 1 then
      if s.grp.dbData.discussMaxuser = 0 then maxMix else s.grp.dbData.discussMaxuser
    else 1
  openuser := 0
  interpMode := interpNo
  interpRep := none
  ucast := none

/-- `tag_create`. -/
def tagCreate (s : Server) (tid : ℤ) : Server :=
  { s with
    tag := Function.update s.tag tid (newTag s tid)
    openL := s.openL.init (.head tid)
    tags := s.tags ++ [tid] }

/-- `request_tag`. -/
def requestTag (s : Server) (tid : ℤ) : Server := if tid ∈ s.tags then s else tagCreate s tid

/-- `tag_check_ucast`. -/
def tagCheckUcast (s : Server) (t d : ℤ) : Server :=
  if (s.dev d).type = devtypeUcastAudio ∧ (s.dev d).tag = t ∧ (s.tag t).ucast = none then
    s.setTag t fun T => { T with ucast := some d }
  else s

/-- `tag_add_device`. -/
def tagAddDevice (s : Server) (t d : ℤ) : Server :=
  s.setTag t fun T => { T with deviceHead := T.deviceHead ++ [d] }

/-- `tag_del_device`. -/
def tagDelDevice (s : Server) (d : ℤ) : Server :=
  s.setTag (s.dev d).tag fun T => { T with deviceHead := T.deviceHead.erase d }

end GSConferencing.Serv.Tag
