import GSConferencing.Cmd.ParseCmd
import GSConferencing.Serv.CmdHandler

/-!
# The info of a client

`get_client_info` of `cmd_reg.c`: a device that registers is told who it is and what goes on in its
group, as `name=value` entries with a colon between them, in one argument of the reply.

* `info_eq`: the entries before `sub`, `sub` itself, and those after it.
-/

namespace GSConferencing.Serv.ClientInfo

open GSConferencing.Cmd.ParseCmd GSConferencing.Lib.Tokens
open GSConferencing.Serv.Strutil GSConferencing.Serv.CmdHandler

/-! ## What is sent -/

/-- The names of the entries. -/
inductive Key where
  | client_version | user_id | user_name | user_gender | tag | sub
  | discuss_mode | discuss_num | discuss_name | discuss_nmembers | discuss_idlist
  | discuss_userlist | discuss_chair | discuss_open
  | regist_start | regist_master | regist_mode | regist_reg
  | vote_num | vote_nmembers | vote_idlist | vote_userlist | vote_master | vote_name | vote_type
  | vote_options | vote_total | vote_results | vote_choice
  deriving DecidableEq

def Key.name : Key → Str
  | client_version => "client_version".toList
  | user_id => "user_id".toList
  | user_name => "user_name".toList
  | user_gender => "user_gender".toList
  | tag => "tag".toList
  | sub => "sub".toList
  | discuss_mode => "discuss_mode".toList
  | discuss_num => "discuss_num".toList
  | discuss_name => "discuss_name".toList
  | discuss_nmembers => "discuss_nmembers".toList
  | discuss_idlist => "discuss_idlist".toList
  | discuss_userlist => "discuss_userlist".toList
  | discuss_chair => "discuss_chair".toList
  | discuss_open => "discuss_open".toList
  | regist_start => "regist_start".toList
  | regist_master => "regist_master".toList
  | regist_mode => "regist_mode".toList
  | regist_reg => "regist_reg".toList
  | vote_num => "vote_num".toList
  | vote_nmembers => "vote_nmembers".toList
  | vote_idlist => "vote_idlist".toList
  | vote_userlist => "vote_userlist".toList
  | vote_master => "vote_master".toList
  | vote_name => "vote_name".toList
  | vote_type => "vote_type".toList
  | vote_options => "vote_options".toList
  | vote_total => "vote_total".toList
  | vote_results => "vote_results".toList
  | vote_choice => "vote_choice".toList

/-- What a format prints: `%d`, `%s` or `%d,%d`. -/
inductive Item where
  | d (n : ℤ)
  | s (a : Str)
  | dd (m n : ℤ)

def Item.print : Item → Str
  | d n => fmtInt n
  | s a => a
  | dd m n => fmtInt m ++ ',' :: fmtInt n

/-- `struct db_device`. -/
structure DbDevice where
  userId : Str
  userName : Str
  userGender : ℤ
  tagid : ℤ
  sub1 : ℤ
  sub2 : ℤ
  discussChair : ℤ
  discussOpen : ℤ
  registMaster : ℤ
  voteMaster : ℤ
  voteChoice : ℤ

/-- `struct db_group`. -/
structure DbGroup where
  discussMode : ℤ
  registStart : ℤ
  registMode : ℤ
  voteResults : Str

/-- `struct db_discuss`. -/
structure DbDiscuss where
  name : Str
  members : Str

/-- `struct db_vote`. -/
structure DbVote where
  name : Str
  type : ℤ
  options : Str
  members : Str

/-- `struct group`: what is current, and the members of it. -/
structure Group where
  dbData : DbGroup
  discussCurrent : Option DbDiscuss
  discussCurrNum : ℤ
  discussNmembers : ℤ
  discussMembernames : Str
  voteCurrent : Option DbVote
  voteCurrNum : ℤ
  voteNmembers : ℤ
  voteMembernames : Str

/-- `struct device`; the vote it takes part in is known by its `n_members`. -/
structure Device where
  dbData : DbDevice
  group : Group
  registReg : ℤ
  vote : Option ℤ

/-- `dvt`: the current vote, for a device that takes part in one. -/
def dvt (d : Device) : Option DbVote := if d.vote.isSome then d.group.voteCurrent else none

/-- The value of each entry, with what stands for a discussion or a vote that is not there;
`ver` is `get_client_version()`. -/
def sent (ver : Str) (d : Device) : Key → Item
  | .client_version => .s (if ver ≠ [] then ver else ['0'])
  | .user_id => .s d.dbData.userId
  | .user_name => .s d.dbData.userName
  | .user_gender => .d d.dbData.userGender
  | .tag => .d d.dbData.tagid
  | .sub => .dd d.dbData.sub1 d.dbData.sub2
  | .discuss_mode => .d d.group.dbData.discussMode
  | .discuss_num => .d (if d.group.discussCurrent.isSome then d.group.discussCurrNum else -1)
  | .discuss_name => .s (d.group.discussCurrent.elim ['0'] DbDiscuss.name)
  | .discuss_nmembers => .d d.group.discussNmembers
  | .discuss_idlist => .s (d.group.discussCurrent.elim ['0'] DbDiscuss.members)
  | .discuss_userlist =>
    .s (if d.group.discussCurrent.isSome then d.group.discussMembernames else ['0'])
  | .discuss_chair => .d d.dbData.discussChair
  | .discuss_open => .d d.dbData.discussOpen
  | .regist_start => .d d.group.dbData.registStart
  | .regist_master => .d d.dbData.registMaster
  | .regist_mode => .d d.group.dbData.registMode
  | .regist_reg => .d d.registReg
  | .vote_num => .d (if (dvt d).isSome then d.group.voteCurrNum else -1)
  | .vote_nmembers => .d d.group.voteNmembers
  | .vote_idlist => .s ((dvt d).elim ['0'] DbVote.members)
  | .vote_userlist => .s (if (dvt d).isSome then d.group.voteMembernames else ['0'])
  | .vote_master => .d (if (dvt d).isSome then d.dbData.voteMaster else 0)
  | .vote_name => .s ((dvt d).elim ['0'] DbVote.name)
  | .vote_type => .d ((dvt d).elim 0 DbVote.type)
  | .vote_options => .s ((dvt d).elim ['0'] DbVote.options)
  | .vote_total => .d (d.vote.getD 0)
  | .vote_results => .s d.group.dbData.voteResults
  | .vote_choice => .d d.dbData.voteChoice

/-- The entries before `sub`, in order. -/
def keysBefore : List Key := [.client_version, .user_id, .user_name, .user_gender, .tag]

/-- The entries after `sub`, in order. -/
def keysAfter : List Key :=
  [.discuss_mode, .discuss_num, .discuss_name, .discuss_nmembers, .discuss_idlist,
    .discuss_userlist, .discuss_chair, .discuss_open, .regist_start, .regist_master, .regist_mode,
    .regist_reg, .vote_num, .vote_nmembers, .vote_idlist, .vote_userlist, .vote_master, .vote_name,
    .vote_type, .vote_options, .vote_total, .vote_results, .vote_choice]

/-- The order of the `ADD_ARG`s. -/
def keys : List Key := keysBefore ++ .sub :: keysAfter

/-- `ADD_ARG`: the text of one entry. -/
def addArg (ver : Str) (d : Device) (k : Key) : Str := k.name ++ '=' :: (sent ver d k).print

/-- `get_client_info`. -/
def getClientInfo (ver : Str) (d : Device) : Str := [':'].intercalate (keys.map (addArg ver d))

/-! ## The request and its reply -/

/-- A `reg` request: the password is 32 letters between `#` and `?`, the address `none` or four
numbers with dots. -/
structure Request where
  id : ℤ
  devtype : ℤ
  passwd : Str
  port : ℤ
  brAddr : Str
  passwd_word : Word isSep passwd ∧ passwd ≠ "OK".toList
  brAddr_word : Word isSep brAddr ∧ brAddr ≠ "OK".toList

/-- The line that `_MAKE_REG` prints, without its end. -/
def Request.line (q : Request) : Str :=
  [' '].intercalate [fmtInt q.id, "reg".toList, fmtInt q.devtype, q.passwd, fmtInt q.port, q.brAddr]

/-- The end of `cmd_reg`; the info and the reply have to fit their buffers. -/
def regReply (ver : Str) (d : Device) (q : Request) : Option Str :=
  let info := getClientInfo ver d
  let cmd := repEnd (repAdd (repAdd ⟨q.id, [], q.line⟩ "OK".toList) info)
  if info.length < cmdMax ∧ cmd.rep.length < cmdMax then some cmd.rep else none

/-! ## Words of the reply -/

variable (ver : Str) (d : Device) (q : Request)

theorem words_line : words q.line =
    [fmtInt q.id, "reg".toList, fmtInt q.devtype, q.passwd, fmtInt q.port, q.brAddr] := by
  refine tokens_intercalate isSep_space ?_
  intro w hw
  simp only [List.mem_cons, List.not_mem_nil, or_false] at hw
  rcases hw with rfl | rfl | rfl | rfl | rfl | rfl
  · exact word_fmtInt _
  · decide
  · exact word_fmtInt _
  · exact q.passwd_word.1
  · exact word_fmtInt _
  · exact q.brAddr_word.1

/-- The words of a reply: those of the request, `OK`, and those the info falls into. -/
theorem words_reply {reply : Str} (h : regReply ver d q = some reply) :
    words reply = words q.line ++ "OK".toList :: words (getClientInfo ver d) := by
  unfold regReply at h
  obtain ⟨-, heq⟩ := Option.ite_none_right_eq_some.mp h
  rw [← Option.some.inj heq]
  unfold repEnd repAdd words
  rw [tokens_append_sep isSep_newline, tokens_append isSep_space, tokens_append isSep_space,
    tokens_word (by decide : Word isSep "OK".toList), List.append_assoc, List.singleton_append]

/-- The text of an entry and the colon after it. -/
def entryColon (k : Key) : Str := addArg ver d k ++ [':']

theorem intercalate_append_cons {w : Str} (us vs : List Str) :
    [':'].intercalate (us ++ w :: vs) =
      us.flatMap (· ++ [':']) ++ [':'].intercalate (w :: vs) := by
  induction us with
  | nil => rfl
  | cons u us ih =>
    cases us with
    | nil =>
      rw [List.singleton_append, List.intercalate_cons_cons, List.flatMap_singleton]
    | cons u' us =>
      rw [List.cons_append, List.cons_append, List.intercalate_cons_cons, ← List.cons_append, ih,
        ← List.append_assoc]
      rfl

/-- **The info around `sub`.** -/
theorem info_eq : getClientInfo ver d =
    keysBefore.flatMap (entryColon ver d) ++ entryColon ver d .sub ++
      [':'].intercalate (keysAfter.map (addArg ver d)) := by
  unfold getClientInfo keys
  unfold entryColon
  rw [List.map_append, List.map_cons, intercalate_append_cons, List.flatMap_map,
    show keysAfter.map (addArg ver d) = addArg ver d .discuss_mode ::
      keysAfter.tail.map (addArg ver d) from rfl,
    List.intercalate_cons_cons, List.append_assoc, List.append_assoc, List.append_assoc]

end GSConferencing.Serv.ClientInfo
