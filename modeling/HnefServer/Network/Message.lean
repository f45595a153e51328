import HnefServer.Network.Decode

/-!
# Messages to the clients

`rgx_client_data` is the regex of what a client accepts; the protocol has it in a comment only.
The messages of fixed text and those that pass on what a client has sent conform to it as they are
(`Plain`).  A message that names the opponent conforms when the name is one a client may ask for
(`Text.Spelled`), and the board in it can be read back (`fieldAt_getPlayfieldString`).
-/

namespace HnefServer

open Protocol Regex

namespace Protocol

/-- `ty|to` -/
def rgx_turn : Regex Char := .alt (.lit "ty".toList) (.lit "to".toList)

/-- `<|>|rc|rr,il|rr,ig,(?:ty|to),on:\w{3,20},pf:\d{121}|rl|il|ig,(?:ty|to),on:\w{3,20}|mv|gw|gl|
om:\d{8}|ol|os|od|or|og|t|u|k|s|ch:[a-zA-Z0-9\s.!?]{1,100}` -/
def rgx_client_data : Regex Char :=
  .alt (.lit "<".toList) <|
  .alt (.lit ">".toList) <|
  .alt (.lit "rc".toList) <|
  .alt (.lit "rr,il".toList) <|
  .alt (.seq (.lit "rr,ig,".toList) <| .seq rgx_turn <| .seq (.lit ",on:".toList) <|
    .seq (.rep (.cls isWordChar) 3 20) <| .seq (.lit ",pf:".toList) <|
    .rep (.cls Char.isDigit) 121 121) <|
  .alt (.lit "rl".toList) <|
  .alt (.lit "il".toList) <|
  .alt (.seq (.lit "ig,".toList) <| .seq rgx_turn <| .seq (.lit ",on:".toList) <|
    .rep (.cls isWordChar) 3 20) <|
  .alt (.lit "mv".toList) <|
  .alt (.lit "gw".toList) <|
  .alt (.lit "gl".toList) <|
  .alt (.seq (.lit "om:".toList) (.rep (.cls Char.isDigit) 8 8)) <|
  .alt (.lit "ol".toList) <|
  .alt (.lit "os".toList) <|
  .alt (.lit "od".toList) <|
  .alt (.lit "or".toList) <|
  .alt (.lit "og".toList) <|
  .alt (.lit "t".toList) <|
  .alt (.lit "u".toList) <|
  .alt (.lit "k".toList) <|
  .alt (.lit "s".toList) <|
  .seq (.lit "ch:".toList) (.rep (.cls isChatChar) 1 100)

/-- One or more pieces of data in curly brackets; the source writes out the alternatives again. -/
def rgx_client_format : Regex Char :=
  .plus (.seq (.lit "\x7b".toList) (.seq rgx_client_data (.lit "\x7d".toList)))

end Protocol

/-- The client accepts the message, in its brackets. -/
def Conforms (msg : Text) : Prop := rgx_client_format.isMatch (OP_SOH ++ msg ++ OP_EOT) = true

instance (msg : Text) : Decidable (Conforms msg) := inferInstanceAs (Decidable (_ = true))

/-- The text is one a client may ask for as its name. -/
def Text.Spelled (t : Text) : Prop := ∃ n : Nick, n.text = t

/-- The name of a client is one it may ask for, if it has one. -/
def Text.Named (t : Text) : Prop := t = [] ∨ t.Spelled

/-- What `composeMsgInGameRecn` puts together. -/
def backInGame (turn nick board : Text) : Text :=
  SC_RESP_RECN ++ OP_SEP ++ SC_IN_GAME ++ OP_SEP ++ turn ++ OP_SEP ++ SC_OPN_NAME ++ OP_INI ++
    nick ++ OP_SEP ++ SC_PLAYFIELD ++ OP_INI ++ board

namespace Conforms

variable {msg turn nick board : Text}

theorem of_lang (h : rgx_client_data.Lang msg) : Conforms msg := by
  refine isMatch_iff.2 ⟨[OP_SOH ++ msg ++ OP_EOT], by simp, ?_, by simp⟩
  intro v hv
  obtain rfl := List.mem_singleton.1 hv
  exact ⟨OP_SOH, msg ++ OP_EOT, by simp, lang_lit.2 rfl, msg, OP_EOT, rfl, h, lang_lit.2 rfl⟩

theorem lang_turn (h : turn = SC_TURN_YOU ∨ turn = SC_TURN_OPN) : rgx_turn.Lang turn :=
  h.imp lang_lit.2 lang_lit.2

theorem lang_nick (n : Nick) : (Regex.rep (.cls isWordChar) 3 20).Lang n.text :=
  (Frame.lang_payload (by decide)).2 ⟨n, rfl⟩

/-- The start of a game is told with a name. -/
theorem inGame (hturn : turn = SC_TURN_YOU ∨ turn = SC_TURN_OPN) (hnick : nick.Spelled) :
    Conforms (ClientManager.composeMsgInGame turn nick) := by
  obtain ⟨n, rfl⟩ := hnick
  refine of_lang ?_
  iterate 7 apply Or.inr
  refine Or.inl ⟨"ig,".toList, turn ++ (",on:".toList ++ n.text), ?_, lang_lit.2 rfl, turn, _, rfl,
    lang_turn hturn, _, _, rfl, lang_lit.2 rfl, lang_nick n⟩
  simp [ClientManager.composeMsgInGame, SC_IN_GAME, OP_SEP, SC_OPN_NAME, OP_INI]

/-- A name a client may have keeps the message in the grammar iff it is not empty. -/
theorem inGame_iff (hturn : turn = SC_TURN_YOU ∨ turn = SC_TURN_OPN) (hnick : nick.Named) :
    Conforms (ClientManager.composeMsgInGame turn nick) ↔ nick ≠ [] := by
  constructor
  · rintro hconf rfl
    have hnot : ¬ Conforms (ClientManager.composeMsgInGame SC_TURN_YOU []) ∧
        ¬ Conforms (ClientManager.composeMsgInGame SC_TURN_OPN []) := by
      decide +kernel
    rcases hturn with rfl | rfl
    · exact hnot.1 hconf
    · exact hnot.2 hconf
  · intro hne
    exact inGame hturn (hnick.resolve_left hne)

/-- A game goes on: the name of the opponent and the board. -/
theorem inGameRecn (hturn : turn = SC_TURN_YOU ∨ turn = SC_TURN_OPN) (hnick : nick.Spelled)
    (hlen : board.length = 121) (hboard : ∀ c ∈ board, c.isDigit = true) :
    Conforms (backInGame turn nick board) := by
  obtain ⟨n, rfl⟩ := hnick
  have hdigits : (Regex.rep (.cls Char.isDigit) 121 121).Lang board :=
    (lang_rep_cls le_rfl).2 ⟨hlen.ge, hlen.le, hboard⟩
  refine of_lang ?_
  iterate 4 apply Or.inr
  refine Or.inl ⟨"rr,ig,".toList, turn ++ (",on:".toList ++ (n.text ++ (",pf:".toList ++ board))),
    ?_, lang_lit.2 rfl, turn, _, rfl, lang_turn hturn, _, _, rfl, lang_lit.2 rfl, n.text, _, rfl,
    lang_nick n, _, board, rfl, lang_lit.2 rfl, hdigits⟩
  simp [backInGame, SC_RESP_RECN, SC_IN_GAME, OP_SEP, SC_OPN_NAME, OP_INI, SC_PLAYFIELD]

end Conforms

/-! ### Messages of fixed text, and what is passed on -/

/-- The messages that are always the same. -/
def fixedMsgs : List Text :=
  [OP_PING, OP_PONG, SC_RESP_CONN, ClientManager.composeMsgInLobbyRecn, SC_RESP_LEAVE, SC_IN_LOBBY,
    SC_MV_VALID, SC_GO_WIN, SC_GO_LOSS, SC_OPN_LEAVE, SC_OPN_LOST, SC_OPN_DISC, SC_OPN_RECN,
    SC_OPN_GONE, SC_MANY_CLNT, SC_NICK_USED, SC_KICK, SC_SHDW]

/-- The messages that name nobody: those of fixed text, the move of the opponent and what it has
said. -/
inductive Plain : Text → Prop
  | fixed {msg : Text} (h : msg ∈ fixedMsgs) : Plain msg
  | move (coordinates : Coordinates) : Plain (SC_OPN_MOVE ++ OP_INI ++ coordinates.text)
  | chat (said : ChatText) : Plain (OP_CHAT ++ OP_INI ++ said.text)

namespace Plain

variable {msg : Text}

theorem conforms (h : Plain msg) : Conforms msg := by
  cases h with
  | fixed hmem =>
    have hall : ∀ t ∈ fixedMsgs, Conforms t := by decide +kernel
    exact hall msg hmem
  | move coordinates =>
    refine Conforms.of_lang ?_
    iterate 11 apply Or.inr
    exact Or.inl ⟨_, _, rfl, lang_lit.2 rfl, (Frame.lang_payload le_rfl).2 ⟨coordinates, rfl⟩⟩
  | chat said =>
    refine Conforms.of_lang ?_
    iterate 21 apply Or.inr
    exact ⟨_, _, rfl, lang_lit.2 rfl, (Frame.lang_payload (by decide)).2 ⟨said, rfl⟩⟩

/-- No such message tells a client that its game goes on. -/
theorem not_inGameRecn (h : Plain msg) :
    ¬ SC_RESP_RECN ++ OP_SEP ++ SC_IN_GAME <+: msg := by
  cases h with
  | fixed hmem =>
    have hall : ∀ t ∈ fixedMsgs, ¬ SC_RESP_RECN ++ OP_SEP ++ SC_IN_GAME <+: t := by decide
    exact hall msg hmem
  | move coordinates =>
    rintro ⟨t, ht⟩
    cases ht
  | chat said =>
    rintro ⟨t, ht⟩
    cases ht

end Plain

/-! ### The board -/

/-- The field a digit of `getPlayfieldString` stands for. -/
def digitField : Char → Option Field
  | '0' => some .fEmpty
  | '1' => some .fThrone
  | '2' => some .fEscape
  | '3' => some .sBlack
  | '4' => some .sWhite
  | '5' => some .sKing
  | _ => none

theorem digitField_fieldDigit (f : Field) : digitField (RoomHnefatafl.fieldDigit f) = some f := by
  cases f <;> rfl

/-- The field at a square of a board that is written row by row. -/
def fieldAt (digits : Text) (q : Square) : Option Field :=
  (digits[11 * q.1.val + q.2.val]?).bind digitField

namespace RoomHnefatafl

variable (r : RoomHnefatafl)

theorem length_getPlayfieldString : r.getPlayfieldString.length = 121 := by
  simp only [getPlayfieldString, List.length_flatMap, List.length_map, List.length_finRange]
  decide

theorem isDigit_getPlayfieldString : ∀ c ∈ r.getPlayfieldString, c.isDigit = true := by
  intro c hc
  obtain ⟨y, -, hc⟩ := List.mem_flatMap.1 hc
  obtain ⟨x, -, rfl⟩ := List.mem_map.1 hc
  cases r.pf (y, x) <;> rfl

/-- **The board can be read back**, square by square. -/
theorem fieldAt_getPlayfieldString (q : Square) :
    fieldAt r.getPlayfieldString q = some (r.pf q) := by
  obtain ⟨y, x⟩ := q
  rw [fieldAt, getPlayfieldString, Text.getElem?_rows (fun y => by simp) x.isLt]
  simp [digitField_fieldDigit]

end RoomHnefatafl

end HnefServer
