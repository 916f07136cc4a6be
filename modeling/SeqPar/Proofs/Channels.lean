import SeqPar.Proofs.Rejection
import SeqPar.Proofs.ReturnPath
import SeqPar.Token.Scan

/-!
# Messages on channels

What a program tells its peers is the list of the texts that were sent on each socket.  Two
statements are meant to send something, and what they send is compared here with what they are meant
to send.

A `send` statement names a message and a channel.  The name of the channel stands in the call as
plain data, and plain data cannot be run.  So the message is evaluated, the call fails at its second
argument, and the failure becomes a warning: the statement sends what the evaluation of its message
sends by itself, and nothing else.

A server channel accepts a client, greets it and waits for a request.  It ends well when there is no
request: the connection is closed.  The first request ends it with a fault, since the call of the
handler cannot be made.  Only a request whose first bytes end within a character ends it before that:
such bytes are no text.

## Main definitions

* `Network.sentOn` — the texts that were sent on a socket.
* `Parser.SendAt` — the tokens of a `send` statement stand in front of a place.
* `Delivers` — a computation sends one text on a socket.
* `Node.isPlain` — expressions without calls.
* `Peer.firstText` — the text that one call gets of a message.
* `Peer.requestFault` — the fault that a request ends a server with.
* `Machine.serving` — the machine of a server that has accepted a client.
* `Waits` — a server comes to wait for the requests of its client.
* `Handled`, `Answers` — the replies of a handler to the requests, one call after the other, and the
  runs of servers that send the given texts and close the connection.

## Main results

* `exec_sendCall` — a `send` statement does what its message does, and warns.
* `delivers_send_iff` — **a `send` statement delivers exactly what evaluating its message
  delivers.**
* `Peer.exists_cut` — no byte of a message is lost.
* `Waits.runServer_of_request`, `Waits.answers_of_silence` — the two ways a server goes on after its
  greeting.
* `answers_iff_no_requests` — **a server answers all requests exactly when there are none.**
-/

namespace SeqPar

open Exec

/-! ### The texts that were sent -/

/-- The text that an operation sends on a socket. -/
def SocketEvent.textOn? (socket : Nat) : SocketEvent → Option String
  | .sent s text => if s = socket then some text else none
  | _ => none

namespace Network

variable (n : Network) (socket : Nat)

/-- The texts that were sent on a socket, in order. -/
def sentOn : List String :=
  n.log.filterMap (SocketEvent.textOn? socket)

theorem sentOn_record (event : SocketEvent) :
    (n.record event).sentOn socket = n.sentOn socket ++ (event.textOn? socket).toList := by
  show (n.log ++ [event]).filterMap _ = _
  rw [List.filterMap_append]
  cases h : event.textOn? socket with
  | none => simp [sentOn, h]
  | some text => simp [sentOn, h]

theorem sentOn_close (k : Nat) : (n.close k).sentOn socket = n.sentOn socket := by
  show (n.log ++ [SocketEvent.closed k]).filterMap _ = _
  rw [List.filterMap_append]
  exact List.append_nil _

/-- Asking for a message is logged, whether there is one or not. -/
theorem log_receive : (n.receive socket).2.log = n.log ++ [.received socket messageSize] := by
  unfold receive
  dsimp only
  split <;> rfl

theorem sentOn_receive : (n.receive socket).2.sentOn socket = n.sentOn socket := by
  rw [sentOn, log_receive, List.filterMap_append]
  exact List.append_nil _

end Network

/-! ### The statement that sends -/

/-- The call that a `send` statement is read as. -/
def sendCall (message : Node) (channel : String) : Node :=
  .call none ⟨.other "send", "send"⟩ [message, .datum (.text channel)]

namespace Parser

variable {c d : Cursor} {message : Node} {channel : String}

/-- In front of the place `c` stands a `send` statement with the given message and channel, and the
place `d` is behind it. -/
structure SendAt (c : Cursor) (message : Node) (channel : String) (d : Cursor) : Prop where
  /-- The word. -/
  word : c.look.tag = .send
  /-- The parenthesis behind it. -/
  opening : c.advance.look.tag = .lparen
  /-- The message, the comma, the name of the channel and the other parenthesis. -/
  arguments : ∃ e, expr (fuelFor c.advance.advance.ahead.length) c.advance.advance = .ok message e ∧
    e.look.tag = .comma ∧ e.advance.look = ⟨.ident, channel⟩ ∧
      e.advance.advance.look.tag = .rparen ∧ d = e.advance.advance.advance

theorem textThen_apply (tag : Tag) (c : Cursor) :
    textThen tag c = .ok c.look.text (c.past tag) := by
  have h : textThen tag = peekText >>= fun text => accept tag >>= fun _ => pure text := by
    simp only [textThen]
  rw [h]
  exact bind_ok_iff.mpr ⟨c.look.text, c, rfl,
    bind_ok_iff.mpr ⟨(), c.past tag, accept_apply tag c, rfl⟩⟩

theorem peek_bind_apply {α : Type} (f : Token → Parser α) (c : Cursor) :
    (peek >>= f) c = f c.look c :=
  rfl

theorem stmt_of_send (n : Nat) (h : c.look.tag = .send) : stmt (n + 1) c = sendStmt n c := by
  rw [stmt, peek_bind_apply, h]

/-- A `send` statement is read as a call whose second argument is plain data. -/
theorem SendAt.sendStmt_apply (h : SendAt c message channel d) {n : Nat}
    (hc : Covers False 1 c.ahead n n) : sendStmt n c = .ok (sendCall message channel) d := by
  obtain ⟨e, hmessage, hcomma, hname, hclosing, rfl⟩ := h.arguments
  -- The bound is enough for the message, so the message is the one that any such bound gives.
  have hbehind : c.advance.advance.ahead <:+ c.ahead.tail :=
    c.advance.advance_suffix.trans c.advance_suffix_tail
  have hcovers : Covers False 3 c.advance.advance.ahead n n :=
    hc.passed (by rw [h.word]; nofun) hbehind (by omega)
  have hread : expr n c.advance.advance = .ok message e := by
    rw [(expr_settles n _ _ (hcovers.fuelFor (by omega))).same]
    exact hmessage
  rw [sendStmt]
  refine bind_ok_iff.mpr ⟨(), c.advance, ?_, ?_⟩
  · rw [accept_apply, Cursor.past_self h.word]
  refine bind_ok_iff.mpr ⟨(), c.advance.advance, ?_, ?_⟩
  · rw [accept_apply, Cursor.past_self h.opening]
  refine bind_ok_iff.mpr ⟨message, e, hread, ?_⟩
  refine bind_ok_iff.mpr ⟨(), e.advance, ?_, ?_⟩
  · rw [accept_apply, Cursor.past_self hcomma]
  refine bind_ok_iff.mpr ⟨channel, e.advance.advance, ?_, ?_⟩
  · rw [textThen_apply, Cursor.past_self (by rw [hname]), hname]
  refine bind_ok_iff.mpr ⟨(), e.advance.advance.advance, ?_, rfl⟩
  rw [accept_apply, Cursor.past_self hclosing]

/-- Wherever statements of a block or function are read, a `send` statement adds its call. -/
theorem SendAt.adds (h : SendAt c message channel d) {l : StatementLoop} (hl : l ≠ .topLevel) :
    l.Adds c [sendCall message channel] d := by
  have hstmt : stmt (fuelFor c.ahead.length) c = .ok (sendCall message channel) d := by
    show stmt (16 * c.ahead.length + 31 + 1) c = _
    rw [stmt_of_send _ h.word]
    exact h.sendStmt_apply (.inl ⟨by omega, by omega⟩)
  rw [StatementLoop.Adds, h.word]
  cases l with
  | block => exact ⟨rfl, bind_ok_iff.mpr ⟨_, d, hstmt, rfl⟩⟩
  | lenient => exact ⟨rfl, readOrSkip_of_ok hstmt []⟩
  | function => exact ⟨rfl, readOrSkip_of_ok hstmt []⟩
  | topLevel => exact absurd rfl hl

end Parser

/-- A computation ends with a value and sends exactly one text on the socket, the given one. -/
def Delivers (p : Exec Value) (m : Machine) (socket : Nat) (text : String) : Prop :=
  ∃ v m', p m = .ok v m' ∧ m'.network.sentOn socket = m.network.sentOn socket ++ [text]

section Sending

variable {depth : Nat} {message : Node} {v : Value} {m m₁ : Machine}

/-- Plain data cannot be run, so the arguments of the call cannot be evaluated. -/
theorem evalAll_datum (h : exec depth message m = .ok v m₁) (data : Value) :
    evalAll (exec depth) [message, .datum data] m =
      .error (.fault (.unsupported data.kindName)) m₁ := by
  cases depth with
  | zero => cases h
  | succ depth =>
    rw [evalAll, bind_of_ok _ h, evalAll]
    rfl

/-- The warning that a `send` statement writes. -/
def sendWarning : String :=
  "Warning: Error calling function send: " ++ (Fault.unsupported "str").message ++ "\n"

/-- A `send` statement does what its message does, and warns. -/
theorem exec_sendCall (h : exec depth message m = .ok v m₁) (channel : String) :
    exec (depth + 1) (sendCall message channel) m =
      .ok .nothing { m₁ with output := m₁.output ++ sendWarning } := by
  show callBuiltin (exec depth) "send" .send [message, .datum (.text channel)] m = _
  have hfails : (evalAll (exec depth) [message, .datum (.text channel)] >>= Builtin.call .send) m =
      .error (.fault (.unsupported "str")) m₁ :=
    bind_of_error _ (evalAll_datum h (.text channel))
  rw [callBuiltin, recover_eq_handle, handle_apply, hfails]
  rfl

end Sending

/-! ### Expressions without calls -/

/-- A computation that leaves the sockets alone. -/
def Exec.Quiet {α : Type} (p : Exec α) : Prop :=
  ∀ m, (Outcome.machine (p m)).network = m.network

namespace Exec.Quiet

variable {α β : Type}

theorem pure (a : α) : Quiet (pure a : Exec α) := fun _ => rfl

theorem fail (cause : Fault) : Quiet (Exec.fail cause : Exec α) := fun _ => rfl

theorem bind {p : Exec α} {f : α → Exec β} (hp : Quiet p) (hf : ∀ a, Quiet (f a)) :
    Quiet (p >>= f) := by
  intro m
  have hpm := hp m
  cases h : p m with
  | ok a m' =>
    rw [h] at hpm
    rw [bind_of_ok f h, hf a m']
    exact hpm
  | error signal m' =>
    rw [h] at hpm
    rw [bind_of_error f h]
    exact hpm

theorem ofExcept (r : Except Fault α) : Quiet (Exec.ofExcept r) := by
  cases r with
  | ok a => exact .pure a
  | error cause => exact .fail cause

theorem display (v : Value) : Quiet (Exec.display v) := by
  unfold Exec.display
  split
  · exact .fail _
  · exact .pure _

/-- A variable may be bound by being read, but no socket is used. -/
theorem runIdent (name : String) : Quiet (SeqPar.runIdent name) := by
  refine .bind (fun _ => rfl) fun bound => ?_
  cases bound with
  | some v => exact .pure v
  | none => exact .bind (fun _ => rfl) fun _ => .pure _

/-- An element of a list or dictionary is looked up without a socket. -/
theorem runAccess {run : Runner} {base index : Node} (hbase : Quiet (run base))
    (hindex : Quiet (run index)) : Quiet (SeqPar.runAccess run base index) := by
  refine .bind hbase fun container => .bind hindex fun key => ?_
  split
  · split
    · split
      · exact .pure _
      · exact .bind (.display _) fun _ => .fail _
    · exact .fail _
  · split
    · exact .fail _
    · split
      · exact .pure _
      · exact .bind (.display _) fun _ => .fail _
  · exact .fail _

end Exec.Quiet

/-- Expressions without calls. -/
def Node.isPlain : Node → Bool
  | .constant .. | .ident .. => true
  | .arithmetic _ _ left right | .relational _ _ left right | .logical _ _ left right
  | .access _ _ left right => left.isPlain && right.isPlain
  | .unary _ _ operand => operand.isPlain
  | _ => false

/-- Evaluating an expression without calls uses no socket. -/
theorem quiet_of_isPlain (depth : Nat) {n : Node} (h : n.isPlain = true) :
    Quiet (exec depth n) := by
  induction depth generalizing n with
  | zero => exact fun _ => rfl
  | succ depth ih =>
    cases n with
    | constant type t => exact .pure _
    | ident type t declared => exact .runIdent t.text
    | arithmetic type t left right =>
      obtain ⟨hleft, hright⟩ := Bool.and_eq_true_iff.mp h
      exact .bind (ih hleft) fun a => .bind (ih hright) fun b => .ofExcept _
    | relational type t left right =>
      obtain ⟨hleft, hright⟩ := Bool.and_eq_true_iff.mp h
      refine .bind (ih hleft) fun a => .bind (ih hright) fun b => ?_
      exact .bind (.ofExcept _) fun _ => .pure _
    | logical type t left right =>
      obtain ⟨hleft, hright⟩ := Bool.and_eq_true_iff.mp h
      refine .bind (ih hleft) fun a => .bind (ih hright) fun b => ?_
      split <;> exact .pure _
    | access type t base index =>
      obtain ⟨hbase, hindex⟩ := Bool.and_eq_true_iff.mp h
      exact .runAccess (ih hbase) (ih hindex)
    | unary type t operand =>
      -- A truth value and the two signs are told apart, and none of them needs a socket.
      refine .bind (ih h) fun v => ?_
      split
      · exact .pure _
      · split
        · exact .pure _
        · exact .ofExcept _
        · exact .pure _
    | _ => cases h

/-! ### Sending -/

section Delivery

variable {depth : Nat} {message : Node} {v : Value} {m m₁ : Machine} {socket : Nat} {text : String}

theorem delivers_iff_of_ok {p : Exec Value} (h : p m = .ok v m₁) :
    Delivers p m socket text ↔
      m₁.network.sentOn socket = m.network.sentOn socket ++ [text] := by
  constructor
  · rintro ⟨v', m', hrun, hsent⟩
    rw [h] at hrun
    cases hrun
    exact hsent
  · intro hsent
    exact ⟨v, m₁, h, hsent⟩

/-- A computation that leaves the sockets alone delivers nothing. -/
theorem not_delivers_of_quiet {p : Exec Value} (hp : Quiet p) : ¬ Delivers p m socket text := by
  rintro ⟨v', m', hrun, hsent⟩
  have hsame := hp m
  rw [hrun] at hsame
  rw [show m'.network = m.network from hsame] at hsent
  exact List.cons_ne_nil _ _ (List.self_eq_append_right.mp hsent)

theorem delivers_sendCall_iff (h : exec depth message m = .ok v m₁) (channel : String) :
    Delivers (exec (depth + 1) (sendCall message channel)) m socket text ↔
      Delivers (exec depth message) m socket text := by
  rw [delivers_iff_of_ok (exec_sendCall h channel), delivers_iff_of_ok h]

end Delivery

/-- **A `send` statement delivers exactly what evaluating its message delivers.**  Where the
statements of a block or function are read, the statement `send(message, channel)` adds one node.
When the channel is open and the message evaluates to a text, running that node sends the text
exactly if evaluating the message by itself has sent it; a message without calls is never sent. -/
theorem delivers_send_iff {l : Parser.StatementLoop} (hl : l ≠ .topLevel) {c d : Cursor}
    {message : Node} {channel : String} (h : Parser.SendAt c message channel d) :
    ∃ node, l.Adds c [node] d ∧
      ∀ (depth : Nat) (m m₁ : Machine) (socket : Nat) (w : String),
        m.connections.get? channel = some socket → exec depth message m = .ok (.text w) m₁ →
          (Delivers (exec (depth + 1) node) m socket (Builtin.unquoted w) ↔
            Delivers (exec depth message) m socket (Builtin.unquoted w)) ∧
          (message.isPlain = true →
            ¬ Delivers (exec (depth + 1) node) m socket (Builtin.unquoted w)) := by
  refine ⟨sendCall message channel, h.adds hl, ?_⟩
  intro depth m m₁ socket w _ hmessage
  have hiff : Delivers (exec (depth + 1) (sendCall message channel)) m socket (Builtin.unquoted w) ↔
      Delivers (exec depth message) m socket (Builtin.unquoted w) :=
    delivers_sendCall_iff hmessage channel
  refine ⟨hiff, ?_⟩
  intro hplain
  rw [hiff]
  exact not_delivers_of_quiet (quiet_of_isPlain depth hplain)

/-- The place in front of a statement that sends a literal. -/
def literalPlace : Cursor :=
  ⟨tokens "send(\"oi\", ch); \x7d", 1⟩

/-- The literal. -/
def literalMessage : Node :=
  .constant (some "STRING") ⟨.string, "\"oi\""⟩

/-- The tokens behind the literal. -/
def literalRest : List Located :=
  [⟨⟨.comma, ","⟩, 1⟩, ⟨⟨.ident, "ch"⟩, 1⟩, ⟨⟨.rparen, ")"⟩, 1⟩, ⟨⟨.semicolon, ";"⟩, 1⟩,
    ⟨⟨.rbrace, "\x7d"⟩, 1⟩]

theorem tokens_literalPlace : literalPlace.ahead =
    ⟨⟨.send, "send"⟩, 1⟩ :: ⟨⟨.lparen, "("⟩, 1⟩ :: ⟨⟨.string, "\"oi\""⟩, 1⟩ :: literalRest := by
  decide +kernel

theorem sendAt_literalPlace :
    Parser.SendAt literalPlace literalMessage "ch" ⟨literalRest.drop 3, 1⟩ := by
  have hplace : literalPlace = ⟨_, 1⟩ := congrArg (Cursor.mk · 1) tokens_literalPlace
  rw [hplace]
  exact ⟨rfl, rfl, ⟨literalRest, 1⟩, rfl, rfl, rfl, rfl, rfl⟩

/-- A machine with an open channel. -/
def channelMachine : Machine :=
  { (default : Machine) with connections := Table.empty.put "ch" 0 }

theorem literal_in_function_undelivered :
    ∃ node, Parser.StatementLoop.function.Adds literalPlace [node] ⟨literalRest.drop 3, 1⟩ ∧
      ¬ Delivers (exec 2 node) channelMachine 0 "oi" := by
  have hl : Parser.StatementLoop.function ≠ .topLevel := by decide
  obtain ⟨node, hadds, hsends⟩ := delivers_send_iff hl sendAt_literalPlace
  refine ⟨node, hadds, ?_⟩
  have hcontent : Builtin.unquoted "\"oi\"" = "oi" := by decide +kernel
  rw [← hcontent]
  exact (hsends 1 channelMachine channelMachine 0 _ rfl rfl).2 rfl

/-- The literal is read in a block, its channel is open and it evaluates to its text, and still it
is not sent. -/
theorem literal_in_block_undelivered :
    Parser.StatementLoop.block.Adds literalPlace [sendCall literalMessage "ch"]
        ⟨literalRest.drop 3, 1⟩ ∧
      channelMachine.connections.get? "ch" = some 0 ∧
      exec 1 literalMessage channelMachine = .ok (.text "\"oi\"") channelMachine ∧
      ¬ Delivers (exec 2 (sendCall literalMessage "ch")) channelMachine 0 "oi" := by
  have hmessage : exec 1 literalMessage channelMachine = .ok (.text "\"oi\"") channelMachine := rfl
  refine ⟨sendAt_literalPlace.adds (by decide), rfl, hmessage, ?_⟩
  rw [delivers_sendCall_iff hmessage]
  exact not_delivers_of_quiet (quiet_of_isPlain 1 rfl)

/-! ### Receiving -/

/-- Bytes stand for a text exactly if they are its bytes. -/
theorem textOfBytes_eq_ok_iff {bytes : ByteArray} {text : String} :
    textOfBytes bytes = .ok text ↔ text.toByteArray = bytes := by
  rw [textOfBytes]
  by_cases hvalid : bytes.IsValidUTF8
  · rw [dif_pos hvalid]
    constructor
    · intro htext
      cases htext
      rfl
    · rintro rfl
      rfl
  · rw [dif_neg hvalid]
    constructor
    · nofun
    · rintro rfl
      exact absurd text.isValidUTF8 hvalid

namespace Peer

variable (p : Peer)

/-- **No byte of a message is lost**: what a call does not hand over stays for the next one. -/
theorem exists_cut (message : ByteArray) : ∃ left : ByteArray,
    message = (p.cut message).1 ++ left ∧
      (p.cut message).2 = if left.size = 0 then [] else [left] := by
  unfold cut
  by_cases hwhole : (p.replays || message.size ≤ Network.messageSize) = true
  · rw [if_pos hwhole]
    exact ⟨.empty, ByteArray.append_empty.symm, rfl⟩
  · rw [if_neg hwhole]
    have hlong : Network.messageSize < message.size := by
      simp only [Bool.or_eq_true, decide_eq_true_eq, not_or, Nat.not_le] at hwhole
      exact hwhole.2
    refine ⟨message.extract Network.messageSize message.size, ?_, ?_⟩
    · rw [ByteArray.extract_append_extract, Nat.zero_min, Nat.max_eq_right (Nat.le_of_lt hlong),
        ByteArray.extract_zero_size]
    · rw [ByteArray.size_extract, Nat.min_self, if_neg (by omega)]

/-- One call hands over as many of the first bytes as are asked for, unless it replays. -/
theorem cut_fst (h : p.replays = false) (message : ByteArray) :
    (p.cut message).1 = message.extract 0 (min message.size Network.messageSize) := by
  rw [cut, h, Bool.false_or]
  by_cases hfits : message.size ≤ Network.messageSize
  · rw [if_pos (decide_eq_true hfits), Nat.min_eq_left hfits, ByteArray.extract_zero_size]
  · rw [if_neg (by simpa using hfits), Nat.min_eq_right (by omega)]

theorem cut_of_fits {message : ByteArray} (h : message.size ≤ Network.messageSize) :
    p.cut message = (message, []) := by
  rw [cut, if_pos (by simp [h])]

/-- Of a message that is not empty, one call hands over something. -/
theorem size_cut_pos {message : ByteArray} (h : 0 < message.size) :
    0 < (p.cut message).1.size := by
  cases hreplays : p.replays with
  | false =>
    rw [p.cut_fst hreplays, ByteArray.size_extract, Network.messageSize]
    omega
  | true =>
    rw [cut, hreplays, Bool.true_or, if_pos rfl]
    exact h

/-- The text that one call gets of a message. -/
def firstText (message : String) : Except Fault String :=
  textOfBytes (p.cut message.toByteArray).1

theorem firstText_of_fits {message : String} (h : message.utf8ByteSize ≤ Network.messageSize) :
    p.firstText message = .ok message := by
  rw [firstText, p.cut_of_fits h]
  exact textOfBytes_eq_ok_iff.mpr rfl

theorem ne_empty_of_firstText {message text : String} (h : p.firstText message = .ok text)
    (hmessage : message ≠ "") : text ≠ "" := by
  rintro rfl
  have hsize : 0 < (p.cut message.toByteArray).1.size :=
    p.size_cut_pos (Nat.pos_of_ne_zero (mt String.utf8ByteSize_eq_zero_iff.mp hmessage))
  rw [← textOfBytes_eq_ok_iff.mp h] at hsize
  exact Nat.lt_irrefl 0 hsize

/-- The fault that a request ends a server with: the call of the handler cannot be made, and it is
not even tried when the bytes of the request that were handed over are no text. -/
def requestFault (request : String) : Fault :=
  match p.firstText request with
  | .ok _ => .handlerCall
  | .error cause => cause

theorem requestFault_of_fits {request : String} (h : request.utf8ByteSize ≤ Network.messageSize) :
    p.requestFault request = .handlerCall := by
  rw [requestFault, p.firstText_of_fits h]

end Peer

/-- The machine that has asked for the next message on a socket. -/
def Machine.asked (m : Machine) (socket : Nat) : Machine :=
  { m with network := (m.network.receive socket).2 }

section Receiving

variable {m : Machine} {socket : Nat}

theorem checkOpen_of_not_isShut (h : m.network.isShut socket = false) :
    checkOpen socket m = .ok () m := by
  show (if m.network.isShut socket = true then fail .socketClosed else pure () : Exec Unit) m = _
  rw [h]
  rfl

/-- What is received of a message that the peer has sent. -/
theorem receive_of_message (hopen : m.network.isShut socket = false) {message : String}
    {rest : List ByteArray}
    (hpeer : (m.network.peer socket).messages = message.toByteArray :: rest) :
    receive socket m = ofExcept ((m.network.peer socket).firstText message) (m.asked socket) := by
  rw [receive_eq_received, bind_of_ok _ (checkOpen_of_not_isShut hopen)]
  show received socket (m.network.receive socket) m = _
  have hbytes : (m.network.receive socket).1 =
      some ((m.network.peer socket).cut message.toByteArray).1 := by
    rw [Network.receive, hpeer]
  rw [received, hbytes]
  rfl

/-- Without a message the empty text is received. -/
theorem receive_of_silence (hopen : m.network.isShut socket = false)
    (hpeer : (m.network.peer socket).messages = [])
    (hinterrupts : (m.network.peer socket).interrupts = false) :
    receive socket m = .ok "" (m.asked socket) := by
  have hnone : m.network.receive socket =
      (none, m.network.record (.received socket Network.messageSize)) := by
    rw [Network.receive, hpeer]
  rw [receive_eq_received, bind_of_ok _ (checkOpen_of_not_isShut hopen), Machine.asked]
  show received socket (m.network.receive socket) m = _
  rw [hnone]
  show (if (m.network.peer socket).interrupts = true then throw Signal.interrupted else pure "" :
    Exec String) _ = _
  rw [if_neg (by rw [hinterrupts]; decide)]
  rfl

end Receiving

/-! ### Servers -/

/-- The machine of a server that has bound its socket to a host and port, listens and has accepted a
client. -/
def Machine.serving (m : Machine) (host : Value) (port : Int) : Machine :=
  let socket := m.network.make.1
  let bound := m.network.make.2.record (.bound socket host (.int port))
  { m with
    network := (bound.record (.listening socket Network.queueLength)).record (.accepted socket) }

/-- What the value of a greeting sends: a value that counts as false sends nothing. -/
inductive Greets : Value → Option String → Prop
  /-- Nothing is sent. -/
  | silent {v : Value} (h : v.holds = false) : Greets v none
  /-- A text is sent as it is. -/
  | text {s : String} (h : (Value.text s).holds = true) : Greets (.text s) (some s)

/-- The machine after a greeting on a socket. -/
def Machine.greeted (m : Machine) (socket : Nat) : Option String → Machine
  | none => m
  | some text => { m with network := m.network.record (.sent socket text) }

section Greeted

variable (m : Machine) (socket : Nat) (text? : Option String)

@[simp] theorem Machine.functions_greeted : (m.greeted socket text?).functions = m.functions := by
  cases text? <;> rfl

@[simp] theorem Machine.peer_greeted :
    (m.greeted socket text?).network.peer socket = m.network.peer socket := by
  cases text? <;> rfl

@[simp] theorem Machine.isShut_greeted :
    (m.greeted socket text?).network.isShut socket = m.network.isShut socket := by
  cases text? <;> rfl

theorem Machine.sentOn_greeted :
    (m.greeted socket text?).network.sentOn socket = m.network.sentOn socket ++ text?.toList := by
  cases text? with
  | none => exact (List.append_nil _).symm
  | some text =>
    show (m.network.record (.sent socket text)).sentOn socket = _
    rw [Network.sentOn_record, SocketEvent.textOn?, if_pos rfl]

end Greeted

section Serving

variable {run : Runner} {host port greeting : Node} {handler : String} {m m₁ : Machine}
  {v : Value} {text? : Option String} {socket : Nat}

/-- A server that has greeted its client goes on with the answer. -/
theorem runServer_of_greets {number : Int} (hport : port.toValue.toInt = .ok number)
    (hgreeting : run greeting (m.serving host.toValue number) = .ok v m₁) (hv : Greets v text?)
    (hopen : m₁.network.isShut m.network.make.1 = false) :
    runServer run host port greeting handler m =
      answer m.network.make.1 handler m₁.functions (m₁.greeted m.network.make.1 text?) := by
  rw [runServer, hport]
  -- Making the socket and the three entries in the log lead to the machine that serves.
  refine Eq.trans (bind_of_ok _ rfl) (Eq.trans (bind_of_ok _ rfl) ?_)
  refine Eq.trans (bind_of_ok _ rfl) (Eq.trans (bind_of_ok _ rfl) (Eq.trans (bind_of_ok _ rfl) ?_))
  refine Eq.trans (bind_of_ok _ hgreeting) ?_
  cases hv with
  | silent hfalse =>
    rw [if_neg (by rw [hfalse]; decide)]
    rfl
  | text htrue =>
    rw [if_pos htrue]
    -- The text is sent on the open socket, and what is left is the answer.
    exact Eq.trans (bind_of_ok _ (bind_of_ok _ (checkOpen_of_not_isShut hopen))) rfl

/-- A request ends the answer with a fault. -/
theorem answer_of_request (hhandler : m.functions.contains handler = true)
    (hopen : m.network.isShut socket = false) {request : String} {rest : List ByteArray}
    (hpeer : (m.network.peer socket).messages = request.toByteArray :: rest)
    (hrequest : request ≠ "") :
    answer socket handler m.functions m =
      .error (.fault ((m.network.peer socket).requestFault request)) (m.asked socket) := by
  rw [answer, if_pos hhandler, bind_congr_outcome _ (receive_of_message hopen hpeer),
    Peer.requestFault]
  cases hfirst : (m.network.peer socket).firstText request with
  | error cause =>
    -- The bytes are no text, and the handler is not reached.
    exact bind_of_error _ rfl
  | ok text =>
    have hfull : text.isEmpty = false := by
      rw [String.isEmpty_eq_false_iff]
      exact Peer.ne_empty_of_firstText _ hfirst hrequest
    refine Eq.trans (bind_of_ok _ rfl) ?_
    rw [hfull]
    rfl

/-- Without a request the connection is closed. -/
theorem answer_of_silence (hhandler : m.functions.contains handler = true)
    (hopen : m.network.isShut socket = false)
    (hpeer : (m.network.peer socket).messages = [])
    (hinterrupts : (m.network.peer socket).interrupts = false) :
    answer socket handler m.functions m =
      .ok .nothing { m with network := (m.asked socket).network.close socket } := by
  rw [answer, if_pos hhandler, bind_of_ok _ (receive_of_silence hopen hpeer hinterrupts)]
  rfl

end Serving

/-- The replies of a handler with the given parameter and statements to the requests on a socket, for
a server that goes on from the given machine.  The handler is called on the machine that has asked
for the request, its value has the reply as its display form, and the next request follows once the
reply was sent. -/
inductive Handled (run : Runner) (param : Node) (body : List Node) (socket : Nat) :
    Machine → List String → List String → Prop
  /-- No request is left. -/
  | nil {m : Machine} : Handled run param body socket m [] []
  /-- A request is replied to. -/
  | cons {m m' : Machine} {request : String} {v : Value} {requests replies : List String}
    (called : callFunction run [param] body [.constant (some "STRING") ⟨.string, request⟩]
      (m.asked socket) = .ok v m')
    (others : Handled run param body socket (m'.greeted socket (some v.display)) requests replies) :
    Handled run param body socket m (request :: requests) (v.display :: replies)

/-- The run of a server ends with a value, the given texts were sent on its socket in this order,
and closing the connection was its last operation. -/
def Answers (r : Outcome Value) (socket : Nat) (texts : List String) : Prop :=
  ∃ v m', r = .ok v m' ∧ m'.network.sentOn socket = texts ∧
    m'.network.log.getLast? = some (.closed socket)

/-- A server that is run on the machine `m` comes to wait for requests on the machine `m₁`: its port
is a number, its greeting sends the given text if any, and its client sends the requests and then
ends. -/
structure Waits (run : Runner) (host port greeting : Node) (m m₁ : Machine) (text? : Option String)
    (requests : List String) : Prop where
  /-- The client is accepted and greeted. -/
  greets : ∃ number v, port.toValue.toInt = .ok number ∧
    run greeting (m.serving host.toValue number) = .ok v m₁ ∧ Greets v text?
  /-- The connection is open. -/
  opened : m₁.network.isShut m.network.make.1 = false
  /-- The requests of the client. -/
  messages : (m₁.network.peer m.network.make.1).messages = requests.map String.toByteArray
  /-- No request is empty. -/
  nonempty : ∀ request ∈ requests, request ≠ ""
  /-- The data of the client ends. -/
  ended : (m₁.network.peer m.network.make.1).interrupts = false

section Requests

variable {run : Runner} {host port greeting : Node} {handler : String} {m m₁ : Machine}
  {text? : Option String}

/-- The first request ends the server with a fault, after its greeting. -/
theorem Waits.runServer_of_request {request : String} {rest : List String}
    (h : Waits run host port greeting m m₁ text? (request :: rest))
    (hhandler : m₁.functions.contains handler = true) :
    ∃ m', runServer run host port greeting handler m =
        .error (.fault ((m₁.network.peer m.network.make.1).requestFault request)) m' ∧
      m'.network.sentOn m.network.make.1 =
        m₁.network.sentOn m.network.make.1 ++ text?.toList := by
  obtain ⟨number, v, hport, hgreeting, hv⟩ := h.greets
  have hanswer : answer m.network.make.1 handler (m₁.greeted m.network.make.1 text?).functions
      (m₁.greeted m.network.make.1 text?) = .error _ _ :=
    answer_of_request (by simpa using hhandler) (by simpa using h.opened)
      (by simpa using h.messages) (h.nonempty request List.mem_cons_self)
  rw [Machine.functions_greeted, Machine.peer_greeted] at hanswer
  refine ⟨_, (runServer_of_greets hport hgreeting hv h.opened).trans hanswer, ?_⟩
  show ((m₁.greeted _ text?).network.receive _).2.sentOn _ = _
  rw [Network.sentOn_receive, Machine.sentOn_greeted]

/-- Without requests the server closes the connection, after its greeting. -/
theorem Waits.answers_of_silence (h : Waits run host port greeting m m₁ text? [])
    (hhandler : m₁.functions.contains handler = true) :
    Answers (runServer run host port greeting handler m) m.network.make.1
      (m₁.network.sentOn m.network.make.1 ++ text?.toList) := by
  obtain ⟨number, v, hport, hgreeting, hv⟩ := h.greets
  have hanswer : answer m.network.make.1 handler (m₁.greeted m.network.make.1 text?).functions
      (m₁.greeted m.network.make.1 text?) = .ok .nothing _ :=
    answer_of_silence (by simpa using hhandler) (by simpa using h.opened)
      (by simpa using h.messages) (by simpa using h.ended)
  rw [Machine.functions_greeted] at hanswer
  refine ⟨_, _, (runServer_of_greets hport hgreeting hv h.opened).trans hanswer, ?_, ?_⟩
  · show (((m₁.greeted _ text?).network.receive _).2.close _).sentOn _ = _
    rw [Network.sentOn_close, Network.sentOn_receive, Machine.sentOn_greeted]
  · exact List.getLast?_concat

end Requests

/-- **A server answers all requests exactly when there are none.**  Let the handler of a server be a
function with one parameter, let the client send any number of requests and let the replies be those
of the handler.  Then the server sends its greeting and the replies and closes the connection if and
only if there is no request; the first request ends it with a fault, and nothing is sent after the
greeting.  The fault is that of the call which cannot be made, unless the request was cut within a
character. -/
theorem answers_iff_no_requests {depth : Nat} {name handler : String} {host port greeting : Node}
    {m m₁ : Machine} {text? : Option String} {requests replies : List String}
    (h : Waits (exec depth) host port greeting m m₁ text? requests) {defined : String}
    {type : Option String} {param : Node} {body : List Node}
    (hhandler : m₁.functions.get? handler = some (.funcDef defined type [param] body))
    (hreplies : Handled (exec depth) param body m.network.make.1
      (m₁.greeted m.network.make.1 text?) requests replies) :
    (Answers (exec (depth + 1) (.serverChannel name host port greeting handler) m)
        m.network.make.1 (m₁.network.sentOn m.network.make.1 ++ text?.toList ++ replies) ↔
      requests = []) ∧
    (∀ request ∈ requests.head?,
      ∃ m', exec (depth + 1) (.serverChannel name host port greeting handler) m =
          .error (.fault ((m₁.network.peer m.network.make.1).requestFault request)) m' ∧
        m'.network.sentOn m.network.make.1 =
          m₁.network.sentOn m.network.make.1 ++ text?.toList) := by
  have hcontains : m₁.functions.contains handler = true := by
    rw [Table.contains, hhandler]
    rfl
  cases requests with
  | nil =>
    cases hreplies
    refine ⟨⟨fun _ => rfl, fun _ => ?_⟩, fun _ hnone => absurd hnone (Option.not_mem_none _)⟩
    rw [List.append_nil]
    exact h.answers_of_silence hcontains
  | cons request rest =>
    obtain ⟨m', hrun, hsent⟩ := h.runServer_of_request hcontains
    refine ⟨⟨?_, nofun⟩, ?_⟩
    · -- A run that ends with a fault does not end with a value.
      rintro ⟨v, m'', hok, -⟩
      cases hrun.symm.trans hok
    · intro first hfirst
      cases hfirst
      exact ⟨m', hrun, hsent⟩

/-- A machine with the function `echo`, and a client that sends the requests. -/
def echoServer (requests : List String) : Machine :=
  { echoMachine with
    network := .ofScript [⟨false, requests.map String.toByteArray, false, false⟩] }

/-- A greeting. -/
def echoGreeting : Node :=
  .constant (some "STRING") ⟨.string, "ola"⟩

/-- On every machine `echo` replies with the requests themselves. -/
theorem handled_echo (socket : Nat) (m : Machine) (requests : List String) :
    Handled (exec 3) (.ident none ⟨.ident, "p"⟩ true) [.ret (.ident none ⟨.ident, "p"⟩ false)]
      socket m requests requests := by
  induction requests generalizing m with
  | nil => exact .nil
  | cons request requests ih => exact .cons (v := .text request) rfl (ih _)

theorem waits_echo (requests : List String) (h : ∀ request ∈ requests, request ≠ "") :
    Waits (exec 3) (.datum (.text "localhost")) (.datum (.int 8080)) echoGreeting
      (echoServer requests) ((echoServer requests).serving (.text "localhost") 8080) (some "ola")
      requests :=
  ⟨⟨8080, .text "ola", rfl, rfl, .text (by decide)⟩, rfl, rfl, h, rfl⟩

/-- Without requests the connection is closed after the greeting, and one request is answered by a
fault. -/
theorem echo_closes_or_fails :
    Answers (exec 4 (.serverChannel "s" (.datum (.text "localhost")) (.datum (.int 8080))
        echoGreeting "echo") (echoServer [])) 0 ["ola"] ∧
      ∃ m', exec 4 (.serverChannel "s" (.datum (.text "localhost")) (.datum (.int 8080))
          echoGreeting "echo") (echoServer ["oi"]) = .error (.fault .handlerCall) m' ∧
        m'.network.sentOn 0 = ["ola"] := by
  have hbound (requests : List String) :
      ((echoServer requests).serving (.text "localhost") 8080).functions.get? "echo" = some echo :=
    rfl
  refine ⟨(answers_iff_no_requests (waits_echo [] nofun) (hbound []) .nil).1.mpr rfl, ?_⟩
  have hfault : (((echoServer ["oi"]).serving (.text "localhost") 8080).network.peer 0).requestFault
      "oi" = .handlerCall :=
    Peer.requestFault_of_fits _ (by decide)
  rw [← hfault]
  exact (answers_iff_no_requests (waits_echo ["oi"] (by simp)) (hbound ["oi"])
    (handled_echo _ _ ["oi"])).2 "oi" rfl

/-- One request is enough: its reply is not sent. -/
theorem echo_request_unanswered :
    Handled (exec 3) (.ident none ⟨.ident, "p"⟩ true) [.ret (.ident none ⟨.ident, "p"⟩ false)] 0
        (((echoServer ["oi"]).serving (.text "localhost") 8080).greeted 0 (some "ola"))
        ["oi"] ["oi"] ∧
      (echoServer ["oi"]).functions.get? "echo" = some echo ∧
      Waits (exec 3) (.datum (.text "localhost")) (.datum (.int 8080)) echoGreeting
        (echoServer ["oi"]) ((echoServer ["oi"]).serving (.text "localhost") 8080) (some "ola")
        ["oi"] ∧
      ¬ Answers (exec 4 (.serverChannel "s" (.datum (.text "localhost")) (.datum (.int 8080))
        echoGreeting "echo") (echoServer ["oi"])) 0 ["ola", "oi"] := by
  have hwaits := waits_echo ["oi"] (by simp)
  have hbound : (echoServer ["oi"]).functions.contains "echo" = true := by decide
  refine ⟨handled_echo 0 _ ["oi"], rfl, hwaits, ?_⟩
  obtain ⟨m', hrun, -⟩ := hwaits.runServer_of_request hbound
  rintro ⟨v, m'', hok, -⟩
  cases hrun.symm.trans hok

end SeqPar
