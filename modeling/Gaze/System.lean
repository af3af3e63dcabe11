import Gaze.Client.Reading
import Gaze.Server.Commands

/-!
# The server and its clients

A server and any number of clients (one for each `ι`), each with the connections
it has opened. A connection carries the commands of the client in one direction, and
the texts of the server in the other, in order; it may be lost at any time, with
what it carries.

Three things are assumed of all the runs:

* every message is processed at once: the threads of the handlers take turns;
* a message that is written is read whole, or lost with the connection;
* every write of the server returns. What it writes on a lost connection is lost, too. A write may
  also throw an exception; then `ClientHandler.sendMessage` waits for the thread of the handler,
  and those for whom the message is still to be written may wait for ever, with it. This is the
  subject of `Gaze.Threads`.
-/

namespace Gaze

open Java Protocol

/-- A connection of a client. -/
structure Connection (ι : Type) where
  client : ι
  /-- The commands the server has not read. -/
  toServer : List Command
  toClient : Stream
  /-- The connection has not been lost. -/
  up : Bool
  /-- The thread of its handler is over. -/
  ended : Bool
  /-- Its introduction has been accepted: at some time, a player was bound to it. -/
  admitted : Bool

namespace Connection

variable {ι : Type}

/-- A new connection. -/
def new (i : ι) : Connection ι := ⟨i, [], .start, true, false, false⟩

/-- The client writes a command. -/
def say (c : Connection ι) (command : Command) : Connection ι :=
  if c.up then { c with toServer := c.toServer ++ [command] } else c

/-- The server writes texts. The writes return, and those on a lost connection are lost. -/
def tell (c : Connection ι) (texts : List Text) : Connection ι :=
  if c.up then { c with toClient := texts.foldl Stream.write c.toClient } else c

/-- The connection is lost, or closed by the client. -/
def lose (c : Connection ι) : Connection ι := { c with up := false }

/-- The server has served a command: the others are left, and a player may have been
    bound to the handler. -/
def served (c : Connection ι) (commands : List Command) (bound : Bool) : Connection ι :=
  { c with toServer := commands, admitted := c.admitted || bound }

/-- The client reads a line: the others are left. -/
def read (c : Connection ι) (lines : List Text) : Connection ι :=
  { c with toClient := { c.toClient with lines := lines } }

/-- The handler is over, and has closed the connection. -/
def finish (c : Connection ι) : Connection ι :=
  { c with up := false, ended := true, toServer := [] }

section Fields

variable (c : Connection ι) (command : Command) (texts : List Text)

@[simp] theorem say_client : (c.say command).client = c.client := by
  rw [say]
  split_ifs <;> rfl

@[simp] theorem say_admitted : (c.say command).admitted = c.admitted := by
  rw [say]
  split_ifs <;> rfl

@[simp] theorem say_up : (c.say command).up = c.up := by
  rw [say]
  split_ifs <;> rfl

@[simp] theorem say_toClient : (c.say command).toClient = c.toClient := by
  rw [say]
  split_ifs <;> rfl

theorem say_toServer : (c.say command).toServer =
    if c.up then c.toServer ++ [command] else c.toServer := by
  rw [say]
  split_ifs <;> rfl

@[simp] theorem tell_client : (c.tell texts).client = c.client := by
  rw [tell]
  split_ifs <;> rfl

@[simp] theorem tell_admitted : (c.tell texts).admitted = c.admitted := by
  rw [tell]
  split_ifs <;> rfl

@[simp] theorem tell_up : (c.tell texts).up = c.up := by
  rw [tell]
  split_ifs <;> rfl

@[simp] theorem tell_toServer : (c.tell texts).toServer = c.toServer := by
  rw [tell]
  split_ifs <;> rfl

end Fields

end Connection

/-- The server, the clients, and the connections. -/
structure System (ι : Type) where
  server : Server
  client : ι → Client
  connections : HashMap ClientHandler (Connection ι)
  /-- The server has been told to stop. -/
  stopping : Bool

namespace System

variable {ι : Type} [DecidableEq ι]

/-- What happens next. -/
inductive Event (ι : Type)
  /-- `Client.connectServer`. -/
  | connectServer (i : ι) (playerName : Text)
  /-- A client opens a connection. -/
  | opens (i : ι) (handler : ClientHandler)
  /-- A client cannot open a connection. -/
  | refused (i : ι)
  /-- A client introduces itself on its new connection. -/
  | introduces (i : ι)
  /-- A client reads a line. -/
  | reads (i : ι)
  /-- A client finds that its connection is lost. -/
  | hangsUp (i : ι)
  /-- `Client.toggleReady`. -/
  | toggleReady (i : ι)
  /-- `Client.setFound`. -/
  | setFound (i : ι) (anamorphosis : Anamorphosis)
  /-- `Client.startGame`. -/
  | startGame (i : ι)
  /-- `Client.sendRoomName`. -/
  | sendRoomName (i : ι) (roomName : Text)
  /-- `Client.disconnect`. -/
  | disconnect (i : ι)
  /-- A connection is lost. -/
  | lost (handler : ClientHandler)
  /-- The server accepts a connection. -/
  | accepted (handler : ClientHandler)
  /-- A handler reads a command. -/
  | serves (handler : ClientHandler) (choice : Choice)
  /-- A handler finds that its connection is lost, or that it must stop. -/
  | dropped (handler : ClientHandler)
  /-- The server is stopped. -/
  | stopped
  /-- The host validates an anamorphosis in its own game. -/
  | validated (anamorphosis : Anamorphosis)
  /-- The host draws an anamorphosis for its own game. -/
  | drawn (difficulty : Difficulty) (random : ℕ)

/-- Does the server do something? -/
def Event.isOfServer : Event ι → Bool
  | .accepted _ | .serves _ _ | .dropped _ | .stopped | .validated _ | .drawn _ _ => true
  | _ => false

/-- Does the server do something, sending nothing? -/
def Event.isSilent : Event ι → Bool
  | .accepted _ | .validated _ | .drawn _ _ => true
  | _ => false

/-- The texts for a handler, among those that are sent. -/
def textsTo (handler : ClientHandler) (sent : List Sent) : List Text :=
  (sent.filter fun m => m.1 = handler).map Prod.snd

variable (s : System ι)

/-- The system with another state of a client. -/
def withClient (i : ι) (c : Client) : System ι := { s with client := Function.update s.client i c }

/-- The system with another state of a connection. -/
def withConnection (handler : ClientHandler) (f : Connection ι → Connection ι) : System ι :=
  { s with connections := s.connections.replace handler f }

/-- The state of the server changes, and the server sends texts. -/
def serverDoes (server : Server) (sent : List Sent) : System ι :=
  { s with
    server := server
    connections := s.connections.mapValues fun handler c => c.tell (textsTo handler sent) }

/-- `Client.sendInstruction`: nothing is sent without a stream. -/
def say (i : ι) (command : Command) : System ι :=
  match (s.client i).out with
  | none => s
  | some handler => s.withConnection handler fun c => c.say command

/-- A client that is over closes its connection. -/
def closeIfOver (i : ι) (handler : ClientHandler) : System ι :=
  if (s.client i).stage = .ended then s.withConnection handler .lose else s

/-- The state after an event, if it may happen. -/
def next (s : System ι) : Event ι → Option (System ι)
  | .connectServer i playerName =>
    match (s.client i).stage with
    | .idle => some (s.withClient i ((s.client i).connectServer playerName))
    | _ => none
  | .opens i handler =>
    match (s.client i).stage, s.connections.get handler with
    | .opening, none =>
      some ({ s with connections := s.connections.put handler (.new i) .id }.withClient i
        { s.client i with stage := .opened handler })
    | _, _ => none
  | .refused i =>
    match (s.client i).stage with
    | .opening => some (s.withClient i (s.client i).failed)
    | _ => none
  | .introduces i =>
    match (s.client i).stage with
    | .opened handler =>
      some (((s.withClient i ((s.client i).introduced handler)).withConnection handler fun c =>
        c.say (s.client i).introduction).closeIfOver i handler)
    | _ => none
  | .reads i =>
    match (s.client i).stage with
    | .listening handler =>
      match (s.connections.get handler).map fun c => c.toClient.lines with
      | some (line :: lines) =>
        match (s.client i).onMessage line with
        | .ok (c, _) =>
          some (((s.withConnection handler fun c => c.read lines).withClient i
            c.afterMessage).closeIfOver i handler)
        | .error _ =>
          some ((s.withConnection handler fun c => (c.read lines).lose).withClient i
            (s.client i).failed)
      | _ => none
    | _ => none
  | .hangsUp i =>
    match (s.client i).stage with
    | .listening handler =>
      if (s.connections.get handler).all Connection.up then none
      else some (s.withClient i (s.client i).failed)
    | _ => none
  | .toggleReady i => some (s.say i (.ready (s.client i).playerId))
  | .setFound i anamorphosis => some (s.say i (.found anamorphosis))
  | .startGame i => some (s.say i .start)
  | .sendRoomName i roomName => some (s.say i (.roomName roomName))
  | .disconnect i => some ((s.say i .quit).withClient i { s.client i with running := false })
  | .lost handler => some (s.withConnection handler .lose)
  | .accepted handler =>
    if s.stopping = false ∧ (s.connections.get handler).isSome ∧ handler ∉ s.server.clients then
      some (s.serverDoes (s.server.handle (.accepted handler)).state [])
    else none
  | .serves handler choice =>
    match s.connections.get handler with
    | some c =>
      match c.toServer with
      | command :: commands =>
        if handler ∈ s.server.clients ∧ c.ended = false ∧ choice.uuid.text ∉ s.server.uuids then
          let o := s.server.handle (.received handler command.line choice)
          match o.result with
          | .ok _ =>
            some ((s.withConnection handler fun c =>
              c.served commands (o.state.players.get handler).isSome).serverDoes o.state o.emitted)
          | .error _ =>
            -- An exception ends the handler.
            let o' := o.state.handle (.disconnected handler)
            some (((s.serverDoes o.state o.emitted).serverDoes o'.state o'.emitted).withConnection
              handler .finish)
        else none
      | [] => none
    | none => none
  | .dropped handler =>
    match s.connections.get handler with
    | some c =>
      if handler ∈ s.server.clients ∧ c.ended = false ∧ (c.up = false ∨ s.stopping) then
        let o := s.server.handle (.disconnected handler)
        some ((s.serverDoes o.state o.emitted).withConnection handler .finish)
      else none
    | none => none
  | .stopped =>
    if s.stopping then none
    else
      let o := s.server.handle .stopped
      some { s.serverDoes o.state o.emitted with stopping := true }
  | .validated anamorphosis =>
    if anamorphosis ∈ s.server.anamorphDictionary.all then
      some (s.serverDoes (s.server.handle (.validated anamorphosis)).state [])
    else none
  | .drawn difficulty random =>
    some (s.serverDoes (s.server.handle (.drawn difficulty random)).state [])

/-- No message is in flight. -/
def Quiescent (s : System ι) : Prop :=
  ∀ c ∈ s.connections.values, c.toServer = [] ∧ c.toClient.lines = []

instance (s : System ι) : Decidable s.Quiescent :=
  inferInstanceAs (Decidable (∀ c ∈ s.connections.values, _ ∧ _))

/-- The system of a new server, whose clients have not connected yet. -/
def new (server : Server) : System ι := ⟨server, fun _ => .new, .empty, false⟩

/-- The system as a machine. -/
def machine (ι : Type) [DecidableEq ι] : Machine (System ι) (Event ι) where
  Init s := ∃ server, Server.machine.Init server ∧ s = new server
  Enabled s e := (next s e).isSome
  step s e := (next s e).getD s

instance (s : System ι) (e : Event ι) : Decidable ((machine ι).Enabled s e) :=
  inferInstanceAs (Decidable ((next s e).isSome = true))

end System

end Gaze
