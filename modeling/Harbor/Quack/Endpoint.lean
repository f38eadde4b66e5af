import Harbor.Quack.Message
import Harbor.Routes.Rules

set_option autoImplicit false

/-! # The two ends of the binary protocol

`HandleMessage` gets the bytes of a POST to /quack. It reads the header alone first, turns down what it
does not support and ids it does not know, and reads the body only then. `Routes.Quack.handleMessage` is
the same over messages that have been read: the bytes of a message come to exactly that program, and
whatever other bytes come, no call is made that some message would not have brought about.

The client's `Request` is the other end: what it gets to see of a response is `received`.
-/

namespace Harbor.Quack.Endpoint

open Harbor.Routes hiding QuackMessage
open Harbor.Session Message
open Harbor.Prog hiding perform

variable {T C : Type} (w : Forms T C)

/-! ## The server -/

def serverSupportsMessage (type : MessageType) : Bool :=
  type = .connectionRequest || type = .prepareRequest || type = .fetchRequest || type = .appendRequest ||
    type = .disconnectMessage

def messageRequiresConnection (type : MessageType) : Bool := type ≠ .connectionRequest

/-- `HandleMessageInternal`; the session is there for the types that require a connection. -/
def handleMessageInternal (deps : Deps) (m : QuackMessage T C) (session : Option HarborSession) :
    Handler Routes.Reply :=
  match m.body, session with
  | .connectionRequest r, _ => Routes.Quack.handleConnection r.minSupportedQuackVersion.toNat r.authString
  | .disconnect, some session => Routes.Quack.handleDisconnect session
  | .prepareRequest r, some session =>
      Routes.Quack.handlePrepare m.header.connectionId session r.sqlQuery
  | .fetchRequest r, some session => Routes.Quack.handleFetch session r.uuid.toNat
  | .appendRequest r, some session =>
      Routes.Quack.handleAppend deps m.header.connectionId session r.schemaName r.tableName
  | _, _ =>
      match m.type.toChars with
      | none => return .exception
      | some type => return .quackError (lit "Unimplemented message type " ++ type)

/-- What comes behind the header. -/
def handleBody (deps : Deps) (header : MessageHeader) (bytes : Bytes) (session : Option HarborSession) :
    Handler Routes.Reply :=
  match QuackMessage.deserializeMessage w header bytes with
  | none => return .exception
  | some (m, _) => handleMessageInternal deps m session

/-- `QuackHandlers::HandleMessage`, of the bytes of a request. -/
def handleMessage (deps : Deps) (bytes : Bytes) : Handler Routes.Reply := do
  if ← perform .lockDatabase then
    match QuackMessage.deserializeHeader w bytes with
    | none => return .exception
    | some (header, rest) =>
        if !serverSupportsMessage header.type then
          return .quackError (lit "Unsupported message type for server")
        else if messageRequiresConnection header.type then
          Routes.Quack.withConnection header.connectionId fun session =>
            handleBody w deps header rest (some session)
        else handleBody w deps header rest none
  else return .quackError (lit "Database was closed")

/-- The request that a message is. -/
def request (m : QuackMessage T C) : QuackRequest where
  connectionId := m.header.connectionId
  message :=
    match m.body with
    | .connectionRequest r => .connectionRequest r.minSupportedQuackVersion.toNat r.authString
    | .disconnect => .disconnect
    | .prepareRequest r => .prepareRequest r.sqlQuery
    | .fetchRequest r => .fetchRequest r.uuid.toNat
    | .appendRequest r => .appendRequest r.schemaName r.tableName
    | _ => .unsupported

theorem request_received (m : QuackMessage T C) : request m.received = request m := by
  obtain ⟨header, body, htype⟩ := m
  cases body <;> rfl

/-- Bytes that are read as a message are handled as that message. -/
theorem handleMessage_of_read {deps : Deps} {bytes rest tail : Bytes} {m : QuackMessage T C}
    (hheader : QuackMessage.deserializeHeader w bytes = some (m.header, rest))
    (hbody : QuackMessage.deserializeMessage w m.header rest = some (m, tail)) :
    handleMessage w deps bytes = Routes.Quack.handleMessage deps (request m) := by
  unfold handleMessage Routes.Quack.handleMessage
  rw [hheader]
  dsimp only
  simp only [handleBody, hbody]
  obtain ⟨header, body, htype⟩ := m
  dsimp only at htype ⊢
  rw [htype]
  cases body <;> rfl

theorem handleMessage_toMemoryStream (deps : Deps) (m : QuackMessage T C) (rest : Bytes) :
    handleMessage w deps (m.toMemoryStream w ++ rest) = Routes.Quack.handleMessage deps (request m) := by
  have hheader := QuackMessage.deserializeHeader_serialize w m.header
    (m.body.serialize w ++ Property.writeEnd w.fieldId ++ rest)
  rw [← List.append_assoc] at hheader
  have hbody := m.deserializeMessage_serialize w rest
  exact (@handleMessage_of_read _ _ w _ _ _ _ m.received hheader hbody).trans (by rw [request_received])

/-! ## Any other bytes -/

/-- Every past of the one program is a past of the other. -/
def Within (p q : Handler Routes.Reply) : Prop :=
  ∀ h p', Gets Legal p h p' → ∃ q', Gets Legal q h q'

theorem within_refl (p : Handler Routes.Reply) : Within p p := fun _ p' h => ⟨p', h⟩

theorem within_done (r : Routes.Reply) (q : Handler Routes.Reply) : Within (.done r) q := by
  intro h p' hgets
  obtain ⟨rfl, -⟩ := hgets.of_done
  exact ⟨q, .start⟩

theorem within_perform {call : Call} {f g : Answer call → Handler Routes.Reply}
    (hfg : ∀ a, Within (f a) (g a)) :
    Within (perform call >>= f) (perform call >>= g) := by
  intro h p' hgets
  have hcall : Gets Legal (.call call f) h p' := hgets
  obtain ⟨rfl, -⟩ | ⟨a, h', rfl, ha, hgets⟩ := hcall.of_call
  · exact ⟨_, .start⟩
  · obtain ⟨q', hq'⟩ := hfg a h' p' hgets
    exact ⟨q', hq'.call ha⟩

theorem within_handleBody (deps : Deps) {header : MessageHeader} {bytes : Bytes}
    (hbody : QuackMessage.deserializeMessage (T := T) w header bytes = none)
    (session : Option HarborSession) (q : Handler Routes.Reply) :
    Within (handleBody w deps header bytes session) q := by
  rw [handleBody, hbody]
  exact within_done _ q

/-- **What is posted to /quack.** The bytes of a message are handled as the message, whatever stands behind
them; and any other bytes make only calls, with answers, that some message makes too: what holds of the
calls of every message holds for everything that can be posted. -/
theorem handleMessage_refines (deps : Deps) :
    (∀ (m : QuackMessage T C) (rest : Bytes),
      handleMessage w deps (m.toMemoryStream w ++ rest) = handler deps (.quack (request m))) ∧
    ∀ bytes, ∃ req, ∀ h p, Gets Legal (handleMessage w deps bytes) h p →
      ∃ p', Gets Legal (handler deps (.quack req)) h p' := by
  refine ⟨handleMessage_toMemoryStream w deps, fun bytes => ?_⟩
  suffices hwithin : ∃ req, Within (handleMessage w deps bytes) (Routes.Quack.handleMessage deps req) from
    hwithin
  cases hheader : QuackMessage.deserializeHeader w bytes with
  | none =>
      -- the header cannot be read: no call after that of the database
      refine ⟨⟨[], .unsupported⟩, within_perform fun isOpen => ?_⟩
      rw [hheader]
      cases isOpen
      · exact within_refl _
      · exact within_done _ _
  | some p =>
      obtain ⟨header, rest⟩ := p
      cases hbody : QuackMessage.deserializeMessage w header rest with
      | some p =>
          obtain ⟨m, tail⟩ := p
          obtain ⟨rfl, -⟩ := QuackMessage.received_of_deserializeMessage w hbody
          exact ⟨request m, handleMessage_of_read w hheader hbody ▸ within_refl _⟩
      | none =>
          -- the body cannot be read: no call after that of the session
          by_cases hrequires : messageRequiresConnection header.type = true
          · refine ⟨⟨header.connectionId, .disconnect⟩, within_perform fun isOpen => ?_⟩
            rw [hheader]
            dsimp only
            cases isOpen with
            | false => exact within_refl _
            | true =>
                rw [if_pos rfl, if_pos rfl]
                split
                · exact within_done _ _
                · refine within_perform fun found => ?_
                  cases found with
                  | none => exact within_refl _
                  | some session => exact within_handleBody w deps hbody _ _
          · refine ⟨⟨[], .unsupported⟩, within_perform fun isOpen => ?_⟩
            rw [hheader]
            dsimp only
            cases isOpen with
            | false => exact within_refl _
            | true =>
                rw [if_pos rfl, if_pos rfl]
                split
                · exact within_done _ _
                · exact within_handleBody w deps hbody _ _

/-- `SELECT 1` in the bytes of a serializer, with something behind them; and the front of a header. -/
theorem handleMessage_refines_binary :
    let w := Forms.binary Codec.string
    let deps : Deps := ⟨fun body => .ok { sql := body }, id, fun _ => .ok {}⟩
    let m : Message.QuackMessage UInt8 Bytes :=
      ⟨⟨.prepareRequest, lit "c", some ⟨3, by decide⟩⟩, .prepareRequest ⟨lit "SELECT 1"⟩, rfl⟩
    m.toMemoryStream w =
        [1, 0, 3, 2, 0, 1, 99, 3, 0, 3, 255, 255] ++ ([1, 0, 8] ++ lit "SELECT 1" ++ [255, 255]) ∧
      handleMessage w deps (m.toMemoryStream w ++ [7]) =
        handler deps (.quack ⟨lit "c", .prepareRequest (lit "SELECT 1")⟩) ∧
      ∃ req, ∀ h p, Gets Legal (handleMessage w deps [1, 0, 3, 2, 0, 1]) h p →
        ∃ p', Gets Legal (handler deps (.quack req)) h p' := by
  intro w deps m
  exact ⟨by decide +kernel, (handleMessage_refines w deps).1 m [7],
    (handleMessage_refines w deps).2 [1, 0, 3, 2, 0, 1]⟩

end Harbor.Quack.Endpoint
