import Claudebase.Base.Table
import Claudebase.Bus.Frames

/-!
# A call from the other end

`src/daemon/client.rs:41–152`. A client writes a request with an id of its own and reads frames
until one carries that id: notifications come between. The daemon reads requests, and its connection
writes answers and notifications. A client whose call fails is not used again.
-/

namespace Claudebase.Bus
open Claudebase.Base

/-- A call: its id, the tool and its arguments. -/
structure Call where
  id : Nat
  name : String
  arguments : Json

/-- The request `call_tool` writes. -/
def Call.request (call : Call) : Json :=
  .obj [("id", .int call.id), ("jsonrpc", .str "2.0"), ("method", .str "tools/call"),
    ("params", .obj [("arguments", call.arguments), ("name", .str call.name)])]

/-- What a caller is told of an error. -/
def rejected (name : String) (code : Int) (message : String) : String :=
  s!"daemon rejected `{name}` ({code}): {message}"

/-- What `call_tool` makes of the response. -/
def received (parse : List UInt8 → Option Json) (name : String) (response : Json) :
    Except String Json :=
  match response.get? "error" with
  | some err =>
    .error (rejected name (((err.get? "code").bind Json.asI64?).getD 0)
      ((err.str? "message").getD "unknown daemon error"))
  | none =>
    let content := ((response.path? ["result", "content"]).bind Json.asArray?).getD []
    match content.head?.bind (·.str? "text") with
    | none => .error s!"daemon response for `{name}` had no text payload"
    | some text => .ok ((parse (utf8 text)).getD (.str text))

/-- The id `read_response_for` compares. -/
def responseId (frame : Json) : Option Nat := (frame.get? "id").bind asU64?

/-- What the handler of a call came to, as its caller should learn it. -/
def answerOf (remote : Bool) (name : String) (outcome : Outcome) : Except String Json :=
  if remote = true ∧ remoteMayCall name = false then
    .error (rejected name (-32601) (notRemote name))
  else if name = "claudebase_daemon_status" then .ok (.obj [("status", .str "up")])
  else if hasHandler name = true then
    match outcome with
    | .result payload => .ok payload
    | .error code message => .error (rejected name ((Json.int code).asI64?.getD 0) message)
  else .error (rejected name (-32601) "Method not found")

/-- A client and its connection: the requests the daemon has not read, how many frames the client
has read, the id of its next call, the call it waits for, whether a call of it has failed, what its
calls came to, what the daemon has served, and the values that were written as texts. -/
structure Caller where
  line : Line
  inbound : List (List UInt8)
  seen : Nat
  nextId : Nat
  waiting : Option Call
  dropped : Bool
  calls : List (Call × Except String Json)
  served : List (List UInt8 × Outcome)
  said : List Json

/-- What happens: the client calls a tool, the daemon serves a request, passes a notification on or
writes a frame, and the client reads a frame or gives up. -/
inductive CallAct where
  | call (name : String) (arguments : Json)
  | serve (outcome : Outcome)
  | notify (params : Json)
  | write
  | read
  | giveUp

/-- The values an outcome is written with. -/
def Outcome.payloads : Outcome → List Json
  | .result payload => [payload]
  | .error _ _ => []

namespace Caller

/-- `connect_to`. -/
def connected : Caller where
  line := .accepted
  inbound := []
  seen := 0
  nextId := 1
  waiting := none
  dropped := false
  calls := []
  served := []
  said := []

section

variable (parse : List UInt8 → Option Json) (listing : List Json) (remote : Bool)

/-- The start of `call_tool`: a request that is too large fails the call. -/
def call (s : Caller) (name : String) (arguments : Json) : Caller :=
  if s.waiting.isSome ∨ s.dropped = true then s
  else
    let call : Call := ⟨s.nextId, name, arguments⟩
    let nextId := (s.nextId + 1) % 18446744073709551616
    match writeFrame call.request.toBytes with
    | .error _ => { s with nextId, dropped := true }
    | .ok _ =>
      { s with
        nextId
        waiting := some call
        inbound := s.inbound ++ [call.request.toBytes]
        said := s.said ++ [call.request] }

/-- The daemon's loop, with what the handler comes to. -/
def serve (s : Caller) (outcome : Outcome) : Caller :=
  match s.inbound with
  | [] => s
  | body :: inbound =>
    { s with
      line := s.line.next parse listing remote (.request body outcome)
      inbound
      served := s.served ++ [(body, outcome)]
      said := s.said ++ respond parse listing remote body outcome ::
        .obj [("status", .str "up")] :: outcome.payloads }

/-- One turn of `read_response_for`. -/
def read (s : Caller) : Caller :=
  match s.waiting, s.line.wire[s.seen]? with
  | some call, some frame =>
    if s.dropped = true then s
    else
      match parse frame.toBytes with
      | none => { s with waiting := none, dropped := true, seen := s.seen + 1 }
      | some response =>
        if responseId response = some call.id then
          { s with
            waiting := none
            seen := s.seen + 1
            calls := s.calls ++ [(call, received parse call.name response)] }
        else { s with seen := s.seen + 1 }
  | _, _ => s

/-- One step. -/
def next (s : Caller) : CallAct → Caller
  | .call name arguments => s.call name arguments
  | .serve outcome => s.serve parse listing remote outcome
  | .notify params =>
    { s with
      line := s.line.next parse listing remote (.notify params)
      said := s.said ++ [notification params] }
  | .write => { s with line := s.line.next parse listing remote .write }
  | .read => s.read parse
  | .giveUp => { s with waiting := none, dropped := true }

/-- A client and its connection after a run. -/
def after (acts : List CallAct) : Caller := run (next parse listing remote) connected acts

end

end Caller

/-- The frames that have not been read, on the wire and on the channel. -/
def Line.ahead (s : Line) (seen : Nat) : List Json := s.wire.drop seen ++ s.outbound.getD []

/-!
## Calls and their answers

Whatever comes between, a call of a client returns what the handler of that call came to, and a call
returns once there is nothing left to do.
-/

variable {parse : List UInt8 → Option Json} {listing : List Json} {remote : Bool}

/-! ### One answer -/

/-- The request of a call, read by the daemon. -/
theorem respond_request {call : Call} (outcome : Outcome)
    (hparse : parse call.request.toBytes = some call.request) :
    respond parse listing remote call.request.toBytes outcome =
      (callReply remote call.request outcome).frame listing (.int call.id) := by
  have hmethod : methodOf call.request = "tools/call" := rfl
  have hid : echoId parse call.request.toBytes = .int call.id := by
    unfold echoId
    rw [hparse]
    rfl
  have hreply : reply parse remote call.request.toBytes outcome =
      callReply remote call.request outcome := by
    unfold reply
    rw [hparse]
    dsimp only
    rw [hmethod, if_neg (by decide), if_pos rfl]
  rw [respond, hid, hreply]

theorem responseId_notification (params : Json) : responseId (notification params) = none := rfl

theorem asU64?_int {n : Int} (hpos : 0 ≤ n) (hlt : n < 18446744073709551616) :
    asU64? (.int n) = some n.toNat := if_pos ⟨hpos, hlt⟩

theorem asU64?_natCast {n : Nat} (h : n < 18446744073709551616) : asU64? (.int n) = some n :=
  asU64?_int (Int.natCast_nonneg n) (by omega)

theorem responseId_of_get? {frame : Json} {n : Nat} (h : n < 18446744073709551616)
    (hid : frame.get? "id" = some (.int n)) : responseId frame = some n := by
  rw [responseId, hid, Option.bind_some]
  exact asU64?_natCast h

theorem asI64?_int {n : Int} (hmin : -9223372036854775808 ≤ n) (hmax : n ≤ 9223372036854775807) :
    (Json.int n).asI64? = some n := if_pos ⟨hmin, hmax⟩

theorem asI64?_notFound : (Json.int (-32601)).asI64? = some (-32601) :=
  asI64?_int (by omega) (by omega)

/-- The answer to a call carries its id, and says what the handler came to. -/
theorem received_respond {call : Call} {outcome : Outcome} (hid : call.id < 18446744073709551616)
    (hparse : parse call.request.toBytes = some call.request)
    (hstatus : parse (Json.obj [("status", .str "up")]).toBytes =
      some (.obj [("status", .str "up")]))
    (hpayloads : ∀ v ∈ outcome.payloads, parse v.toBytes = some v) :
    responseId (respond parse listing remote call.request.toBytes outcome) = some call.id ∧
      received parse call.name (respond parse listing remote call.request.toBytes outcome) =
        answerOf remote call.name outcome := by
  rw [respond_request outcome hparse]
  have hparams : (((call.request.get? "params").getD .null).str? "name").getD "" = call.name := rfl
  have herror (code : Int) (message : String) :
      responseId ((Reply.error code message).frame listing (.int call.id)) = some call.id ∧
        received parse call.name ((Reply.error code message).frame listing (.int call.id)) =
          .error (rejected call.name ((Json.int code).asI64?.getD 0) message) := by
    refine ⟨responseId_of_get? hid (get?_frame listing _ (by simp)).2, ?_⟩
    simp [received, Reply.frame, toolErrorResponse, Json.get?, Json.str?, Json.asStr?,
      List.lookup_cons]
  have htext (v : Json) (hv : parse v.toBytes = some v) :
      responseId ((Reply.text v.render).frame listing (.int call.id)) = some call.id ∧
        received parse call.name ((Reply.text v.render).frame listing (.int call.id)) = .ok v := by
    have hutf8 : parse (utf8 (String.ofList v.render)) = some v := hv
    refine ⟨responseId_of_get? hid (get?_frame listing _ (by simp)).2, ?_⟩
    simp [received, Reply.frame, toolTextResponse, Json.get?, Json.str?, Json.asStr?,
      Json.path?, Json.asArray?, List.lookup_cons, hutf8]
  unfold callReply answerOf
  dsimp only
  rw [hparams]
  split
  · have hrefused := herror (-32601) (notRemote call.name)
    rw [asI64?_notFound] at hrefused
    exact hrefused
  · split
    · exact htext _ hstatus
    · split
      · cases outcome with
        | result payload => exact htext payload (hpayloads payload (List.mem_singleton_self _))
        | error code message => exact herror code message
      · have hunknown := herror (-32601) "Method not found"
        rw [asI64?_notFound] at hunknown
        exact hunknown

/-! ### The frames ahead -/

theorem Line.mem_ahead_send {line : Line} {seen : Nat} {frame x : Json} :
    x ∈ (line.send frame).ahead seen ↔
      x ∈ line.ahead seen ∨ (x = frame ∧ line.outbound ≠ none) := by
  unfold Line.ahead Line.send
  cases line.outbound with
  | none => simp
  | some frames => simp [or_assoc]

theorem Line.countP_ahead_send {line : Line} {seen : Nat} {frame : Json} {p : Json → Bool} :
    ((line.send frame).ahead seen).countP p = (line.ahead seen).countP p +
      if line.outbound ≠ none ∧ p frame = true then 1 else 0 := by
  unfold Line.ahead Line.send
  cases line.outbound with
  | none => simp
  | some frames => simp [Nat.add_assoc]

/-- A frame that is written is as far ahead as before, unless the writer ends. -/
theorem Line.ahead_write {line : Line} {seen : Nat} (hseen : seen ≤ line.wire.length) :
    line.write.ahead seen = line.ahead seen ∨
      (line.write.outbound = none ∧ (line.write.ahead seen).Sublist (line.ahead seen)) := by
  unfold Line.write
  split
  · next frame rest hout =>
    split
    · right
      refine ⟨rfl, ?_⟩
      simp only [Line.ahead, Option.getD_none, List.append_nil]
      exact List.sublist_append_left _ _
    · left
      simp [Line.ahead, hout, List.drop_append_of_le_length hseen]
  · exact Or.inl rfl

theorem Line.write_facts (line : Line) : line.write.reading = line.reading ∧
    line.wire.length ≤ line.write.wire.length ∧
    (line.outbound = none → line.write.outbound = none) := by
  unfold Line.write
  split
  · next frame rest hout =>
    split
    · exact ⟨rfl, Nat.le_refl _, fun _ ↦ rfl⟩
    · refine ⟨rfl, ?_, fun h ↦ ?_⟩
      · rw [List.length_append]
        exact Nat.le_add_right _ _
      · rw [h] at hout
        cases hout
  · exact ⟨rfl, Nat.le_refl _, id⟩

/-- The next frame is the first ahead. -/
theorem Line.ahead_eq_cons {line : Line} {seen : Nat} {frame : Json}
    (h : line.wire[seen]? = some frame) : line.ahead seen = frame :: line.ahead (seen + 1) := by
  obtain ⟨hlt, hframe⟩ := List.getElem?_eq_some_iff.mp h
  unfold Line.ahead
  rw [List.drop_eq_getElem_cons hlt, hframe, List.cons_append]

/-! ### A client and its connection -/

/-- A call came to what the handler of its request came to. -/
def Answers (remote : Bool) (done : Call × Except String Json)
    (request : List UInt8 × Outcome) : Prop :=
  request.1 = done.1.request.toBytes ∧ done.2 = answerOf remote done.1.name request.2

namespace Caller

/-- Where a client that is used is with its calls. -/
inductive Stage (parse : List UInt8 → Option Json) (listing : List Json) (remote : Bool)
    (s : Caller) : Prop where
  | idle (hwaiting : s.waiting = none) (hinbound : s.inbound = [])
      (hserved : s.served.length = s.calls.length)
      (hahead : ∀ frame ∈ s.line.ahead s.seen, responseId frame = none)
  | asked (call : Call) (hwaiting : s.waiting = some call)
      (hinbound : s.inbound = [call.request.toBytes]) (hsaid : call.request ∈ s.said)
      (hid : call.id < 18446744073709551616) (hserved : s.served.length = s.calls.length)
      (hahead : ∀ frame ∈ s.line.ahead s.seen, responseId frame = none)
  | answered (call : Call) (outcome : Outcome) (before : List (List UInt8 × Outcome))
      (hwaiting : s.waiting = some call) (hinbound : s.inbound = []) (hsaid : call.request ∈ s.said)
      (hpayloads : ∀ v ∈ Json.obj [("status", .str "up")] :: outcome.payloads, v ∈ s.said)
      (hid : call.id < 18446744073709551616)
      (hserved : s.served = before ++ [(call.request.toBytes, outcome)])
      (hlength : before.length = s.calls.length)
      (hahead : ∀ frame ∈ s.line.ahead s.seen, responseId frame = none ∨
        frame = respond parse listing remote call.request.toBytes outcome)
      (hone : (s.line.ahead s.seen).countP (fun frame ↦ (responseId frame).isSome) ≤ 1)
      (harrives : s.line.outbound = none ∨
        respond parse listing remote call.request.toBytes outcome ∈ s.line.ahead s.seen)

/-- What holds of a client and its connection along a run. -/
structure Sound (parse : List UInt8 → Option Json) (listing : List Json) (remote : Bool)
    (s : Caller) : Prop where
  reading : s.line.reading = true
  seen : s.seen ≤ s.line.wire.length
  nextId : s.nextId < 18446744073709551616
  inbound : ∀ body ∈ s.inbound, body.length ≤ maxFrameSize
  said : ∀ frame ∈ s.line.ahead s.seen, frame ∈ s.said
  calls : s.calls.length ≤ s.served.length
  answers : List.Forall₂ (Answers remote) s.calls (s.served.take s.calls.length)
  stage : s.dropped = false → s.Stage parse listing remote

theorem sound_connected : (connected).Sound parse listing remote where
  reading := rfl
  seen := Nat.le_refl 0
  nextId := by decide
  inbound := by simp [connected]
  said := by simp [connected, Line.ahead, Line.accepted]
  calls := Nat.le_refl 0
  answers := List.Forall₂.nil
  stage _ := .idle rfl rfl rfl (by simp [connected, Line.ahead, Line.accepted])

variable {s : Caller}

/-- The client calls a tool. -/
theorem Sound.call (h : s.Sound parse listing remote) (name : String) (arguments : Json) :
    (s.call name arguments).Sound parse listing remote := by
  have hnext : (s.nextId + 1) % 18446744073709551616 < 18446744073709551616 :=
    Nat.mod_lt _ (by decide)
  unfold Caller.call
  split
  · exact h
  · next hfree =>
    obtain ⟨hwaiting, hused⟩ := not_or.mp hfree
    dsimp only
    split
    · exact { h with nextId := hnext, stage := fun hdropped ↦ by cases hdropped }
    · next bytes hwrite =>
      have hsmall : (Call.request ⟨s.nextId, name, arguments⟩).toBytes.length ≤ maxFrameSize := by
        unfold writeFrame at hwrite
        split at hwrite
        · cases hwrite
        · next hsmall => exact Nat.not_lt.mp hsmall
      refine { h with nextId := hnext, inbound := ?_, said := ?_, stage := fun hdropped ↦ ?_ }
      · intro body hbody
        rcases List.mem_append.mp hbody with hbody | hbody
        · exact h.inbound body hbody
        · rw [List.mem_singleton.mp hbody]
          exact hsmall
      · exact fun frame hframe ↦ List.mem_append_left _ (h.said frame hframe)
      · cases h.stage hdropped with
        | idle _ hinbound hserved hahead =>
          refine .asked ⟨s.nextId, name, arguments⟩ rfl ?_ ?_ h.nextId hserved hahead
          · show s.inbound ++ _ = _
            rw [hinbound]
            rfl
          · exact List.mem_append_right _ (List.mem_singleton_self _)
        | asked call hcall => exact absurd (by rw [hcall]; rfl) hwaiting
        | answered call outcome before hcall => exact absurd (by rw [hcall]; rfl) hwaiting

/-- The daemon serves a request. -/
theorem Sound.serve (h : s.Sound parse listing remote) (outcome : Outcome) :
    (s.serve parse listing remote outcome).Sound parse listing remote := by
  unfold Caller.serve
  split
  · exact h
  · next body inbound hinbound =>
    have hbody : body.length ≤ maxFrameSize := h.inbound body (by simp [hinbound])
    have hline : s.line.next parse listing remote (.request body outcome) =
        s.line.send (respond parse listing remote body outcome) := by
      have hreading : ¬ s.line.reading = false := by simp [h.reading]
      simp only [Line.next, if_neg hreading, if_neg (Nat.not_lt.mpr hbody)]
    rw [hline]
    have hmore : (s.served ++ [(body, outcome)]).take s.calls.length =
        s.served.take s.calls.length := List.take_append_of_le_length h.calls
    refine ⟨h.reading, h.seen, h.nextId, ?_, ?_, ?_, ?_, fun hdropped ↦ ?_⟩
    · exact fun b hb ↦ h.inbound b (by rw [hinbound]; exact List.mem_cons_of_mem _ hb)
    · intro frame hframe
      rcases Line.mem_ahead_send.mp hframe with hold | ⟨rfl, -⟩
      · exact List.mem_append_left _ (h.said frame hold)
      · exact List.mem_append_right _ List.mem_cons_self
    · rw [List.length_append]
      exact Nat.le_add_right_of_le h.calls
    · show List.Forall₂ _ s.calls ((s.served ++ [(body, outcome)]).take s.calls.length)
      rw [hmore]
      exact h.answers
    · cases h.stage hdropped with
      | idle hwaiting hempty =>
        rw [hempty] at hinbound
        cases hinbound
      | asked call hwaiting hone hsaid hid hserved hahead =>
        obtain ⟨rfl, rfl⟩ := List.cons.inj (hinbound.symm.trans hone)
        have hnone : (s.line.ahead s.seen).countP (fun frame ↦ (responseId frame).isSome) = 0 :=
          List.countP_eq_zero.mpr fun frame hframe ↦ by simp [hahead frame hframe]
        refine .answered call outcome s.served hwaiting rfl (List.mem_append_left _ hsaid) ?_ hid
          rfl hserved ?_ ?_ ?_
        · exact fun v hv ↦ List.mem_append_right _ (List.mem_cons_of_mem _ hv)
        · intro frame hframe
          rcases Line.mem_ahead_send.mp hframe with hold | ⟨rfl, -⟩
          · exact Or.inl (hahead frame hold)
          · exact Or.inr rfl
        · show ((s.line.send _).ahead s.seen).countP _ ≤ 1
          rw [Line.countP_ahead_send, hnone]
          split <;> simp
        · cases hout : s.line.outbound with
          | none => exact Or.inl (by simp [Line.send, hout])
          | some frames => exact Or.inr (Line.mem_ahead_send.mpr (Or.inr ⟨rfl, by simp [hout]⟩))
      | answered call outcome' before hwaiting hempty =>
        rw [hempty] at hinbound
        cases hinbound

/-- A notification is passed on. -/
theorem Sound.notify (h : s.Sound parse listing remote) (params : Json) :
    (s.next parse listing remote (.notify params)).Sound parse listing remote := by
  refine ⟨h.reading, h.seen, h.nextId, h.inbound, ?_, h.calls, h.answers, fun hdropped ↦ ?_⟩
  · intro frame hframe
    rcases Line.mem_ahead_send.mp hframe with hold | ⟨rfl, -⟩
    · exact List.mem_append_left _ (h.said frame hold)
    · exact List.mem_append_right _ (List.mem_singleton_self _)
  · cases h.stage hdropped with
    | idle hwaiting hinbound hserved hahead =>
      refine .idle hwaiting hinbound hserved ?_
      intro frame hframe
      rcases Line.mem_ahead_send.mp hframe with hold | ⟨rfl, -⟩
      · exact hahead frame hold
      · exact responseId_notification params
    | asked call hwaiting hinbound hsaid hid hserved hahead =>
      refine .asked call hwaiting hinbound (List.mem_append_left _ hsaid) hid hserved ?_
      intro frame hframe
      rcases Line.mem_ahead_send.mp hframe with hold | ⟨rfl, -⟩
      · exact hahead frame hold
      · exact responseId_notification params
    | answered call outcome before hwaiting hinbound hsaid hpayloads hid hserved hlength hahead
        hone harrives =>
      refine .answered call outcome before hwaiting hinbound (List.mem_append_left _ hsaid)
        (fun v hv ↦ List.mem_append_left _ (hpayloads v hv)) hid hserved hlength ?_ ?_ ?_
      · intro frame hframe
        rcases Line.mem_ahead_send.mp hframe with hold | ⟨rfl, -⟩
        · exact hahead frame hold
        · exact Or.inl (responseId_notification params)
      · show ((s.line.send _).ahead s.seen).countP _ ≤ 1
        rw [Line.countP_ahead_send, responseId_notification]
        simpa using hone
      · rcases harrives with hnone | hmem
        · exact Or.inl (by simp [Caller.next, Line.next, Line.send, hnone])
        · exact Or.inr (Line.mem_ahead_send.mpr (Or.inl hmem))

/-- The connection writes a frame. -/
theorem Sound.write (h : s.Sound parse listing remote) :
    (s.next parse listing remote .write).Sound parse listing remote := by
  obtain ⟨hreading, hlength, hnone⟩ := s.line.write_facts
  have hsublist : (s.line.write.ahead s.seen).Sublist (s.line.ahead s.seen) := by
    rcases Line.ahead_write h.seen with hsame | ⟨-, hsub⟩
    · rw [hsame]
    · exact hsub
  have hsub := hsublist.subset
  refine ⟨hreading.trans h.reading, Nat.le_trans h.seen hlength, h.nextId, h.inbound, ?_, h.calls,
    h.answers, fun hdropped ↦ ?_⟩
  · exact fun frame hframe ↦ h.said frame (hsub hframe)
  · cases h.stage hdropped with
    | idle hwaiting hinbound hserved hahead =>
      exact .idle hwaiting hinbound hserved fun frame hframe ↦ hahead frame (hsub hframe)
    | asked call hwaiting hinbound hsaid hid hserved hahead =>
      exact .asked call hwaiting hinbound hsaid hid hserved fun frame hframe ↦
        hahead frame (hsub hframe)
    | answered call outcome before hwaiting hinbound hsaid hpayloads hid hserved hlength hahead
        hone harrives =>
      refine .answered call outcome before hwaiting hinbound hsaid hpayloads hid hserved hlength
        (fun frame hframe ↦ hahead frame (hsub hframe))
        (Nat.le_trans hsublist.countP_le hone) ?_
      rcases Line.ahead_write h.seen with hsame | ⟨hended, -⟩
      · rcases harrives with hno | hmem
        · exact Or.inl (hnone hno)
        · right
          show _ ∈ s.line.write.ahead s.seen
          rw [hsame]
          exact hmem
      · exact Or.inl hended

/-- The client gives up. -/
theorem Sound.giveUp (h : s.Sound parse listing remote) :
    (s.next parse listing remote .giveUp).Sound parse listing remote :=
  { h with stage := fun hdropped ↦ by cases hdropped }

/-- The client reads a frame, where what was written reads as what it was. -/
theorem Sound.read (h : s.Sound parse listing remote)
    (hsaid : ∀ v ∈ s.said, parse v.toBytes = some v) :
    (s.read parse).Sound parse listing remote := by
  unfold Caller.read
  split
  · next waiting frame hwaiting hframe =>
    split
    · exact h
    · next hused =>
      have hcons := Line.ahead_eq_cons hframe
      have hhead : frame ∈ s.line.ahead s.seen := by
        rw [hcons]
        exact List.mem_cons_self
      have htail : ∀ x ∈ s.line.ahead (s.seen + 1), x ∈ s.line.ahead s.seen := by
        rw [hcons]
        exact fun x hx ↦ List.mem_cons_of_mem _ hx
      have hseen : s.seen + 1 ≤ s.line.wire.length := (List.getElem?_eq_some_iff.mp hframe).1
      have hstage := h.stage (by simpa using hused)
      rw [hsaid frame (h.said frame hhead)]
      dsimp only
      split
      · next hmatch =>
        cases hstage with
        | idle hidle =>
          rw [hidle] at hwaiting
          cases hwaiting
        | asked call hcall hinbound hrequest hid hserved hahead =>
          rw [hahead frame hhead] at hmatch
          cases hmatch
        | answered call outcome before hcall hinbound hrequest hpayloads hid hserved hlength
            hahead hone harrives =>
          obtain rfl := Option.some.inj (hcall.symm.trans hwaiting)
          obtain ⟨hresponse, hreceived⟩ := received_respond hid (hsaid _ hrequest)
            (hsaid _ (hpayloads _ List.mem_cons_self))
            (fun v hv ↦ hsaid v (hpayloads v (List.mem_cons_of_mem _ hv)))
          rcases hahead frame hhead with hno | rfl
          · rw [hno] at hmatch
            cases hmatch
          · have hquiet : ∀ x ∈ s.line.ahead (s.seen + 1), responseId x = none := by
              rw [hcons, List.countP_cons_of_pos (by simp [hmatch])] at hone
              have hzero := List.countP_eq_zero.mp (Nat.le_zero.mp (Nat.le_of_succ_le_succ hone))
              exact fun x hx ↦ by simpa using hzero x hx
            have hall : s.served.take (s.calls.length + 1) = s.served := by
              rw [hserved, ← hlength]
              exact List.take_of_length_le (by simp)
            have hbefore : s.served.take s.calls.length = before := by
              rw [hserved, ← hlength, List.take_left' rfl]
            have hanswers := h.answers
            rw [hbefore] at hanswers
            refine ⟨h.reading, hseen, h.nextId, h.inbound, fun x hx ↦ h.said x (htail x hx), ?_, ?_,
              fun _ ↦ .idle rfl hinbound ?_ hquiet⟩
            · simp [hserved, hlength]
            · rw [List.length_append, List.length_singleton, hall, hserved]
              exact List.rel_append hanswers (List.Forall₂.cons ⟨rfl, hreceived⟩ .nil)
            · simp [hserved, hlength]
      · next hother =>
        refine ⟨h.reading, hseen, h.nextId, h.inbound, fun x hx ↦ h.said x (htail x hx), h.calls,
          h.answers, fun _ ↦ ?_⟩
        cases hstage with
        | idle hidle =>
          rw [hidle] at hwaiting
          cases hwaiting
        | asked call hcall hinbound hrequest hid hserved hahead =>
          exact .asked call hcall hinbound hrequest hid hserved fun x hx ↦ hahead x (htail x hx)
        | answered call outcome before hcall hinbound hrequest hpayloads hid hserved hlength
            hahead hone harrives =>
          obtain rfl := Option.some.inj (hcall.symm.trans hwaiting)
          have hresponse : responseId (respond parse listing remote call.request.toBytes outcome) =
              some call.id := (received_respond hid (hsaid _ hrequest)
            (hsaid _ (hpayloads _ List.mem_cons_self))
            (fun v hv ↦ hsaid v (hpayloads v (List.mem_cons_of_mem _ hv)))).1
          refine .answered call outcome before hcall hinbound hrequest hpayloads hid hserved hlength
            (fun x hx ↦ hahead x (htail x hx)) ?_ ?_
          · rw [hcons] at hone
            exact Nat.le_trans (List.sublist_cons_self _ _).countP_le hone
          · rcases harrives with hno | hmem
            · exact Or.inl hno
            · rw [hcons] at hmem
              rcases List.mem_cons.mp hmem with rfl | hmem
              · exact absurd hresponse hother
              · exact Or.inr hmem
  · exact h

theorem said_read : (s.read parse).said = s.said := by
  unfold Caller.read
  split
  · split
    · rfl
    · split
      · rfl
      · split <;> rfl
  · rfl

/-- What was written stays on record. -/
theorem said_next (act : CallAct) : s.said ⊆ (s.next parse listing remote act).said := by
  cases act with
  | call name arguments =>
    simp only [Caller.next, Caller.call]
    split
    · exact fun _ ↦ id
    · split
      · exact fun _ ↦ id
      · exact List.subset_append_left _ _
  | serve outcome =>
    simp only [Caller.next, Caller.serve]
    split
    · exact fun _ ↦ id
    · exact List.subset_append_left _ _
  | notify params => exact List.subset_append_left _ _
  | write => exact fun _ ↦ id
  | read =>
    show s.said ⊆ (s.read parse).said
    rw [said_read]
    exact fun _ ↦ id
  | giveUp => exact fun _ ↦ id

/-- A client and its connection along a run. -/
theorem sound_after {acts : List CallAct}
    (hsaid : ∀ v ∈ (after parse listing remote acts).said, parse v.toBytes = some v) :
    (after parse listing remote acts).Sound parse listing remote := by
  induction acts using List.reverseRecOn with
  | nil => exact sound_connected
  | append_singleton acts act ih =>
    unfold after at hsaid ih ⊢
    rw [run_concat] at hsaid ⊢
    have hbefore : ∀ v ∈ (run (next parse listing remote) connected acts).said,
        parse v.toBytes = some v := fun v hv ↦ hsaid v (said_next act hv)
    have h := ih hbefore
    cases act with
    | call name arguments => exact h.call name arguments
    | serve outcome => exact h.serve outcome
    | notify params => exact h.notify params
    | write => exact h.write
    | read => exact h.read hbefore
    | giveUp => exact h.giveUp

end Caller

/-- In every run of calls, notifications, writes and reads, where the values that were written read
as what they were: the calls of a client that have returned came to what the handler of their own
request came to, one after another; and a call of a client that is used has returned once the daemon
has served its request, the connection has written everything and the client has read it. -/
theorem calls_answered (acts : List CallAct)
    (hsaid : ∀ v ∈ (Caller.after parse listing remote acts).said, parse v.toBytes = some v) :
    let s := Caller.after parse listing remote acts
    List.Forall₂ (Answers remote) s.calls (s.served.take s.calls.length) ∧
      (s.dropped = false → s.inbound = [] → s.line.outbound = some [] →
        s.seen = s.line.wire.length → s.waiting = none ∧ s.calls.length = s.served.length) := by
  intro s
  have h := Caller.sound_after hsaid
  refine ⟨h.answers, fun hdropped hinbound houtbound hseen ↦ ?_⟩
  cases h.stage hdropped with
  | idle hwaiting hempty hserved => exact ⟨hwaiting, hserved.symm⟩
  | asked call hwaiting hone => cases hinbound.symm.trans hone
  | answered call outcome before hwaiting hempty hsaid hpayloads hid hserved hlength hahead hone
      harrives =>
    have hnothing : s.line.ahead s.seen = [] := by
      rw [Line.ahead, hseen, houtbound, List.drop_length]
      rfl
    rcases harrives with hno | hmem
    · cases houtbound.symm.trans hno
    · rw [hnothing] at hmem
      cases hmem

/-- A call without arguments, of a client that has made none before. -/
def firstCall : Call := ⟨1, "agent_list_alive", .null⟩

/-- What is written in the course of it, where no session is alive. -/
def firstSaid : List Json :=
  [firstCall.request, notification .null, toolTextResponse (.int 1) ['[', ']'],
    .obj [("status", .str "up")], .arr []]

/-- Of the texts of those values, the values. -/
def firstParse (body : List UInt8) : Option Json := firstSaid.find? fun v ↦ v.toBytes = body

theorem firstParse_toBytes : ∀ v ∈ firstSaid, firstParse v.toBytes = some v := by
  have hnodup : (firstSaid.map Json.toBytes).Nodup := by decide +kernel
  intro v hv
  exact (Table.get?_eq_some_iff (t := ⟨firstSaid, hnodup⟩)).mpr ⟨hv, rfl⟩

/-- A notification comes before the answer. -/
def firstActs : List CallAct :=
  [.call "agent_list_alive" .null, .notify .null, .serve (.result (.arr [])), .write, .write,
    .read, .read]

theorem said_first : (Caller.after firstParse [] false firstActs).said = firstSaid := by
  have hsmall : firstCall.request.toBytes.length ≤ maxFrameSize := by
    rw [Json.length_toBytes]
    decide +kernel
  have hrequest : firstParse firstCall.request.toBytes = some firstCall.request :=
    firstParse_toBytes _ (by simp [firstSaid])
  have hrespond : respond firstParse [] false firstCall.request.toBytes (.result (.arr [])) =
      toolTextResponse (.int 1) ['[', ']'] := by
    rw [respond_request _ hrequest]
    rfl
  have hwrite : writeFrame firstCall.request.toBytes =
      .ok (lengthHeader.frame firstCall.request.toBytes) := if_neg (Nat.not_lt.mpr hsmall)
  have hcalled : Caller.connected.call "agent_list_alive" .null =
      { Caller.connected with
        nextId := 2
        waiting := some firstCall
        inbound := [firstCall.request.toBytes]
        said := [firstCall.request] } := by
    have hfree : ¬ (Caller.connected.waiting.isSome = true ∨ Caller.connected.dropped = true) := by
      simp [Caller.connected]
    unfold Caller.call
    rw [if_neg hfree]
    show (match writeFrame firstCall.request.toBytes with | .error _ => _ | .ok _ => _) = _
    rw [hwrite]
    rfl
  simp only [Caller.after, firstActs, run, List.foldl_cons, List.foldl_nil, Caller.next,
    Caller.said_read, hcalled, Caller.serve, hrespond]
  rfl

/-- The call returns what its handler came to. -/
theorem calls_answered_first :
    List.Forall₂ (Answers false) (Caller.after firstParse [] false firstActs).calls
      ((Caller.after firstParse [] false firstActs).served.take
        (Caller.after firstParse [] false firstActs).calls.length) :=
  (calls_answered firstActs (by rw [said_first]; exact firstParse_toBytes)).1

end Claudebase.Bus
