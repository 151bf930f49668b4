import Claudebase.Bus.Answers
import Claudebase.Remote.Tokens

/-!
# The daemon's doors

`src/daemon/remote.rs:277–415`, `src/daemon/server.rs:640–880`, `src/daemon/pool.rs:869–884`,
`src/daemon/api.rs:36–49`. A connection over TLS is let in by its first frame, and may then call the
tools of a session. A gateway of a pool and a program show their token with every request.
-/

namespace Claudebase.Remote
open Claudebase.Base Claudebase.Bus

/-- The token in an `auth` frame, a blank text in any other. -/
def authToken (frame : Json) : String :=
  if frame.str? "method" = some "auth" then
    ((frame.path? ["params", "token"]).bind Json.asStr?).getD ""
  else ""

/-- What `server_auth` answers, and the client it lets in. -/
structure AuthAnswer where
  reply : Option Json
  client : Except String String

section

-- `serde_json::from_slice`, `sha256_hex` of the bytes of a text, and the name of this machine
variable (parse : List UInt8 → Option Json) (sha256Hex : String → String) (host : String)

/-- `server_auth`, once the frame has been read. -/
def serverAuth (s : Tokens) (body : List UInt8) (now : Int) : AuthAnswer × Tokens :=
  match parse body with
  | none => (⟨none, .error "auth frame is not JSON"⟩, s)
  | some frame =>
    let id := (frame.get? "id").getD .null
    match s.authenticate sha256Hex .remote (authToken frame) now with
    | (none, s) =>
      (⟨some (toolErrorResponse id (-32001) "unknown or revoked token"),
        .error "unknown or revoked token"⟩, s)
    | (some client, s) =>
      (⟨some (.obj [("id", id), ("jsonrpc", .str "2.0"),
        ("result", .obj [("client", .str client), ("daemon_host", .str host)])]), .ok client⟩, s)

/-- What says that a token is missing or unknown. -/
def unauthorized (message : String) : String × Json :=
  ("401 Unauthorized", .obj [("error", .str "unauthorized"), ("message", .str message)])

/-- What a gateway without a token is told. -/
def noGateway : String := "missing or unknown X-Api-Token (claudebase pool token issue <name>)"

/-- What a program without a token is told. -/
def noProgram : String :=
  "missing or unknown X-Api-Token (claudebase daemon api issue <client>)"

/-- The check of the token of a request to the pool or to the public interface, and the refusal:
`pool::http` and `refuse_token`. -/
def refuseToken (s : Tokens) (kind : TokenKind) (message : String) (token : Option String)
    (now : Int) : Except (String × Json) String × Tokens :=
  match s.authenticate sha256Hex kind (token.getD "") now with
  | (some client, s) => (.ok client, s)
  | (none, s) => (.error (unauthorized message), s)

/-- The tool whose handler runs for a request on a connection. -/
def toolRun (remote : Bool) (body : List UInt8) : Option String :=
  (parse body).bind fun inbound ↦
    if methodOf inbound = "tools/call" then
      let tool := (((inbound.get? "params").getD .null).str? "name").getD ""
      if remote = true ∧ remoteMayCall tool = false then none
      else if tool = "claudebase_daemon_status" ∨ hasHandler tool = true then some tool
      else none
    else none

/-- A tool that runs for another machine is one of those a session needs. -/
theorem remoteMayCall_of_toolRun {body : List UInt8} {tool : String}
    (h : toolRun parse true body = some tool) : remoteMayCall tool = true := by
  unfold toolRun at h
  obtain ⟨inbound, -, h⟩ := Option.bind_eq_some_iff.mp h
  split at h
  · dsimp only at h
    split at h
    · cases h
    · next hallowed =>
      split at h
      · cases h
        simpa using hallowed
      · cases h
  · cases h

end

/-! ### Connections and requests -/

/-- What has been done for somebody on another machine. -/
inductive Served where
  | tool (connection : Nat) (client tool : String)
  | gateway (client : String)
  | program (client : String)
  deriving DecidableEq, Repr

/-- The tokens, the client on each connection over TLS, and what has been done for them. -/
structure Gate where
  tokens : Tokens
  clients : Nat → Option String
  served : List Served

/-- What happens: the operator issues or revokes a token, the first frame of a connection is read, a
frame of a connection is read, a connection closes, or a request to the pool or to the public
interface is read. -/
inductive GateAct where
  | issue (kind : TokenKind) (name uuids : String) (now : Int)
  | revoke (kind : TokenKind) (name : String)
  | accept (connection : Nat) (body : List UInt8) (now : Int)
  | request (connection : Nat) (body : List UInt8)
  | close (connection : Nat)
  | gateway (token : Option String) (now : Int)
  | program (token : Option String) (now : Int)

namespace GateAct

/-- Whether the connection opens or closes. -/
def opensOrCloses (connection : Nat) : GateAct → Bool
  | accept c _ _ | close c => c == connection
  | _ => false

/-- What is done with tokens. -/
def tokenOp (parse : List UInt8 → Option Json) : GateAct → Option TokenOp
  | issue kind name uuids now => some (.issue kind name uuids now)
  | revoke kind name => some (.revoke kind name)
  | accept _ body now => (parse body).map fun frame ↦ .authenticate .remote (authToken frame) now
  | gateway token now => some (.authenticate .pool (token.getD "") now)
  | program token now => some (.authenticate .api (token.getD "") now)
  | request _ _ | close _ => none

end GateAct

namespace Gate

/-- No token has been issued, and nobody is connected. -/
def empty : Gate := ⟨fun _ ↦ .empty, fun _ ↦ none, []⟩

section

variable (parse : List UInt8 → Option Json) (sha256Hex : String → String) (host : String)

/-- What is done for whom. -/
def serves (g : Gate) : GateAct → List Served
  | .request c body =>
    match g.clients c, toolRun parse true body with
    | some client, some tool => [.tool c client tool]
    | _, _ => []
  | .gateway token now =>
    match (refuseToken sha256Hex g.tokens .pool noGateway token now).1 with
    | .ok client => [.gateway client]
    | .error _ => []
  | .program token now =>
    match (refuseToken sha256Hex g.tokens .api noProgram token now).1 with
    | .ok client => [.program client]
    | .error _ => []
  | _ => []

/-- Who is connected after it. -/
def connected (g : Gate) : GateAct → Nat → Option String
  | .accept c body now =>
    let answer := (serverAuth parse sha256Hex host g.tokens body now).1
    Function.update g.clients c answer.client.toOption
  | .close c => Function.update g.clients c none
  | _ => g.clients

/-- The tokens after it. -/
def tokensAfter (g : Gate) : GateAct → Tokens
  | .issue kind name uuids now => g.tokens.next sha256Hex (.issue kind name uuids now)
  | .revoke kind name => (g.tokens.revokeToken kind name).2
  | .accept _ body now => (serverAuth parse sha256Hex host g.tokens body now).2
  | .gateway token now => (refuseToken sha256Hex g.tokens .pool noGateway token now).2
  | .program token now => (refuseToken sha256Hex g.tokens .api noProgram token now).2
  | _ => g.tokens

/-- One step. -/
def next (g : Gate) (act : GateAct) : Gate where
  tokens := g.tokensAfter parse sha256Hex host act
  clients := g.connected parse sha256Hex host act
  served := g.served ++ g.serves parse sha256Hex act

end

end Gate

/-!
## Who is served

In every run of issuing and revoking tokens, of connections and of requests, whatever is done for
somebody on another machine is done for a client whose token was in force: when its connection was
let in, or when its request came.
-/

variable {parse : List UInt8 → Option Json} {sha256Hex : String → String} {host : String}
  {acts : List GateAct}

/-- What is done with tokens in a run. -/
def tokenOps (parse : List UInt8 → Option Json) (acts : List GateAct) : List TokenOp :=
  acts.filterMap (GateAct.tokenOp parse)

/-- The daemon after a run. -/
def Gate.after (parse : List UInt8 → Option Json) (sha256Hex : String → String) (host : String)
    (acts : List GateAct) : Gate :=
  run (Gate.next parse sha256Hex host) .empty acts

/-- A connection has been let in for a client that had the token its first frame showed. -/
def LetIn (parse : List UInt8 → Option Json) (acts : List GateAct) (c : Nat) (client : String) :
    Prop :=
  ∃ before body now later frame, acts = before ++ .accept c body now :: later ∧
    (∀ act ∈ later, act.opensOrCloses c = false) ∧ parse body = some frame ∧
    HasToken (tokenOps parse before) .remote client (authToken frame)

/-- What an act calls for, after what happened before. -/
def CalledFor (parse : List UInt8 → Option Json) (before : List GateAct) (act : GateAct)
    (e : Served) : Prop :=
  match act with
  | .request c body =>
    ∃ client tool, LetIn parse before c client ∧ toolRun parse true body = some tool ∧
      e = .tool c client tool
  | .gateway token _ =>
    ∃ client, HasToken (tokenOps parse before) .pool client (token.getD "") ∧ e = .gateway client
  | .program token _ =>
    ∃ client, HasToken (tokenOps parse before) .api client (token.getD "") ∧ e = .program client
  | _ => False

/-! ### Tokens and connections -/

theorem refuseToken_snd {s : Tokens} {kind : TokenKind} {message : String} {token : Option String}
    {now : Int} : (refuseToken sha256Hex s kind message token now).2 =
      (s.authenticate sha256Hex kind (token.getD "") now).2 := by
  unfold refuseToken
  split
  · next h => rw [h]
  · next h => rw [h]

theorem refuseToken_fst_eq_ok {s : Tokens} {kind : TokenKind} (message : String) {client : String}
    {token : Option String} {now : Int} :
    (refuseToken sha256Hex s kind message token now).1 = .ok client ↔
      (s.authenticate sha256Hex kind (token.getD "") now).1 = some client := by
  unfold refuseToken
  split
  · next h => simp [h]
  · next h => simp [h]

theorem serverAuth_snd {s : Tokens} {body : List UInt8} {now : Int} :
    (serverAuth parse sha256Hex host s body now).2 = ((parse body).map fun frame ↦
      (s.authenticate sha256Hex .remote (authToken frame) now).2).getD s := by
  unfold serverAuth
  cases parse body with
  | none => rfl
  | some frame =>
    dsimp only
    split
    · next h => simp [h]
    · next h => simp [h]

theorem serverAuth_client {s : Tokens} {body : List UInt8} {now : Int} :
    (serverAuth parse sha256Hex host s body now).1.client.toOption = (parse body).bind fun frame ↦
      (s.authenticate sha256Hex .remote (authToken frame) now).1 := by
  unfold serverAuth
  cases parse body with
  | none => rfl
  | some frame =>
    dsimp only [Option.bind_some]
    split
    · next h => rw [h]; rfl
    · next h => rw [h]; rfl

/-- One step does one thing with tokens, or none. -/
theorem tokens_next {g : Gate} {act : GateAct} : (g.next parse sha256Hex host act).tokens =
    ((act.tokenOp parse).map (g.tokens.next sha256Hex)).getD g.tokens := by
  cases act with
  | accept c body now =>
    simp only [Gate.next, Gate.tokensAfter, GateAct.tokenOp, serverAuth_snd, Option.map_map]
    rfl
  | gateway token now => simp [Gate.next, Gate.tokensAfter, GateAct.tokenOp, Tokens.next,
      refuseToken_snd]
  | program token now => simp [Gate.next, Gate.tokensAfter, GateAct.tokenOp, Tokens.next,
      refuseToken_snd]
  | _ => rfl

/-- The tokens after a run are those of what was done with them. -/
theorem tokens_after : (Gate.after parse sha256Hex host acts).tokens =
    Tokens.after sha256Hex (tokenOps parse acts) := by
  induction acts using List.reverseRecOn with
  | nil => rfl
  | append_singleton acts act ih =>
    rw [Gate.after, run_concat, tokens_next]
    unfold Gate.after at ih
    have hops : tokenOps parse (acts ++ [act]) =
        tokenOps parse acts ++ (act.tokenOp parse).toList := by
      unfold tokenOps
      rw [List.filterMap_append]
      cases hop : act.tokenOp parse <;> simp [hop]
    rw [ih, hops]
    cases act.tokenOp parse with
    | none => simp
    | some op => exact after_concat.symm

/-- Whom a token authenticates in the middle of a run. -/
theorem authenticate_gate {before later : List GateAct} {act : GateAct} {kind : TokenKind}
    {token name : String} {now : Int}
    (hop : act.tokenOp parse = some (.authenticate kind token now))
    (hfresh : Fresh sha256Hex (tokenOps parse (before ++ act :: later))) :
    ((Gate.after parse sha256Hex host before).tokens.authenticate sha256Hex kind token now).1 =
      some name ↔ HasToken (tokenOps parse before) kind name token := by
  have hops : tokenOps parse (before ++ act :: later) =
      (tokenOps parse before ++ [.authenticate kind token now]) ++ tokenOps parse later := by
    simp [tokenOps, hop]
  rw [hops] at hfresh
  rw [tokens_after, authenticate_after hfresh.of_append]

/-- A connection has a client exactly when it has been let in for it. -/
theorem clients_after {c : Nat} {client : String} (hfresh : Fresh sha256Hex (tokenOps parse acts)) :
    (Gate.after parse sha256Hex host acts).clients c = some client ↔ LetIn parse acts c client := by
  have hkeep : ∀ (g : Gate) (act : GateAct), act.opensOrCloses c = false →
      (g.next parse sha256Hex host act).clients c = g.clients c := by
    intro g act hact
    cases act with
    | accept c' body now =>
      exact Function.update_of_ne (Ne.symm (by simpa [GateAct.opensOrCloses] using hact)) _ _
    | close c' =>
      exact Function.update_of_ne (Ne.symm (by simpa [GateAct.opensOrCloses] using hact)) _ _
    | _ => rfl
  rw [Gate.after, latest_iff (fun g : Gate ↦ g.clients c) _ hkeep]
  constructor
  · rintro (⟨before, act, later, rfl, hact, hlater, hclient⟩ | ⟨-, hnone⟩)
    · cases act with
      | accept c' body now =>
        obtain rfl : c' = c := by simpa [GateAct.opensOrCloses] using hact
        simp only [Gate.next, Gate.connected, Function.update_self, serverAuth_client] at hclient
        obtain ⟨frame, hframe, hauth⟩ := Option.bind_eq_some_iff.mp hclient
        have hop : (GateAct.accept c' body now).tokenOp parse =
            some (.authenticate .remote (authToken frame) now) := by
          simp [GateAct.tokenOp, hframe]
        exact ⟨before, body, now, later, frame, rfl, hlater, hframe,
          (authenticate_gate hop hfresh).mp hauth⟩
      | close c' =>
        obtain rfl : c' = c := by simpa [GateAct.opensOrCloses] using hact
        simp [Gate.next, Gate.connected] at hclient
      | _ => cases hact
    · cases hnone
  · rintro ⟨before, body, now, later, frame, rfl, hlater, hframe, htoken⟩
    refine Or.inl ⟨before, _, later, rfl, by simp [GateAct.opensOrCloses], hlater, ?_⟩
    have hop : (GateAct.accept c body now).tokenOp parse =
        some (.authenticate .remote (authToken frame) now) := by
      simp [GateAct.tokenOp, hframe]
    simp only [Gate.next, Gate.connected, Function.update_self, serverAuth_client, hframe,
      Option.bind_some]
    exact (authenticate_gate hop hfresh).mpr htoken

/-! ### What is done -/

theorem mem_serves_request {g : Gate} {c : Nat} {body : List UInt8} {e : Served} :
    e ∈ g.serves parse sha256Hex (.request c body) ↔ ∃ client tool, g.clients c = some client ∧
      toolRun parse true body = some tool ∧ e = .tool c client tool := by
  simp only [Gate.serves]
  cases g.clients c <;> cases toolRun parse true body <;> simp

theorem mem_serves_gateway {g : Gate} {token : Option String} {now : Int} {e : Served} :
    e ∈ g.serves parse sha256Hex (.gateway token now) ↔ ∃ client,
      (g.tokens.authenticate sha256Hex .pool (token.getD "") now).1 = some client ∧
        e = .gateway client := by
  simp only [Gate.serves, ← refuseToken_fst_eq_ok noGateway]
  split
  · next client h => simp [h]
  · next h => simp [h]

theorem mem_serves_program {g : Gate} {token : Option String} {now : Int} {e : Served} :
    e ∈ g.serves parse sha256Hex (.program token now) ↔ ∃ client,
      (g.tokens.authenticate sha256Hex .api (token.getD "") now).1 = some client ∧
        e = .program client := by
  simp only [Gate.serves, ← refuseToken_fst_eq_ok noProgram]
  split
  · next client h => simp [h]
  · next h => simp [h]

/-- An act does what it calls for. -/
theorem mem_serves_iff {before later : List GateAct} {act : GateAct} {e : Served}
    (hfresh : Fresh sha256Hex (tokenOps parse (before ++ act :: later))) :
    e ∈ (Gate.after parse sha256Hex host before).serves parse sha256Hex act ↔
      CalledFor parse before act e := by
  have hbefore : Fresh sha256Hex (tokenOps parse before) := by
    unfold tokenOps at hfresh ⊢
    rw [List.filterMap_append] at hfresh
    exact hfresh.of_append
  cases act with
  | request c body => simp only [mem_serves_request, clients_after hbefore, CalledFor]
  | gateway token now =>
    have hauth : ∀ client, ((Gate.after parse sha256Hex host before).tokens.authenticate sha256Hex
        .pool (token.getD "") now).1 = some client ↔
          HasToken (tokenOps parse before) .pool client (token.getD "") :=
      fun _ ↦ authenticate_gate rfl hfresh
    simp only [mem_serves_gateway, hauth, CalledFor]
  | program token now =>
    have hauth : ∀ client, ((Gate.after parse sha256Hex host before).tokens.authenticate sha256Hex
        .api (token.getD "") now).1 = some client ↔
          HasToken (tokenOps parse before) .api client (token.getD "") :=
      fun _ ↦ authenticate_gate rfl hfresh
    simp only [mem_serves_program, hauth, CalledFor]
  | issue kind name uuids now => simp [Gate.serves, CalledFor]
  | revoke kind name => simp [Gate.serves, CalledFor]
  | accept c body now => simp [Gate.serves, CalledFor]
  | close c => simp [Gate.serves, CalledFor]

/-- In every run of issuing and revoking tokens, of connections and of requests, exactly this is
done for somebody on another machine: a tool runs for a request on a connection that was let in for
a client which then had the token its first frame showed, and the pool or the public interface
answers a client that has the token of the request. A tool that runs is one a session needs. -/
theorem served_iff (acts : List GateAct) (hfresh : Fresh sha256Hex (tokenOps parse acts))
    (e : Served) :
    (e ∈ (Gate.after parse sha256Hex host acts).served ↔
      ∃ before act later, acts = before ++ act :: later ∧ CalledFor parse before act e) ∧
    (e ∈ (Gate.after parse sha256Hex host acts).served →
      ∀ c client tool, e = .tool c client tool → remoteMayCall tool = true) := by
  have hiff : e ∈ (Gate.after parse sha256Hex host acts).served ↔
      ∃ before act later, acts = before ++ act :: later ∧ CalledFor parse before act e := by
    rw [Gate.after, mem_log_iff Gate.served (fun g act ↦ g.serves parse sha256Hex act)
      fun _ _ ↦ rfl]
    constructor
    · rintro (hnone | ⟨before, act, later, rfl, he⟩)
      · cases hnone
      · exact ⟨before, act, later, rfl, (mem_serves_iff hfresh).mp he⟩
    · rintro ⟨before, act, later, rfl, he⟩
      exact Or.inr ⟨before, act, later, rfl, (mem_serves_iff hfresh).mpr he⟩
  refine ⟨hiff, ?_⟩
  rintro he c client tool rfl
  obtain ⟨before, act, later, -, hcalled⟩ := hiff.mp he
  cases act with
  | request c' body =>
    obtain ⟨client', tool', -, htool, hsame⟩ := hcalled
    injection hsame with _ _ hsame
    rw [hsame]
    exact remoteMayCall_of_toolRun parse htool
  | gateway token now =>
    obtain ⟨client', -, hsame⟩ := hcalled
    cases hsame
  | program token now =>
    obtain ⟨client', -, hsame⟩ := hcalled
    cases hsame
  | issue kind name uuids now => cases hcalled
  | revoke kind name => cases hcalled
  | accept c' body now => cases hcalled
  | close c' => cases hcalled

/-- The first frame of the laptop. -/
def laptopAuth : Json :=
  .obj [("method", .str "auth"), ("params", .obj [("token", .str ("cbr_" ++ laptopUuids))])]

/-- The laptop asks which sessions are alive. -/
def laptopCall : Json :=
  .obj [("method", .str "tools/call"), ("params", .obj [("name", .str "agent_list_alive")])]

/-- Of the bodies the laptop sends, the values they are the texts of. -/
def laptopParse (body : List UInt8) : Option Json :=
  [laptopAuth, laptopCall].find? fun frame ↦ frame.toBytes = body

/-- The laptop is issued a token, connects and asks. -/
def laptopActs : List GateAct :=
  [.issue .remote "laptop" laptopUuids 100, .accept 7 laptopAuth.toBytes 110,
    .request 7 laptopCall.toBytes]

theorem laptopParse_auth : laptopParse laptopAuth.toBytes = some laptopAuth := by
  simp [laptopParse]

theorem laptopParse_call : laptopParse laptopCall.toBytes = some laptopCall := by
  have hne : laptopAuth.toBytes ≠ laptopCall.toBytes := by decide +kernel
  simp [laptopParse, hne]

theorem authToken_laptop : authToken laptopAuth = TokenKind.remote.tokenPrefix ++ laptopUuids := rfl

/-- The tool runs for the laptop. -/
theorem served_laptop : Served.tool 7 "laptop" "agent_list_alive" ∈
    (Gate.after laptopParse laptopHash "desk" laptopActs).served := by
  have hops : tokenOps laptopParse laptopActs = [.issue .remote "laptop" laptopUuids 100,
      .authenticate .remote (TokenKind.remote.tokenPrefix ++ laptopUuids) 110] := by
    simp [tokenOps, laptopActs, GateAct.tokenOp, laptopParse_auth, authToken_laptop]
  have htool : toolRun laptopParse true laptopCall.toBytes = some "agent_list_alive" := by
    unfold toolRun
    rw [laptopParse_call]
    decide +kernel
  apply (served_iff laptopActs (by rw [hops]; exact fresh_issue_authenticate) _).1.mpr
  refine ⟨[.issue .remote "laptop" laptopUuids 100, .accept 7 laptopAuth.toBytes 110], _, [], rfl,
    "laptop", "agent_list_alive", ?_, htool, rfl⟩
  exact ⟨[.issue .remote "laptop" laptopUuids 100], _, 110, [], laptopAuth, rfl, by simp,
    laptopParse_auth, 100, none, [], laptopUuids, [], rfl, by decide,
      authToken_laptop, by simp, rfl⟩

end Claudebase.Remote
