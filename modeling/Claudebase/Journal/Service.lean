import Claudebase.Address.Project
import Claudebase.Journal.Callers
import Claudebase.Journal.Calls
import Claudebase.Journal.Routing
import Claudebase.Journal.Schedule
import Claudebase.Store.Stitch

/-!
# The tools of the journal and their two doors

`src/daemon/journal_tools.rs:27–189,330–520,676–812,864–873`, `src/daemon/api.rs:12–122`,
`src/journal.rs:1921–2061`. Clients of the daemon call the tools by name, as a session or from a
directory; programs call some of them over `/v1`, where a request names its project and its
author. The caller is found first, and the tool then runs on its own: calls overlap. What a tool
answers is left out, and so are the tables of mind maps and vectors.
-/

namespace Claudebase.Base.Json

/-- `Map::remove`. -/
def remove (v : Json) (key : String) : Json :=
  match v with
  | .obj fields => .obj (fields.filter fun f ↦ f.1 ≠ key)
  | v => v

/-- `Map::insert`. -/
def insert (v : Json) (key : String) (w : Json) : Json :=
  match v with
  | .obj fields => .obj ((key, w) :: fields.filter fun f ↦ f.1 ≠ key)
  | v => v

end Claudebase.Base.Json

namespace Claudebase.Journal
open Claudebase.Base

/-! ### The two doors -/

/-- `JOURNAL_OPS`. -/
def journalOps : List String :=
  ["add", "search", "list", "get", "tags", "categories", "mark", "unmark", "close", "reopen",
    "agenda", "link", "unlink", "branch", "policy"]

/-- `MINDMAP_DENIED`. -/
def mindmapDenied : List String := ["send", "url", "export", "import"]

/-- `FIELDS_DENIED`. -/
def fieldsDenied : List String := ["agent_id", "session_token", "cwd", "every_secs"]

/-- `CREATES`. -/
def creates : List String := ["journal_add", "journal_mindmap_new"]

/-- `API_CALLER`. -/
def apiCaller : String := "_api_caller"

/-- A tool and its arguments, as `run` takes them. -/
structure ToolCall where
  tool : String
  args : Json

/-- `handle`, for the clients of the daemon. -/
def handle (tool : String) (args : Json) : ToolCall := ⟨tool, args.remove apiCaller⟩

/-- `handle_api`, for a request of the API. -/
def handleApi (tool projectId author : String) (args : Json) : ToolCall :=
  ⟨tool, args.insert apiCaller (.obj [("project_id", .str projectId), ("author", .str author)])⟩

/-- `canonical`: the repository a request names. -/
def canonical (u : Unicode) (raw : String) : Option String :=
  if raw.startsWith "local:" then none
  else (Address.normalizeRemoteUrl u raw.toList).bind fun id ↦
    let parts := id.splitOn '/'
    if 3 ≤ parts.length ∧ ∀ p ∈ parts, p ≠ [] ∧ p ≠ ['.'] ∧ p ≠ ['.', '.'] then
      some (String.ofList id)
    else none

/-- An answer of the API itself, or the tool it runs. -/
inductive ApiAnswer where
  | reply (status : String) (body : Json)
  | tool (call : ToolCall)

/-- `err`. -/
def apiErr (status code message : String) : ApiAnswer :=
  .reply status (.obj [("error", .str code), ("message", .str message)])

/-- A text of a request, trimmed. -/
def textArg (args : Json) (key : String) : String := trimmed ((args.str? key).getD "")

/-- The arguments a tool gets of a request. -/
def apiArgs (tool author : String) (args : Json) : Json :=
  let args := (fieldsDenied ++ ["project_id", "author"]).foldl Json.remove args
  if tool = "journal_add" then args.insert "agent" (.str author) else args

section

variable (u : Unicode) (parse : List UInt8 → Option Json) (journalExists : String → Bool)

/-- `call`, up to the tool. -/
def apiCall (tool : String) (body : List UInt8) : ApiAnswer :=
  match parse body with
  | some (.obj fields) =>
    let args := Json.obj fields
    match canonical u (textArg args "project_id") with
    | none => apiErr "400 Bad Request" "bad_request"
        "project_id is required: the repository, as host/owner/repo"
    | some project =>
      let author := textArg args "author"
      if author = "" then apiErr "400 Bad Request" "bad_request" "author is required"
      else if tool ∉ creates ∧ journalExists project = false then
        apiErr "404 Not Found" "unknown_project"
          s!"no journal for {project}: the first journal add or mindmap new starts one"
      else .tool (handleApi tool project author (apiArgs tool author args))
  | _ => apiErr "400 Bad Request" "bad_request" "the body must be a JSON object"

/-- `http`, for a token already checked. `version` is that of the program. -/
def http (version : String) (method target : List Char) (body : List UInt8) : ApiAnswer :=
  let path := ((splitAtFirst ['?'] target).map Prod.fst).getD target
  let get := method = "GET".toList
  let post := method = "POST".toList
  let missing := apiErr "404 Not Found" "not_found"
    s!"no route {String.ofList method} {String.ofList path}"
  match ((trimMatches (· = '/') path).splitOn '/').map String.ofList with
  | [v, page] =>
    if get ∧ v = "v1" ∧ page = "version" then
      .reply "200 OK" (.obj [("api", .int 1), ("claudebase", .str version)])
    else if get ∧ v = "v1" ∧ page = "projects" then .tool (handle "journal_projects" (.obj []))
    else missing
  | [v, family, op] =>
    if post ∧ v = "v1" ∧ family = "journal" ∧ op ∈ journalOps then
      apiCall u parse journalExists ("journal_" ++ op) body
    else if post ∧ v = "v1" ∧ family = "mindmap" ∧ op ∉ mindmapDenied then
      apiCall u parse journalExists ("journal_mindmap_" ++ op) body
    else missing
  | _ => missing

end

/-! ### Who calls -/

/-- An absolute path as it is written. -/
def absolutePath (s : String) : Option Path :=
  match s.toList with
  | '/' :: cs =>
    some (((cs.splitOn '/').filter fun p ↦ p ≠ [] ∧ p ≠ ['.']).map String.ofList).reverse
  | _ => none

/-- The asker in the arguments, as `resolve` reads them. -/
def askerOf (args : Json) (needSession : Bool) : Except String Asker :=
  match args.get? apiCaller with
  | some api => do
    let projectId ← okOr (strArg api "project_id") "project_id required"
    let author ← okOr (strArg api "author") "author required"
    return .author projectId author
  | none =>
    match strArg args "agent_id", strArg args "session_token" with
    | some agentId, some token => .ok (.session agentId token)
    | _, _ =>
      -- a directory may not write, whether it is named or not
      if needSession then .ok (.directory none [] none)
      else do
        let cwd ← okOr (strArg args "cwd") "cwd required when there is no session"
        let path ← okOr (absolutePath cwd) "cwd must be an absolute path"
        return .directory (strArg args "host") path (strArg args "project_id")

/-- Whether a tool that looks for its caller takes a session only; `none` for one that does not
look. -/
def needsSession (tool : String) : Option Bool :=
  if tool ∈ ["journal_add", "journal_delete", "journal_mark", "journal_unmark", "journal_close",
      "journal_reopen", "journal_link", "journal_unlink", "journal_mindmap_new"] then some true
  else if tool ∈ ["journal_search", "journal_list", "journal_get", "journal_tags",
      "journal_categories", "journal_gc", "journal_agenda", "journal_branch", "journal_policy",
      "journal_mindmap_export", "journal_mindmap_list", "journal_mindmap_show",
      "journal_mindmap_svg", "journal_mindmap_send", "journal_mindmap_url",
      "journal_mindmap_delete", "journal_mindmap_share"] then some false
  else if tool = "journal_mindmap_import" then none
  else if tool.startsWith "journal_mindmap_" then some true
  else none

/-- What `policy` refuses before it looks for the caller. -/
def policyRefused (call : ToolCall) : Bool :=
  call.tool = "journal_policy" ∧ ((call.args.get? "evidence_first").bind Json.asBool?).isSome ∧
    ((strArg call.args "agent_id").isSome ∨ (call.args.get? apiCaller).isSome)

/-! ### What tools write -/

/-- The entry `add` of the tools asks for. -/
def addEntry (caller : Caller) (args : Json) : NewEntry where
  body := (strArg args "body").getD ""
  category := (strArg args "category").getD ""
  tags := strList args "tags"
  salience := (strArg args "salience").getD "medium"
  agent := (strArg args "agent").or caller.nick
  agentId := caller.agentId
  sessionId := strArg args "session_id"
  feature := strArg args "feature"
  sourceArtifact := strArg args "source_artifact"
  flags := strList args "flags"
  proofs := strList args "proofs"
  remindEvery := (args.get? "every_secs").bind Json.asI64?
  remindTo := caller.nick.map fun nick ↦ (nick, caller.host)

/-- `unlink`. -/
def unlink (db : Db) (fromId toId : Int) (kind : Option String) : Db :=
  { db with
    entryLinks := db.entryLinks.delete fun r ↦
      r.fromId = fromId ∧ r.toId = toId ∧ kind.all fun k ↦ k = r.kind.name
    linkFrom := fun r hr ↦ db.linkFrom r (Table.mem_delete.mp hr).1
    linkTo := fun r hr ↦ db.linkTo r (Table.mem_delete.mp hr).1 }

/-- An old insight, as `copy_insights` reads it. -/
structure OldInsight where
  at' : Int
  kind : String
  agent : Option String
  session : Option String
  feature : Option String
  salience : Option String
  artifact : Option String
  chunks : List String
  tags : List String

/-- What is read of a folder's `insights.db`: rows, and whether that came to its end. -/
structure Insights where
  rows : List OldInsight
  whole : Bool

section

variable (u : Unicode) (sha256 : String → String)

/-- The entry for an old insight. -/
def OldInsight.entry (o : OldInsight) : NewEntry where
  body := Store.stitchChunks o.chunks
  category := o.kind
  tags := if o.tags = [] then [o.feature.getD "imported"] else o.tags
  salience := (normalizeSalience u o.salience).toOption.getD "medium"
  agent := o.agent
  sessionId := o.session
  feature := o.feature
  sourceArtifact := o.artifact

/-- `copy_insights`: how many were written, and the journal. -/
def copyInsights : List OldInsight → Nat × Db → Nat × Db
  | [], acc => acc
  | o :: os, (n, db) =>
    match add u sha256 db (o.entry u) o.at' with
    | .ok ((.written, _), db) => copyInsights os (n + 1, db)
    | .ok ((.deduped, _), db) => copyInsights os (n, db)
    | .error _ => copyInsights os (n, db)

/-- `import_legacy_insights`. -/
def importLegacyInsights (path : Path) (old : Insights) (db : Db) : Db :=
  if (db.journalMeta.get? "insights_imported").isSome then db
  else
    let (n, db) := copyInsights u sha256 old.rows (0, db)
    let file := Path.display ("insights.db" :: "knowledge" :: ".claude" :: path)
    if old.whole then
      { db with
        journalMeta := db.journalMeta.insertOrReplace ⟨"insights_imported", s!"{n} from {file}"⟩ }
    else db

/-- What a tool writes into the tables of the journal it opened. -/
def toolWrite (caller : Caller) (args : Json) (now : Int) (db : Db) (tool : String) : Db :=
  let flags := strList args "flags"
  match tool, (args.get? "id").bind Json.asI64? with
  | "journal_add", _ => write u sha256 db (.add (addEntry caller args) now)
  | "journal_delete", some id => delete db id
  | "journal_mark", some id => write u sha256 db (.mark id flags now)
  | "journal_unmark", some id => write u sha256 db (.unmark id flags)
  | "journal_reopen", some id => write u sha256 db (.reopen id flags)
  | "journal_close", some id =>
    let abandon := ((args.get? "abandon").bind Json.asBool?).getD false
    (transact db (closeWith u db id flags caller.nick (strArg args "resolution") now
      (if abandon then .abandon else .checked))).2
  | "journal_link", some id =>
    match (args.get? "to").bind Json.asI64? with
    | some toId => write u sha256 db (.link id toId ((strArg args "kind").getD "cites"))
    | none => db
  | "journal_unlink", some id =>
    match (args.get? "to").bind Json.asI64? with
    | some toId => unlink db id toId (strArg args "kind")
    | none => db
  | "journal_gc", _ => (runGc db now (((args.get? "dry_run").bind Json.asBool?).getD false)).2
  | "journal_policy", _ =>
    match (args.get? "evidence_first").bind Json.asBool? with
    | some on => db.setEvidenceFirst on
    | none => db
  | _, _ => db

/-- `open` of the tools, and what the tool then writes. -/
def State.openFor (s : State) (c : Caller) (old : Insights) (f : Db → Db) : State :=
  if c.agentId.isSome then
    s.put c.project c.path fun db ↦ f (importLegacyInsights u sha256 c.path old db)
  else
    match s.journals c.project with
    | some db => s.file c.project (some (f db))
    | none => s

/-- A link of an archive, already renumbered. -/
def importedLink (db : Db) (l : Json) : Db :=
  let part (i : Nat) : Option Json := l.items[i]?
  match (part 0).bind Json.asI64?, (part 1).bind Json.asI64?, (part 2).bind Json.asStr? with
  | some fromId, some toId, some kind => write u sha256 db (.link fromId toId kind)
  | _, _, _ => db

/-- The tools that file by the directory in the arguments, or by the one they share. -/
def State.placed (registry : Table SessionRow.agentId) (thisHost : String) (s : State)
    (args : Json) (now : Int) (tool : String) : State :=
  let projectId := strArg args "project_id"
  let host := (strArg args "host").getD thisHost
  match tool, (strArg args "cwd").bind absolutePath, (strArg args "target").bind absolutePath with
  | "journal_import", some path, _ =>
    match (args.get? "entries").bind Json.asArray? with
    | some es =>
      if es.length ≤ maxImportBatch then
        s.put (projectKey projectId path) path fun db ↦
          (importRun u sha256 (es.map fun e ↦ (now, e)) db).2
      else s
    | none => s
  | "journal_import_links", some path, _ =>
    s.put (projectKey projectId path) path fun db ↦
      if (arrayArg args "links").length ≤ maxImportBatch * 8 then
        (arrayArg args "links").foldl (importedLink u sha256) db
      else db
  | "journal_mindmap_import", some path, _ => s.put (projectKey projectId path) path id
  | "journal_share", _, some target =>
    let caller : Option Reader :=
      match askerOf args false with
      | .ok (.directory host path id) => some ⟨host.getD thisHost, path, id, false⟩
      | .ok asker => asker.works registry thisHost
      | .error _ => none
    match caller with
    | some x =>
      (Journal.share u sha256 s x host target (strArg args "target_project_id") now).2
    | none => s
  | "journal_unshare", _, some target =>
    (Journal.unshare s host target (strArg args "target_project_id")).2
  | _, _, _ => s

end

/-! ### Calls that overlap -/

/-- A call whose caller is found, if its tool looked for one. -/
structure Job where
  caller : Option Caller
  call : ToolCall

/-- The sessions, the journals and the calls on their way. -/
structure Service where
  registry : Table SessionRow.agentId
  state : State
  jobs : List Job

/-- Nothing is filed and nobody calls. -/
def Service.start : Service := ⟨.empty, .empty, []⟩

/-- What happens: sessions come, go and change; a client or a program calls; the tool of a call
runs, unless it stops at arguments of its own; a reminder is sent; old entries are swept out. -/
inductive ServiceAct where
  | sessions (rows : Table SessionRow.agentId)
  | client (tool : String) (args : Json)
  | request (method target : List Char) (body : List UInt8)
  | runs (job : Nat) (now : Int) (old : Insights) (stops : Bool)
  | reminded (key : Key) (id now : Int)
  | swept (now : Int)

section

variable (u : Unicode) (sha256 : String → String) (parse : List UInt8 → Option Json)
  (thisHost version : String)

/-- `dispatch`, up to the journal: the caller is found. -/
def Service.arrive (s : Service) (call : ToolCall) : Service :=
  match needsSession call.tool with
  | none => { s with jobs := s.jobs ++ [⟨none, call⟩] }
  | some needs =>
    if policyRefused call then s
    else
      match askerOf call.args needs >>=
          resolveCaller s.registry thisHost s.state.shares s.state.has needs with
      | .ok c => { s with jobs := s.jobs ++ [⟨some c, call⟩] }
      | .error _ => s

/-- The journals after a call's tool ran. -/
def Service.performed (s : Service) (job : Job) (now : Int) (old : Insights) : State :=
  match job.caller with
  | some c => s.state.openFor u sha256 c old fun db ↦
      toolWrite u sha256 c job.call.args now db job.call.tool
  | none => s.state.placed u sha256 s.registry thisHost job.call.args now job.call.tool

/-- `journal_exists`. -/
def Service.journalExists (s : Service) (project : String) : Bool :=
  s.state.has (projectKey (some project) [])

def Service.next (s : Service) : ServiceAct → Service
  | .sessions rows => { s with registry := rows }
  | .client tool args => s.arrive thisHost (handle tool args)
  | .request method target body =>
    match http u parse s.journalExists version method target body with
    | .tool call => s.arrive thisHost call
    | .reply _ _ => s
  | .runs i now old stops =>
    match s.jobs[i]? with
    | some job =>
      { s with
        state := if stops then s.state else s.performed u sha256 thisHost job now old
        jobs := s.jobs.eraseIdx i }
    | none => s
  | .reminded key id now =>
    { s with state :=
        s.state.file key ((s.state.journals key).map fun db ↦ reminderSent db id now) }
  | .swept now =>
    { s with state :=
        { s.state with journals := fun key ↦
            (s.state.journals key).map fun db ↦ (runGc db now false).2 } }

end

end Claudebase.Journal
