import Claudebase.Base.FileIo
import Claudebase.Chat.Dump

/-!
# Loading a conversation

`src/chat_transfer.rs:334–568`, `src/chat_clone.rs:472–489`. The members of an archive are unpacked
into staging places beside their destinations, and those are renamed: the side folders first, the
transcript last. When something fails the staging places are removed, and the side folders too if
the transcript is not there. Every file operation, and every read of the archive, can fail. Paths
are those of a Unix; a link is what it leads to.
-/

namespace Claudebase.Chat
open Claudebase.Base

/-! ### Ids and requests -/

/-- The ids `Uuid::parse_str` accepts, and two that `Uuid::new_v4` gives: none starts with a dot. -/
structure Ids where
  valid : String → Bool
  newId : String
  tag : String
  valid_newId : valid newId = true
  starts : ∀ s, valid s = true → ∃ c rest, s.toList = c :: rest ∧ c ≠ '.'

/-- What is asked of `load_conversation`. -/
structure LoadRequest where
  claudeDir : TreePath
  cwd : String
  archive : Archive
  newId : Bool
  name : Option String

/-- Why it fails. -/
inductive LoadError where
  | emptyName
  | multilineName
  | noManifest
  | badManifest
  | badFormat (format : String)
  | badVersion (version : Nat) (claudebase : String)
  | badId
  | present (id : String) (path : TreePath)
  | unsafePath
  | unexpected (path : TreePath)
  | notRegular (path : TreePath)
  | noTranscript
  | io
  deriving DecidableEq, Repr

/-- `LoadReport`. -/
structure LoadReport where
  sessionId : String
  sourceId : String
  title : Option String
  transcript : TreePath
  sourceCwd : Option String
  lines : Nat
  nick : Option String
  journalEntries : Nat
  mindmaps : Nat
  deriving DecidableEq, Repr

/-- The programs of this module. -/
abbrev Loading (β : Type) := FileIo LoadError UInt8 β

/-- Where a conversation is put, and where it is unpacked first. -/
structure Places where
  folder : TreePath
  historyRoot : TreePath
  id : String
  tag : String

namespace Places

def transcript (p : Places) : TreePath := p.folder ++ [p.id ++ ".jsonl"]

def session (p : Places) : TreePath := p.folder ++ [p.id]

def history (p : Places) : TreePath := p.historyRoot ++ [p.id]

/-- The name of a staging folder. -/
def stage (p : Places) : String := ".claudebase-load-" ++ p.tag

def stageSession (p : Places) : TreePath := p.folder ++ [p.stage]

def stageHistory (p : Places) : TreePath := p.historyRoot ++ [p.stage]

def stageTranscript (p : Places) : TreePath := p.folder ++ [p.stage ++ ".jsonl"]

end Places

/-- The places of a request that loads the conversation `id`. -/
def LoadRequest.places (req : LoadRequest) (ids : Ids) (id : String) : Places where
  folder := req.claudeDir ++ ["projects", projectSlug req.cwd]
  historyRoot := req.claudeDir ++ ["file-history"]
  id := id
  tag := ids.tag

/-! ### Members -/

/-- Where a member goes: nowhere, to the transcript, or below a side folder. -/
inductive Target where
  | skip
  | transcript
  | session (rest : TreePath)
  | history (rest : TreePath)
  deriving DecidableEq, Repr

/-- A component's name. -/
def Component.name? : Component → Option String
  | .normal name => some name
  | .other => none

/-- The place of a member by its path. -/
def targetOf (path : List Component) : Except LoadError Target :=
  match path.tail.mapM Component.name? with
  | none => .error .unsafePath
  | some rest =>
    match path.head?.bind Component.name? with
    | none => .error (.unexpected rest)
    | some top =>
      if (top = manifestName ∨ top = journalName ∨ top = mindmapsName) ∧ rest = [] then .ok .skip
      else if top = transcriptName ∧ rest = [] then .ok .transcript
      else if top = sessionDir ∧ rest ≠ [] then .ok (.session rest)
      else if top = fileHistoryDir ∧ rest ≠ [] then .ok (.history rest)
      else .error (.unexpected (top :: rest))

/-- The last name has the extension `jsonl`. -/
def isJsonl (path : TreePath) : Bool :=
  path.getLast?.any fun name ↦ decide (".jsonl".toList <:+ name.toList) && name.length > 6

/-- `DROPPED_ON_LOAD`. -/
def droppedOnLoad : List String := ["bridge-session"]

section

variable (host : FileHost UInt8) (serde : Serde) (places : Places) (rw : Rewrite)
  (name : Option String)

/-- One operation. -/
def operate (op : FileOp UInt8) : Loading Unit := FileIo.perform host .io op

/-- A new file with what is read for it: `create_new_file` and `finish_file`. -/
def writeNew (path : TreePath) (data : Bytes) : Loading Unit := do
  operate host (.create path)
  operate host .read
  operate host (.write path data)
  operate host (.sync path)

/-- A member of a side folder. -/
def unpackSide (path : TreePath) (data : Bytes) : Loading Unit := do
  operate host (.makeDirs path.dropLast)
  writeNew host path data

/-- A member that has a place; `lines` counts those of the transcript. -/
def unpackTo (lines : Option Nat) (data : Bytes) : Target → Loading (Option Nat)
  | .skip => pure lines
  | .transcript => do
    let copied := rewriteLines serde rw data
    let titles := name.elim [] (titleLines serde places.id)
    writeNew host places.stageTranscript (joinLines (copied ++ titles))
    pure (some copied.length)
  | .session rest => do
    let data := if isJsonl rest then joinLines (rewriteLines serde rw data) else data
    unpackSide host (places.stageSession ++ rest) data
    pure lines
  | .history rest => do
    unpackSide host (places.stageHistory ++ rest) data
    pure lines

/-- The loop's body for one member. -/
def unpack (lines : Option Nat) (m : Member) : Loading (Option Nat) := do
  operate host .read
  if m.kind = .dir then pure lines
  else
    match m.path with
    | none => throw .unsafePath
    | some path =>
      match targetOf path with
      | .error e => throw e
      | .ok .skip => pure lines
      | .ok target =>
        if m.kind = .file then unpackTo host serde places rw name lines m.data target
        else throw (.notRegular (path.filterMap Component.name?))

/-- A staging folder that was made is renamed. -/
def placeFolder (stage dest : TreePath) : Loading Unit := do
  let made ← FileIo.look fun t ↦ decide (t.node stage = some .dir)
  if made then operate host (.rename stage dest) else pure ()

/-- Unpacking, and the renames. -/
def unpackAll (members : List Member) : Loading Nat := do
  let lines ← members.foldlM (unpack host serde places rw name) none
  match lines with
  | none => throw .noTranscript
  | some lines => do
    placeFolder host places.stageSession places.session
    placeFolder host places.stageHistory places.history
    operate host (.rename places.stageTranscript places.transcript)
    pure lines

/-- What is done when unpacking fails, whatever fails in it. -/
def cleanUp : Loading Unit := do
  let _ ← FileIo.attempt (operate host (.removeTree places.stageSession))
  let _ ← FileIo.attempt (operate host (.removeTree places.stageHistory))
  let _ ← FileIo.attempt (operate host (.removeFile places.stageTranscript))
  let there ← FileIo.look fun t ↦ (t.node places.transcript).isSome
  if there then pure ()
  else do
    let _ ← FileIo.attempt (operate host (.removeTree places.session))
    let _ ← FileIo.attempt (operate host (.removeTree places.history))
    pure ()

end

/-! ### Loading -/

/-- `check_name`. -/
def checkName (name : String) : Except LoadError String :=
  let name := trim name.toList
  if name = [] then .error .emptyName
  else if '\n' ∈ name ∨ '\r' ∈ name then .error .multilineName
  else .ok (String.ofList name)

/-- How much of `manifest.json` is read. -/
def manifestCap : Nat := 1 <<< 20

/-- The manifest of an archive, checked. -/
def readManifest (codec : Codec) (ids : Ids) (archive : Archive) : Except LoadError Manifest :=
  match archive.named manifestName with
  | none => .error .noManifest
  | some data =>
    match codec.parseManifest (data.take manifestCap) with
    | none => .error .badManifest
    | some manifest =>
      if manifest.format ≠ format then .error (.badFormat manifest.format)
      else if version < manifest.version then
        .error (.badVersion manifest.version manifest.claudebaseVersion)
      else if ids.valid manifest.sessionId = false then .error .badId
      else .ok manifest

/-- Where the conversation is already: in its places, or under another project. -/
def existing (host : FileHost UInt8) (claudeDir : TreePath) (places : Places)
    (t : FileTree UInt8) : Option TreePath :=
  let elsewhere := (host.names t (claudeDir ++ ["projects"])).map fun slug ↦
    claudeDir ++ ["projects", slug, places.id ++ ".jsonl"]
  ([places.transcript, places.session, places.history] ++
    elsewhere.filter fun path ↦ t.IsFile path).find? fun path ↦ (t.node path).isSome

/-- What a program goes on with. -/
def orThrow {β : Type} : Except LoadError β → Loading β
  | .ok b => pure b
  | .error e => throw e

/-- `load_conversation`. -/
def loadConversation (host : FileHost UInt8) (codec : Codec) (ids : Ids) (req : LoadRequest) :
    Loading LoadReport := do
  let name ← orThrow (req.name.mapM checkName)
  operate host .read
  let manifest ← orThrow (readManifest codec ids req.archive)
  let id := if req.newId then ids.newId else manifest.sessionId
  let places := req.places ids id
  let found ← FileIo.look (existing host req.claudeDir places)
  match found with
  | some path => throw (.present id path)
  | none => do
    operate host (.makeDirs places.folder)
    operate host (.makeDirs places.historyRoot)
    let rw : Rewrite := ⟨manifest.sessionId, id, droppedOnLoad,
      manifest.sourceCwd.map fun src ↦ (src, req.cwd)⟩
    let result ← FileIo.attempt (unpackAll host codec.toSerde places rw name req.archive.members)
    match result with
    | .ok lines => pure {
        sessionId := id
        sourceId := manifest.sessionId
        title := name.or manifest.title
        transcript := places.transcript
        sourceCwd := manifest.sourceCwd
        lines := lines
        nick := if req.newId then none else manifest.nick
        journalEntries := manifest.journalEntries.getD 0
        mindmaps := manifest.mindmaps.getD 0 }
    | .error e => do
      cleanUp host places
      throw e

/-! ### What the daemon is given -/

/-- Why reading the journal or the mind maps fails. -/
inductive ReadError where
  | notText (line : Nat)
  | notJson (line : Nat)
  | notEntry (line : Nat)
  | tooMany
  | notMaps
  deriving DecidableEq, Repr

/-- `MAX_JOURNAL_BYTES`. -/
def maxJournalBytes : Nat := 256 <<< 20

/-- `MAX_JOURNAL_ENTRIES`. -/
def maxJournalEntries : Nat := 200000

/-- `MAX_MINDMAPS_BYTES`. -/
def maxMindmapsBytes : Nat := 64 <<< 20

/-- The text of bytes that are UTF-8. -/
def textOf (bs : Bytes) : Option String := String.fromUTF8? ⟨bs.toArray⟩

/-- `BufRead::lines`: a line that ends in a newline loses a carriage return before it too. -/
def readLines (bs : Bytes) : List Bytes :=
  (splitLines bs).1.map (fun line ↦ if line.getLast? = some 13 then line.dropLast else line) ++
    if (splitLines bs).2 = [] then [] else [(splitLines bs).2]

/-- One line of `journal.jsonl`. -/
def readEntry (serde : Serde) (out : List Json) (line : Bytes × Nat) :
    Except ReadError (List Json) :=
  match textOf line.1 with
  | none => .error (.notText (line.2 + 1))
  | some text =>
    if trim text.toList = [] then .ok out
    else
      match serde.parse line.1 with
      | none => .error (.notJson (line.2 + 1))
      | some (.obj fields) =>
        if maxJournalEntries < out.length + 1 then .error .tooMany
        else .ok (out ++ [.obj fields])
      | some _ => .error (.notEntry (line.2 + 1))

/-- `read_journal`. -/
def readJournal (serde : Serde) (archive : Archive) : Except ReadError (List Json) :=
  match archive.named journalName with
  | none => .ok []
  | some data =>
    (readLines (data.take maxJournalBytes)).zipIdx.foldlM (readEntry serde) []

/-- `read_mindmaps`. -/
def readMindmaps (serde : Serde) (archive : Archive) : Except ReadError (List Json) :=
  match archive.named mindmapsName with
  | none => .ok []
  | some data =>
    match serde.parse (data.take maxMindmapsBytes) with
    | none => .error (.notJson 0)
    | some (.arr maps) => .ok maps
    | some _ => .error .notMaps

end Claudebase.Chat
