import Claudebase.Base.FileTree
import Claudebase.Chat.Lines

/-!
# What a conversation is packed into

`src/chat_transfer.rs:57–325`, `src/chat_clone.rs:196–246`. A dump has a manifest, the transcript's
complete lines, the files of the two side folders under their paths, and the journal and the mind
maps of the project. Names are taken to be UTF-8; `add_dir` refuses others.
-/

namespace Claudebase.Chat
open Claudebase.Base

/-! ### Archives -/

/-- `MANIFEST`. -/
def manifestName : String := "manifest.json"

/-- `TRANSCRIPT`. -/
def transcriptName : String := "transcript.jsonl"

/-- `SESSION_DIR`. -/
def sessionDir : String := "session"

/-- `FILE_HISTORY_DIR`. -/
def fileHistoryDir : String := "file-history"

/-- `JOURNAL`. -/
def journalName : String := "journal.jsonl"

/-- `MINDMAPS`. -/
def mindmapsName : String := "mindmaps.json"

/-- `FORMAT`. -/
def format : String := "claudebase-chat-dump"

/-- `VERSION`. -/
def version : Nat := 3

/-- `Manifest`. -/
structure Manifest where
  format : String
  version : Nat
  sessionId : String
  title : Option String
  sourceCwd : Option String
  createdAt : String
  claudebaseVersion : String
  nick : Option String
  journalEntries : Option Nat
  mindmaps : Option Nat
  deriving DecidableEq, Repr

/-- What a member of an archive is. -/
inductive Kind where
  | file | dir | other
  deriving DecidableEq, Repr

/-- A component of a member's path: a UTF-8 name, or anything else. -/
inductive Component where
  | normal (name : String)
  | other
  deriving DecidableEq, Repr

/-- A member: what `enclosed_name` makes of its name, its kind, and its bytes. -/
structure Member where
  path : Option (List Component)
  kind : Kind
  data : Bytes

/-- An archive as the zip library gives it: its members, and those found by a name. -/
structure Archive where
  members : List Member
  named : String → Option Bytes

/-- What is packed, by path: the zip library returns what was put in. -/
def pack (packed : List (TreePath × Bytes)) : Archive where
  members := packed.map fun m ↦ ⟨some (m.1.map .normal), .file, m.2⟩
  named name := (packed.find? fun m ↦ m.1 = [name]).map Prod.snd

/-! ### Folders -/

/-- The entries of a folder in the order of their names. -/
inductive Folder where
  | nil
  | file (name : String) (data : Bytes) (rest : Folder)
  | dir (name : String) (sub : Folder) (rest : Folder)
  | other (name : String) (rest : Folder)
  deriving Repr

namespace Folder

/-- The names of the entries. -/
def names : Folder → List String
  | .nil => []
  | .file name _ rest => name :: rest.names
  | .dir name _ rest => name :: rest.names
  | .other name rest => name :: rest.names

/-- No two entries of a folder, or of one in it, have the same name. -/
def Distinct : Folder → Prop
  | .nil => True
  | .file name _ rest => name ∉ rest.names ∧ rest.Distinct
  | .dir name sub rest => name ∉ rest.names ∧ sub.Distinct ∧ rest.Distinct
  | .other name rest => name ∉ rest.names ∧ rest.Distinct

/-- What the file at a path below the folder holds. -/
def read : Folder → TreePath → Option Bytes
  | .nil, _ => none
  | .file name data rest, p => if p = [name] then some data else rest.read p
  | .dir name sub rest, p => if p.head? = some name then sub.read p.tail else rest.read p
  | .other _ rest, p => rest.read p

end Folder

/-- `add_dir`: the regular files of a folder, under `pre`. -/
def addDir (pre : TreePath) : Folder → List (TreePath × Bytes)
  | .nil => []
  | .file name data rest => (pre ++ [name], data) :: addDir pre rest
  | .dir name sub rest => addDir (pre ++ [name]) sub ++ addDir pre rest
  | .other _ rest => addDir pre rest

/-! ### What the manifest says -/

/-- `Serde`, and how a manifest is read and printed. -/
structure Codec extends Serde where
  parseManifest : Bytes → Option Manifest
  printManifest : Manifest → Bytes

/-- The lines, with a torn one. -/
def allLines (bs : Bytes) : List Bytes :=
  (splitLines bs).1 ++ if (splitLines bs).2 = [] then [] else [(splitLines bs).2]

/-- `META_LINE_CAP`. -/
def metaLineCap : Nat := 64 * 1024

/-- The last `custom-title`, `ai-title` and `last-prompt`. -/
structure Titles where
  custom : Option String
  ai : Option String
  lastPrompt : Option String

/-- One line of `transcript_meta`. -/
def Titles.read (serde : Serde) (m : Titles) (line : Bytes) : Titles :=
  if metaLineCap < line.length then m
  else if ¬ (ascii "\"custom-title\"" <:+: line ∨ ascii "\"ai-title\"" <:+: line ∨
      ascii "\"last-prompt\"" <:+: line) then m
  else
    match serde.parse line with
    | none => m
    | some v =>
      match v.str? "type" with
      | some "custom-title" => { m with custom := v.str? "customTitle" }
      | some "ai-title" => { m with ai := v.str? "aiTitle" }
      | some "last-prompt" => { m with lastPrompt := v.str? "lastPrompt" }
      | _ => m

/-- `transcript_meta`: the title and the last prompt. -/
def transcriptMeta (serde : Serde) (bs : Bytes) : Option String × Option String :=
  let m := (allLines bs).foldl (Titles.read serde) ⟨none, none, none⟩
  (m.custom.or m.ai, m.lastPrompt)

/-- `project_root_of` a transcript in the folder `slug`. -/
def projectRootOf (serde : Serde) (slug : String) (bs : Bytes) : Option String :=
  let cwds := ((allLines bs).take 10000).filterMap fun line ↦
    (serde.parse line).bind fun v ↦ v.str? "cwd"
  (cwds.find? fun cwd ↦ projectSlug cwd = slug).or cwds.head?

/-! ### Dumping -/

/-- A conversation as Claude Code keeps it: its id, the project folder it is in, the transcript
and the two side folders. -/
structure Conversation where
  id : String
  slug : String
  transcript : Bytes
  session : Option Folder
  history : Option Folder
  session_distinct : ∀ f, session = some f → f.Distinct
  history_distinct : ∀ f, history = some f → f.Distinct

/-- `DumpExtras`. -/
structure DumpExtras where
  journal : Option (List Json)
  mindmaps : List Json
  nick : Option String

/-- Where and when a dump is made. -/
structure DumpStamp where
  createdAt : String
  claudebaseVersion : String

/-- The manifest of a dump. -/
def manifestOf (codec : Codec) (stamp : DumpStamp) (conv : Conversation) (extras : DumpExtras) :
    Manifest where
  format := format
  version := version
  sessionId := conv.id
  title := (transcriptMeta codec.toSerde conv.transcript).1
  sourceCwd := projectRootOf codec.toSerde conv.slug conv.transcript
  createdAt := stamp.createdAt
  claudebaseVersion := stamp.claudebaseVersion
  nick := extras.nick
  journalEntries := extras.journal.map List.length
  mindmaps := if extras.mindmaps = [] then none else some extras.mindmaps.length

/-- `keep_all`. -/
def keepAll (id : String) : Rewrite := ⟨id, id, [], none⟩

/-- What `dump_conversation` puts into the archive. -/
def dumpMembers (codec : Codec) (stamp : DumpStamp) (conv : Conversation) (extras : DumpExtras) :
    List (TreePath × Bytes) :=
  [([manifestName], codec.printManifest (manifestOf codec stamp conv extras)),
    ([transcriptName], joinLines (rewriteLines codec.toSerde (keepAll conv.id) conv.transcript))] ++
  (conv.session.elim [] (addDir [sessionDir])) ++
  (conv.history.elim [] (addDir [fileHistoryDir])) ++
  (extras.journal.elim [] fun entries ↦ [([journalName], joinLines (entries.map codec.print))]) ++
  if extras.mindmaps = [] then [] else [([mindmapsName], codec.print (.arr extras.mindmaps))]

/-- `dump_conversation`. -/
def dumpConversation (codec : Codec) (stamp : DumpStamp) (conv : Conversation)
    (extras : DumpExtras) : Archive := pack (dumpMembers codec stamp conv extras)

end Claudebase.Chat
