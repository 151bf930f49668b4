import Claudebase.Journal.Grows

/-!
# Who wrote an entry

`src/daemon/journal_tools.rs:36–61,122–158,393–412,432–503`, `src/daemon/api.rs:65–92`,
`src/journal.rs:506–588,616–640`. An entry is signed by the agent that called `journal_add`: a
session that showed its token, or a program the API lets in, which a request names. No client
vouches for a program, no program for a session, and an archive signs nothing.
-/

namespace Claudebase.Base.Json

/-! ### Fields -/

theorem lookup_filter_ne {α : Type} (key k : String) (fields : List (String × α)) :
    (fields.filter fun f ↦ f.1 ≠ key).lookup k = if k = key then none else fields.lookup k := by
  induction fields with
  | nil => simp
  | cons f fields ih =>
    obtain ⟨name, v⟩ := f
    by_cases hname : name = key
    · rw [List.filter_cons_of_neg (by simp [hname]), ih]
      by_cases hk : k = key
      · simp [hk]
      · have hne : (k == name) = false := by simp [hname, hk]
        rw [List.lookup_cons, hne]
    · rw [List.filter_cons_of_pos (by simp [hname]), List.lookup_cons, List.lookup_cons, ih]
      by_cases hk : k = key
      · have hne : (k == name) = false := by
          rw [hk]
          simp [Ne.symm hname]
        rw [hne, if_pos hk]
      · rw [if_neg hk, if_neg hk]

@[simp] theorem get?_remove (v : Json) (key k : String) :
    (v.remove key).get? k = if k = key then none else v.get? k := by
  cases v with
  | obj fields => exact lookup_filter_ne key k fields
  | _ =>
    split
    · rfl
    · rfl

theorem get?_removes (keys : List String) (v : Json) (k : String) :
    (keys.foldl remove v).get? k = if k ∈ keys then none else v.get? k := by
  induction keys generalizing v with
  | nil => simp
  | cons key keys ih =>
    rw [List.foldl_cons, ih, get?_remove]
    by_cases hk : k ∈ keys
    · simp [hk]
    · simp [hk]

theorem get?_insert_of_ne (v w : Json) {key k : String} (h : k ≠ key) :
    (v.insert key w).get? k = v.get? k := by
  cases v with
  | obj fields =>
    rw [insert, get?, List.lookup_cons]
    have hne : (k == key) = false := by simp [h]
    rw [hne]
    exact (lookup_filter_ne key k fields).trans (if_neg h)
  | _ => rfl

/-- A value that is not an object keeps no field; an object keeps what is inserted. -/
theorem get?_insert_obj (fields : List (String × Json)) (key : String) (w : Json) :
    ((Json.obj fields).insert key w).get? key = some w := by
  rw [insert, get?, List.lookup_cons_self]

end Claudebase.Base.Json

namespace Claudebase.Journal
open Claudebase.Base

/-! ### What journals hold -/

/-- What is signed, and what comes back as a reminder, was sent. -/
structure Vouched (sent : NewEntry → Prop) (db : Db) : Prop where
  signed : ∀ e ∈ db.entries.rows, e.agentId = none ∨ ∃ n, sent n ∧ Says e n
  asked : ∀ r ∈ db.entryReminders.rows, ∃ n, sent n ∧ n.wish = some r.wish

/-- Adding `n` signs nothing, and asks for nothing, that was not sent. -/
structure Backed (sent : NewEntry → Prop) (n : NewEntry) : Prop where
  signed : ∀ e, Says e n → e.agentId = none ∨ ∃ m, sent m ∧ Says e m
  asked : ∀ w, n.wish = some w → ∃ m, sent m ∧ m.wish = some w

theorem Backed.of_sent {sent : NewEntry → Prop} {n : NewEntry} (h : sent n) : Backed sent n :=
  ⟨fun _ he ↦ Or.inr ⟨n, h, he⟩, fun _ hw ↦ ⟨n, h, hw⟩⟩

/-- An entry without a signature and without a reminder. -/
theorem Backed.of_unsigned {sent : NewEntry → Prop} {n : NewEntry} (hsigned : n.agentId = none)
    (hasked : n.remindEvery = none) : Backed sent n := by
  constructor
  · intro e he
    rw [he.agentId, hsigned]
    exact Or.inl rfl
  · intro w hw
    rw [NewEntry.wish, hasked] at hw
    cases hw

theorem vouched_empty (sent : NewEntry → Prop) : Vouched sent .empty :=
  ⟨List.forall_mem_nil _, List.forall_mem_nil _⟩

section

variable {sent new : NewEntry → Prop} {db db' : Db}

theorem Vouched.mono {sent' : NewEntry → Prop} (h : Vouched sent db)
    (hsub : ∀ n, sent n → sent' n) : Vouched sent' db := by
  constructor
  · intro e he
    exact (h.signed e he).imp_right fun ⟨n, hn, hsays⟩ ↦ ⟨n, hsub n hn, hsays⟩
  · intro r hr
    obtain ⟨n, hn, hwish⟩ := h.asked r hr
    exact ⟨n, hsub n hn, hwish⟩

/-- What grows by backed entries goes on holding what was sent. -/
theorem Vouched.grows (h : Vouched sent db) (hgrows : Grows new db db')
    (hnew : ∀ n, new n → Backed sent n) : Vouched sent db' := by
  constructor
  · intro e he
    rcases hgrows.entries e he with hold | ⟨n, hn, hsays⟩
    · exact h.signed e hold
    · exact (hnew n hn).signed e hsays
  · intro r hr
    rcases hgrows.reminders r hr with ⟨x, hx, hwish⟩ | ⟨n, hn, hwish⟩
    · rw [← hwish]
      exact h.asked x hx
    · exact (hnew n hn).asked _ hwish

/-- An entry of a journal is copied with its signature. -/
theorem Vouched.foreign {e : Entry} (h : Vouched sent db) (he : e ∈ db.entries.rows) :
    Backed sent (foreignEntry db e) := by
  constructor
  · intro copy hcopy
    rcases h.signed e he with hnone | ⟨n, hn, hsays⟩
    · apply Or.inl
      rw [hcopy.agentId]
      show clean e.agentId = none
      rw [hnone, clean_none]
    · exact Or.inr ⟨n, hn, hsays.copied hcopy⟩
  · intro w hw
    cases hw

end

/-! ### Files -/

/-- Every journal holds what was sent. -/
def Filed (sent : NewEntry → Prop) (s : State) : Prop :=
  ∀ key db, s.journals key = some db → Vouched sent db

section

variable {u : Unicode} {sha256 : String → String} {sent : NewEntry → Prop} {s : State}

theorem Filed.getD (h : Filed sent s) (key : Key) :
    Vouched sent ((s.journals key).getD .empty) := by
  cases hdb : s.journals key with
  | none => exact vouched_empty sent
  | some db => exact h key db hdb

theorem Filed.file (h : Filed sent s) {key : Key} {file : Option Db}
    (hfile : ∀ db, file = some db → Vouched sent db) : Filed sent (s.file key file) := by
  intro k db hdb
  unfold State.file at hdb
  dsimp only at hdb
  split at hdb
  · exact hfile db hdb
  · exact h k db hdb

theorem Filed.route (h : Filed sent s) (r : ShareRow) : Filed sent (s.route r) := h

/-- Adopting only moves a journal. -/
theorem Filed.adopt (h : Filed sent s) (key : Key) (path : Path) :
    Filed sent ⟨s.shares, Journal.adopt s.journals key path⟩ := by
  intro k db hdb
  change Journal.adopt s.journals key path k = some db at hdb
  unfold Journal.adopt at hdb
  split at hdb
  · exact h k db hdb
  · dsimp only at hdb
    split at hdb
    · exact h _ db hdb
    · split at hdb
      · cases hdb
      · exact h k db hdb

theorem Filed.put (h : Filed sent s) (key : Key) (path : Path) {f : Db → Db}
    (hf : ∀ db, Vouched sent db → Vouched sent (f db)) : Filed sent (s.put key path f) := by
  intro k db hdb
  unfold State.put at hdb
  dsimp only at hdb
  split at hdb
  · cases hdb
    exact hf _ ((h.adopt key path).getD key)
  · exact h.adopt key path k db hdb

theorem vouched_importLegacyInsights {db : Db} (path : Path) (old : Insights)
    (h : Vouched sent db) : Vouched sent (importLegacyInsights u sha256 path old db) := by
  apply h.grows (grows_importLegacyInsights path old)
  rintro n ⟨o, rfl⟩
  exact .of_unsigned rfl rfl

theorem Filed.openFor (h : Filed sent s) (c : Caller) (old : Insights) {f : Db → Db}
    (hf : ∀ db, Vouched sent db → Vouched sent (f db)) :
    Filed sent (s.openFor u sha256 c old f) := by
  unfold State.openFor
  split
  · exact h.put _ _ fun db hdb ↦ hf _ (vouched_importLegacyInsights _ old hdb)
  · split
    · next db hdb =>
      apply h.file
      rintro _ ⟨⟩
      exact hf db (h _ db hdb)
    · exact h

/-- A share merges one journal into the other, with all signatures. -/
theorem Filed.share (h : Filed sent s) (caller : Reader) (host : String) (target : Path)
    (projectId : Option String) (now : Int) :
    Filed sent (Journal.share u sha256 s caller host target projectId now).2 := by
  unfold Journal.share
  dsimp only
  split
  · split
    · exact h
    · exact h
  · split
    · exact h
    · split
      · apply Filed.route
        apply h.file
        rintro _ ⟨⟩
        exact h.getD _
      · next src hsrc =>
        have hmerged : Vouched sent (mergeEntries u sha256
            ((s.journals (resolve s.shares s.has caller)).getD .empty) src).2 := by
          apply (h.getD _).grows (grows_mergeEntries _ src)
          rintro n ⟨e, he, rfl⟩
          exact (h _ src hsrc).foreign he
        have hfile : ∀ dst, (mergeEntries u sha256
            ((s.journals (resolve s.shares s.has caller)).getD .empty) src).2 = dst →
            Filed sent (s.file (resolve s.shares s.has caller) (some dst)) := by
          rintro dst rfl
          apply h.file
          rintro _ ⟨⟩
          exact hmerged
        split
        · next hm => exact hfile _ (congrArg Prod.snd hm)
        · next hm =>
          apply Filed.route
          apply (hfile _ (congrArg Prod.snd hm)).file
          exact nofun

theorem Filed.unshare (h : Filed sent s) (host : String) (target : Path)
    (projectId : Option String) : Filed sent (Journal.unshare s host target projectId).2 := by
  unfold Journal.unshare
  split
  · exact h
  · dsimp only
    split
    · exact h
    · next src hsrc =>
      split
      · exact h
      · apply Filed.file
        · exact h
        · rintro _ ⟨⟩
          exact h _ src hsrc

theorem Filed.placed {registry : Table SessionRow.agentId} {thisHost : String} (h : Filed sent s)
    (args : Json) (now : Int) (tool : String) :
    Filed sent (s.placed u sha256 registry thisHost args now tool) := by
  unfold State.placed
  dsimp only
  split
  · split
    · split
      · apply h.put
        intro db hdb
        apply hdb.grows (grows_importRun _ db)
        rintro n ⟨e, rfl⟩
        exact .of_unsigned rfl rfl
      · exact h
    · exact h
  · apply h.put
    intro db hdb
    split
    · exact hdb.grows (@grows_foldl (fun _ ↦ False) _ _ (fun _ l ↦ grows_importedLink l) _ db)
        fun _ ↦ False.elim
    · exact hdb
  · exact h.put _ _ fun _ hdb ↦ hdb
  · split
    · exact h.share _ _ _ _ _
    · exact h
  · exact h.unshare _ _ _
  · exact h

end

/-! ### Who sends -/

/-- The entry that is asked for depends on the fields it is read from. -/
theorem addEntry_congr {c : Caller} {args args' : Json}
    (h : ∀ key ∈ ["body", "category", "tags", "salience", "agent", "session_id", "feature",
      "source_artifact", "flags", "proofs", "every_secs"], args.get? key = args'.get? key) :
    addEntry c args = addEntry c args' := by
  simp only [List.mem_cons, List.not_mem_nil, or_false, forall_eq_or_imp, forall_eq] at h
  obtain ⟨hbody, hcategory, htags, hsalience, hagent, hsession, hfeature, hartifact, hflags,
    hproofs, hevery⟩ := h
  simp only [addEntry, strArg, strList, arrayArg, Json.str?, hbody, hcategory, htags, hsalience,
    hagent, hsession, hfeature, hartifact, hflags, hproofs, hevery]

/-- The caller behind a program. -/
def programCaller (projectId author : String) : Caller :=
  ⟨projectKey (some projectId) (apiPath projectId), apiPath projectId, some s!"api:{author}",
    some author, some "api"⟩

section

variable (u : Unicode) (parse : List UInt8 → Option Json) (thisHost version : String)

/-- An act that sends an entry to be added, with proof of who it is by: a call with the token of a
live session, or a request of the API with a repository and an author. A program is the agent its
entries show, and gets no reminder. -/
def Sends (s : Service) (n : NewEntry) : ServiceAct → Prop
  | .client tool args => tool = "journal_add" ∧ ∃ agentId token row project path,
      strArg args "agent_id" = some agentId ∧ strArg args "session_token" = some token ∧
      resolveSessionToken s.registry agentId token = true ∧
      s.registry.get? agentId = some row ∧
      n = addEntry ⟨project, path, some agentId, row.agentName,
        some (row.host.getD thisHost)⟩ args
  | .request method target body => ∃ fields id author,
      http u parse s.journalExists version method target body =
        .tool (handleApi "journal_add" id author (apiArgs "journal_add" author (.obj fields))) ∧
      parse body = some (.obj fields) ∧ author = textArg (.obj fields) "author" ∧ author ≠ "" ∧
      canonical u (textArg (.obj fields) "project_id") = some id ∧
      n = { addEntry (programCaller (trimmed id) author) (.obj fields) with
        agent := some author, remindEvery := none }
  | _ => False

end

section

variable {u : Unicode} {parse : List UInt8 → Option Json} {thisHost version : String}
  {s : Service}

/-- A client's call resolves to a session with its token, for a tool that needs one. -/
theorem sends_of_client {args : Json} {c : Caller}
    (h : (askerOf (args.remove apiCaller) true >>= resolveCaller s.registry thisHost
      s.state.shares s.state.has true) = .ok c) :
    Sends u parse thisHost version s (addEntry c (args.remove apiCaller))
      (.client "journal_add" args) := by
  have hfield : ∀ key, key ≠ apiCaller → (args.remove apiCaller).get? key = args.get? key := by
    intro key hkey
    rw [Json.get?_remove, if_neg hkey]
  have htext : ∀ key, key ≠ apiCaller → strArg (args.remove apiCaller) key = strArg args key := by
    intro key hkey
    rw [strArg, strArg, Json.str?, Json.str?, hfield key hkey]
  have hentry : ∀ c, addEntry c (args.remove apiCaller) = addEntry c args := by
    intro c
    apply addEntry_congr
    intro key hkey
    apply hfield
    rintro rfl
    revert hkey
    decide
  obtain ⟨asker, hasker, hresolved⟩ := bind_eq_ok.mp h
  have hnone : (args.remove apiCaller).get? apiCaller = none := by simp
  rw [askerOf, hnone, htext "agent_id" (by decide), htext "session_token" (by decide)] at hasker
  dsimp only at hasker
  split at hasker
  · next agentId token hagent htoken =>
    cases hasker
    rw [resolveCaller] at hresolved
    split at hresolved
    · next hlive =>
      split at hresolved
      · cases hresolved
      · next row hrow =>
        split at hresolved
        · cases hresolved
        · next path hcwd =>
          cases hresolved
          rw [hentry]
          exact ⟨rfl, agentId, token, row, _, path, hagent, htoken, hlive, hrow, rfl⟩
    · cases hresolved
  · cases hasker
    cases hresolved

/-- A text that is trimmed stays so behind a mark. -/
theorem trim_append {mark s : List Char} {c : Char} (hmark : mark.head? = some c)
    (hc : isWhitespace c = false) (hs : trim s = s) (hne : s ≠ []) :
    trim (mark ++ s) = mark ++ s := by
  obtain ⟨rest, rfl⟩ := List.head?_eq_some_iff.mp hmark
  have hfront : (c :: rest ++ s).dropWhile isWhitespace = c :: rest ++ s :=
    List.dropWhile_cons_of_neg (by simp [hc])
  have hback : s.reverse.dropWhile isWhitespace = s.reverse := by
    have hlast : (s.dropWhile isWhitespace).reverse.dropWhile isWhitespace = s.reverse := by
      rw [← List.reverse_eq_iff]
      exact hs
    rw [← hlast]
    exact List.dropWhile_idempotent isWhitespace _
  have hempty : s.reverse.isEmpty = false := by simp [hne]
  rw [trim, trimMatches, hfront, List.reverse_append, List.dropWhile_append, hback, hempty]
  simp

theorem trimmed_api {author : String} (h : trimmed author = author) (hne : author ≠ "") :
    trimmed s!"api:{author}" = s!"api:{author}" := by
  have htext : s!"api:{author}" = String.ofList ("api:".toList ++ author.toList) := by
    apply String.toList_inj.mp
    rw [String.toList_append, String.toList_ofList]
    rfl
  have hs : trim author.toList = author.toList := by
    have hlist := congrArg String.toList h
    rwa [trimmed, String.toList_ofList] at hlist
  have hmark : "api:".toList.head? = some 'a' := by decide
  rw [htext, trimmed, String.toList_ofList, trim_append hmark (by decide) hs (by simpa using hne)]

/-- The signature that is sent is trimmed. -/
theorem clean_of_sends {n : NewEntry} {act : ServiceAct}
    (h : Sends u parse thisHost version s n act) : clean n.agentId = n.agentId := by
  cases act with
  | client tool args =>
    obtain ⟨-, agentId, token, row, project, path, hagent, -, -, -, rfl⟩ := h
    show clean (some agentId) = some agentId
    rw [← hagent, strArg, clean_clean]
  | request method target body =>
    obtain ⟨fields, id, author, -, -, hauthor, hne, -, rfl⟩ := h
    have htrimmed : trimmed author = author := by rw [hauthor, textArg, trimmed_trimmed]
    apply clean_eq_some_iff.mpr
    refine ⟨⟨_, rfl, trimmed_api htrimmed hne⟩, ?_⟩
    intro hempty
    have hlist := congrArg String.toList hempty
    rw [String.toList_append] at hlist
    exact absurd (List.append_eq_nil_iff.mp hlist).1 (by decide)
  | _ => exact h.elim

/-- An object stays one when fields are taken away. -/
theorem exists_removes (keys : List String) (fields : List (String × Json)) :
    ∃ left, keys.foldl Json.remove (.obj fields) = .obj left := by
  induction keys generalizing fields with
  | nil => exact ⟨fields, rfl⟩
  | cons key keys ih => exact ih _

/-- What a program sends is what it posted, by itself and without a reminder. -/
theorem addEntry_apiArgs {fields : List (String × Json)} {id author : String} {c : Caller}
    (hauthor : clean (some author) = some author) :
    addEntry c (handleApi "journal_add" id author
      (apiArgs "journal_add" author (.obj fields))).args =
      { addEntry c (.obj fields) with agent := some author, remindEvery := none } := by
  obtain ⟨left, hleft⟩ := exists_removes (fieldsDenied ++ ["project_id", "author"]) fields
  obtain ⟨args, hargs⟩ : ∃ args, args = ((Json.obj left).insert "agent" (.str author)).insert
      apiCaller (.obj [("project_id", .str id), ("author", .str author)]) := ⟨_, rfl⟩
  have hcall : (handleApi "journal_add" id author
      (apiArgs "journal_add" author (.obj fields))).args = args := by
    rw [hargs, handleApi, apiArgs, if_pos rfl, hleft]
  have hkept : ∀ key, key ∉ fieldsDenied ++ ["project_id", "author"] → key ≠ "agent" →
      key ≠ apiCaller → args.get? key = (Json.obj fields).get? key := by
    intro key hkey hagent hcaller
    rw [hargs, Json.get?_insert_of_ne _ _ hcaller, Json.get?_insert_of_ne _ _ hagent, ← hleft,
      Json.get?_removes, if_neg hkey]
  have hagent : args.get? "agent" = some (.str author) := by
    rw [hargs, Json.get?_insert_of_ne _ _ (by decide), Json.get?_insert_obj]
  have hevery : args.get? "every_secs" = none := by
    rw [hargs, Json.get?_insert_of_ne _ _ (by decide), Json.get?_insert_of_ne _ _ (by decide),
      ← hleft, Json.get?_removes, if_pos (by decide)]
  have hname : strArg args "agent" = some author := by
    rw [strArg, Json.str?, hagent]
    exact hauthor
  rw [hcall]
  simp only [addEntry, hname, hevery, Option.some_or, Option.bind_none]
  simp only [strArg, strList, arrayArg, Json.str?, hkept "body" (by decide) (by decide) (by decide),
    hkept "category" (by decide) (by decide) (by decide),
    hkept "tags" (by decide) (by decide) (by decide),
    hkept "salience" (by decide) (by decide) (by decide),
    hkept "session_id" (by decide) (by decide) (by decide),
    hkept "feature" (by decide) (by decide) (by decide),
    hkept "source_artifact" (by decide) (by decide) (by decide),
    hkept "flags" (by decide) (by decide) (by decide),
    hkept "proofs" (by decide) (by decide) (by decide)]

/-- What is asked of a request before its tool runs. -/
theorem tool_of_apiCall {tool : String} {body : List UInt8} {journalExists : String → Bool}
    {call : ToolCall} (h : apiCall u parse journalExists tool body = .tool call) :
    ∃ fields id author, parse body = some (.obj fields) ∧
      canonical u (textArg (.obj fields) "project_id") = some id ∧
      author = textArg (.obj fields) "author" ∧ author ≠ "" ∧
      (tool ∈ creates ∨ journalExists id = true) ∧
      call = handleApi tool id author (apiArgs tool author (.obj fields)) := by
  unfold apiCall at h
  split at h
  · next fields hbody =>
    dsimp only at h
    split at h
    · cases h
    · next id hid =>
      split at h
      · cases h
      · next hauthor =>
        split at h
        · cases h
        · next hexists =>
          cases h
          refine ⟨fields, id, _, hbody, hid, rfl, hauthor, ?_, rfl⟩
          simp only [not_and, Bool.not_eq_false] at hexists
          exact or_iff_not_imp_left.mpr hexists
  · cases h

/-- A request that is let through to a tool is a call of the API, or asks for the projects. -/
theorem tool_of_http {method target : List Char} {body : List UInt8} {call : ToolCall}
    {journalExists : String → Bool}
    (h : http u parse journalExists version method target body = .tool call) :
    call = handle "journal_projects" (.obj []) ∨
      ((∃ op ∈ journalOps, apiCall u parse journalExists ("journal_" ++ op) body = .tool call) ∨
        ∃ op, op ∉ mindmapDenied ∧
          apiCall u parse journalExists ("journal_mindmap_" ++ op) body = .tool call) := by
  unfold http at h
  dsimp only at h
  split at h
  · split at h
    · cases h
    · split at h
      · cases h
        exact Or.inl rfl
      · cases h
  · split at h
    · next hroute => exact Or.inr (Or.inl ⟨_, hroute.2.2.2, h⟩)
    · split at h
      · next hroute => exact Or.inr (Or.inr ⟨_, hroute.2.2.2, h⟩)
      · cases h
  · cases h

theorem exists_apiArgs (tool author : String) (fields : List (String × Json)) :
    ∃ left, apiArgs tool author (.obj fields) = .obj left := by
  obtain ⟨left, hleft⟩ := exists_removes (fieldsDenied ++ ["project_id", "author"]) fields
  unfold apiArgs
  rw [hleft]
  dsimp only
  split
  · exact ⟨_, rfl⟩
  · exact ⟨left, rfl⟩

/-- The caller behind a call of the API is the program, and nobody else. -/
theorem caller_of_handleApi {tool id author : String} {fields : List (String × Json)}
    {needs : Bool} {shares : Table ShareRow.key} {has : Key → Bool} {c : Caller}
    {registry : Table SessionRow.agentId} (hauthor : clean (some author) = some author)
    (h : (askerOf (handleApi tool id author (apiArgs tool author (.obj fields))).args needs >>=
      resolveCaller registry thisHost shares has needs) = .ok c) :
    c = programCaller (trimmed id) author := by
  obtain ⟨left, hleft⟩ := exists_apiArgs tool author fields
  obtain ⟨asker, hasker, hresolved⟩ := bind_eq_ok.mp h
  rw [askerOf, handleApi, hleft, Json.get?_insert_obj] at hasker
  obtain ⟨projectId, hproject, hasker⟩ := bind_eq_ok.mp hasker
  obtain ⟨name, hname, hasker⟩ := bind_eq_ok.mp hasker
  cases hasker
  cases hresolved
  obtain ⟨⟨raw, hraw, rfl⟩, -⟩ := clean_eq_some_iff.mp (okOr_eq_ok.mp hproject)
  cases hraw
  have hsame : some author = some name := hauthor.symm.trans (okOr_eq_ok.mp hname)
  cases hsame
  rfl

/-- A request that is let through to `journal_add` sends an entry. -/
theorem sends_of_request {method target : List Char} {body : List UInt8} {call : ToolCall}
    {c : Caller} (hcall : http u parse s.journalExists version method target body = .tool call)
    (htool : call.tool = "journal_add")
    (h : (askerOf call.args true >>= resolveCaller s.registry thisHost s.state.shares s.state.has
      true) = .ok c) :
    Sends u parse thisHost version s (addEntry c call.args) (.request method target body) := by
  have hshape : ∃ tool, apiCall u parse s.journalExists tool body = .tool call := by
    rcases tool_of_http hcall with rfl | ⟨op, -, hop⟩ | ⟨op, -, hop⟩
    · exact absurd htool (by decide)
    · exact ⟨_, hop⟩
    · exact ⟨_, hop⟩
  obtain ⟨tool, hshape⟩ := hshape
  obtain ⟨fields, id, author, hbody, hid, hauthor, hne, -, rfl⟩ := tool_of_apiCall hshape
  obtain rfl : tool = "journal_add" := htool
  have hclean : clean (some author) = some author := by
    apply clean_eq_some_iff.mpr
    refine ⟨⟨author, rfl, ?_⟩, hne⟩
    rw [hauthor, textArg, trimmed_trimmed]
  refine ⟨fields, id, author, hcall, hbody, hauthor, hne, hid, ?_⟩
  rw [addEntry_apiArgs hclean, caller_of_handleApi hclean h]

end

/-! ### Runs -/

section

variable (u : Unicode) (sha256 : String → String) (parse : List UInt8 → Option Json)
  (thisHost version : String)

/-- The entry is sent by a step of the run. -/
def SentIn (acts : List ServiceAct) (n : NewEntry) : Prop :=
  ∃ t ∈ trace (Service.next u sha256 parse thisHost version) .start acts,
    Sends u parse thisHost version t.before n t.op

end

section

variable {u : Unicode} {sha256 : String → String} {parse : List UInt8 → Option Json}
  {thisHost version : String} {s : Service} {sent : NewEntry → Prop}

/-- A call on its way was made before, or it just came and its caller was found. -/
theorem mem_arrive {call : ToolCall} {job : Job} (h : job ∈ (s.arrive thisHost call).jobs) :
    job ∈ s.jobs ∨ job.call = call ∧ ∀ c, job.caller = some c →
      ∃ needs, needsSession call.tool = some needs ∧ (askerOf call.args needs >>=
        resolveCaller s.registry thisHost s.state.shares s.state.has needs) = .ok c := by
  unfold Service.arrive at h
  split at h
  · rcases List.mem_append.mp h with hold | hnew
    · exact Or.inl hold
    · rw [List.mem_singleton] at hnew
      subst hnew
      exact Or.inr ⟨rfl, nofun⟩
  · next needs hneeds =>
    split at h
    · exact Or.inl h
    · split at h
      · next c hc =>
        rcases List.mem_append.mp h with hold | hnew
        · exact Or.inl hold
        · rw [List.mem_singleton] at hnew
          subst hnew
          refine Or.inr ⟨rfl, ?_⟩
          rintro _ ⟨⟩
          exact ⟨needs, hneeds, hc⟩
      · exact Or.inl h

theorem state_arrive (call : ToolCall) : (s.arrive thisHost call).state = s.state := by
  unfold Service.arrive
  split
  · rfl
  · split
    · rfl
    · split
      · rfl
      · rfl

/-- A call that writes an entry was sent by its caller. -/
def Sourced (sent : NewEntry → Prop) (job : Job) : Prop :=
  ∀ c, job.caller = some c → job.call.tool = "journal_add" → sent (addEntry c job.call.args)

/-- Journals hold what was sent, and calls on their way were sent. -/
structure Genuine (sent : NewEntry → Prop) (s : Service) : Prop where
  filed : Filed sent s.state
  jobs : ∀ job ∈ s.jobs, Sourced sent job

theorem Genuine.mono {sent' : NewEntry → Prop} (h : Genuine sent s)
    (hsub : ∀ n, sent n → sent' n) : Genuine sent' s :=
  ⟨fun key db hdb ↦ (h.filed key db hdb).mono hsub,
    fun job hjob c hc htool ↦ hsub _ (h.jobs job hjob c hc htool)⟩

theorem Genuine.arrive {call : ToolCall} (h : Genuine sent s)
    (hcall : ∀ c, call.tool = "journal_add" → (askerOf call.args true >>=
      resolveCaller s.registry thisHost s.state.shares s.state.has true) = .ok c →
        sent (addEntry c call.args)) : Genuine sent (s.arrive thisHost call) := by
  constructor
  · rw [state_arrive]
    exact h.filed
  · intro job hjob c hc htool
    rcases mem_arrive hjob with hold | ⟨hsame, hresolved⟩
    · exact h.jobs job hold c hc htool
    · obtain ⟨needs, hneeds, hok⟩ := hresolved c hc
      rw [hsame] at htool ⊢
      rw [htool] at hneeds
      have htrue : needsSession "journal_add" = some true := by decide
      cases htrue.symm.trans hneeds
      exact hcall c htool hok

/-- One step of the daemon, where what is sent in it counts as sent. -/
theorem Genuine.next {act : ServiceAct} (h : Genuine sent s)
    (hsends : ∀ n, Sends u parse thisHost version s n act → sent n) :
    Genuine sent (s.next u sha256 parse thisHost version act) := by
  cases act with
  | sessions rows => exact ⟨h.filed, h.jobs⟩
  | client tool args =>
    apply h.arrive
    intro c htool hok
    obtain rfl : tool = "journal_add" := htool
    exact hsends _ (sends_of_client hok)
  | request method target body =>
    unfold Service.next
    dsimp only
    split
    · next call hcall =>
      exact h.arrive fun c htool hok ↦ hsends _ (sends_of_request hcall htool hok)
    · exact h
  | runs i now old stops =>
    unfold Service.next
    dsimp only
    split
    · next job hjob =>
      have hsource := h.jobs job (List.mem_of_getElem? hjob)
      constructor
      · dsimp only
        split
        · exact h.filed
        · unfold Service.performed
          split
          · next c hc =>
            apply h.filed.openFor
            intro db hdb
            apply hdb.grows (grows_toolWrite c _ now _)
            rintro n ⟨htool, rfl⟩
            exact .of_sent (hsource c hc htool)
          · exact h.filed.placed _ _ _
      · exact fun job hjob ↦ h.jobs job (List.mem_of_mem_eraseIdx hjob)
    · exact h
  | reminded key id now =>
    refine ⟨?_, h.jobs⟩
    apply h.filed.file
    intro db hdb
    obtain ⟨before, hbefore, rfl⟩ := Option.map_eq_some_iff.mp hdb
    exact (h.filed key before hbefore).grows (@grows_reminderSent _ (fun _ ↦ False) id now)
      fun _ ↦ False.elim
  | swept now =>
    refine ⟨?_, h.jobs⟩
    intro key db hdb
    obtain ⟨before, hbefore, rfl⟩ := Option.map_eq_some_iff.mp hdb
    exact (h.filed key before hbefore).grows (@grows_runGc _ (fun _ ↦ False) now false)
      fun _ ↦ False.elim

/-- Over a run, journals hold what was sent in it. -/
theorem genuine_run (acts : List ServiceAct) :
    Genuine (SentIn u sha256 parse thisHost version acts)
      (run (Service.next u sha256 parse thisHost version) .start acts) := by
  induction acts using List.reverseRecOn with
  | nil => exact ⟨nofun, nofun⟩
  | append_singleton acts act ih =>
    rw [run_concat]
    have hlonger : ∀ n, SentIn u sha256 parse thisHost version acts n →
        SentIn u sha256 parse thisHost version (acts ++ [act]) n := by
      rintro n ⟨t, ht, hsends⟩
      refine ⟨t, ?_, hsends⟩
      rw [trace_concat]
      exact List.mem_append_left _ ht
    apply (ih.mono hlonger).next
    intro n hn
    exact ⟨_, mem_trace_append acts act [], hn⟩

end

section

variable (u : Unicode) (sha256 : String → String) (parse : List UInt8 → Option Json)
  (thisHost version : String) (acts : List ServiceAct)

/-- A reminder comes back to a session that asked for it, as often as it asked. -/
theorem reminded_asker (key : Key) (db : Db)
    (hdb : (run (Service.next u sha256 parse thisHost version) .start acts).state.journals key =
      some db) (r : ReminderRow) (hr : r ∈ db.entryReminders.rows) :
    ∃ t ∈ trace (Service.next u sha256 parse thisHost version) .start acts, ∃ args n,
      t.op = .client "journal_add" args ∧ Sends u parse thisHost version t.before n t.op ∧
        n.remindEvery = some r.everySecs ∧ n.remindTo = some (r.nick, r.host) := by
  obtain ⟨n, ⟨t, ht, hsends⟩, hwish⟩ := ((genuine_run acts).filed key db hdb).asked r hr
  obtain ⟨every, hevery, hto⟩ := Option.bind_eq_some_iff.mp hwish
  obtain ⟨to', hto, heq⟩ := Option.map_eq_some_iff.mp hto
  cases heq
  have hclient : ∃ args, t.op = .client "journal_add" args := by
    cases hop : t.op with
    | client tool args =>
      rw [hop] at hsends
      exact ⟨args, by rw [hsends.1]⟩
    | request method target body =>
      rw [hop] at hsends
      obtain ⟨fields, id, author, -, -, -, -, -, rfl⟩ := hsends
      cases hevery
    | _ =>
      rw [hop] at hsends
      exact hsends.elim
  obtain ⟨args, hop⟩ := hclient
  exact ⟨t, ht, args, n, hop, hsends, hevery, hto⟩

end

/-! ### A program and a session -/

def adaRows : Table SessionRow.agentId where
  rows := [⟨"ada-1", some "ada", some "t", .alive, some ["w"], some "github.com/foo/bar", none⟩]
  nodup := by decide

/-- A program that gives itself for the session, and asks for a reminder. -/
def ciNote : Json :=
  .obj [("project_id", .str "https://GitHub.com/foo/bar"), ("author", .str " ci "),
    ("agent", .str "ada"), ("agent_id", .str "ada-1"), ("every_secs", .int 60),
    ("body", .str "port 8585"), ("category", .str "finding"), ("tags", .arr [.str "net"])]

def adaNote : Json :=
  .obj [("agent_id", .str "ada-1"), ("session_token", .str "t"), ("every_secs", .int 60),
    ("body", .str "look"), ("category", .str "finding"), ("tags", .arr [.str "net"])]

/-- Both add a note to the journal of the repository. -/
def notedRun : List ServiceAct :=
  [.sessions adaRows, .request "POST".toList "/v1/journal/add".toList [],
    .client "journal_add" adaNote, .runs 0 7 ⟨[], true⟩ false, .runs 0 8 ⟨[], true⟩ false]

def noted : Service :=
  run (Service.next .ascii id (fun _ ↦ some ciNote) "desk" "1") .start notedRun

/-- The journal of the repository afterwards. -/
def notedDb : Db := (noted.state.journals (.repo "github.com/foo/bar")).getD .empty

theorem noted_journal : noted.state.journals (.repo "github.com/foo/bar") = some notedDb := by
  have hsome : (noted.state.journals (.repo "github.com/foo/bar")).isSome = true := by
    decide +kernel
  obtain ⟨db, hdb⟩ := Option.isSome_iff_exists.mp hsome
  rw [notedDb, hdb, Option.getD_some]

def portNote : Entry :=
  { id := 1, createdAt := 7, category := "finding", body := "port 8585", sha256 := "port 8585"
    salience := "medium", agent := some "ci", agentId := some "api:ci", sessionId := none
    feature := none, sourceArtifact := none }

theorem reminded_asker_ada :
    ∃ t ∈ trace (Service.next .ascii id (fun _ ↦ some ciNote) "desk" "1") .start notedRun,
      ∃ args n, t.op = .client "journal_add" args ∧
        Sends .ascii (fun _ ↦ some ciNote) "desk" "1" t.before n t.op ∧
          n.remindEvery = some 60 ∧ n.remindTo = some ("ada", some "desk") :=
  reminded_asker .ascii id (fun _ ↦ some ciNote) "desk" "1" notedRun _ notedDb noted_journal
    ⟨2, 60, 68, "ada", some "desk"⟩ (by decide +kernel)

end Claudebase.Journal
