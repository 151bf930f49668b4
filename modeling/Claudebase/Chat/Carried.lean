import Claudebase.Chat.Unpacked

/-!
# A dump that is loaded

`src/chat_transfer.rs:160–290,334–568`, `src/chat_clone.rs:355–425`. A dump keeps a transcript's
complete lines, and a load leaves out some types. It prints a line anew when its `cwd` is moved,
also where that is from a folder to itself; so the lines come back byte for byte where the moved
ones are already as they are printed.
-/

namespace Claudebase.Chat
open Claudebase.Base FileIo FileTree

/-! ### Lines that come back -/

/-- A line of no type that a load leaves out. -/
def isKept (serde : Serde) (line : Bytes) : Bool :=
  match serde.parse line with
  | some (.obj fields) => !(fieldText fields "type").any fun t ↦ droppedOnLoad.contains t
  | _ => true

/-- The complete lines that are not blank and not of such a type. -/
def keptLines (serde : Serde) (bs : Bytes) : List Bytes := (bodies bs).filter (isKept serde)

/-- Moving the project from `src` to `cwd` leaves the line's `cwd` alone, or it ends where it began
and the line is as it is printed. -/
def Settled (serde : Serde) (src : Option String) (cwd : String) (line : Bytes) : Prop :=
  ∀ fields s c m, serde.parse line = some (.obj fields) → src = some s →
    fieldText fields "cwd" = some c → movePath c.toList s.toList cwd.toList = some m →
      m = c.toList ∧ serde.print (.obj fields) = line

/-- What `serde_json` makes of a line whose `cwd` is moved: an object's fields have different names,
and what is printed is one line that has the new `cwd` when it is read. -/
structure Reprints (serde : Serde) (rw : Rewrite) : Prop where
  keys : ∀ line fields, serde.parse line = some (.obj fields) → (fields.map Prod.fst).Nodup
  line : ∀ line fields cwd, serde.parse line = some (.obj fields) → rw.moved fields = some cwd →
    newline ∉ serde.print (.obj (setField fields "cwd" (.str cwd)))
  back : ∀ line fields cwd, serde.parse line = some (.obj fields) → rw.moved fields = some cwd →
    ∃ fields', serde.parse (serde.print (.obj (setField fields "cwd" (.str cwd)))) =
      some (.obj fields') ∧ fieldText fields' "cwd" = some cwd

theorem mem_bodies {bs line : Bytes} (h : line ∈ bodies bs) :
    newline ∉ line ∧ line.all isAsciiWhitespace = false := by
  obtain ⟨hline, hblank⟩ := List.mem_filter.mp h
  exact ⟨newline_not_mem bs line hline, by simpa using hblank⟩

/-- Lines with newlines behind them are read back. -/
theorem splitLines_lines {lines : List Bytes} (h : ∀ line ∈ lines, newline ∉ line) :
    splitLines (joinLines lines) = (lines, []) := by
  have hsplit : splitLines (joinLines lines ++ []) = (lines, []) :=
    splitLines_joinLines h List.not_mem_nil
  rwa [List.append_nil] at hsplit

theorem joinLines_injective {xs ys : List Bytes} (hx : ∀ line ∈ xs, newline ∉ line)
    (hy : ∀ line ∈ ys, newline ∉ line) (h : joinLines xs = joinLines ys) : xs = ys := by
  have hsplit := splitLines_lines hx
  rw [h, splitLines_lines hy] at hsplit
  exact (congrArg Prod.fst hsplit).symm

/-- What is dumped is dumped again as it is. -/
theorem bodies_joinLines (bs : Bytes) : bodies (joinLines (bodies bs)) = bodies bs := by
  rw [bodies, splitLines_lines fun line hline ↦ (mem_bodies hline).1]
  exact List.filter_eq_self.mpr fun line hline ↦ by simpa using (mem_bodies hline).2

/-- A dump rewrites nothing. -/
theorem rewriteLines_keepAll (serde : Serde) (id : String) (bs : Bytes) :
    rewriteLines serde (keepAll id) bs = bodies bs := by
  have hline (line : Bytes) : rewriteLine serde (keepAll id) line = some line := by
    unfold rewriteLine
    split
    · simp [keepAll, Rewrite.moved, Rewrite.renamed]
    · rfl
  unfold rewriteLines
  rw [funext hline, List.filterMap_some]

theorem setField_of_not_mem {fields : List (String × Json)} {key : String}
    (h : key ∉ fields.map Prod.fst) (v : Json) : setField fields key v = fields := by
  have hsame : ∀ field ∈ fields, (if field.1 = key then (key, v) else field) = field :=
    fun field hfield ↦ if_neg fun heq : field.1 = key ↦ h (heq ▸ List.mem_map_of_mem hfield)
  exact (List.map_congr_left hsame).trans (List.map_id' fields)

/-- A field that has a text is that text. -/
theorem lookup_of_fieldText {fields : List (String × Json)} {key c : String}
    (h : fieldText fields key = some c) : fields.lookup key = some (.str c) := by
  obtain ⟨v, hv, hc⟩ := Option.bind_eq_some_iff.mp h
  cases v with
  | str s =>
    cases hc
    exact hv
  | null => cases hc
  | bool b => cases hc
  | int n => cases hc
  | float => cases hc
  | arr xs => cases hc
  | obj fields => cases hc

/-- A field set to what it is. -/
theorem setField_self {fields : List (String × Json)} {key : String} {v : Json}
    (hkeys : (fields.map Prod.fst).Nodup) (h : fields.lookup key = some v) :
    setField fields key v = fields := by
  induction fields with
  | nil => rfl
  | cons field fields ih =>
    obtain ⟨name, value⟩ := field
    rw [List.map_cons, List.nodup_cons] at hkeys
    rw [List.lookup_cons] at h
    by_cases hname : name = key
    · subst hname
      rw [beq_self_eq_true] at h
      cases h
      have htail := setField_of_not_mem hkeys.1 v
      unfold setField at htail ⊢
      rw [List.map_cons, if_pos rfl, htail]
    · rw [beq_false_of_ne (Ne.symm hname)] at h
      have htail := ih hkeys.2 h
      unfold setField at htail ⊢
      rw [List.map_cons, if_neg hname, htail]

/-- A filter that changes what it keeps changes nothing where it changes no line. -/
theorem filterMap_eq_filter_iff {α : Type} {f : α → Option α} {p : α → Bool} {l : List α}
    (h : ∀ x ∈ l, f x = none ↔ p x = false) :
    l.filterMap f = l.filter p ↔ ∀ x ∈ l.filter p, f x = some x := by
  induction l with
  | nil => simp
  | cons x l ih =>
    rw [List.forall_mem_cons] at h
    cases hp : p x with
    | false =>
      rw [List.filterMap_cons_none (h.1.mpr hp), List.filter_cons_of_neg (by simp [hp]), ih h.2]
    | true =>
      cases hf : f x with
      | none => simp [h.1.mp hf] at hp
      | some y =>
        rw [List.filterMap_cons_some hf, List.filter_cons_of_pos hp, List.cons.injEq, ih h.2,
          List.forall_mem_cons, hf, Option.some.injEq]

section

variable {serde : Serde} {m : Manifest} {cwd : String}

/-- A line of a load that keeps the id. -/
theorem rewriteLine_obj {line : Bytes} {fields : List (String × Json)}
    (hparse : serde.parse line = some (.obj fields)) :
    rewriteLine serde (plainRewrite m cwd) line =
      if isKept serde line = true then
        match (plainRewrite m cwd).moved fields with
        | some cwd => some (serde.print (.obj (setField fields "cwd" (.str cwd))))
        | none => some line
      else none := by
  have hrenamed : (plainRewrite m cwd).renamed fields = (fields, false) := by
    rw [Rewrite.renamed, if_neg (by simp [plainRewrite])]
  unfold rewriteLine isKept
  simp only [hparse, hrenamed, Bool.not_eq_true', Bool.false_eq_true, if_false]
  rw [show (plainRewrite m cwd).dropTypes = droppedOnLoad from rfl]
  cases (fieldText fields "type").any fun t ↦ droppedOnLoad.contains t with
  | true => rfl
  | false => rfl

/-- One that is no object. -/
theorem rewriteLine_other {line : Bytes}
    (hparse : ∀ fields, serde.parse line ≠ some (.obj fields)) :
    isKept serde line = true ∧ rewriteLine serde (plainRewrite m cwd) line = some line := by
  constructor
  · unfold isKept
    split
    · next fields h => exact absurd h (hparse fields)
    · rfl
  · unfold rewriteLine
    split
    · next fields h => exact absurd h (hparse fields)
    · rfl

/-- A line is left out where its type says so. -/
theorem rewriteLine_eq_none_iff (line : Bytes) :
    rewriteLine serde (plainRewrite m cwd) line = none ↔ isKept serde line = false := by
  by_cases hobj : ∃ fields, serde.parse line = some (.obj fields)
  · obtain ⟨fields, hparse⟩ := hobj
    rw [rewriteLine_obj hparse]
    cases isKept serde line with
    | true => cases (plainRewrite m cwd).moved fields <;> simp
    | false => simp
  · obtain ⟨hkept, hline⟩ := @rewriteLine_other serde m cwd line (not_exists.mp hobj)
    rw [hkept, hline]
    simp

/-- Where a line's `cwd` is moved to. -/
theorem moved_eq_some_iff {fields : List (String × Json)} {c : String} :
    (plainRewrite m cwd).moved fields = some c ↔ ∃ s old, m.sourceCwd = some s ∧
      fieldText fields "cwd" = some old ∧
        movePath old.toList s.toList cwd.toList = some c.toList := by
  unfold Rewrite.moved plainRewrite
  constructor
  · intro h
    simp only [Option.bind_eq_some_iff, Option.map_eq_some_iff] at h
    obtain ⟨_, ⟨s, hs, rfl⟩, old, hold, path, hpath, rfl⟩ := h
    exact ⟨s, old, hs, hold, by rw [hpath, String.toList_ofList]⟩
  · rintro ⟨s, old, hs, hold, hpath⟩
    simp [hs, hold, hpath]

/-- Settled lines by where they are moved to. -/
theorem settled_iff {line : Bytes} {fields : List (String × Json)}
    (hparse : serde.parse line = some (.obj fields)) :
    Settled serde m.sourceCwd cwd line ↔ ∀ c, (plainRewrite m cwd).moved fields = some c →
      fieldText fields "cwd" = some c ∧ serde.print (.obj fields) = line := by
  constructor
  · intro h c hc
    obtain ⟨s, old, hs, hold, hpath⟩ := moved_eq_some_iff.mp hc
    obtain ⟨hsame, hprint⟩ := h fields s old c.toList hparse hs hold hpath
    exact ⟨by rw [hold, String.toList_injective hsame], hprint⟩
  · intro h fields' s c path hparse' hs hc hpath
    cases hparse.symm.trans hparse'
    obtain ⟨hsame, hprint⟩ := h (String.ofList path)
      (moved_eq_some_iff.mpr ⟨s, c, hs, hc, by rw [hpath, String.toList_ofList]⟩)
    cases hc.symm.trans hsame
    exact ⟨(String.toList_ofList).symm, hprint⟩

/-- One that is kept comes back as it is where it is settled. -/
theorem rewriteLine_eq_self_iff (h : Reprints serde (plainRewrite m cwd)) {line : Bytes}
    (hkept : isKept serde line = true) :
    rewriteLine serde (plainRewrite m cwd) line = some line ↔
      Settled serde m.sourceCwd cwd line := by
  by_cases hobj : ∃ fields, serde.parse line = some (.obj fields)
  · obtain ⟨fields, hparse⟩ := hobj
    have hself {c : String} (hc : fieldText fields "cwd" = some c) :
        setField fields "cwd" (.str c) = fields :=
      setField_self (h.keys line fields hparse) (lookup_of_fieldText hc)
    rw [settled_iff hparse, rewriteLine_obj hparse, if_pos hkept]
    cases hmoved : (plainRewrite m cwd).moved fields with
    | none => simp
    | some c =>
      simp only [Option.some.injEq, forall_eq']
      constructor
      · intro hprint
        obtain ⟨fields', hback, hcwd⟩ := h.back line fields c hparse hmoved
        rw [hprint, hparse] at hback
        cases hback
        rw [hself hcwd] at hprint
        exact ⟨hcwd, hprint⟩
      · rintro ⟨hcwd, hprint⟩
        rw [hself hcwd]
        exact hprint
  · have hnot := not_exists.mp hobj
    rw [(rewriteLine_other hnot).2]
    exact ⟨fun _ fields _ _ _ hparse ↦ absurd hparse (hnot fields), fun _ ↦ rfl⟩

/-- A line that is written is one line. -/
theorem newline_not_mem_rewritten (h : Reprints serde (plainRewrite m cwd)) {body line : Bytes}
    (hbody : newline ∉ body) (hline : rewriteLine serde (plainRewrite m cwd) body = some line) :
    newline ∉ line := by
  by_cases hobj : ∃ fields, serde.parse body = some (.obj fields)
  · obtain ⟨fields, hparse⟩ := hobj
    rw [rewriteLine_obj hparse] at hline
    split at hline
    · split at hline
      · next c hmoved =>
        cases hline
        exact h.line body fields c hparse hmoved
      · cases hline
        exact hbody
    · cases hline
  · rw [(rewriteLine_other (not_exists.mp hobj)).2] at hline
    cases hline
    exact hbody

/-- The lines of a transcript come back where those that are kept are settled. -/
theorem rewritten_eq_kept_iff (h : Reprints serde (plainRewrite m cwd)) (bs : Bytes) :
    joinLines (rewriteLines serde (plainRewrite m cwd) bs) = joinLines (keptLines serde bs) ↔
      ∀ line ∈ keptLines serde bs, Settled serde m.sourceCwd cwd line := by
  have hlines : rewriteLines serde (plainRewrite m cwd) bs = keptLines serde bs ↔
      ∀ line ∈ keptLines serde bs, Settled serde m.sourceCwd cwd line := by
    unfold rewriteLines keptLines
    rw [filterMap_eq_filter_iff fun line _ ↦ rewriteLine_eq_none_iff line]
    refine forall₂_congr fun line hline ↦ ?_
    exact rewriteLine_eq_self_iff h (List.mem_filter.mp hline).2
  rw [← hlines]
  constructor
  · apply joinLines_injective
    · intro line hline
      obtain ⟨body, hbody, hrewrite⟩ := List.mem_filterMap.mp hline
      exact newline_not_mem_rewritten h (mem_bodies hbody).1 hrewrite
    · intro line hline
      exact (mem_bodies (List.mem_filter.mp hline).1).1
  · exact congrArg joinLines

end

/-! ### What a dump is unpacked to -/

theorem mapM_normal (rest : TreePath) :
    (rest.map Component.normal).mapM Component.name? = some rest := by
  induction rest with
  | nil => rfl
  | cons name rest ih =>
    rw [List.map_cons, List.mapM_cons, ih]
    rfl

/-- A member whose path has UTF-8 names, by the first of them. -/
theorem targetOf_normal (top : String) (rest : TreePath) :
    targetOf ((top :: rest).map .normal) =
      if (top = manifestName ∨ top = journalName ∨ top = mindmapsName) ∧ rest = [] then .ok .skip
      else if top = transcriptName ∧ rest = [] then .ok .transcript
      else if top = sessionDir ∧ rest ≠ [] then .ok (.session rest)
      else if top = fileHistoryDir ∧ rest ≠ [] then .ok (.history rest)
      else .error (.unexpected (top :: rest)) := by
  rw [targetOf, List.map_cons, List.tail_cons, mapM_normal]
  rfl

section

variable {codec : Codec} {stamp : DumpStamp} {conv : Conversation} {extras : DumpExtras}

/-- The files of a side folder. -/
def sideFiles (side : Option Folder) : List (TreePath × Bytes) := side.elim [] Folder.files

/-- What the file at a path below a side folder holds. -/
def sideRead (side : Option Folder) (p : TreePath) : Option Bytes := side.bind fun f ↦ f.read p

theorem lookup_sideFiles {side : Option Folder} (h : ∀ f, side = some f → f.Distinct)
    (p : TreePath) : (sideFiles side).lookup p = sideRead side p := by
  cases side with
  | none => rfl
  | some f => exact Folder.lookup_files (h f rfl) p

theorem separate_sideFiles {side : Option Folder} (h : ∀ f, side = some f → f.Distinct) :
    Separate (sideFiles side) := by
  cases side with
  | none => exact List.Pairwise.nil
  | some f => exact Folder.separate_files (h f rfl)

theorem sideFiles_ne_nil {side : Option Folder} {m : TreePath × Bytes} (h : m ∈ sideFiles side) :
    m.1 ≠ [] := by
  cases side with
  | none => cases h
  | some f =>
    obtain ⟨name, -, rest, hm⟩ := Folder.mem_files h
    rw [hm]
    exact List.cons_ne_nil name rest

/-- The members of a dump. -/
theorem dumpMembers_eq : dumpMembers codec stamp conv extras =
    [([manifestName], codec.printManifest (manifestOf codec stamp conv extras)),
      ([transcriptName], joinLines (bodies conv.transcript))] ++
    ((sideFiles conv.session).map fun m ↦ (sessionDir :: m.1, m.2)) ++
    ((sideFiles conv.history).map fun m ↦ (fileHistoryDir :: m.1, m.2)) ++
    (extras.journal.elim [] fun entries ↦ [([journalName], joinLines (entries.map codec.print))]) ++
    if extras.mindmaps = [] then [] else [([mindmapsName], codec.print (.arr extras.mindmaps))] := by
  have hside (name : String) (side : Option Folder) :
      side.elim [] (addDir [name]) = (sideFiles side).map fun m ↦ (name :: m.1, m.2) := by
    cases side with
    | none => rfl
    | some f => exact Folder.addDir_eq [name] f
  rw [dumpMembers, rewriteLines_keepAll, hside, hside]

theorem targetOf_top {name : String} (h : name = manifestName ∨ name = journalName ∨
    name = mindmapsName) : targetOf ([name].map .normal) = .ok .skip := by
  rw [targetOf_normal, if_pos ⟨h, rfl⟩]

theorem targetOf_transcript : targetOf ([transcriptName].map .normal) = .ok .transcript := by
  rw [targetOf_normal, if_neg (by decide), if_pos ⟨rfl, rfl⟩]

theorem targetOf_session {rest : TreePath} (h : rest ≠ []) :
    targetOf ((sessionDir :: rest).map .normal) = .ok (.session rest) := by
  rw [targetOf_normal, if_neg fun hnil ↦ h hnil.2, if_neg fun hnil ↦ h hnil.2, if_pos ⟨rfl, h⟩]

theorem targetOf_history {rest : TreePath} (h : rest ≠ []) :
    targetOf ((fileHistoryDir :: rest).map .normal) = .ok (.history rest) := by
  rw [targetOf_normal, if_neg fun hnil ↦ h hnil.2, if_neg fun hnil ↦ h hnil.2,
    if_neg fun htop ↦ absurd htop.1 (by decide), if_pos ⟨rfl, h⟩]

/-- Every member of a dump has a place. -/
theorem exists_targetOf : ∀ m ∈ dumpMembers codec stamp conv extras,
    ∃ target, targetOf (m.1.map .normal) = .ok target := by
  rw [dumpMembers_eq]
  simp only [List.forall_mem_append, List.forall_mem_cons, List.forall_mem_map]
  refine ⟨⟨⟨⟨⟨⟨_, targetOf_top (.inl rfl)⟩, ⟨_, targetOf_transcript⟩, by simp⟩, ?_⟩, ?_⟩, ?_⟩, ?_⟩
  · exact fun f hf ↦ ⟨_, targetOf_session (sideFiles_ne_nil hf)⟩
  · exact fun f hf ↦ ⟨_, targetOf_history (sideFiles_ne_nil hf)⟩
  · cases extras.journal with
    | none => simp
    | some entries => simpa using ⟨_, targetOf_top (.inr (.inl rfl))⟩
  · split
    · simp
    · simpa using ⟨_, targetOf_top (.inr (.inr rfl))⟩

/-- What a load writes for a dump. -/
def dumpFiles (serde : Serde) (places : Places) (rw : Rewrite) (conv : Conversation) :
    List (TreePath × Bytes) :=
  (places.stageTranscript, joinLines (rewriteLines serde rw (joinLines (bodies conv.transcript)))) ::
    (((sideFiles conv.session).map fun f ↦
      (places.stageSession ++ f.1, sessionBytes serde rw f.1 f.2)) ++
    (sideFiles conv.history).map fun f ↦ (places.stageHistory ++ f.1, f.2))

theorem placeOf_top {serde : Serde} {places : Places} {rw : Rewrite} {name : String}
    (h : name = manifestName ∨ name = journalName ∨ name = mindmapsName) (data : Bytes) :
    placeOf serde places rw ([name], data) = none := by
  unfold placeOf
  rw [targetOf_top h]

theorem filterMap_placeOf {serde : Serde} (places : Places) (rw : Rewrite) :
    (dumpMembers codec stamp conv extras).filterMap (placeOf serde places rw) =
      dumpFiles serde places rw conv := by
  have htranscript (data : Bytes) : placeOf serde places rw ([transcriptName], data) =
      some (places.stageTranscript, joinLines (rewriteLines serde rw data)) := by
    rw [placeOf, targetOf_transcript]
  have hsession : ((sideFiles conv.session).map fun m ↦ (sessionDir :: m.1, m.2)).filterMap
      (placeOf serde places rw) = (sideFiles conv.session).map fun f ↦
        (places.stageSession ++ f.1, sessionBytes serde rw f.1 f.2) := by
    rw [List.filterMap_map, ← List.filterMap_eq_map]
    apply List.filterMap_congr
    intro f hf
    simp only [Function.comp_apply, placeOf, targetOf_session (sideFiles_ne_nil hf)]
  have hhistory : ((sideFiles conv.history).map fun m ↦ (fileHistoryDir :: m.1, m.2)).filterMap
      (placeOf serde places rw) = (sideFiles conv.history).map fun f ↦
        (places.stageHistory ++ f.1, f.2) := by
    rw [List.filterMap_map, ← List.filterMap_eq_map]
    apply List.filterMap_congr
    intro f hf
    simp only [Function.comp_apply, placeOf, targetOf_history (sideFiles_ne_nil hf)]
  have hjournal : (extras.journal.elim [] fun entries ↦
      [([journalName], joinLines (entries.map codec.print))]).filterMap (placeOf serde places rw) =
        [] := by
    cases extras.journal with
    | none => rfl
    | some entries => exact List.filterMap_cons_none (placeOf_top (.inr (.inl rfl)) _)
  have hmindmaps : (if extras.mindmaps = [] then [] else
      [([mindmapsName], codec.print (.arr extras.mindmaps))]).filterMap (placeOf serde places rw) =
        [] := by
    split
    · rfl
    · exact List.filterMap_cons_none (placeOf_top (.inr (.inr rfl)) _)
  rw [dumpMembers_eq]
  simp only [List.filterMap_append, hsession, hhistory, hjournal, hmindmaps, List.append_nil]
  rw [List.filterMap_cons_none (placeOf_top (.inl rfl) _), List.filterMap_cons_some (htranscript _)]
  simp [dumpFiles]

/-- The staging places. -/
theorem Places.Apart.stages_apart {p : Places} (h : p.Apart) :
    Incomparable p.stageTranscript p.stageSession ∧
      Incomparable p.stageTranscript p.stageHistory ∧
      Incomparable p.stageSession p.stageHistory := by
  obtain ⟨⟨hside, hfirst⟩, hsecond⟩ := Places.pairwise_moves.mp h.moves_apart.1
  exact ⟨hfirst.old.symm, hsecond.old.symm, hside.old⟩

section

variable {serde : Serde} {places : Places} {rw : Rewrite}

theorem separate_dumpFiles (h : places.Apart) : Separate (dumpFiles serde places rw conv) := by
  obtain ⟨hsession, hhistory, hsides⟩ := h.stages_apart
  refine List.pairwise_cons.mpr ⟨?_, List.pairwise_append.mpr ⟨?_, ?_, ?_⟩⟩
  · rw [List.forall_mem_append, List.forall_mem_map, List.forall_mem_map]
    exact ⟨fun f _ ↦ (hsession.symm.append_left f.1).symm,
      fun f _ ↦ (hhistory.symm.append_left f.1).symm⟩
  · exact List.pairwise_map.mpr ((separate_sideFiles conv.session_distinct).imp
      fun hfg ↦ incomparable_append_iff.mpr hfg)
  · exact List.pairwise_map.mpr ((separate_sideFiles conv.history_distinct).imp
      fun hfg ↦ incomparable_append_iff.mpr hfg)
  · rw [List.forall_mem_map]
    intro f _
    rw [List.forall_mem_map]
    exact fun g _ ↦ hsides.append f.1 g.1

theorem lookup_stageTranscript : (dumpFiles serde places rw conv).lookup places.stageTranscript =
    some (joinLines (rewriteLines serde rw (joinLines (bodies conv.transcript)))) :=
  List.lookup_cons_self

/-- A file of the session folder. -/
theorem lookup_stageSession (h : places.Apart) (p : TreePath) :
    (dumpFiles serde places rw conv).lookup (places.stageSession ++ p) =
      (sideRead conv.session p).map (sessionBytes serde rw p) := by
  obtain ⟨hsession, -, hsides⟩ := h.stages_apart
  have hne : places.stageSession ++ p ≠ places.stageTranscript :=
    fun heq ↦ hsession.2 (heq ▸ List.prefix_append _ p)
  have hnone : ((sideFiles conv.history).map fun f ↦ (places.stageHistory ++ f.1, f.2)).lookup
      (places.stageSession ++ p) = none := by
    apply lookup_of_not_prefix
    rw [List.forall_mem_map]
    exact fun g _ ↦ (hsides.append p g.1).1
  rw [dumpFiles, List.lookup_cons, beq_false_of_ne hne]
  dsimp only
  rw [List.lookup_append, hnone, Option.or_none, lookup_below,
    lookup_sideFiles conv.session_distinct]

/-- A file of the file history. -/
theorem lookup_stageHistory (h : places.Apart) (p : TreePath) :
    (dumpFiles serde places rw conv).lookup (places.stageHistory ++ p) =
      sideRead conv.history p := by
  obtain ⟨-, hhistory, hsides⟩ := h.stages_apart
  have hne : places.stageHistory ++ p ≠ places.stageTranscript :=
    fun heq ↦ hhistory.2 (heq ▸ List.prefix_append _ p)
  have hnone : ((sideFiles conv.session).map fun f ↦
      (places.stageSession ++ f.1, sessionBytes serde rw f.1 f.2)).lookup
      (places.stageHistory ++ p) = none := by
    apply lookup_of_not_prefix
    rw [List.forall_mem_map]
    exact fun g _ ↦ (hsides.append g.1 p).2
  rw [dumpFiles, List.lookup_cons, beq_false_of_ne hne]
  dsimp only
  rw [List.lookup_append, hnone, Option.none_or]
  have hbelow := lookup_below places.stageHistory p (fun _ d ↦ d) (sideFiles conv.history)
  rw [hbelow, lookup_sideFiles conv.history_distinct, Option.map_id']

end

end

/-! ### What is read of a dump -/

/-- What `serde_json` makes of a value: one line of text, which is read back. -/
structure PrintsBack (serde : Serde) (v : Json) : Prop where
  back : serde.parse (serde.print v) = some v
  line : newline ∉ serde.print v
  noReturn : (serde.print v).getLast? ≠ some 13
  text : ∃ text, textOf (serde.print v) = some text ∧ trim text.toList ≠ []

/-- Journal entries and mind maps that are read back: within the bounds, and printed as above. -/
structure Readable (serde : Serde) (extras : DumpExtras) : Prop where
  entry : ∀ e ∈ extras.journal.getD [], (∃ fields, e = .obj fields) ∧ PrintsBack serde e
  count : (extras.journal.getD []).length ≤ maxJournalEntries
  journal : (joinLines ((extras.journal.getD []).map serde.print)).length ≤ maxJournalBytes
  back : extras.mindmaps ≠ [] →
    serde.parse (serde.print (.arr extras.mindmaps)) = some (.arr extras.mindmaps)
  mindmaps : extras.mindmaps ≠ [] →
    (serde.print (.arr extras.mindmaps)).length ≤ maxMindmapsBytes

/-- What `serde_json` makes of a manifest: it is read back, and not when it is cut off. -/
structure ManifestBack (codec : Codec) (m : Manifest) : Prop where
  back : codec.parseManifest (codec.printManifest m) = some m
  cut : ∀ n < (codec.printManifest m).length,
    codec.parseManifest ((codec.printManifest m).take n) = none

section

variable {codec : Codec} {stamp : DumpStamp} {conv : Conversation} {extras : DumpExtras}

theorem named_manifest : (dumpConversation codec stamp conv extras).named manifestName =
    some (codec.printManifest (manifestOf codec stamp conv extras)) := rfl

/-- What is read by a name of its own is after the side folders. -/
theorem named_eq {name : String} (h : name = journalName ∨ name = mindmapsName) :
    (dumpConversation codec stamp conv extras).named name =
      (((extras.journal.elim [] fun entries ↦
          [([journalName], joinLines (entries.map codec.print))]) ++
        if extras.mindmaps = [] then []
        else [([mindmapsName], codec.print (.arr extras.mindmaps))]).find?
          fun m ↦ m.1 = [name]).map Prod.snd := by
  have hne : manifestName ≠ name ∧ transcriptName ≠ name ∧ sessionDir ≠ name ∧
      fileHistoryDir ≠ name := by
    rcases h with rfl | rfl
    · decide
    · decide
  have hside {top : String} (htop : top ≠ name) (side : Option Folder) :
      ((sideFiles side).map fun m ↦ (top :: m.1, m.2)).find? (fun m ↦ m.1 = [name]) = none := by
    rw [List.find?_eq_none, List.forall_mem_map]
    intro f _
    simp [htop]
  have hfirst : [([manifestName], codec.printManifest (manifestOf codec stamp conv extras)),
      ([transcriptName], joinLines (bodies conv.transcript))].find? (fun m ↦ m.1 = [name]) =
        none := by
    simp [hne.1, hne.2.1]
  change ((dumpMembers codec stamp conv extras).find? fun m ↦ m.1 = [name]).map Prod.snd = _
  rw [dumpMembers_eq, List.append_assoc, List.find?_append, List.find?_append, List.find?_append,
    hfirst, hside hne.2.2.1, hside hne.2.2.2, Option.none_or, Option.none_or, Option.none_or]

theorem named_journal : (dumpConversation codec stamp conv extras).named journalName =
    extras.journal.map fun entries ↦ joinLines (entries.map codec.print) := by
  have hname : mindmapsName ≠ journalName := by decide
  rw [named_eq (.inl rfl)]
  cases extras.journal with
  | none => split <;> simp [hname]
  | some entries => simp

theorem named_mindmaps : (dumpConversation codec stamp conv extras).named mindmapsName =
    if extras.mindmaps = [] then none else some (codec.print (.arr extras.mindmaps)) := by
  have hname : journalName ≠ mindmapsName := by decide
  rw [named_eq (.inr rfl)]
  cases extras.journal with
  | none => split <;> simp
  | some entries => split <;> simp [hname]

/-- The manifest of a dump, cut off at the cap. -/
theorem parseManifest_take_iff (h : ManifestBack codec (manifestOf codec stamp conv extras))
    {m : Manifest} :
    codec.parseManifest
        ((codec.printManifest (manifestOf codec stamp conv extras)).take manifestCap) = some m ↔
      (codec.printManifest (manifestOf codec stamp conv extras)).length ≤ manifestCap ∧
        m = manifestOf codec stamp conv extras := by
  by_cases hlength : (codec.printManifest (manifestOf codec stamp conv extras)).length ≤ manifestCap
  · rw [List.take_of_length_le hlength, h.back, Option.some.injEq]
    exact ⟨fun heq ↦ ⟨hlength, heq.symm⟩, fun heq ↦ heq.2.symm⟩
  · rw [h.cut manifestCap (by omega)]
    simp [hlength]

/-- The manifest of a dump is accepted where its id is one and it is not cut off. -/
theorem readManifest_dump_iff {ids : Ids}
    (h : ManifestBack codec (manifestOf codec stamp conv extras)) (m : Manifest) :
    readManifest codec ids (dumpConversation codec stamp conv extras) = .ok m ↔
      (ids.valid conv.id = true ∧
        (codec.printManifest (manifestOf codec stamp conv extras)).length ≤ manifestCap) ∧
      m = manifestOf codec stamp conv extras := by
  unfold readManifest
  rw [named_manifest]
  dsimp only
  cases hparse : codec.parseManifest
      ((codec.printManifest (manifestOf codec stamp conv extras)).take manifestCap) with
  | none =>
    simp only [reduceCtorEq, false_iff]
    intro hall
    have hback := (parseManifest_take_iff h).mpr ⟨hall.1.2, rfl⟩
    rw [hparse] at hback
    cases hback
  | some manifest =>
    obtain ⟨hlength, rfl⟩ := (parseManifest_take_iff h).mp hparse
    have hformat : (manifestOf codec stamp conv extras).format = format := rfl
    have hversion : (manifestOf codec stamp conv extras).version = version := rfl
    have hid : (manifestOf codec stamp conv extras).sessionId = conv.id := rfl
    dsimp only
    rw [hformat, hversion, hid, if_neg (not_not.mpr rfl), if_neg (lt_irrefl _)]
    cases ids.valid conv.id with
    | false => simp
    | true =>
      simp only [reduceCtorEq, if_false, Except.ok.injEq, true_and]
      exact ⟨fun heq ↦ ⟨hlength, heq.symm⟩, fun hall ↦ hall.2.symm⟩

/-- Lines that are read as they were printed. -/
theorem readLines_joinLines {serde : Serde} {entries : List Json}
    (h : ∀ e ∈ entries, PrintsBack serde e) :
    readLines (joinLines (entries.map serde.print)) = entries.map serde.print := by
  have hlines : ∀ line ∈ entries.map serde.print, newline ∉ line :=
    List.forall_mem_map.mpr fun e he ↦ (h e he).line
  have hsame : (entries.map serde.print).map
      (fun line ↦ if line.getLast? = some 13 then line.dropLast else line) =
        entries.map serde.print := by
    rw [List.map_map]
    exact List.map_congr_left fun e he ↦ if_neg (h e he).noReturn
  rw [readLines, splitLines_lines hlines, hsame]
  simp

/-- Lines of objects are read as these. -/
theorem foldlM_readEntry {serde : Serde} {entries : List Json}
    (h : ∀ e ∈ entries, (∃ fields, e = .obj fields) ∧ PrintsBack serde e) (out : List Json)
    (n : Nat) (hcount : out.length + entries.length ≤ maxJournalEntries) :
    ((entries.map serde.print).zipIdx n).foldlM (readEntry serde) out = .ok (out ++ entries) := by
  induction entries generalizing out n with
  | nil =>
    rw [List.append_nil]
    rfl
  | cons e entries ih =>
    obtain ⟨⟨⟨fields, rfl⟩, hback⟩, hrest⟩ := List.forall_mem_cons.mp h
    obtain ⟨text, htext, hblank⟩ := hback.text
    rw [List.length_cons] at hcount
    have hentry : readEntry serde out (serde.print (.obj fields), n) =
        .ok (out ++ [.obj fields]) := by
      rw [readEntry, htext]
      dsimp only
      rw [if_neg hblank, hback.back]
      dsimp only
      rw [if_neg (by omega)]
    have hlength : (out ++ [Json.obj fields]).length + entries.length ≤ maxJournalEntries := by
      rw [List.length_append, List.length_singleton]
      omega
    rw [List.map_cons, List.zipIdx_cons, List.foldlM_cons, hentry]
    have htail := ih hrest (out ++ [.obj fields]) (n + 1) hlength
    rw [List.append_assoc] at htail
    exact htail

theorem readJournal_dump (h : Readable codec.toSerde extras) :
    readJournal codec.toSerde (dumpConversation codec stamp conv extras) =
      .ok (extras.journal.getD []) := by
  have hall := h.entry
  have hcount := h.count
  have hsize := h.journal
  unfold readJournal
  rw [named_journal]
  cases hjournal : extras.journal with
  | none => rfl
  | some entries =>
    rw [hjournal, Option.getD_some] at hall hcount hsize
    dsimp only [Option.map_some]
    rw [List.take_of_length_le hsize, readLines_joinLines fun e he ↦ (hall e he).2,
      foldlM_readEntry hall [] 0 (by simpa using hcount)]
    rfl

theorem readMindmaps_dump (h : Readable codec.toSerde extras) :
    readMindmaps codec.toSerde (dumpConversation codec stamp conv extras) =
      .ok extras.mindmaps := by
  unfold readMindmaps
  rw [named_mindmaps]
  by_cases hnil : extras.mindmaps = []
  · rw [if_pos hnil, hnil]
  · rw [if_neg hnil]
    dsimp only
    rw [List.take_of_length_le (h.mindmaps hnil), h.back hnil]

end

/-! ### The round trip -/

/-- A file of the session folder with the lines a load is to keep. -/
def keptBytes (serde : Serde) (p : TreePath) (data : Bytes) : Bytes :=
  if isJsonl p then joinLines (keptLines serde data) else data

/-- After a run the conversation is there as it was, and what goes with it is read. -/
structure GivenBack (codec : Codec) (conv : Conversation) (extras : DumpExtras) (places : Places)
    (archive : Archive) (run : Except LoadError LoadReport × FileState UInt8) : Prop where
  report : ∃ report, run.1 = .ok report ∧ report.sessionId = conv.id
  transcript : run.2.tree.fileAt places.transcript =
    some (joinLines (keptLines codec.toSerde conv.transcript))
  session : ∀ p, run.2.tree.fileAt (places.session ++ p) =
    (sideRead conv.session p).map (keptBytes codec.toSerde p)
  history : ∀ p, run.2.tree.fileAt (places.history ++ p) = sideRead conv.history p
  journal : readJournal codec.toSerde archive = .ok (extras.journal.getD [])
  mindmaps : readMindmaps codec.toSerde archive = .ok extras.mindmaps

/-- The lines that a load writes: those of the transcript, and of the session folder's. -/
def Carries (serde : Serde) (conv : Conversation) (line : Bytes) : Prop :=
  line ∈ keptLines serde conv.transcript ∨ ∃ p data, sideRead conv.session p = some data ∧
    isJsonl p = true ∧ line ∈ keptLines serde data

section

variable {host : FileHost UInt8} {codec : Codec} {ids : Ids} {stamp : DumpStamp}
  {conv : Conversation} {extras : DumpExtras} {claudeDir : TreePath} {cwd : String}
  {w : FileState UInt8}

/-- What a dump that is accepted is loaded as. -/
theorem load_dumped (hready : Ready host ids
      (plainLoad claudeDir cwd (dumpConversation codec stamp conv extras)) conv.id w.tree)
    (hmanifest : ManifestBack codec (manifestOf codec stamp conv extras))
    (hid : ids.valid conv.id = true)
    (hcap : (codec.printManifest (manifestOf codec stamp conv extras)).length ≤ manifestCap) :
    ∃ report w', (loadConversation host codec ids
        (plainLoad claudeDir cwd (dumpConversation codec stamp conv extras))).runOn w =
          (.ok report, w') ∧ report.sessionId = conv.id ∧
      w'.tree.fileAt ((plainLoad claudeDir cwd (dumpConversation codec stamp conv extras)).places
        ids conv.id).transcript = some (joinLines (rewriteLines codec.toSerde
          (plainRewrite (manifestOf codec stamp conv extras) cwd)
          (joinLines (bodies conv.transcript)))) ∧
      (∀ p, w'.tree.fileAt (((plainLoad claudeDir cwd (dumpConversation codec stamp conv
        extras)).places ids conv.id).session ++ p) = (sideRead conv.session p).map
          (sessionBytes codec.toSerde (plainRewrite (manifestOf codec stamp conv extras) cwd) p)) ∧
      ∀ p, w'.tree.fileAt (((plainLoad claudeDir cwd (dumpConversation codec stamp conv
        extras)).places ids conv.id).history ++ p) = sideRead conv.history p := by
  have hapart := (plainLoad claudeDir cwd (dumpConversation codec stamp conv extras)).apart ids hid
  have haccepted : readManifest codec ids (pack (dumpMembers codec stamp conv extras)) =
      .ok (manifestOf codec stamp conv extras) :=
    (readManifest_dump_iff hmanifest _).mpr ⟨⟨hid, hcap⟩, rfl⟩
  have htranscript : ∃ m ∈ dumpMembers codec stamp conv extras,
      targetOf (m.1.map .normal) = .ok .transcript :=
    ⟨([transcriptName], joinLines (rewriteLines codec.toSerde (keepAll conv.id) conv.transcript)),
      by simp [dumpMembers], targetOf_transcript⟩
  obtain ⟨report, t', hreach, hreport, hplaced⟩ := reaches_load hready haccepted exists_targetOf
    htranscript (filterMap_placeOf _ _) (separate_dumpFiles hapart)
  obtain ⟨hsession, hhistory, hlast⟩ := Places.forall_moves.mp hplaced
  obtain ⟨log, hrun⟩ := hreach w.log
  refine ⟨report, ⟨t', log⟩, hrun, hreport, ?_, fun p ↦ ?_, fun p ↦ ?_⟩
  · have hat := hlast []
    rw [List.append_nil, List.append_nil] at hat
    exact hat.trans lookup_stageTranscript
  · exact (hsession p).trans (lookup_stageSession hapart p)
  · exact (hhistory p).trans (lookup_stageHistory hapart p)

/-- Where the load succeeds the manifest is accepted. -/
theorem accepted_of_ok {report : LoadReport} {w' : FileState UInt8} (hready : Ready host ids
      (plainLoad claudeDir cwd (dumpConversation codec stamp conv extras)) conv.id w.tree)
    (hmanifest : ManifestBack codec (manifestOf codec stamp conv extras))
    (hrun : (loadConversation host codec ids
      (plainLoad claudeDir cwd (dumpConversation codec stamp conv extras))).runOn w =
        (.ok report, w')) :
    ids.valid conv.id = true ∧
      (codec.printManifest (manifestOf codec stamp conv extras)).length ≤ manifestCap := by
  obtain ⟨hid, -⟩ := load_ok hready.fresh hrun
  unfold LoadRequest.id at hid
  split at hid
  · next m hread => exact ((readManifest_dump_iff hmanifest m).mp hread).1
  · cases hid

/-- A file is changed as its lines are. -/
theorem sessionBytes_eq_iff {serde : Serde} {m : Manifest}
    (h : Reprints serde (plainRewrite m cwd)) (p : TreePath) (data : Bytes) :
    sessionBytes serde (plainRewrite m cwd) p data = keptBytes serde p data ↔
      (isJsonl p = true → ∀ line ∈ keptLines serde data, Settled serde m.sourceCwd cwd line) := by
  unfold sessionBytes keptBytes
  cases isJsonl p with
  | false => simp
  | true => simpa using rewritten_eq_kept_iff h data

/-- The session folder comes back where its lines are settled. -/
theorem session_eq_iff {serde : Serde} {m : Manifest} (h : Reprints serde (plainRewrite m cwd))
    (side : Option Folder) :
    (∀ p, (sideRead side p).map (sessionBytes serde (plainRewrite m cwd) p) =
        (sideRead side p).map (keptBytes serde p)) ↔
      ∀ p data, sideRead side p = some data → isJsonl p = true →
        ∀ line ∈ keptLines serde data, Settled serde m.sourceCwd cwd line := by
  refine forall_congr' fun p ↦ ?_
  cases sideRead side p with
  | none => simp
  | some data => simpa using sessionBytes_eq_iff h p data

/-- The transcript of a dump is rewritten as the one it was made of. -/
theorem keptLines_joinLines {serde : Serde} (bs : Bytes) :
    keptLines serde (joinLines (bodies bs)) = keptLines serde bs := by
  rw [keptLines, bodies_joinLines, keptLines]

/-- A dump that is loaded where no operation fails and the conversation is not there yet, whatever
it is and wherever it goes, gives the conversation back exactly if its id is one, its manifest is no
longer than what is read of it, and moving its project leaves each line as it is. -/
theorem dump_then_load (host : FileHost UInt8) (codec : Codec) (ids : Ids) (stamp : DumpStamp)
    (conv : Conversation) (extras : DumpExtras) (claudeDir : TreePath) (cwd : String)
    (w : FileState UInt8)
    (hready : Ready host ids
      (plainLoad claudeDir cwd (dumpConversation codec stamp conv extras)) conv.id w.tree)
    (hmanifest : ManifestBack codec (manifestOf codec stamp conv extras))
    (hreprints : Reprints codec.toSerde (plainRewrite (manifestOf codec stamp conv extras) cwd))
    (hextras : Readable codec.toSerde extras) :
    GivenBack codec conv extras
        ((plainLoad claudeDir cwd (dumpConversation codec stamp conv extras)).places ids conv.id)
        (dumpConversation codec stamp conv extras)
        ((loadConversation host codec ids
          (plainLoad claudeDir cwd (dumpConversation codec stamp conv extras))).runOn w) ↔
      ids.valid conv.id = true ∧
        (codec.printManifest (manifestOf codec stamp conv extras)).length ≤ manifestCap ∧
        ∀ line, Carries codec.toSerde conv line → Settled codec.toSerde
          (projectRootOf codec.toSerde conv.slug conv.transcript) cwd line := by
  constructor
  · intro hgiven
    obtain ⟨report, hok, -⟩ := hgiven.report
    have haccepted := accepted_of_ok hready hmanifest (Prod.ext hok rfl)
    obtain ⟨report', w', hrun, -, htranscript, hsession, -⟩ :=
      load_dumped hready hmanifest haccepted.1 haccepted.2
    rw [hrun] at hgiven
    have hkept := Option.some.inj (htranscript.symm.trans hgiven.transcript)
    rw [← keptLines_joinLines, rewritten_eq_kept_iff hreprints, keptLines_joinLines] at hkept
    have hside := (session_eq_iff hreprints conv.session).mp fun p ↦
      (hsession p).symm.trans (hgiven.session p)
    refine ⟨haccepted.1, haccepted.2, fun line hline ↦ ?_⟩
    rcases hline with hline | ⟨p, data, hread, hjsonl, hline⟩
    · exact hkept line hline
    · exact hside p data hread hjsonl line hline
  · rintro ⟨hid, hcap, hsettled⟩
    obtain ⟨report, w', hrun, hreport, htranscript, hsession, hhistory⟩ :=
      load_dumped hready hmanifest hid hcap
    rw [hrun]
    have hkept := (rewritten_eq_kept_iff hreprints (joinLines (bodies conv.transcript))).mpr
      fun line hline ↦ hsettled line (.inl (by rwa [keptLines_joinLines] at hline))
    rw [keptLines_joinLines] at hkept
    have hside := (session_eq_iff hreprints conv.session).mpr fun p data hread hjsonl line hline ↦
      hsettled line (.inr ⟨p, data, hread, hjsonl, hline⟩)
    exact {
      report := ⟨report, rfl, hreport⟩
      transcript := by rw [htranscript, hkept]
      session := fun p ↦ (hsession p).trans (hside p)
      history := hhistory
      journal := readJournal_dump hextras
      mindmaps := readMindmaps_dump hextras }

end

/-! ### A line in another order -/

/-- A message as it may be written, and as `serde_json` prints it. -/
def messageLine : Bytes := ascii "\x7b\"type\":\"user\",\"cwd\":\"/p\"\x7d"

def printedLine : Bytes := ascii "\x7b\"cwd\":\"/p\",\"type\":\"user\"\x7d"

/-- What both are read as. -/
def messageFields : List (String × Json) := [("cwd", .str "/p"), ("type", .str "user")]

/-- The manifest of the conversation below. -/
def messageManifest : Bytes :=
  ascii ("\x7b\n  \"format\": \"claudebase-chat-dump\",\n  \"version\": 3,\n  \"session_id\": \"" ++
    sampleId ++ "\",\n  \"title\": null,\n  \"source_cwd\": \"/p\",\n  \"created_at\": " ++
    "\"2026-01-01T00:00:00+00:00\",\n  \"claudebase_version\": \"0.25.0\"\n\x7d")

/-- What reads and prints these texts. -/
def messageCodec : Codec where
  parse line := if line = messageLine ∨ line = printedLine then some (.obj messageFields) else none
  print
    | .obj [("cwd", .str cwd), ("type", .str type)] =>
      ascii ("\x7b\"cwd\":\"" ++ cwd ++ "\",\"type\":\"" ++ type ++ "\"\x7d")
    | _ => []
  parseManifest bs := if bs = messageManifest then
      some ⟨format, version, sampleId, none, some "/p", "2026-01-01T00:00:00+00:00", "0.25.0", none,
        none, none⟩
    else none
  printManifest _ := messageManifest

/-- One message, in the project `/p`. -/
def messageConversation : Conversation :=
  ⟨sampleId, "-p", messageLine ++ [newline], none, none, nofun, nofun⟩

def messageStamp : DumpStamp := ⟨"2026-01-01T00:00:00+00:00", "0.25.0"⟩

/-- Its manifest. -/
def messageDump : Manifest :=
  manifestOf messageCodec messageStamp messageConversation ⟨none, [], none⟩

theorem messageDump_eq : messageDump = ⟨format, version, sampleId, none, some "/p",
    "2026-01-01T00:00:00+00:00", "0.25.0", none, none, none⟩ := by
  decide +kernel

theorem messageManifest_back : ManifestBack messageCodec messageDump where
  back := by
    have hprint : messageCodec.printManifest messageDump = messageManifest := by
      simp only [messageCodec]
    rw [hprint, messageDump_eq]
    simp only [messageCodec, if_true]
  cut n hn := by
    have hprint : messageCodec.printManifest messageDump = messageManifest := by
      simp only [messageCodec]
    rw [hprint] at hn ⊢
    have hne : messageManifest.take n ≠ messageManifest :=
      fun heq ↦ absurd (List.take_eq_self_iff messageManifest |>.mp heq) (not_le.mpr hn)
    exact if_neg hne

theorem messageLine_reprints :
    Reprints messageCodec.toSerde (plainRewrite messageDump "/p") := by
  have hobj {line : Bytes} (hline : line = messageLine ∨ line = printedLine) :
      messageCodec.parse line = some (.obj messageFields) := if_pos hline
  have hfields {line : Bytes} {fields : List (String × Json)}
      (h : messageCodec.parse line = some (.obj fields)) : fields = messageFields := by
    by_cases hline : line = messageLine ∨ line = printedLine
    · cases (hobj hline).symm.trans h
      rfl
    · have hparse : messageCodec.parse line = none := if_neg hline
      cases hparse.symm.trans h
  have hmoved : (plainRewrite messageDump "/p").moved messageFields = some "/p" := by
    decide +kernel
  have hprint : messageCodec.print (.obj (setField messageFields "cwd" (.str "/p"))) =
      printedLine := by
    decide +kernel
  constructor
  · intro line fields h
    rw [hfields h]
    decide
  · intro line fields c h hc
    rw [hfields h] at hc ⊢
    cases hmoved.symm.trans hc
    rw [hprint]
    decide +kernel
  · intro line fields c h hc
    rw [hfields h] at hc ⊢
    cases hmoved.symm.trans hc
    rw [hprint]
    exact ⟨messageFields, hobj (.inr rfl), rfl⟩

/-- Nothing goes with it. -/
theorem messageExtras_readable : Readable messageCodec.toSerde ⟨none, [], none⟩ where
  entry := nofun
  count := Nat.zero_le _
  journal := Nat.zero_le _
  back := fun h ↦ absurd rfl h
  mindmaps := fun h ↦ absurd rfl h

/-- A machine on which nothing is. -/
theorem ready_empty (archive : Archive) : Ready (failingAt []) sampleIds
    (plainLoad ["home", ".claude"] "/p" archive) messageConversation.id FileTree.empty where
  fault _ := rfl
  fresh _ _ := rfl
  way := by
    rintro a - q - ⟨d, hd⟩
    cases hd
  missing := rfl

/-- A message that is loaded where nothing is. -/
theorem dump_then_load_message :
    GivenBack messageCodec messageConversation ⟨none, [], none⟩
        ((plainLoad ["home", ".claude"] "/p" (dumpConversation messageCodec messageStamp
          messageConversation ⟨none, [], none⟩)).places sampleIds messageConversation.id)
        (dumpConversation messageCodec messageStamp messageConversation ⟨none, [], none⟩)
        ((loadConversation (failingAt []) messageCodec sampleIds
          (plainLoad ["home", ".claude"] "/p" (dumpConversation messageCodec messageStamp
            messageConversation ⟨none, [], none⟩))).runOn ⟨FileTree.empty, []⟩) ↔
      sampleIds.valid messageConversation.id = true ∧
        (messageCodec.printManifest (manifestOf messageCodec messageStamp messageConversation
          ⟨none, [], none⟩)).length ≤ manifestCap ∧
        ∀ line, Carries messageCodec.toSerde messageConversation line →
          Settled messageCodec.toSerde (projectRootOf messageCodec.toSerde messageConversation.slug
            messageConversation.transcript) "/p" line :=
  dump_then_load (failingAt []) messageCodec sampleIds messageStamp messageConversation
    ⟨none, [], none⟩ ["home", ".claude"] "/p" ⟨FileTree.empty, []⟩ (ready_empty _)
    messageManifest_back messageLine_reprints messageExtras_readable

/-- A message that is not printed as it is written does not come back as it was, though it is loaded
into the folder it comes from. -/
theorem dump_then_load_reordered : ¬ ∀ (host : FileHost UInt8) (codec : Codec) (ids : Ids)
    (stamp : DumpStamp) (conv : Conversation) (extras : DumpExtras) (claudeDir : TreePath)
    (cwd : String) (w : FileState UInt8),
    Ready host ids (plainLoad claudeDir cwd (dumpConversation codec stamp conv extras)) conv.id
      w.tree →
    ManifestBack codec (manifestOf codec stamp conv extras) →
    Reprints codec.toSerde (plainRewrite (manifestOf codec stamp conv extras) cwd) →
    Readable codec.toSerde extras → ids.valid conv.id = true →
    (codec.printManifest (manifestOf codec stamp conv extras)).length ≤ manifestCap →
    projectRootOf codec.toSerde conv.slug conv.transcript = some cwd →
    GivenBack codec conv extras
      ((plainLoad claudeDir cwd (dumpConversation codec stamp conv extras)).places ids conv.id)
      (dumpConversation codec stamp conv extras)
      ((loadConversation host codec ids
        (plainLoad claudeDir cwd (dumpConversation codec stamp conv extras))).runOn w) := by
  intro h
  have hcap : (messageCodec.printManifest messageDump).length ≤ manifestCap := by
    decide +kernel
  have hroot : projectRootOf messageCodec.toSerde messageConversation.slug
      messageConversation.transcript = some "/p" := by
    decide +kernel
  have hready := ready_empty (dumpConversation messageCodec messageStamp messageConversation
    ⟨none, [], none⟩)
  have hgiven := h (failingAt []) messageCodec sampleIds messageStamp messageConversation
    ⟨none, [], none⟩ ["home", ".claude"] "/p" ⟨FileTree.empty, []⟩ hready messageManifest_back
    messageLine_reprints messageExtras_readable (by decide) hcap hroot
  obtain ⟨report, w', hrun, -, htranscript, -⟩ := @load_dumped (failingAt []) messageCodec sampleIds
    messageStamp messageConversation ⟨none, [], none⟩ ["home", ".claude"] "/p"
    ⟨FileTree.empty, []⟩ hready messageManifest_back (by decide) hcap
  rw [hrun] at hgiven
  have hsame := Option.some.inj (htranscript.symm.trans hgiven.transcript)
  revert hsame
  decide +kernel

end Claudebase.Chat
