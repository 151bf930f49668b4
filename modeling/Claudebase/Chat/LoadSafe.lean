import Claudebase.Chat.Load

/-!
# A load that fails leaves nothing

`src/chat_transfer.rs:334–506`. Unpacking changes only the staging places; the renames add the side
folders, and last the transcript. None of these was there before, so whatever fails, and however
often, what was there stays, and what is new is removed as far as removing it goes through.
-/

namespace Claudebase.Chat
open Claudebase.Base FileIo

/-! ### Places -/

namespace Places

/-- The staging places. -/
def stages (p : Places) : List TreePath := [p.stageSession, p.stageHistory, p.stageTranscript]

/-- The side folders. -/
def sides (p : Places) : List TreePath := [p.session, p.history]

/-- The folders the places are in. -/
def ways (p : Places) : List TreePath := [p.folder, p.historyRoot]

/-- No place is in another. -/
structure Apart (p : Places) : Prop where
  folder : ¬ p.folder <+: p.historyRoot
  historyRoot : ¬ p.historyRoot <+: p.folder
  id : ∃ c rest, p.id.toList = c :: rest ∧ c ≠ '.'

/-- Nothing is staged. -/
def Fresh (p : Places) (t : FileTree UInt8) : Prop := ∀ s ∈ p.stages, t.node s = none

/-- The conversation is not there. -/
def Absent (p : Places) (t : FileTree UInt8) : Prop :=
  t.node p.transcript = none ∧ ∀ s ∈ p.sides, t.node s = none

end Places

theorem LoadRequest.apart (req : LoadRequest) (ids : Ids) {id : String}
    (hid : ids.valid id = true) : (req.places ids id).Apart where
  folder h := by
    have hlength := h.length_le
    simp [LoadRequest.places] at hlength
  historyRoot h := by
    have hnames := (List.prefix_append_right_inj req.claudeDir).mp h
    simp at hnames
  id := ids.starts id hid

/-- Two names in one folder. -/
theorem snoc_prefix_iff {p : TreePath} {a b : String} : p ++ [a] <+: p ++ [b] ↔ a = b := by
  rw [List.prefix_append_right_inj]
  simp

namespace Places.Apart

variable {p : Places} (h : p.Apart)

include h

theorem id_ne_stage (s s' : String) : p.id ++ s ≠ p.stage ++ s' := by
  obtain ⟨c, rest, hid, hc⟩ := h.id
  intro heq
  have hchars : (p.id ++ s).toList = (".claudebase-load-" ++ p.tag ++ s').toList :=
    congrArg String.toList heq
  rw [String.toList_append, hid, String.toList_append, String.toList_append] at hchars
  simp at hchars
  exact hc hchars.1

/-- What is below one folder is not below the other. -/
theorem folder_historyRoot (a b : String) : ¬ p.folder ++ [a] <+: p.historyRoot ++ [b] := by
  intro hab
  have hfolder : p.folder <+: p.historyRoot ++ [b] := (List.prefix_append _ _).trans hab
  rcases comparable hfolder (List.prefix_append p.historyRoot [b]) with hfh | hhf
  · exact h.folder hfh
  · exact h.historyRoot hhf

theorem historyRoot_folder (a b : String) : ¬ p.historyRoot ++ [a] <+: p.folder ++ [b] := by
  intro hab
  have hroot : p.historyRoot <+: p.folder ++ [b] := (List.prefix_append _ _).trans hab
  rcases comparable hroot (List.prefix_append p.folder [b]) with hhf | hfh
  · exact h.historyRoot hhf
  · exact h.folder hfh

/-- A place is not on the way to the places. -/
theorem not_way (a : String) : (∀ q ∈ p.ways, ¬ p.folder ++ [a] <+: q) ∧
    ∀ q ∈ p.ways, ¬ p.historyRoot ++ [a] <+: q := by
  constructor
  · intro q hq hqp
    simp only [Places.ways, List.mem_cons, List.not_mem_nil, or_false] at hq
    rcases hq with rfl | rfl
    · have hlength := hqp.length_le
      simp only [List.length_append, List.length_singleton] at hlength
      omega
    · exact h.folder ((List.prefix_append _ _).trans hqp)
  · intro q hq hqp
    simp only [Places.ways, List.mem_cons, List.not_mem_nil, or_false] at hq
    rcases hq with rfl | rfl
    · exact h.historyRoot ((List.prefix_append _ _).trans hqp)
    · have hlength := hqp.length_le
      simp only [List.length_append, List.length_singleton] at hlength
      omega

/-- The side folders are not above the staging folders. -/
theorem side_apart : ¬ p.session <+: p.stageSession ∧ ¬ p.history <+: p.stageHistory := by
  have hne : p.id ≠ p.stage := by
    intro heq
    exact h.id_ne_stage "" "" (by rw [heq])
  exact ⟨fun hpre ↦ hne (snoc_prefix_iff.mp hpre), fun hpre ↦ hne (snoc_prefix_iff.mp hpre)⟩

/-- The transcript, staged or placed, is not above the staging folders. -/
theorem transcripts_apart : ∀ r ∈ [p.stageTranscript, p.transcript],
    ¬ r <+: p.stageSession ∧ ¬ r <+: p.stageHistory := by
  simp only [List.mem_cons, List.not_mem_nil, or_false, forall_eq_or_imp, forall_eq]
  refine ⟨⟨fun hpre ↦ ?_, h.folder_historyRoot _ _⟩, fun hpre ↦ ?_, h.folder_historyRoot _ _⟩
  · have hlength := congrArg String.length (snoc_prefix_iff.mp hpre)
    simp at hlength
  · exact h.id_ne_stage ".jsonl" "" (by simpa using snoc_prefix_iff.mp hpre)

theorem transcript_stage : ¬ p.transcript <+: p.stageTranscript :=
  fun hpre ↦ h.id_ne_stage ".jsonl" ".jsonl" (snoc_prefix_iff.mp hpre)

/-- The transcript is not in a staging place or a side folder. -/
theorem transcript_apart : ∀ r ∈ p.stages ++ p.sides, ¬ r <+: p.transcript := by
  intro r hr
  simp only [Places.stages, Places.sides, List.cons_append, List.nil_append, List.mem_cons,
    List.not_mem_nil, or_false] at hr
  rcases hr with rfl | rfl | rfl | rfl | rfl
  · intro hpre
    exact h.id_ne_stage ".jsonl" "" (by simpa using (snoc_prefix_iff.mp hpre).symm)
  · exact h.historyRoot_folder _ _
  · intro hpre
    exact h.id_ne_stage ".jsonl" ".jsonl" (snoc_prefix_iff.mp hpre).symm
  · intro hpre
    have hname := congrArg String.length (snoc_prefix_iff.mp hpre)
    simp at hname
  · exact h.historyRoot_folder _ _

end Places.Apart

/-! ### Unpacking -/

/-- What unpacking does to files: below the staging places, and no file is put at a staging
folder's own place. -/
structure Staged (p : Places) (op : FileOp UInt8) : Prop where
  fits : op.Fits p.stages p.ways
  session : ¬ op.Puts p.stageSession
  history : ¬ op.Puts p.stageHistory

section

variable {host : FileHost UInt8} {serde : Serde} {places : Places} {rw : Rewrite}
  {name : Option String} {R : FileState UInt8 → FileState UInt8 → Prop}

theorem staged_read : Staged places .read := ⟨trivial, id, id⟩

theorem staged_sync (path : TreePath) : Staged places (.sync path) := ⟨trivial, id, id⟩

/-- A place below a staging folder, or the staged transcript. -/
structure Below (places : Places) (path : TreePath) : Prop where
  stage : ∃ r ∈ places.stages, r <+: path
  session : path ≠ places.stageSession
  history : path ≠ places.stageHistory

theorem staged_create {path : TreePath} (h : Below places path) : Staged places (.create path) :=
  ⟨h.stage, h.session, h.history⟩

theorem staged_write {path : TreePath} (h : Below places path) (data : Bytes) :
    Staged places (.write path data) := ⟨h.stage, h.session, h.history⟩

/-- The folders of a member, from its staging folder on. -/
theorem staged_makeDirs {way : TreePath} {stage : String} {rest : TreePath}
    (hway : way ∈ places.ways) (hstage : way ++ [stage] ∈ places.stages) :
    Staged places (.makeDirs (way ++ [stage] ++ rest).dropLast) := by
  refine ⟨fun q hq ↦ ?_, id, id⟩
  have hq' : q <+: way ++ [stage] ++ rest := hq.trans (List.dropLast_prefix _)
  rcases comparable (List.prefix_append (way ++ [stage]) rest) hq' with hbelow | habove
  · exact .inl ⟨_, hstage, hbelow⟩
  · by_cases heq : q = way ++ [stage]
    · exact .inl ⟨_, hstage, heq ▸ List.prefix_refl _⟩
    · have hlast := prefix_dropLast habove heq
      rw [List.dropLast_concat] at hlast
      exact .inr ⟨way, hway, hlast⟩

theorem below_session (h : places.Apart) {rest : TreePath} (hrest : rest ≠ []) :
    Below places (places.stageSession ++ rest) where
  stage := ⟨places.stageSession, by simp [Places.stages], List.prefix_append _ _⟩
  session := by simpa using hrest
  history heq := by
    apply h.folder_historyRoot places.stage places.stage
    change places.stageSession <+: places.stageHistory
    rw [← heq]
    exact List.prefix_append _ _

theorem below_history (h : places.Apart) {rest : TreePath} (hrest : rest ≠ []) :
    Below places (places.stageHistory ++ rest) where
  stage := ⟨places.stageHistory, by simp [Places.stages], List.prefix_append _ _⟩
  session heq := by
    apply h.historyRoot_folder places.stage places.stage
    change places.stageHistory <+: places.stageSession
    rw [← heq]
    exact List.prefix_append _ _
  history := by simpa using hrest

theorem below_transcript (h : places.Apart) : Below places places.stageTranscript where
  stage := ⟨places.stageTranscript, by simp [Places.stages], List.prefix_refl _⟩
  session heq := by
    have hpre : places.folder ++ [places.stage ++ ".jsonl"] <+: places.folder ++ [places.stage] := by
      rw [show places.folder ++ [places.stage ++ ".jsonl"] = places.folder ++ [places.stage] from heq]
    have hlength := congrArg String.length (snoc_prefix_iff.mp hpre)
    simp at hlength
  history heq := by
    apply h.folder_historyRoot (places.stage ++ ".jsonl") places.stage
    change places.stageTranscript <+: places.stageHistory
    rw [heq]

/-- A member is placed below a staging folder. -/
theorem targetOf_rest {path : List Component} {rest : TreePath}
    (h : targetOf path = .ok (.session rest) ∨ targetOf path = .ok (.history rest)) :
    rest ≠ [] := by
  unfold targetOf at h
  split at h
  · simp at h
  · split at h
    · simp at h
    · split at h
      · simp at h
      · split at h
        · simp at h
        · split at h
          · next hne => simpa using (by simpa using h : _ = rest) ▸ hne.2
          · split at h
            · next hne => simpa using (by simpa using h : _ = rest) ▸ hne.2
            · simp at h

section

variable (hrefl : ∀ w, R w w) (htrans : ∀ a b c, R a b → R b c → R a c)
  (hops : ∀ op, Staged places op → Keeps R (operate host op))

include hrefl htrans hops

omit hrefl in
theorem keeps_writeNew {path : TreePath} (h : Below places path) (data : Bytes) :
    Keeps R (writeNew host path data) :=
  keeps_bind htrans (hops _ (staged_create h)) fun _ ↦
    keeps_bind htrans (hops _ staged_read) fun _ ↦
      keeps_bind htrans (hops _ (staged_write h data)) fun _ ↦ hops _ (staged_sync path)

theorem keeps_unpackTo (h : places.Apart) (lines : Option Nat) (data : Bytes) {target : Target}
    (htarget : ∀ rest, target = .session rest ∨ target = .history rest → rest ≠ []) :
    Keeps R (unpackTo host serde places rw name lines data target) := by
  cases target with
  | skip => exact keeps_pure hrefl lines
  | transcript =>
    exact keeps_bind htrans (keeps_writeNew htrans hops (below_transcript h) _) fun _ ↦
      keeps_pure hrefl _
  | session rest =>
    have hrest := htarget rest (.inl rfl)
    refine keeps_bind htrans (keeps_bind htrans ?_ fun _ ↦
      keeps_writeNew htrans hops (below_session h hrest) _) fun _ ↦ keeps_pure hrefl _
    exact hops _ (staged_makeDirs (by simp [Places.ways])
      (by simp [Places.stages, Places.stageSession]))
  | history rest =>
    have hrest := htarget rest (.inr rfl)
    refine keeps_bind htrans (keeps_bind htrans ?_ fun _ ↦
      keeps_writeNew htrans hops (below_history h hrest) _) fun _ ↦ keeps_pure hrefl _
    exact hops _ (staged_makeDirs (by simp [Places.ways])
      (by simp [Places.stages, Places.stageHistory]))

/-- One member. -/
theorem keeps_unpack (h : places.Apart) (lines : Option Nat) (m : Member) :
    Keeps R (unpack host serde places rw name lines m) := by
  refine keeps_bind htrans (hops _ staged_read) fun _ ↦ ?_
  split
  · exact keeps_pure hrefl lines
  · split
    · exact keeps_throw hrefl _
    · next path hpath =>
      split
      · exact keeps_throw hrefl _
      · exact keeps_pure hrefl lines
      · next target htarget =>
        split
        · exact keeps_unpackTo hrefl htrans hops h lines m.data fun rest hrest ↦
            targetOf_rest (hrest.imp (fun h ↦ h ▸ htarget) fun h ↦ h ▸ htarget)
        · exact keeps_throw hrefl _

end

/-- All members: only the staging places change, and these stay folders. -/
theorem unpack_within (h : places.Apart) (members : List Member) :
    Keeps (Within places.stages places.ways)
      (members.foldlM (unpack host serde places rw name) none) :=
  keeps_foldlM Within.refl Within.trans (fun lines m _ ↦
    keeps_unpack Within.refl Within.trans (fun _ hop ↦ keeps_perform_within host _ hop.fits)
      h lines m) none

theorem unpack_unfiled (h : places.Apart) (members : List Member) :
    Keeps (fun w w' ↦ Unfiled places.stageSession w w' ∧ Unfiled places.stageHistory w w')
      (members.foldlM (unpack host serde places rw name) none) := by
  refine keeps_foldlM (fun w ↦ ⟨id, id⟩) (fun a b c h h' ↦ ⟨h'.1 ∘ h.1, h'.2 ∘ h.2⟩)
    (fun lines m _ ↦ keeps_unpack (fun w ↦ ⟨id, id⟩)
      (fun a b c h h' ↦ ⟨h'.1 ∘ h.1, h'.2 ∘ h.2⟩) (fun op hop w ↦ ?_) h lines m) none
  exact ⟨keeps_perform_unfiled host _ hop.session w, keeps_perform_unfiled host _ hop.history w⟩

/-! ### Renaming -/

theorem placeFolder_within {stage dest : TreePath} {roots ways : List TreePath}
    (hstage : stage ∈ roots) (hdest : dest ∈ roots) :
    Keeps (Within roots ways) (placeFolder host stage dest) := by
  refine keeps_bind Within.trans (keeps_look Within.refl _) fun made ↦ ?_
  split
  · exact keeps_perform_within host _
      ⟨⟨stage, hstage, List.prefix_refl _⟩, dest, hdest, List.prefix_refl _⟩
  · exact keeps_pure Within.refl _

/-- A staging folder that is placed is gone. -/
theorem placeFolder_ok {stage dest : TreePath} {w w' : FileState UInt8}
    (hrun : (placeFolder host stage dest).runOn w = (.ok (), w')) (hfile : ¬ w.tree.IsFile stage)
    (hdest : ¬ dest <+: stage) : w'.tree.node stage = none := by
  have hlook := @runOn_bind_ok _ _ _ _ (FileIo.look fun t ↦ decide (t.node stage = some .dir))
    (fun made ↦ if made = true then operate host (.rename stage dest) else pure ()) w w _ rfl
  rw [placeFolder, hlook] at hrun
  by_cases hdir : w.tree.node stage = some .dir
  · rw [if_pos (by simpa using hdir)] at hrun
    rcases runOn_perform host LoadError.io (.rename stage dest) w with ⟨t, ht, h⟩ | ⟨f, h⟩ | h
    · cases hrun.symm.trans h
      exact FileTree.node_old_of_rename ht hdest
    · cases hrun.symm.trans h
    · cases hrun.symm.trans h
  · rw [if_neg (by simpa using hdir)] at hrun
    cases hrun
    cases hnode : w.tree.node stage with
    | none => rfl
    | some n =>
      cases n with
      | file d => exact absurd ⟨d, hnode⟩ hfile
      | dir => exact absurd hnode hdir

theorem placeFolder_unfiled {stage dest p : TreePath} (hdest : ¬ dest <+: p) :
    Keeps (Unfiled p) (placeFolder host stage dest) := by
  refine keeps_bind (Unfiled.trans p) (keeps_look (Unfiled.refl p) _) fun made ↦ ?_
  split
  · exact keeps_perform_unfiled host _ hdest
  · exact keeps_pure (Unfiled.refl p) _

/-- The staged files are all in their places. -/
structure Placed (host : FileHost UInt8) (places : Places) (w w' : FileState UInt8) : Prop where
  last : ∃ w₁ t, Within (places.stages ++ places.sides) places.ways w w₁ ∧
    w₁.tree.node places.stageSession = none ∧ w₁.tree.node places.stageHistory = none ∧
    (FileOp.rename places.stageTranscript places.transcript).run host.names w₁.tree = some t ∧
    w' = ⟨t, w₁.log ++ [(.rename places.stageTranscript places.transcript, true)]⟩

/-- The programs before the last rename. -/
theorem places_within (h : places.Apart) (members : List Member) :
    Keeps (Within (places.stages ++ places.sides) places.ways)
        (members.foldlM (unpack host serde places rw name) none) ∧
      Keeps (Within (places.stages ++ places.sides) places.ways)
        (placeFolder host places.stageSession places.session) ∧
      Keeps (Within (places.stages ++ places.sides) places.ways)
        (placeFolder host places.stageHistory places.history) := by
  refine ⟨fun w ↦ (unpack_within h members w).mono (List.subset_append_left _ _)
    (List.Subset.refl _), ?_, ?_⟩
  · exact placeFolder_within (by simp [Places.stages]) (by simp [Places.sides])
  · exact placeFolder_within (by simp [Places.stages]) (by simp [Places.sides])

/-- A failure to unpack or to place changes nothing outside the staging places and the side
folders. -/
theorem unpackAll_error (h : places.Apart) {members : List Member} {w w' : FileState UInt8}
    {e : LoadError}
    (hrun : (unpackAll host serde places rw name members).runOn w = (.error e, w')) :
    w.tree.Spares (places.stages ++ places.sides) places.ways w'.tree := by
  obtain ⟨hloop, hsession, hhistory⟩ :=
    @places_within host serde places rw name h members
  rcases cases_of_runOn_error hrun with hfail | ⟨lines, w₁, hok, hrun⟩
  · exact (hloop.of_eq hfail).spares
  · have h₁ := (hloop.of_eq hok).spares
    cases lines with
    | none =>
      cases hrun
      exact h₁
    | some n =>
      rcases cases_of_runOn_error hrun with hfail | ⟨_, w₂, hok, hrun⟩
      · exact h₁.trans (hsession.of_eq hfail).spares
      · have h₂ := h₁.trans (hsession.of_eq hok).spares
        rcases cases_of_runOn_error hrun with hfail | ⟨_, w₃, hok, hrun⟩
        · exact h₂.trans (hhistory.of_eq hfail).spares
        · have h₃ := h₂.trans (hhistory.of_eq hok).spares
          rcases cases_of_runOn_error hrun with hfail | ⟨_, w₄, -, hrun⟩
          · -- a rename that fails leaves the tree as it was
            rcases runOn_perform host LoadError.io
              (.rename places.stageTranscript places.transcript) w₃ with ⟨t, -, h⟩ | ⟨f, h⟩ | h
            · cases hfail.symm.trans h
            · cases hfail.symm.trans h
              exact h₃
            · cases hfail.symm.trans h
              exact h₃
          · cases hrun

/-- A success: the staging folders are gone, and the last step places the transcript. -/
theorem unpackAll_ok (h : places.Apart) {members : List Member} {w w' : FileState UInt8} {n : Nat}
    (hrun : (unpackAll host serde places rw name members).runOn w = (.ok n, w'))
    (hsession : ¬ w.tree.IsFile places.stageSession)
    (hhistory : ¬ w.tree.IsFile places.stageHistory) : Placed host places w w' := by
  obtain ⟨hloop, hplace, hplace'⟩ :=
    @places_within host serde places rw name h members
  obtain ⟨lines, w₁, hok₁, hrun⟩ := exists_of_runOn_ok hrun
  obtain ⟨hunfiled, hunfiled'⟩ := (unpack_unfiled h members).of_eq hok₁
  cases lines with
  | none => cases hrun
  | some n =>
    obtain ⟨_, w₂, hok₂, hrun⟩ := exists_of_runOn_ok hrun
    obtain ⟨_, w₃, hok₃, hrun⟩ := exists_of_runOn_ok hrun
    obtain ⟨_, w₄, hok₄, hrun⟩ := exists_of_runOn_ok hrun
    cases hrun
    have hgone₂ := placeFolder_ok hok₂ (hunfiled hsession) h.side_apart.1
    have hunfiled₂ : Unfiled places.stageHistory w₁ w₂ :=
      (placeFolder_unfiled (h.folder_historyRoot _ _)).of_eq hok₂
    have hgone₃ := placeFolder_ok hok₃ (hunfiled₂ (hunfiled' hhistory)) h.side_apart.2
    -- placing the other folder does not bring the first back
    have hother : Within [places.stageHistory, places.history] [] w₂ w₃ :=
      (placeFolder_within (by simp) (by simp)).of_eq hok₃
    have hkept : w₃.tree.node places.stageSession = none := by
      refine hother.spares.none ?_ (by simp) hgone₂
      simp only [List.mem_cons, List.not_mem_nil, or_false, forall_eq_or_imp, forall_eq]
      exact ⟨h.historyRoot_folder _ _, h.historyRoot_folder _ _⟩
    have hwithin := ((hloop.of_eq hok₁).trans _ _ _ (hplace.of_eq hok₂)).trans _ _ _
      (hplace'.of_eq hok₃)
    rcases runOn_perform host LoadError.io (.rename places.stageTranscript places.transcript) w₃ with
      ⟨t, ht, hperform⟩ | ⟨f, hperform⟩ | hperform
    · cases hok₄.symm.trans hperform
      exact ⟨w₃, t, hwithin, hkept, hgone₃, ht, rfl⟩
    · cases hok₄.symm.trans hperform
    · cases hok₄.symm.trans hperform

/-! ### Cleaning up -/

/-- A place is empty, or removing what is there failed. -/
def Emptied (s : TreePath) (w : FileState UInt8) : Prop :=
  w.tree.node s = none ∨ (.removeTree s, false) ∈ w.log ∨ (.removeFile s, false) ∈ w.log

theorem Emptied.of_tree {s : TreePath} {w w' : FileState UInt8} (h : Cleared (.removeTree s) s w)
    (hw : Clears w w') : Emptied s w' := (h.mono hw).imp_right .inl

theorem Emptied.of_file {s : TreePath} {w w' : FileState UInt8} (h : Cleared (.removeFile s) s w)
    (hw : Clears w w') : Emptied s w' := (h.mono hw).imp_right .inr

theorem operate_removeTree (host : FileHost UInt8) (p : TreePath) (w : FileState UInt8) :
    Clears w ((operate host (.removeTree p)).runOn w).2 ∧
      Cleared (.removeTree p) p ((operate host (.removeTree p)).runOn w).2 :=
  runOn_removeTree host LoadError.io p w

theorem operate_removeFile (host : FileHost UInt8) (p : TreePath) (w : FileState UInt8) :
    Clears w ((operate host (.removeFile p)).runOn w).2 ∧
      Cleared (.removeFile p) p ((operate host (.removeFile p)).runOn w).2 :=
  runOn_removeFile host LoadError.io p w

/-- Nothing else is removed. -/
theorem cleanUp_within :
    Keeps (Within (places.stages ++ places.sides) places.ways) (cleanUp host places) := by
  have hremove {op : FileOp UInt8} (hop : op.Fits (places.stages ++ places.sides) places.ways) :
      Keeps (Within (places.stages ++ places.sides) places.ways) (attempt (operate host op)) :=
    keeps_attempt (keeps_perform_within host _ hop)
  have hroot {s : TreePath} (hs : s ∈ places.stages ++ places.sides) :
      ∃ r ∈ places.stages ++ places.sides, r <+: s := ⟨s, hs, List.prefix_refl s⟩
  refine keeps_bind Within.trans (hremove (hroot (by simp [Places.stages]))) fun _ ↦ ?_
  refine keeps_bind Within.trans (hremove (hroot (by simp [Places.stages]))) fun _ ↦ ?_
  refine keeps_bind Within.trans (hremove (hroot (by simp [Places.stages]))) fun _ ↦ ?_
  refine keeps_bind Within.trans (keeps_look Within.refl _) fun there ↦ ?_
  split
  · exact keeps_pure Within.refl _
  · refine keeps_bind Within.trans (hremove (hroot (by simp [Places.sides]))) fun _ ↦ ?_
    refine keeps_bind Within.trans (hremove (hroot (by simp [Places.sides]))) fun _ ↦ ?_
    exact keeps_pure Within.refl _

/-- What is staged and the side folders are removed, as far as removing goes through. -/
theorem cleanUp_spec {w : FileState UInt8} (hnone : w.tree.node places.transcript = none) :
    ∃ w', (cleanUp host places).runOn w = (.ok (), w') ∧
      ∀ s ∈ places.stages ++ places.sides, Emptied s w' := by
  have h₁ := operate_removeTree host places.stageSession w
  rw [cleanUp, runOn_attempt_bind]
  generalize (operate host (.removeTree places.stageSession)).runOn w = r₁ at h₁ ⊢
  have h₂ := operate_removeTree host places.stageHistory r₁.2
  rw [runOn_attempt_bind]
  generalize (operate host (.removeTree places.stageHistory)).runOn r₁.2 = r₂ at h₂ ⊢
  have h₃ := operate_removeFile host places.stageTranscript r₂.2
  rw [runOn_attempt_bind]
  generalize (operate host (.removeFile places.stageTranscript)).runOn r₂.2 = r₃ at h₃ ⊢
  have hclears : Clears w r₃.2 := (h₁.1.trans _ _ _ h₂.1).trans _ _ _ h₃.1
  have hthere : (r₃.2.tree.node places.transcript).isSome = false := by
    rcases hclears.gone places.transcript with hgone | hsame
    · rw [hgone]
      rfl
    · rw [hsame, hnone]
      rfl
  rw [runOn_look_bind, hthere, if_neg (by decide)]
  have h₄ := operate_removeTree host places.session r₃.2
  rw [runOn_attempt_bind]
  generalize (operate host (.removeTree places.session)).runOn r₃.2 = r₄ at h₄ ⊢
  have h₅ := operate_removeTree host places.history r₄.2
  rw [runOn_attempt_bind]
  generalize (operate host (.removeTree places.history)).runOn r₄.2 = r₅ at h₅ ⊢
  have hlast := h₄.1.trans _ _ _ h₅.1
  refine ⟨r₅.2, rfl, ?_⟩
  intro s hs
  simp only [Places.stages, Places.sides, List.cons_append, List.nil_append, List.mem_cons,
    List.not_mem_nil, or_false] at hs
  rcases hs with rfl | rfl | rfl | rfl | rfl
  · exact .of_tree h₁.2 ((h₂.1.trans _ _ _ h₃.1).trans _ _ _ hlast)
  · exact .of_tree h₂.2 (h₃.1.trans _ _ _ hlast)
  · exact .of_file h₃.2 hlast
  · exact .of_tree h₄.2 h₅.1
  · exact .of_tree h₅.2 (Clears.refl _)

end

/-! ### Loading -/

/-- What a failed load leaves: what was there, folders on the way to the places, and what could not
be removed. -/
structure Undone (places : Places) (w w' : FileState UInt8) : Prop where
  kept : ∀ p n, w.tree.node p = some n → w'.tree.node p = some n
  new : ∀ p, w.tree.node p = none → w'.tree.node p ≠ none →
    (w'.tree.node p = some .dir ∧ ∃ a ∈ places.ways, p <+: a) ∨
      ∃ s ∈ places.stages ++ places.sides, s <+: p ∧
        ((.removeTree s, false) ∈ w'.log ∨ (.removeFile s, false) ∈ w'.log)
  transcript : w.tree.node places.transcript = none → w'.tree.node places.transcript = none

/-- What a load leaves: what was there, folders on the way to the places, and the transcript and
the side folders of the conversation, the transcript put in its place last. -/
structure Done (places : Places) (w w' : FileState UInt8) : Prop where
  kept : ∀ p n, w.tree.node p = some n → w'.tree.node p = some n
  new : ∀ p, w.tree.node p = none → w'.tree.node p ≠ none →
    (w'.tree.node p = some .dir ∧ ∃ a ∈ places.ways, p <+: a) ∨ places.transcript <+: p ∨
      places.session <+: p ∨ places.history <+: p
  last : ∃ es, w'.log = w.log ++ es ++ [(.rename places.stageTranscript places.transcript, true)] ∧
    ∀ e ∈ es, ¬ e.1.Touches places.transcript

/-- The id a request loads, where its archive has a manifest that is accepted. -/
def LoadRequest.id (req : LoadRequest) (codec : Codec) (ids : Ids) : Option String :=
  match readManifest codec ids req.archive with
  | .ok manifest => some (if req.newId then ids.newId else manifest.sessionId)
  | .error _ => none

section

variable {places : Places} {w w' : FileState UInt8}

/-- Only folders on the way are new. -/
theorem undone_of_spares (h : places.Apart) (hspares : w.tree.Spares [] places.ways w'.tree) :
    Undone places w w' where
  kept p n hn := hspares.node_eq (by simp) hn
  new p hnone hsome := by
    rcases hspares p (by simp) with hsame | ⟨-, hdir, hway⟩
    · exact absurd (hsame.trans hnone) hsome
    · exact .inl ⟨hdir, hway⟩
  transcript hnone := by
    exact hspares.none (by simp) (h.not_way _).1 hnone

/-- Where nothing was at some places, what was there is not below them. -/
theorem kept_of_spares {roots ways : List TreePath} (hfresh : ∀ s ∈ roots, w.tree.node s = none)
    (hspares : w.tree.Spares roots ways w'.tree) {p : TreePath} {n : Node UInt8}
    (hn : w.tree.node p = some n) : w'.tree.node p = some n := by
  apply hspares.node_eq _ hn
  intro s hs hsp
  rw [FileTree.none_below (hfresh s hs) hsp] at hn
  cases hn

/-- After cleaning up. -/
theorem undone_of_emptied (h : places.Apart)
    (hfresh : ∀ s ∈ places.stages ++ places.sides, w.tree.node s = none)
    (hspares : w.tree.Spares (places.stages ++ places.sides) places.ways w'.tree)
    (hemptied : ∀ s ∈ places.stages ++ places.sides, Emptied s w') : Undone places w w' where
  kept p n hn := kept_of_spares hfresh hspares hn
  new p hnone hsome := by
    by_cases hbelow : ∃ s ∈ places.stages ++ places.sides, s <+: p
    · obtain ⟨s, hs, hsp⟩ := hbelow
      rcases hemptied s hs with hempty | hlog
      · exact absurd (FileTree.none_below hempty hsp) hsome
      · exact .inr ⟨s, hs, hsp, hlog⟩
    · push Not at hbelow
      rcases hspares p hbelow with hsame | ⟨-, hdir, hway⟩
      · exact absurd (hsame.trans hnone) hsome
      · exact .inl ⟨hdir, hway⟩
  transcript hnone := hspares.none h.transcript_apart (h.not_way _).1 hnone

/-- After the last rename. -/
theorem done_of_placed {host : FileHost UInt8} (h : places.Apart)
    (hfresh : ∀ s ∈ places.stages, w.tree.node s = none) (habsent : places.Absent w.tree)
    {w₀ : FileState UInt8} (hways : Within [] places.ways w w₀)
    (hplaced : Placed host places w₀ w') : Done places w w' := by
  obtain ⟨w₁, t, hwithin, hsession, hhistory, hrename, rfl⟩ := hplaced.last
  have hall := (hways.mono (List.nil_subset _) (List.Subset.refl _)).trans _ _ _ hwithin
  have hmoved : w₁.tree.Spares [places.stageTranscript, places.transcript] [] t :=
    @spares_run UInt8 _ _ _ _ (.rename places.stageTranscript places.transcript) host.names
      ⟨⟨_, by simp, List.prefix_refl _⟩, _, by simp, List.prefix_refl _⟩ hrename
  have hnone : ∀ s ∈ places.stages ++ (places.sides ++ [places.transcript]),
      w.tree.node s = none := by
    intro s hs
    rcases List.mem_append.mp hs with hs | hs
    · exact hfresh s hs
    · rcases List.mem_append.mp hs with hs | hs
      · exact habsent.2 s hs
      · rw [List.mem_singleton.mp hs]
        exact habsent.1
  have htotal : w.tree.Spares (places.stages ++ (places.sides ++ [places.transcript])) places.ways
      t := by
    refine (hall.spares.mono ?_ (List.Subset.refl _)).trans (hmoved.mono ?_ (List.nil_subset _))
    · intro s hs
      simp only [List.mem_append] at hs ⊢
      tauto
    · simp [Places.stages]
  refine ⟨fun p n hn ↦ kept_of_spares hnone htotal hn, fun p hp hsome ↦ ?_, ?_⟩
  · have hstage {s : TreePath} (hs : t.node s = none) : ¬ s <+: p :=
      fun hsp ↦ hsome (FileTree.none_below hs hsp)
    have hsession' : t.node places.stageSession = none :=
      hmoved.none (fun r hr ↦ (h.transcripts_apart r hr).1) (by simp) hsession
    have hhistory' : t.node places.stageHistory = none :=
      hmoved.none (fun r hr ↦ (h.transcripts_apart r hr).2) (by simp) hhistory
    have htranscript' : t.node places.stageTranscript = none :=
      FileTree.node_old_of_rename hrename h.transcript_stage
    by_cases hplace : places.transcript <+: p ∨ places.session <+: p ∨ places.history <+: p
    · exact .inr hplace
    · rw [not_or, not_or] at hplace
      have hout : ∀ s ∈ places.stages ++ (places.sides ++ [places.transcript]), ¬ s <+: p := by
        simp only [Places.stages, Places.sides, List.cons_append, List.nil_append, List.mem_cons,
          List.not_mem_nil, or_false, forall_eq_or_imp, forall_eq]
        exact ⟨hstage hsession', hstage hhistory', hstage htranscript', hplace.2.1, hplace.2.2,
          hplace.1⟩
      rcases htotal p hout with hsame | ⟨-, hdir, hway⟩
      · exact absurd (hsame.trans hp) hsome
      · exact .inl ⟨hdir, hway⟩
  · obtain ⟨es, hes, hfits⟩ := hall.log
    refine ⟨es, by rw [hes], fun e he ↦ ?_⟩
    exact (hfits e he).not_touches h.transcript_apart (h.not_way _).1

/-- Nothing found: the conversation is not there. -/
theorem absent_of_existing {host : FileHost UInt8} {claudeDir : TreePath} {t : FileTree UInt8}
    (h : existing host claudeDir places t = none) : places.Absent t := by
  have hfree : ∀ s ∈ [places.transcript, places.session, places.history], t.node s = none := by
    intro s hs
    have hnone := List.find?_eq_none.mp h s (List.mem_append_left _ hs)
    simpa using hnone
  exact ⟨hfree _ (by simp), fun s hs ↦ hfree s (by
    simp only [Places.sides, List.mem_cons, List.not_mem_nil, or_false] at hs
    rcases hs with rfl | rfl
    · simp
    · simp)⟩

/-- An id that is loaded is valid. -/
theorem LoadRequest.valid_id {req : LoadRequest} {codec : Codec} {ids : Ids} {manifest : Manifest}
    (h : readManifest codec ids req.archive = .ok manifest) :
    ids.valid (if req.newId then ids.newId else manifest.sessionId) = true := by
  split
  · exact ids.valid_newId
  · unfold readManifest at h
    split at h
    · cases h
    · split at h
      · cases h
      · split at h
        · cases h
        · split at h
          · cases h
          · split at h
            · cases h
            · next hvalid =>
              cases h
              simpa using hvalid

end

theorem read_within (host : FileHost UInt8) {roots ways : List TreePath} :
    Keeps (Within roots ways) (operate host .read) :=
  keeps_perform_within host _ (show FileOp.Fits roots ways .read from trivial)

/-- Making the folders the places are in changes only what is on the way to them. -/
theorem makeWays_within (host : FileHost UInt8) {places : Places} {a : TreePath}
    (ha : a ∈ places.ways) : Keeps (Within [] places.ways) (operate host (.makeDirs a)) :=
  keeps_perform_within host _ fun _ hq ↦ .inr ⟨a, ha, hq⟩

@[simp] theorem runOn_orThrow {β : Type} (r : Except LoadError β) (w : FileState UInt8) :
    (orThrow r).runOn w = (r, w) := by
  cases r with
  | ok b => rfl
  | error e => rfl

/-- A tree that is the same. -/
theorem undone_of_eq {places : Places} {w w' : FileState UInt8} (h : w'.tree = w.tree) :
    Undone places w w' where
  kept p n hn := by rw [h, hn]
  new p hnone hsome := absurd (by rw [h, hnone]) hsome
  transcript hnone := by rw [h, hnone]

theorem tree_of_read {host : FileHost UInt8} {w w' : FileState UInt8} {r : Except LoadError Unit}
    (h : (operate host .read).runOn w = (r, w')) : w'.tree = w.tree := by
  rcases runOn_perform host LoadError.io .read w with ⟨t, ht, hrun⟩ | ⟨f, hrun⟩ | hrun
  · cases h.symm.trans hrun
    cases ht
    rfl
  · cases h.symm.trans hrun
    rfl
  · cases h.symm.trans hrun
    rfl

section

variable {host : FileHost UInt8} {codec : Codec} {ids : Ids} {req : LoadRequest}
  {w w' : FileState UInt8}

/-- Where the staging places and the conversation's are empty, they still are once the folders they
are in are made. -/
theorem fresh_of_ways {places : Places} (h : places.Apart)
    (hfresh : ∀ s ∈ places.stages ++ places.sides, w.tree.node s = none)
    (hways : Within [] places.ways w w') :
    ∀ s ∈ places.stages ++ places.sides, w'.tree.node s = none := by
  intro s hs
  refine hways.spares.none (by simp) ?_ (hfresh s hs)
  simp only [Places.stages, Places.sides, List.cons_append, List.nil_append, List.mem_cons,
    List.not_mem_nil, or_false] at hs
  rcases hs with rfl | rfl | rfl | rfl | rfl
  · exact (h.not_way _).1
  · exact (h.not_way _).2
  · exact (h.not_way _).1
  · exact (h.not_way _).1
  · exact (h.not_way _).2

/-- How a load ends: before it made anything, among the folders the places are in, or after
unpacking, which is cleaned up where it failed. -/
inductive LoadEnds (host : FileHost UInt8) (codec : Codec) (ids : Ids) (req : LoadRequest)
    (w : FileState UInt8) : Except LoadError LoadReport → FileState UInt8 → Prop where
  | refused {e : LoadError} {w' : FileState UInt8} (htree : w'.tree = w.tree) :
      LoadEnds host codec ids req w (.error e) w'
  | ways {e : LoadError} {w' : FileState UInt8} {id : String} (hid : req.id codec ids = some id)
      (hapart : (req.places ids id).Apart) (hways : Within [] (req.places ids id).ways w w') :
      LoadEnds host codec ids req w (.error e) w'
  | failed {e : LoadError} {w₁ w₂ w' : FileState UInt8} {r : Except LoadError LoadReport}
      {id : String} {rw : Rewrite} {name : Option String} (hid : req.id codec ids = some id)
      (hapart : (req.places ids id).Apart) (habsent : (req.places ids id).Absent w.tree)
      (hways : Within [] (req.places ids id).ways w w₁)
      (hall : (unpackAll host codec.toSerde (req.places ids id) rw name
        req.archive.members).runOn w₁ = (.error e, w₂))
      (hend : (do
        cleanUp host (req.places ids id)
        throw e : Loading LoadReport).runOn w₂ = (r, w')) :
      LoadEnds host codec ids req w r w'
  | unpacked {n : Nat} {w₁ w' : FileState UInt8} {report : LoadReport} {rw : Rewrite}
      {name : Option String} (hid : req.id codec ids = some report.sessionId)
      (hapart : (req.places ids report.sessionId).Apart)
      (habsent : (req.places ids report.sessionId).Absent w.tree)
      (hways : Within [] (req.places ids report.sessionId).ways w w₁)
      (hall : (unpackAll host codec.toSerde (req.places ids report.sessionId) rw name
        req.archive.members).runOn w₁ = (.ok n, w')) :
      LoadEnds host codec ids req w (.ok report) w'

theorem load_ends {r : Except LoadError LoadReport}
    (hrun : (loadConversation host codec ids req).runOn w = (r, w')) :
    LoadEnds host codec ids req w r w' := by
  rcases cases_of_runOn hrun with ⟨e, rfl, hfail⟩ | ⟨name, w₁, hok, hrun⟩
  · rw [runOn_orThrow] at hfail
    obtain ⟨-, rfl⟩ := Prod.mk.inj hfail
    exact .refused rfl
  rw [runOn_orThrow] at hok
  obtain ⟨-, rfl⟩ := Prod.mk.inj hok
  rcases cases_of_runOn hrun with ⟨e, rfl, hfail⟩ | ⟨_, w₂, hread, hrun⟩
  · exact .refused (tree_of_read hfail)
  have htree := tree_of_read hread
  rcases cases_of_runOn hrun with ⟨e, rfl, hfail⟩ | ⟨manifest, w₃, hok, hrun⟩
  · rw [runOn_orThrow] at hfail
    obtain ⟨-, rfl⟩ := Prod.mk.inj hfail
    exact .refused htree
  rw [runOn_orThrow] at hok
  obtain ⟨hmanifest, rfl⟩ := Prod.mk.inj hok
  have hid : req.id codec ids = some (if req.newId then ids.newId else manifest.sessionId) := by
    rw [LoadRequest.id, hmanifest]
  have hapart := req.apart ids (LoadRequest.valid_id hmanifest)
  rw [runOn_look_bind] at hrun
  generalize (if req.newId then ids.newId else manifest.sessionId) = id at hrun hapart hid
  cases hfound : existing host req.claudeDir (req.places ids id) w₂.tree with
  | some path =>
    rw [hfound] at hrun
    cases hrun
    exact .refused htree
  | none =>
    rw [hfound] at hrun
    have habsent := absent_of_existing hfound
    rw [htree] at habsent
    have hread' : Within [] (req.places ids id).ways w w₂ := (read_within host).of_eq hread
    rcases cases_of_runOn hrun with ⟨e, rfl, hfail⟩ | ⟨_, w₃, hfolder, hrun⟩
    · exact .ways hid hapart (hread'.trans _ _ _
        ((makeWays_within host (by simp [Places.ways])).of_eq hfail))
    have hways₃ := hread'.trans _ _ _
      ((makeWays_within host (by simp [Places.ways])).of_eq hfolder)
    rcases cases_of_runOn hrun with ⟨e, rfl, hfail⟩ | ⟨_, w₄, hroot, hrun⟩
    · exact .ways hid hapart (hways₃.trans _ _ _
        ((makeWays_within host (by simp [Places.ways])).of_eq hfail))
    have hways₄ := hways₃.trans _ _ _
      ((makeWays_within host (by simp [Places.ways])).of_eq hroot)
    rw [runOn_attempt_bind] at hrun
    rcases hall : (unpackAll host codec.toSerde (req.places ids id)
        ⟨manifest.sessionId, id, droppedOnLoad, manifest.sourceCwd.map fun src ↦ (src, req.cwd)⟩
        name req.archive.members).runOn w₄ with ⟨e | n, w₅⟩
    · rw [hall] at hrun
      exact .failed hid hapart habsent hways₄ hall hrun
    · rw [hall] at hrun
      cases hrun
      exact .unpacked hid hapart habsent hways₄ hall

/-- Where nothing is staged and the conversation is absent, nothing is in the places. -/
theorem nothing_of_absent {id : String} (hfresh : (req.places ids "").Fresh w.tree)
    (habsent : (req.places ids id).Absent w.tree) :
    ∀ s ∈ (req.places ids id).stages ++ (req.places ids id).sides, w.tree.node s = none := by
  intro s hs
  exact (List.mem_append.mp hs).elim (hfresh s) (habsent.2 s)

/-- A load that fails. -/
theorem load_error (hfresh : (req.places ids "").Fresh w.tree) {e : LoadError}
    (hrun : (loadConversation host codec ids req).runOn w = (.error e, w')) :
    Undone (req.places ids ((req.id codec ids).getD "")) w w' := by
  cases load_ends hrun with
  | refused htree => exact undone_of_eq htree
  | ways hid hapart hways =>
    rw [hid, Option.getD_some]
    exact undone_of_spares hapart hways.spares
  | @failed e' w₁ w₂ _ _ id _ _ hid hapart habsent hways hall hend =>
    rw [hid, Option.getD_some]
    have hunpacked := unpackAll_error hapart hall
    have hnone : w₂.tree.node (req.places ids id).transcript = none := by
      refine hunpacked.none hapart.transcript_apart (hapart.not_way _).1 ?_
      exact hways.spares.none (by simp) (hapart.not_way _).1 habsent.1
    obtain ⟨w₃, hclean, hemptied⟩ := @cleanUp_spec host _ _ hnone
    cases (runOn_bind_ok hclean).symm.trans hend
    have hspares := (hways.spares.mono (List.nil_subset _) (List.Subset.refl _)).trans
      (hunpacked.trans (cleanUp_within.of_eq hclean).spares)
    exact undone_of_emptied hapart (nothing_of_absent hfresh habsent) hspares hemptied

/-- A load that succeeds. -/
theorem load_ok (hfresh : (req.places ids "").Fresh w.tree) {report : LoadReport}
    (hrun : (loadConversation host codec ids req).runOn w = (.ok report, w')) :
    req.id codec ids = some report.sessionId ∧ Done (req.places ids report.sessionId) w w' := by
  cases load_ends hrun with
  | failed hid hapart habsent hways hall hend =>
    obtain ⟨_, w₆, -, hthrow⟩ := exists_of_runOn_ok hend
    cases hthrow
  | @unpacked n w₁ _ _ _ _ hid hapart habsent hways hall =>
    have hempty := fresh_of_ways hapart (nothing_of_absent hfresh habsent) hways
    have hnot {s : TreePath} (hs : s ∈ (req.places ids report.sessionId).stages ++
        (req.places ids report.sessionId).sides) : ¬ w₁.tree.IsFile s := by
      rintro ⟨d, hd⟩
      rw [hempty s hs] at hd
      cases hd
    have hplaced := unpackAll_ok hapart hall (hnot (by simp [Places.stages]))
      (hnot (by simp [Places.stages]))
    exact ⟨hid, done_of_placed hapart hfresh habsent hways hplaced⟩

end

/-- Whatever the archive and whatever fails, a load that ends with an error leaves what was there
and nothing new but what it could not remove, and never a transcript; one that succeeds leaves what
was there, and only the conversation's three places are new. -/
theorem load_atomic (host : FileHost UInt8) (codec : Codec) (ids : Ids) (req : LoadRequest)
    (w : FileState UInt8) (hfresh : (req.places ids "").Fresh w.tree) :
    (∀ e w', (loadConversation host codec ids req).runOn w = (.error e, w') →
        Undone (req.places ids ((req.id codec ids).getD "")) w w') ∧
      ∀ report w', (loadConversation host codec ids req).runOn w = (.ok report, w') →
        req.id codec ids = some report.sessionId ∧
          Done (req.places ids report.sessionId) w w' :=
  ⟨fun _ _ hrun ↦ load_error hfresh hrun, fun _ _ hrun ↦ load_ok hfresh hrun⟩

/-! ### A load that cannot clean up -/

/-- An id. -/
def sampleId : String := "88d0e3e5-519e-44e8-8ad6-833a259371eb"

/-- A manifest with that id. -/
def sampleManifest : Manifest where
  format := format
  version := version
  sessionId := sampleId
  title := none
  sourceCwd := none
  createdAt := "2026-01-01T00:00:00Z"
  claudebaseVersion := "1.0.0"
  nick := none
  journalEntries := none
  mindmaps := none

/-- Its JSON. -/
def sampleManifestBytes : Bytes :=
  ascii ("\x7b\"format\":\"claudebase-chat-dump\",\"version\":3,\"session_id\":\"" ++ sampleId ++
    "\",\"title\":null,\"source_cwd\":null,\"created_at\":\"2026-01-01T00:00:00Z\"," ++
    "\"claudebase_version\":\"1.0.0\"\x7d")

/-- What reads and prints the sample's texts. -/
def sampleCodec : Codec where
  parse _ := none
  print _ := []
  parseManifest bs := if bs = sampleManifestBytes then some sampleManifest else none
  printManifest _ := sampleManifestBytes

/-- The sample's ids. -/
def sampleIds : Ids where
  valid s := decide (s = sampleId)
  newId := sampleId
  tag := "7d1c3f5a9b0e4c2d8f6a1b3c5d7e9f01"
  valid_newId := by decide
  starts s h := by
    have hs : s = sampleId := of_decide_eq_true h
    subst hs
    exact ⟨'8', _, rfl, by decide⟩

/-- A transcript and one file beside it. -/
def sampleArchive : Archive :=
  pack [([manifestName], sampleManifestBytes), ([transcriptName], ascii "hello" ++ [newline]),
    ([sessionDir, "notes.txt"], ascii "a note")]

def sampleRequest : LoadRequest := ⟨["home", ".claude"], "/p", sampleArchive, false, none⟩

/-- Where some operations fail, by their place in the run. -/
def failingAt (steps : List Nat) : FileHost UInt8 where
  names _ _ := []
  fault n := if n ∈ steps then some ⟨0, fun _ ↦ false⟩ else none

/-- The last rename of a load fails. -/
theorem load_atomic_rename :
    (∀ e w', (loadConversation (failingAt [16]) sampleCodec sampleIds sampleRequest).runOn
          ⟨FileTree.empty, []⟩ = (.error e, w') →
        Undone (sampleRequest.places sampleIds
          ((sampleRequest.id sampleCodec sampleIds).getD "")) ⟨FileTree.empty, []⟩ w') ∧
      ∀ report w', (loadConversation (failingAt [16]) sampleCodec sampleIds sampleRequest).runOn
          ⟨FileTree.empty, []⟩ = (.ok report, w') →
        sampleRequest.id sampleCodec sampleIds = some report.sessionId ∧
          Done (sampleRequest.places sampleIds report.sessionId) ⟨FileTree.empty, []⟩ w' :=
  load_atomic (failingAt [16]) sampleCodec sampleIds sampleRequest ⟨FileTree.empty, []⟩
    fun _ _ ↦ rfl

/-- The last rename fails, and then removing the session folder: it is left. -/
theorem load_leaves_session : ¬ ∀ (host : FileHost UInt8) (codec : Codec) (ids : Ids)
    (req : LoadRequest) (w : FileState UInt8), (req.places ids "").Fresh w.tree →
    ∀ e w', (loadConversation host codec ids req).runOn w = (.error e, w') →
      ∀ id, req.id codec ids = some id → w.tree.node (req.places ids id).session = none →
        w'.tree.node (req.places ids id).session = none := by
  intro h
  have hfacts : ((loadConversation (failingAt [16, 20]) sampleCodec sampleIds sampleRequest).runOn
      ⟨FileTree.empty, []⟩).1 = .error .io ∧
      ((loadConversation (failingAt [16, 20]) sampleCodec sampleIds sampleRequest).runOn
        ⟨FileTree.empty, []⟩).2.tree.node (sampleRequest.places sampleIds sampleId).session =
          some .dir ∧
      sampleRequest.id sampleCodec sampleIds = some sampleId := by
    decide +kernel
  obtain ⟨herror, hleft, hid⟩ := hfacts
  have hnone := h (failingAt [16, 20]) sampleCodec sampleIds sampleRequest ⟨FileTree.empty, []⟩
    fun _ _ ↦ rfl
  generalize (loadConversation (failingAt [16, 20]) sampleCodec sampleIds sampleRequest).runOn
    ⟨FileTree.empty, []⟩ = r at herror hleft hnone
  obtain ⟨outcome, w'⟩ := r
  cases herror
  have hgone := hnone .io w' rfl sampleId hid rfl
  cases hleft.symm.trans hgone

end Claudebase.Chat
