import Claudebase.Base.FileGains
import Claudebase.Chat.LoadSafe

/-!
# Where a load puts what was packed

`src/chat_transfer.rs:160–290,334–506`. Where nothing fails and the places are free, the files of a
dump are unpacked one after the other, and after the renames each is below its place under its path.
-/

namespace Claudebase.Chat
open Claudebase.Base FileIo FileTree

/-! ### Packed folders -/

namespace Folder

/-- The files of a folder, by their paths below it. -/
def files (f : Folder) : List (TreePath × Bytes) := addDir [] f

theorem addDir_eq (pre : TreePath) (f : Folder) :
    addDir pre f = f.files.map fun m ↦ (pre ++ m.1, m.2) := by
  unfold files
  induction f generalizing pre with
  | nil => rfl
  | file name data rest ih => simp [addDir, ih pre]
  | dir name sub rest ihs ih =>
    rw [addDir, ihs (pre ++ [name]), ih pre, addDir, ihs ([] ++ [name]), List.map_append,
      List.map_map]
    simp [Function.comp_def]
  | other name rest ih => rw [addDir, ih pre, addDir]

theorem files_file (name : String) (data : Bytes) (rest : Folder) :
    (Folder.file name data rest).files = ([name], data) :: rest.files := rfl

theorem files_dir (name : String) (sub rest : Folder) :
    (Folder.dir name sub rest).files =
      (sub.files.map fun m ↦ (name :: m.1, m.2)) ++ rest.files := by
  rw [files, addDir, addDir_eq]
  rfl

/-- The path of a file starts with a name of the folder. -/
theorem mem_files {f : Folder} {m : TreePath × Bytes} (h : m ∈ f.files) :
    ∃ name ∈ f.names, ∃ rest, m.1 = name :: rest := by
  induction f generalizing m with
  | nil => cases h
  | file name data rest ih =>
    rw [files_file, List.mem_cons] at h
    rcases h with rfl | h
    · exact ⟨name, List.mem_cons_self, [], rfl⟩
    · obtain ⟨n, hn, r, hr⟩ := ih h
      exact ⟨n, List.mem_cons_of_mem _ hn, r, hr⟩
  | dir name sub rest _ ih =>
    rw [files_dir, List.mem_append] at h
    rcases h with h | h
    · obtain ⟨x, -, rfl⟩ := List.mem_map.mp h
      exact ⟨name, List.mem_cons_self, x.1, rfl⟩
    · obtain ⟨n, hn, r, hr⟩ := ih h
      exact ⟨n, List.mem_cons_of_mem _ hn, r, hr⟩
  | other name rest ih =>
    obtain ⟨n, hn, r, hr⟩ := ih h
    exact ⟨n, List.mem_cons_of_mem _ hn, r, hr⟩

/-- A file is not in the way of one whose path starts otherwise. -/
theorem incomparable_of_not_mem {f : Folder} {name : String} (hname : name ∉ f.names)
    {m : TreePath × Bytes} (hm : m ∈ f.files) (rest : TreePath) :
    Incomparable (name :: rest) m.1 := by
  obtain ⟨n, hn, r, hr⟩ := mem_files hm
  rw [hr]
  exact incomparable_cons fun he ↦ hname (he ▸ hn)

/-- The files of a folder are not in each other's way. -/
theorem separate_files {f : Folder} (h : f.Distinct) : Separate f.files := by
  induction f with
  | nil => exact List.Pairwise.nil
  | file name data rest ih =>
    rw [files_file]
    exact List.pairwise_cons.mpr ⟨fun m hm ↦ incomparable_of_not_mem h.1 hm [], ih h.2⟩
  | dir name sub rest ihs ih =>
    rw [files_dir]
    refine List.pairwise_append.mpr ⟨?_, ih h.2.2, fun x hx m hm ↦ ?_⟩
    · refine List.pairwise_map.mpr ((ihs h.2.1).imp fun hab ↦ ?_)
      exact incomparable_append_iff (r := [name]) |>.mpr hab
    · obtain ⟨y, -, rfl⟩ := List.mem_map.mp hx
      exact incomparable_of_not_mem h.1 hm y.1
  | other name rest ih => exact ih h.2

/-- Where a path starts with no name of the folder there is no file. -/
theorem lookup_files_of_not_mem {f : Folder} {name : String} (hname : name ∉ f.names)
    (rest : TreePath) : f.files.lookup (name :: rest) = none :=
  lookup_of_not_prefix fun _ hm ↦ (incomparable_of_not_mem hname hm rest).1

/-- Files in a folder are found by the folder's name and then their paths. -/
theorem lookup_map_cons (name : String) (files : List (TreePath × Bytes)) (p : TreePath) :
    (files.map fun m ↦ (name :: m.1, m.2)).lookup p =
      if p.head? = some name then files.lookup p.tail else none := by
  cases p with
  | nil =>
    rw [if_neg (by simp), List.lookup_eq_none_iff]
    intro m hm
    obtain ⟨x, -, rfl⟩ := List.mem_map.mp hm
    simp
  | cons n p =>
    by_cases hn : n = name
    · subst hn
      rw [List.head?_cons, if_pos rfl, List.tail_cons]
      simpa using lookup_below [n] p (fun _ d ↦ d) files
    · rw [if_neg (by simpa using hn)]
      apply lookup_of_not_prefix
      intro m hm
      obtain ⟨x, -, rfl⟩ := List.mem_map.mp hm
      exact (incomparable_cons hn).1

/-- A file under its path holds what is read there. -/
theorem lookup_files {f : Folder} (h : f.Distinct) (p : TreePath) :
    f.files.lookup p = f.read p := by
  induction f generalizing p with
  | nil => rfl
  | file name data rest ih =>
    rw [files_file, List.lookup_cons, read, ih h.2]
    by_cases hp : p = [name]
    · rw [if_pos hp, hp, beq_self_eq_true]
    · rw [if_neg hp, beq_false_of_ne hp]
  | dir name sub rest ihs ih =>
    rw [files_dir, List.lookup_append, lookup_map_cons, read, ihs h.2.1, ← ih h.2.2]
    by_cases hp : p.head? = some name
    · obtain ⟨p, rfl⟩ : ∃ q, p = name :: q := by
        cases p with
        | nil => cases hp
        | cons n q => exact ⟨q, by rw [Option.some.inj hp]⟩
      rw [if_pos hp, if_pos hp, lookup_files_of_not_mem h.1, Option.or_none]
    · rw [if_neg hp, if_neg hp, Option.none_or]
  | other name rest ih => exact ih h.2 p

end Folder

/-! ### Places that are apart -/

/-- Two names in one folder. -/
theorem incomparable_snoc {p : TreePath} {a b : String} (h : a ≠ b) :
    Incomparable (p ++ [a]) (p ++ [b]) := incomparable_append_iff.mpr (incomparable_cons h)

/-- The renames at the end of a load. -/
def Places.moves (p : Places) : List (TreePath × TreePath) :=
  [(p.stageSession, p.session), (p.stageHistory, p.history), (p.stageTranscript, p.transcript)]

/-- What holds of every rename. -/
theorem Places.forall_moves {p : Places} {P : TreePath × TreePath → Prop} :
    (∀ m ∈ p.moves, P m) ↔ P (p.stageSession, p.session) ∧ P (p.stageHistory, p.history) ∧
      P (p.stageTranscript, p.transcript) := by
  simp only [moves, List.mem_cons, List.not_mem_nil, or_false, forall_eq_or_imp, forall_eq]

/-- What holds between each rename and those after it. -/
theorem Places.pairwise_moves {p : Places}
    {R : TreePath × TreePath → TreePath × TreePath → Prop} :
    p.moves.Pairwise R ↔ (R (p.stageSession, p.session) (p.stageHistory, p.history) ∧
      R (p.stageSession, p.session) (p.stageTranscript, p.transcript)) ∧
      R (p.stageHistory, p.history) (p.stageTranscript, p.transcript) := by
  simp only [moves, List.pairwise_cons, List.mem_cons, List.not_mem_nil, or_false,
    forall_eq_or_imp, forall_eq, List.Pairwise.nil, and_true, IsEmpty.forall_iff, implies_true]

namespace Places.Apart

variable {p : Places} (h : p.Apart)

include h

theorem across (a b : String) : Incomparable (p.folder ++ [a]) (p.historyRoot ++ [b]) :=
  ⟨h.folder_historyRoot a b, h.historyRoot_folder b a⟩

/-- The renames of a load are apart from each other. -/
theorem moves_apart : p.moves.Pairwise MovesApart ∧ ∀ m ∈ p.moves, Incomparable m.1 m.2 := by
  have hlonger (s : String) : s ++ ".jsonl" ≠ s := by
    intro heq
    have hlength := congrArg String.length heq
    simp at hlength
  have hstage : p.stage ≠ p.id := fun heq ↦ h.id_ne_stage "" "" (by rw [heq])
  have hstageName : p.stage ≠ p.id ++ ".jsonl" :=
    fun heq ↦ h.id_ne_stage ".jsonl" "" (by rw [← heq, String.append_empty])
  have hnameStage : p.id ≠ p.stage ++ ".jsonl" :=
    fun heq ↦ h.id_ne_stage "" ".jsonl" (by rw [← heq, String.append_empty])
  have hnames : p.stage ++ ".jsonl" ≠ p.id ++ ".jsonl" :=
    fun heq ↦ h.id_ne_stage ".jsonl" ".jsonl" heq.symm
  have hacross : MovesApart (p.stageSession, p.session) (p.stageHistory, p.history) :=
    ⟨h.across _ _, h.across _ _, h.across _ _, h.across _ _⟩
  have hside : MovesApart (p.stageSession, p.session) (p.stageTranscript, p.transcript) :=
    ⟨incomparable_snoc (hlonger p.stage).symm, incomparable_snoc hstageName,
      incomparable_snoc hnameStage, incomparable_snoc (hlonger p.id).symm⟩
  have hback : MovesApart (p.stageHistory, p.history) (p.stageTranscript, p.transcript) :=
    ⟨(h.across _ _).symm, (h.across _ _).symm, (h.across _ _).symm, (h.across _ _).symm⟩
  rw [pairwise_moves, forall_moves]
  constructor
  · exact ⟨⟨hacross, hside⟩, hback⟩
  · exact ⟨incomparable_snoc hstage, incomparable_snoc hstage, incomparable_snoc hnames⟩

/-- No place leads to a staging place, or the other way. -/
theorem new_stage {m : TreePath × TreePath} (hm : m ∈ p.moves) {s : TreePath}
    (hs : s ∈ p.stages) : Incomparable m.2 s := by
  obtain ⟨hpairs, hends⟩ := h.moves_apart
  obtain ⟨⟨hside, hfirst⟩, hsecond⟩ := pairwise_moves.mp hpairs
  obtain ⟨hendS, hendH, hendT⟩ := forall_moves.mp hends
  simp only [moves, stages, List.mem_cons, List.not_mem_nil, or_false] at hm hs
  rcases hm with rfl | rfl | rfl
  · rcases hs with rfl | rfl | rfl
    · exact hendS.symm
    · exact hside.newOld
    · exact hfirst.newOld
  · rcases hs with rfl | rfl | rfl
    · exact hside.oldNew.symm
    · exact hendH.symm
    · exact hsecond.newOld
  · rcases hs with rfl | rfl | rfl
    · exact hfirst.oldNew.symm
    · exact hsecond.oldNew.symm
    · exact hendT.symm

end Places.Apart

/-! ### Unpacking -/

/-- What a file of the session folder is written as, by its path there. -/
def sessionBytes (serde : Serde) (rw : Rewrite) (rest : TreePath) (data : Bytes) : Bytes :=
  if isJsonl rest then joinLines (rewriteLines serde rw data) else data

/-- Where a packed file is unpacked to, and as what. -/
def placeOf (serde : Serde) (places : Places) (rw : Rewrite) (m : TreePath × Bytes) :
    Option (TreePath × Bytes) :=
  match targetOf (m.1.map .normal) with
  | .ok .transcript => some (places.stageTranscript, joinLines (rewriteLines serde rw m.2))
  | .ok (.session rest) => some (places.stageSession ++ rest, sessionBytes serde rw rest m.2)
  | .ok (.history rest) => some (places.stageHistory ++ rest, m.2)
  | _ => none

section

variable {host : FileHost UInt8} {serde : Serde} {places : Places} {rw : Rewrite}
  {t t' : FileTree UInt8}

section

/-- A member that is a file, at its place. -/
theorem unpack_eq {path : List Component} {target : Target} (h : targetOf path = .ok target)
    (name : Option String) (lines : Option Nat) (data : Bytes) :
    unpack host serde places rw name lines ⟨some path, .file, data⟩ =
      operate host .read >>= fun _ ↦ unpackTo host serde places rw name lines data target := by
  unfold unpack
  simp only [h, reduceCtorEq, if_false, if_true]
  cases target with
  | skip => rfl
  | transcript => rfl
  | session rest => rfl
  | history rest => rfl

variable (hhost : ∀ n, host.fault n = none)

include hhost

theorem reaches_operate (op : FileOp UInt8) (h : op.run host.names t = some t') :
    Reaches (operate host op) t () t' := reaches_perform hhost LoadError.io h

/-- A new file in a folder that is there. -/
theorem reaches_writeNew {p : TreePath} (hfree : t.node p = none)
    (hdir : t.node p.dropLast = some .dir) (d : Bytes) :
    ∃ t', Reaches (writeNew host p d) t () t' ∧ t.Gains t' p d := by
  obtain ⟨t₁, t', hcreate, hwrite, hgains⟩ := exists_gains_of_dir hfree hdir d
  refine ⟨t', ?_, hgains⟩
  apply reaches_bind (reaches_operate hhost (.create p) hcreate)
  apply reaches_bind (reaches_operate hhost .read rfl)
  apply reaches_bind (reaches_operate hhost (.write p d) hwrite)
  exact reaches_operate hhost (.sync p) rfl

/-- A new file with its folders. -/
theorem reaches_unpackSide {p : TreePath} (h : t.Room p) (hp : p ≠ []) (d : Bytes) :
    ∃ t', Reaches (unpackSide host p d) t () t' ∧ t.Gains t' p d := by
  obtain ⟨t₁, t₂, t', hdirs, hcreate, hwrite, hgains⟩ := exists_gains h hp d
  refine ⟨t', ?_, hgains⟩
  apply reaches_bind (reaches_operate hhost (.makeDirs p.dropLast) hdirs)
  apply reaches_bind (reaches_operate hhost (.create p) hcreate)
  apply reaches_bind (reaches_operate hhost .read rfl)
  apply reaches_bind (reaches_operate hhost (.write p d) hwrite)
  exact reaches_operate hhost (.sync p) rfl

/-- One member: its place has its file, and the transcript's lines are counted. -/
theorem reaches_unpack {m : TreePath × Bytes} {target : Target}
    (htarget : targetOf (m.1.map .normal) = .ok target)
    (hroom : ∀ f, placeOf serde places rw m = some f → t.Room f.1)
    (hdir : t.node places.folder = some .dir) (lines : Option Nat) :
    ∃ lines' t',
      Reaches (unpack host serde places rw none lines ⟨some (m.1.map .normal), .file, m.2⟩) t
        lines' t' ∧
      (∀ f, placeOf serde places rw m = some f → t.Gains t' f.1 f.2) ∧
      (placeOf serde places rw m = none → t' = t) ∧
      (lines.isSome = true ∨ target = .transcript → lines'.isSome = true) := by
  unfold placeOf at hroom ⊢
  rw [htarget] at hroom ⊢
  have hread {b : Option Nat} {t' : FileTree UInt8}
      (h : Reaches (unpackTo host serde places rw none lines m.2 target) t b t') :
      Reaches (unpack host serde places rw none lines ⟨some (m.1.map .normal), .file, m.2⟩) t b
        t' := by
    rw [unpack_eq htarget]
    exact reaches_bind (reaches_operate hhost .read rfl) h
  cases target with
  | skip => exact ⟨lines, t, hread (reaches_pure lines), by simp, fun _ ↦ rfl, by simp⟩
  | transcript =>
    have hlast : t.node places.stageTranscript.dropLast = some .dir := by
      rw [Places.stageTranscript, List.dropLast_concat]
      exact hdir
    obtain ⟨t', hreach, hgains⟩ := reaches_writeNew hhost (hroom _ rfl).free hlast
      (joinLines (rewriteLines serde rw m.2 ++ []))
    rw [List.append_nil] at hgains
    refine ⟨some (rewriteLines serde rw m.2).length, t', hread ?_, by simpa using hgains, by simp,
      fun _ ↦ rfl⟩
    exact reaches_bind hreach (reaches_pure _)
  | session rest =>
    have hne : places.stageSession ++ rest ≠ [] := by simp [Places.stageSession]
    obtain ⟨t', hreach, hgains⟩ := reaches_unpackSide hhost (hroom _ rfl) hne
      (sessionBytes serde rw rest m.2)
    refine ⟨lines, t', hread ?_, by simpa using hgains, by simp, by simp⟩
    exact reaches_bind hreach (reaches_pure lines)
  | history rest =>
    have hne : places.stageHistory ++ rest ≠ [] := by simp [Places.stageHistory]
    obtain ⟨t', hreach, hgains⟩ := reaches_unpackSide hhost (hroom _ rfl) hne m.2
    refine ⟨lines, t', hread ?_, by simpa using hgains, by simp, by simp⟩
    exact reaches_bind hreach (reaches_pure lines)

/-- All members: where the places are apart each of them has its file. -/
theorem reaches_members {packed : List (TreePath × Bytes)}
    (htargets : ∀ m ∈ packed, ∃ target, targetOf (m.1.map .normal) = .ok target)
    (hseparate : Separate (packed.filterMap (placeOf serde places rw)))
    (hroom : ∀ f ∈ packed.filterMap (placeOf serde places rw), t.Room f.1)
    (hdir : t.node places.folder = some .dir) (lines : Option Nat) :
    ∃ lines' t',
      Reaches ((pack packed).members.foldlM (unpack host serde places rw none) lines) t lines' t' ∧
      t.GainsAll t' (packed.filterMap (placeOf serde places rw)) ∧
      (lines.isSome = true ∨ (∃ m ∈ packed, targetOf (m.1.map .normal) = .ok .transcript) →
        lines'.isSome = true) := by
  induction packed generalizing t lines with
  | nil => exact ⟨lines, t, reaches_pure lines, GainsAll.nil t, by simp⟩
  | cons m packed ih =>
    obtain ⟨target, htarget⟩ := htargets m List.mem_cons_self
    have hhead {f : TreePath × Bytes} (hf : placeOf serde places rw m = some f) :
        (m :: packed).filterMap (placeOf serde places rw) =
          f :: packed.filterMap (placeOf serde places rw) := List.filterMap_cons_some hf
    obtain ⟨lines₁, t₁, hreach₁, hgains, hsame, hlines₁⟩ :=
      reaches_unpack hhost htarget (fun f hf ↦ hroom f (by simp [hhead hf])) hdir lines
    have htail : ∀ m ∈ packed, ∃ target, targetOf (m.1.map .normal) = .ok target :=
      fun m hm ↦ htargets m (List.mem_cons_of_mem _ hm)
    have hcount {l : Option Nat} (h : lines₁.isSome = true ∨
        (∃ m ∈ packed, targetOf (m.1.map .normal) = .ok .transcript) → l.isSome = true) :
        lines.isSome = true ∨
          (∃ n ∈ m :: packed, targetOf (n.1.map .normal) = .ok .transcript) → l.isSome = true := by
      rintro (hsome | ⟨n, hn, htranscript⟩)
      · exact h (.inl (hlines₁ (.inl hsome)))
      · rcases List.mem_cons.mp hn with rfl | hn
        · exact h (.inl (hlines₁ (.inr (Except.ok.inj (htarget.symm.trans htranscript)))))
        · exact h (.inr ⟨n, hn, htranscript⟩)
    cases hplace : placeOf serde places rw m with
    | none =>
      rw [hsame hplace] at hreach₁
      rw [List.filterMap_cons_none hplace] at hseparate hroom ⊢
      obtain ⟨lines', t', hreach, hall, hlines⟩ := ih htail hseparate hroom hdir lines₁
      exact ⟨lines', t', reaches_bind hreach₁ hreach, hall, hcount hlines⟩
    | some f =>
      rw [hhead hplace] at hseparate hroom ⊢
      have hgain := hgains f hplace
      have hfree := (hroom f List.mem_cons_self).free
      obtain ⟨hapart, hrest⟩ := List.pairwise_cons.mp hseparate
      obtain ⟨lines', t', hreach, hall, hlines⟩ := ih htail hrest
        (fun g hg ↦ hgain.room (hroom g (List.mem_cons_of_mem _ hg)) (hapart g hg))
        (hgain.dir hfree hdir) lines₁
      exact ⟨lines', t', reaches_bind hreach₁ hreach, hgain.cons hall hseparate, hcount hlines⟩

/-- A staging folder, where there is one, is renamed to a place where nothing is. -/
theorem reaches_placeFolder {stage dest : TreePath} (hfile : ¬ t.IsFile stage)
    (hdest : t.Open dest) (hapart : Incomparable stage dest) :
    ∃ t', Reaches (placeFolder host stage dest) t () t' ∧ t.Moves t' stage dest := by
  unfold placeFolder
  cases hnode : t.node stage with
  | none =>
    refine ⟨t, reaches_look ?_, moves_of_none hnode hdest.free⟩
    rw [if_neg (by simp [hnode])]
    exact reaches_pure ()
  | some n =>
    cases n with
    | file d => exact absurd ⟨d, hnode⟩ hfile
    | dir =>
      have hsome : t.node stage ≠ none := by
        rw [hnode]
        exact Option.some_ne_none _
      obtain ⟨t', hrename⟩ : ∃ t', t.rename (host.names t dest) stage dest = some t' :=
        exists_rename hsome hapart.1 hdest.dir hdest.free
      refine ⟨t', reaches_look ?_, moves_of_rename hrename⟩
      rw [if_pos (by simp [hnode])]
      exact reaches_operate hhost (.rename stage dest) hrename

end

/-- A file is unpacked below the staging places. -/
theorem below_of_placeOf (h : places.Apart) {m f : TreePath × Bytes}
    (hf : placeOf serde places rw m = some f) : Below places f.1 := by
  unfold placeOf at hf
  split at hf
  · cases hf
    exact below_transcript h
  · next rest htarget =>
    cases hf
    exact below_session h (targetOf_rest (.inl htarget))
  · next rest htarget =>
    cases hf
    exact below_history h (targetOf_rest (.inr htarget))
  · cases hf

/-- The three renames. -/
theorem reaches_places (hhost : ∀ n, host.fault n = none) (h : places.Apart)
    (hsession : ¬ t.IsFile places.stageSession) (hhistory : ¬ t.IsFile places.stageHistory)
    (htranscript : t.node places.stageTranscript ≠ none) (hopen : ∀ m ∈ places.moves, t.Open m.2)
    (n : Nat) :
    ∃ t', Reaches (do
        placeFolder host places.stageSession places.session
        placeFolder host places.stageHistory places.history
        operate host (.rename places.stageTranscript places.transcript)
        pure n) t n t' ∧ t.MovesAll t' places.moves := by
  obtain ⟨hpairs, hends⟩ := h.moves_apart
  obtain ⟨⟨hside, hfirst⟩, hsecond⟩ := Places.pairwise_moves.mp hpairs
  obtain ⟨hendS, hendH, hendT⟩ := Places.forall_moves.mp hends
  obtain ⟨hopenS, hopenH, hopenT⟩ := Places.forall_moves.mp hopen
  obtain ⟨t₁, hreach₁, hmoves₁⟩ := reaches_placeFolder hhost hsession hopenS hendS
  have hhistory₁ : ¬ t₁.IsFile places.stageHistory := by
    rintro ⟨d, hd⟩
    exact hhistory ⟨d, (hmoves₁.node_eq hside.old hside.newOld).symm.trans hd⟩
  obtain ⟨t₂, hreach₂, hmoves₂⟩ := reaches_placeFolder hhost hhistory₁
    (hmoves₁.open hside.oldNew hside.new hopenH) hendH
  have htranscript₂ : t₂.node places.stageTranscript ≠ none := by
    rw [hmoves₂.node_eq hsecond.old hsecond.newOld, hmoves₁.node_eq hfirst.old hfirst.newOld]
    exact htranscript
  have hopen₂ := hmoves₂.open hsecond.oldNew hsecond.new
    (hmoves₁.open hfirst.oldNew hfirst.new hopenT)
  obtain ⟨t₃, hrename⟩ :
      ∃ t', t₂.rename (host.names t₂ places.transcript) places.stageTranscript places.transcript =
        some t' := exists_rename htranscript₂ hendT.1 hopen₂.dir hopen₂.free
  have hmoves₃ := moves_of_rename hrename
  refine ⟨t₃, ?_, ?_⟩
  · apply reaches_bind hreach₁
    apply reaches_bind hreach₂
    apply reaches_bind (reaches_operate hhost (.rename _ _) hrename)
    exact reaches_pure n
  · have hlast := @Moves.cons _ _ _ _ (places.stageTranscript, places.transcript) [] hmoves₃
      (MovesAll.nil t₃) (by simp)
    have hboth := @Moves.cons _ _ _ _ (places.stageHistory, places.history) _ hmoves₂ hlast
      (by simpa using hsecond)
    exact @Moves.cons _ _ _ _ (places.stageSession, places.session) _ hmoves₁ hboth
      (by simpa using ⟨hside, hfirst⟩)

/-- Where nothing is staged and the places are free, the files are in the places in the end. -/
theorem reaches_unpackAll (hhost : ∀ n, host.fault n = none) (h : places.Apart)
    {packed files : List (TreePath × Bytes)}
    (htargets : ∀ m ∈ packed, ∃ target, targetOf (m.1.map .normal) = .ok target)
    (htranscript : ∃ m ∈ packed, targetOf (m.1.map .normal) = .ok .transcript)
    (hfiles : packed.filterMap (placeOf serde places rw) = files) (hseparate : Separate files)
    (hways : ∀ a ∈ places.ways, t.node a = some .dir) (hfresh : places.Fresh t)
    (habsent : places.Absent t) :
    ∃ n t', Reaches (unpackAll host serde places rw none (pack packed).members) t n t' ∧
      ∀ m ∈ places.moves, ∀ p, t'.fileAt (m.2 ++ p) = files.lookup (m.1 ++ p) := by
  obtain ⟨hfolder, hroot⟩ : t.node places.folder = some .dir ∧
      t.node places.historyRoot = some .dir := by simpa [Places.ways] using hways
  have hbelow : ∀ f ∈ files, Below places f.1 := by
    intro f hf
    rw [← hfiles, List.mem_filterMap] at hf
    obtain ⟨m, -, hm⟩ := hf
    exact below_of_placeOf h hm
  have hstages : ∀ s ∈ places.stages, t.Room s := by
    intro s hs
    have hfree := hfresh s hs
    simp only [Places.stages, List.mem_cons, List.not_mem_nil, or_false] at hs
    rcases hs with rfl | rfl | rfl
    · exact room_of_dir hfree hfolder
    · exact room_of_dir hfree hroot
    · exact room_of_dir hfree hfolder
  have hroom : ∀ f ∈ files, t.Room f.1 := by
    intro f hf
    obtain ⟨s, hs, rest, hrest⟩ := (hbelow f hf).stage
    exact hrest ▸ (hstages s hs).append rest
  subst hfiles
  obtain ⟨lines, t₁, hmembers, hall, hlines⟩ := reaches_members hhost htargets hseparate hroom
    hfolder none
  obtain ⟨n, rfl⟩ := Option.isSome_iff_exists.mp (hlines (.inr htranscript))
  have hfile {s : TreePath} (hs : s ∈ places.stages) (p : TreePath) :=
    hall.fileAt (none_below (hfresh s hs) (List.prefix_append s p))
  have hnot {s : TreePath} (hs : s ∈ places.stages)
      (hne : ∀ f ∈ packed.filterMap (placeOf serde places rw), f.1 ≠ s) : ¬ t₁.IsFile s := by
    rintro ⟨d, hd⟩
    have hlook := hfile hs []
    rw [List.append_nil, fileAt, hd, List.lookup_eq_none_iff.mpr fun f hf ↦
      bne_iff_ne.mpr (hne f hf).symm] at hlook
    cases hlook
  have hdirs : ∀ a ∈ places.ways, t₁.node a = some .dir :=
    fun a ha ↦ hall.dir (fun f hf ↦ (hroom f hf).free) (hways a ha)
  have hnew : ∀ m ∈ places.moves, t₁.node m.2 = t.node m.2 := by
    intro m hm
    apply hall.node_eq
    intro f hf
    obtain ⟨s, hs, rest, hrest⟩ := (hbelow f hf).stage
    rw [← hrest]
    exact ((h.new_stage hm hs).symm.append_left rest).2
  have hnone : ∀ m ∈ places.moves, t.node m.2 = none := by
    rw [Places.forall_moves]
    exact ⟨habsent.2 _ (by simp [Places.sides]), habsent.2 _ (by simp [Places.sides]), habsent.1⟩
  have hway : ∀ m ∈ places.moves, m.2.dropLast ∈ places.ways := by
    rw [Places.forall_moves]
    simp [Places.session, Places.history, Places.transcript, Places.ways]
  have hopen : ∀ m ∈ places.moves, t₁.Open m.2 :=
    fun m hm ↦ ⟨(hnew m hm).trans (hnone m hm), hdirs _ (hway m hm)⟩
  have hstaged : t₁.node places.stageTranscript ≠ none := by
    obtain ⟨m, hm, htarget⟩ := htranscript
    have hplace : placeOf serde places rw m =
        some (places.stageTranscript, joinLines (rewriteLines serde rw m.2)) := by
      rw [placeOf, htarget]
    have hsome : ((packed.filterMap (placeOf serde places rw)).lookup
        places.stageTranscript).isSome = true := by
      rw [List.lookup_isSome_iff]
      exact ⟨_, List.mem_filterMap.mpr ⟨m, hm, hplace⟩, beq_self_eq_true _⟩
    obtain ⟨d, hd⟩ := Option.isSome_iff_exists.mp hsome
    rw [hall.node_of_lookup hd]
    exact Option.some_ne_none _
  obtain ⟨t₂, hplaces, hmoves⟩ := reaches_places hhost h (hnot (by simp [Places.stages])
    fun f hf ↦ (hbelow f hf).session) (hnot (by simp [Places.stages])
    fun f hf ↦ (hbelow f hf).history) hstaged hopen n
  refine ⟨n, t₂, reaches_bind hmembers hplaces, fun m hm p ↦ ?_⟩
  have hstage : ∀ m ∈ places.moves, m.1 ∈ places.stages := by
    rw [Places.forall_moves]
    simp [Places.stages]
  rw [← hfile (hstage m hm) p, fileAt, fileAt, hmoves.below m hm p]

end

/-! ### Loading -/

/-- Folders made where no file is in the way: what is not on the way stays. -/
theorem reaches_makeDirs {host : FileHost UInt8} (hhost : ∀ n, host.fault n = none)
    {t : FileTree UInt8} {a : TreePath} (h : ∀ q, q <+: a → ¬ t.IsFile q) :
    ∃ t', Reaches (operate host (.makeDirs a)) t () t' ∧
      ∀ q, t'.node q = if q <+: a then some .dir else t.node q := by
  obtain ⟨t', hmake⟩ := exists_makeDirs h a.length
  refine ⟨t', reaches_operate hhost (.makeDirs a) hmake, fun q ↦ ?_⟩
  rw [node_makeDirs hmake]
  by_cases hq : q <+: a
  · rw [if_pos ⟨hq, hq.length_le⟩, if_pos hq]
  · rw [if_neg fun hboth ↦ hq hboth.1, if_neg hq]

/-- What a load finds: no operation fails, nothing is staged or in the way, and the conversation is
not there. -/
structure Ready (host : FileHost UInt8) (ids : Ids) (req : LoadRequest) (id : String)
    (t : FileTree UInt8) : Prop where
  fault : ∀ n, host.fault n = none
  fresh : (req.places ids id).Fresh t
  way : ∀ a ∈ (req.places ids id).ways, ∀ q, q <+: a → ¬ t.IsFile q
  missing : existing host req.claudeDir (req.places ids id) t = none

/-- A load that keeps the id and the name. -/
def plainLoad (claudeDir : TreePath) (cwd : String) (archive : Archive) : LoadRequest :=
  ⟨claudeDir, cwd, archive, false, none⟩

/-- What is rewritten in one. -/
def plainRewrite (manifest : Manifest) (cwd : String) : Rewrite :=
  ⟨manifest.sessionId, manifest.sessionId, droppedOnLoad,
    manifest.sourceCwd.map fun src ↦ (src, cwd)⟩

section

variable {host : FileHost UInt8} {codec : Codec} {ids : Ids} {claudeDir : TreePath}
  {cwd : String} {packed files : List (TreePath × Bytes)} {manifest : Manifest}
  {t : FileTree UInt8}

/-- The folders the places are in are made, and nothing else changes. -/
theorem reaches_makeWays {req : LoadRequest} {id : String}
    (hready : Ready host ids req id t) :
    ∃ t₁ t₂, Reaches (operate host (.makeDirs (req.places ids id).folder)) t () t₁ ∧
      Reaches (operate host (.makeDirs (req.places ids id).historyRoot)) t₁ () t₂ ∧
      (∀ a ∈ (req.places ids id).ways, t₂.node a = some .dir) ∧
      ∀ q, (∀ a ∈ (req.places ids id).ways, ¬ q <+: a) → t₂.node q = t.node q := by
  obtain ⟨t₁, hreach₁, hnode₁⟩ := reaches_makeDirs hready.fault
    (hready.way (req.places ids id).folder (by simp [Places.ways]))
  have hway : ∀ q, q <+: (req.places ids id).historyRoot → ¬ t₁.IsFile q := by
    rintro q hq ⟨d, hd⟩
    rw [hnode₁] at hd
    split at hd
    · cases hd
    · exact hready.way _ (by simp [Places.ways]) q hq ⟨d, hd⟩
  obtain ⟨t₂, hreach₂, hnode₂⟩ := reaches_makeDirs hready.fault hway
  refine ⟨t₁, t₂, hreach₁, hreach₂, fun a ha ↦ ?_, fun q hq ↦ ?_⟩
  · simp only [Places.ways, List.mem_cons, List.not_mem_nil, or_false] at ha
    rcases ha with rfl | rfl
    · rw [hnode₂, hnode₁, if_pos (List.prefix_refl _), ite_self]
    · rw [hnode₂, if_pos (List.prefix_refl _)]
  · rw [hnode₂, if_neg (hq _ (by simp [Places.ways])), hnode₁,
      if_neg (hq _ (by simp [Places.ways]))]

/-- A load under the id of the manifest puts each file in its place. -/
theorem reaches_load
    (hready : Ready host ids (plainLoad claudeDir cwd (pack packed)) manifest.sessionId t)
    (hmanifest : readManifest codec ids (pack packed) = .ok manifest)
    (htargets : ∀ m ∈ packed, ∃ target, targetOf (m.1.map .normal) = .ok target)
    (htranscript : ∃ m ∈ packed, targetOf (m.1.map .normal) = .ok .transcript)
    (hfiles : packed.filterMap (placeOf codec.toSerde
      ((plainLoad claudeDir cwd (pack packed)).places ids manifest.sessionId)
      (plainRewrite manifest cwd)) = files)
    (hseparate : Separate files) :
    ∃ report t',
      Reaches (loadConversation host codec ids (plainLoad claudeDir cwd (pack packed))) t report
        t' ∧ report.sessionId = manifest.sessionId ∧
      ∀ m ∈ ((plainLoad claudeDir cwd (pack packed)).places ids manifest.sessionId).moves, ∀ p,
        t'.fileAt (m.2 ++ p) = files.lookup (m.1 ++ p) := by
  have hid : ids.valid manifest.sessionId = true :=
    @LoadRequest.valid_id (plainLoad claudeDir cwd (pack packed)) codec ids manifest hmanifest
  have hapart := (plainLoad claudeDir cwd (pack packed)).apart ids hid
  set places := (plainLoad claudeDir cwd (pack packed)).places ids manifest.sessionId with hplaces
  obtain ⟨t₁, t₂, hfolder, hroot, hdirs, hsame⟩ := reaches_makeWays hready
  have habsent := absent_of_existing hready.missing
  have hempty : ∀ s ∈ places.stages ++ places.sides ++ [places.transcript], t₂.node s = none := by
    intro s hs
    have hkept : t₂.node s = t.node s := by
      apply hsame
      simp only [Places.stages, Places.sides, List.cons_append, List.nil_append, List.mem_cons,
        List.not_mem_nil, or_false] at hs
      rcases hs with rfl | rfl | rfl | rfl | rfl | rfl
      · exact (hapart.not_way _).1
      · exact (hapart.not_way _).2
      · exact (hapart.not_way _).1
      · exact (hapart.not_way _).1
      · exact (hapart.not_way _).2
      · exact (hapart.not_way _).1
    rw [hkept]
    rcases List.mem_append.mp hs with hs | hs
    · exact (List.mem_append.mp hs).elim (hready.fresh s) (habsent.2 s)
    · rw [List.mem_singleton.mp hs]
      exact habsent.1
  have hfresh : places.Fresh t₂ :=
    fun s hs ↦ hempty s (List.mem_append_left _ (List.mem_append_left _ hs))
  have habsent₂ : places.Absent t₂ := ⟨hempty _ (by simp), fun s hs ↦
    hempty s (List.mem_append_left _ (List.mem_append_right _ hs))⟩
  obtain ⟨n, t₃, hunpacked, hplaced⟩ := reaches_unpackAll hready.fault hapart htargets htranscript
    hfiles hseparate hdirs hfresh habsent₂
  let report : LoadReport := {
    sessionId := manifest.sessionId
    sourceId := manifest.sessionId
    title := manifest.title
    transcript := places.transcript
    sourceCwd := manifest.sourceCwd
    lines := n
    nick := manifest.nick
    journalEntries := manifest.journalEntries.getD 0
    mindmaps := manifest.mindmaps.getD 0 }
  refine ⟨report, t₃, ?_, rfl, hplaced⟩
  unfold loadConversation
  have hname : Reaches (orThrow ((plainLoad claudeDir cwd (pack packed)).name.mapM checkName)) t
      none t := reaches_pure none
  apply reaches_bind hname
  apply reaches_bind (reaches_operate hready.fault .read rfl)
  rw [show (plainLoad claudeDir cwd (pack packed)).archive = pack packed from rfl, hmanifest]
  apply reaches_bind (reaches_pure manifest)
  apply reaches_look
  have hsame : (if (plainLoad claudeDir cwd (pack packed)).newId = true then ids.newId
      else manifest.sessionId) = manifest.sessionId := rfl
  rw [hsame, hready.missing]
  apply reaches_bind hfolder
  apply reaches_bind hroot
  exact reaches_attempt hunpacked (reaches_pure report)

end

end Claudebase.Chat
