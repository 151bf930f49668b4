import Claudebase.Mindmap.Import

/-!
# Chains as they are written

A chain's signature is its steps, joined: different sequences have different signatures. What
copying a chain writes where its name and its sequence are free, and what a chain is whose
steps are as they were written.
-/

namespace Claudebase.Mindmap
open Claudebase.Base

variable {db db' : Db} {map chain : Int} {pos : Nat} {entries : List Int}

/-! ### Signatures -/

private theorem isDigit_of_mem {m : Nat} {c : Char} (h : c ∈ Nat.toDigits 10 m) : c.isDigit :=
  Nat.isDigit_of_mem_toDigits (by decide) (by decide) h

private theorem toList_ofNat (m : Nat) : (toString (m : Int)).toList = Nat.toDigits 10 m :=
  Nat.toList_repr

private theorem toList_negSucc (m : Nat) :
    (toString (Int.negSucc m)).toList = '-' :: Nat.toDigits 10 (m + 1) := by
  show ("-" ++ (m + 1).repr).toList = _
  rw [String.toList_append, Nat.toList_repr]
  rfl

private theorem comma_not_mem (n : Int) : ',' ∉ (toString n).toList := by
  have hdigits : ∀ m : Nat, ',' ∉ Nat.toDigits 10 m :=
    fun m h ↦ absurd (isDigit_of_mem h) (by decide)
  cases n with
  | ofNat m =>
    rw [Int.ofNat_eq_natCast, toList_ofNat]
    exact hdigits m
  | negSucc m =>
    rw [toList_negSucc, List.mem_cons]
    rintro (h | h)
    · exact absurd h (by decide)
    · exact hdigits (m + 1) h

/-- The number that is written. -/
private def readInt : List Char → Int
  | '-' :: digits => -(Nat.ofDigitChars 10 digits 0 : Int)
  | digits => Nat.ofDigitChars 10 digits 0

private theorem readInt_toString (n : Int) : readInt (toString n).toList = n := by
  cases n with
  | ofNat m =>
    rw [Int.ofNat_eq_natCast, toList_ofNat]
    unfold readInt
    split
    · next digits hd =>
      have hminus : '-' ∈ Nat.toDigits 10 m := hd ▸ List.mem_cons_self
      exact absurd (isDigit_of_mem hminus) (by decide)
    · simp
  | negSucc m =>
    rw [toList_negSucc, readInt]
    simp [Int.negSucc_eq]

private theorem toString_injective : Function.Injective fun n : Int ↦ (toString n).toList :=
  fun a b h ↦ (readInt_toString a).symm.trans ((congrArg readInt h).trans (readInt_toString b))

private theorem toString_ne_nil (n : Int) : (toString n).toList ≠ [] := by
  intro h
  have hzero : n = readInt [] := (readInt_toString n).symm.trans (congrArg readInt h)
  have hn : n = 0 := hzero
  subst hn
  exact absurd h (by decide)

private theorem toList_signature (entries : List Int) :
    (signature entries).toList = [','].intercalate (entries.map fun e ↦ (toString e).toList) := by
  rw [signature, String.toList_intercalate, List.map_map]
  rfl

/-- Different sequences have different signatures. -/
theorem signature_injective : Function.Injective signature := by
  have hsplit : ∀ entries : List Int, entries ≠ [] →
      (signature entries).toList.splitOn ',' = entries.map fun e ↦ (toString e).toList := by
    intro entries hne
    rw [toList_signature, List.splitOn_intercalate]
    · intro l hl
      obtain ⟨e, -, rfl⟩ := List.mem_map.mp hl
      exact comma_not_mem e
    · simpa using hne
  have hempty : ∀ entries : List Int, entries ≠ [] → signature entries ≠ signature [] := by
    intro entries hne h
    have hlist := hsplit entries hne
    rw [h] at hlist
    have hone : [[]] = entries.map fun e ↦ (toString e).toList := hlist
    obtain ⟨e, -, he⟩ := List.mem_map.mp (hone ▸ List.mem_singleton.mpr rfl)
    exact toString_ne_nil e he
  intro a b h
  by_cases ha : a = []
  · by_contra hab
    subst ha
    exact hempty b (Ne.symm hab) h.symm
  · by_cases hb : b = []
    · subst hb
      exact absurd h (hempty a ha)
    · apply List.map_injective_iff.mpr toString_injective
      rw [← hsplit a ha, ← hsplit b hb, h]

/-! ### Steps as they are written -/

namespace StepsFrom

variable {steps : List StepRow}

theorem entries_eq (h : StepsFrom chain pos entries steps) :
    steps.map StepRow.entryId = entries := by
  induction h with
  | nil pos => rfl
  | cons rowid _ ih => rw [List.map_cons, ih]

theorem chain_eq (h : StepsFrom chain pos entries steps) : ∀ r ∈ steps, r.chainId = chain := by
  induction h with
  | nil pos => exact fun r hr ↦ absurd hr List.not_mem_nil
  | cons rowid _ ih =>
    intro r hr
    rcases List.mem_cons.mp hr with rfl | hr
    · rfl
    · exact ih r hr

theorem pos_le (h : StepsFrom chain pos entries steps) : ∀ r ∈ steps, pos ≤ r.pos := by
  induction h with
  | nil pos => exact fun r hr ↦ absurd hr List.not_mem_nil
  | cons rowid _ ih =>
    intro r hr
    rcases List.mem_cons.mp hr with rfl | hr
    · exact Nat.le_refl _
    · exact Nat.le_of_succ_le (ih r hr)

theorem pairwise_pos (h : StepsFrom chain pos entries steps) :
    steps.Pairwise fun a b ↦ a.pos < b.pos := by
  induction h with
  | nil pos => exact List.Pairwise.nil
  | cons rowid rest ih => exact List.pairwise_cons.mpr ⟨fun r hr ↦ rest.pos_le r hr, ih⟩

end StepsFrom

/-- Only the steps of a chain matter for its sequence. -/
theorem stepsOf_congr {c : Int}
    (h : (db'.steps.rows.filter fun r ↦ r.chainId = c) = db.steps.rows.filter fun r ↦ r.chainId = c) :
    db'.stepsOf c = db.stepsOf c := by
  unfold Db.stepsOf
  rw [h]

/-- A chain whose steps were just written. -/
theorem stepsOf_new {steps : List StepRow} (h : StepsFrom chain pos entries steps)
    (hrows : db'.steps.rows = db.steps.rows ++ steps) (hnew : ∀ r ∈ db.steps.rows, r.chainId ≠ chain) :
    db'.stepsOf chain = entries := by
  have hold : (db.steps.rows.filter fun r ↦ r.chainId = chain) = [] := by
    rw [List.filter_eq_nil_iff]
    exact fun r hr ↦ by simpa using hnew r hr
  have hall : (steps.filter fun r ↦ r.chainId = chain) = steps := by
    rw [List.filter_eq_self]
    exact fun r hr ↦ by simpa using h.chain_eq r hr
  unfold Db.stepsOf
  rw [hrows, List.filter_append, hold, hall, List.nil_append, ordered_eq_of_lt h.pairwise_pos,
    h.entries_eq]

/-- Steps written to one chain leave the others. -/
theorem stepsOf_other {steps : List StepRow} {c : Int} (h : StepsFrom chain pos entries steps)
    (hrows : db'.steps.rows = db.steps.rows ++ steps) (hc : c ≠ chain) :
    db'.stepsOf c = db.stepsOf c := by
  apply stepsOf_congr
  have hnone : (steps.filter fun r ↦ r.chainId = c) = [] := by
    rw [List.filter_eq_nil_iff]
    intro r hr
    simpa [h.chain_eq r hr] using hc.symm
  rw [hrows, List.filter_append, hnone, List.append_nil]

/-! ### Copying a chain -/

/-- Copying steps writes steps only. -/
theorem copySteps_ok (h : copySteps chain pos entries db = .ok db') : ∃ steps last,
    db'.rows = { db.rows with steps := db.steps.rows ++ steps, last := last } := by
  induction entries generalizing db pos with
  | nil =>
    cases h
    exact ⟨[], db'.last, by rw [List.append_nil]; rfl⟩
  | cons e entries ih =>
    obtain ⟨db₁, h₁, h⟩ := bind_eq_ok.mp h
    obtain ⟨steps, last, hrest⟩ := ih h
    unfold Db.insertStepOrIgnore at h₁
    split at h₁
    · cases h₁
      exact ⟨steps, last, hrest⟩
    · obtain ⟨rowid, -, -, -, hrows⟩ := Db.insertStep_ok h₁
      have hsteps : db₁.steps.rows = db.steps.rows ++ [⟨rowid, chain, pos, e⟩] :=
        congrArg Rows.steps hrows
      refine ⟨⟨rowid, chain, pos, e⟩ :: steps, last, ?_⟩
      rw [hrest, hsteps, List.append_assoc, hrows]
      rfl

/-- Steps past those a chain has are written. -/
theorem copySteps_free (hchain : db.HasChain chain)
    (hpos : ∀ r ∈ db.steps.rows, r.chainId = chain → r.pos < pos)
    (hexists : ∀ e ∈ entries, db.journal.Exists e) : ∃ db' steps last,
    copySteps chain pos entries db = .ok db' ∧
      db'.rows = { db.rows with steps := db.steps.rows ++ steps, last := last } ∧
      StepsFrom chain pos entries steps := by
  induction entries generalizing db pos with
  | nil => exact ⟨db, [], db.last, rfl, by rw [List.append_nil]; rfl, .nil pos⟩
  | cons e entries ih =>
    have hkey : (chain, pos) ∉ db.steps.rows.map StepRow.key := by
      intro hkey
      obtain ⟨r, hr, hrk⟩ := List.mem_map.mp hkey
      obtain ⟨hc, hp⟩ := Prod.mk.inj hrk
      exact absurd (hpos r hr hc) (by omega)
    obtain ⟨db₁, h₁⟩ := Db.insertStep_succeeds hkey hchain (hexists e List.mem_cons_self)
    obtain ⟨rowid, -, -, -, hrows⟩ := Db.insertStep_ok h₁
    have hsteps : db₁.steps.rows = db.steps.rows ++ [⟨rowid, chain, pos, e⟩] :=
      congrArg Rows.steps hrows
    have hjournal : db₁.journal = db.journal := congrArg Rows.journal hrows
    have hchains : db₁.chains.rows = db.chains.rows := congrArg Rows.chains hrows
    have hchain₁ : db₁.HasChain chain := by
      unfold Db.HasChain
      rw [hchains]
      exact hchain
    have hpos₁ : ∀ r ∈ db₁.steps.rows, r.chainId = chain → r.pos < pos + 1 := by
      intro r hr hc
      rw [hsteps, List.mem_append, List.mem_singleton] at hr
      rcases hr with hr | rfl
      · exact Nat.lt_succ_of_lt (hpos r hr hc)
      · exact Nat.lt_succ_self pos
    have hexists₁ : ∀ x ∈ entries, db₁.journal.Exists x := by
      intro x hx
      rw [hjournal]
      exact hexists x (List.mem_cons_of_mem _ hx)
    obtain ⟨db₂, steps, last, h₂, hrest, hfrom⟩ := ih hchain₁ hpos₁ hexists₁
    refine ⟨db₂, ⟨rowid, chain, pos, e⟩ :: steps, last, ?_, ?_, .cons rowid hfrom⟩
    · rw [copySteps, Db.insertStepOrIgnore, if_neg hkey, h₁]
      exact h₂
    · rw [hrest, hsteps, List.append_assoc, hrows]
      rfl

variable {name : String} {created : Int}

/-- Copying a chain adds the chain, unless its name or sequence is taken, and steps. -/
theorem copyChain_ok (h : copyChain db map name entries created = .ok db') :
    ∃ chains steps last, db'.rows = { db.rows with
        chains := db.chains.rows ++ chains
        steps := db.steps.rows ++ steps
        last := last } ∧
      ∀ c ∈ chains, c = ⟨db.nextChain, map, name, signature entries, created⟩ := by
  obtain ⟨db₁, h₁, h⟩ := bind_eq_ok.mp h
  obtain ⟨steps, last, hrest⟩ := copySteps_ok h
  unfold Db.insertChainOrIgnore at h₁
  split at h₁
  · cases h₁
    exact ⟨[], steps, last, by rw [hrest, List.append_nil]; rfl,
      fun c hc ↦ absurd hc List.not_mem_nil⟩
  · obtain ⟨⟨id, db₂⟩, hins, rfl⟩ := map_eq_ok.mp h₁
    obtain ⟨rfl, -, -, hrows⟩ := Db.insertChain_ok hins
    have hsteps : db₂.steps.rows = db.steps.rows := congrArg Rows.steps hrows
    refine ⟨[⟨db.nextChain, map, name, signature entries, created⟩], steps, last, ?_,
      fun c hc ↦ List.mem_singleton.mp hc⟩
    rw [hrest, hsteps, hrows]

/-- A chain whose name and sequence are free is copied with its steps. -/
theorem copyChain_free (hmap : db.HasMap map)
    (hfree : ¬ db.ChainTaken ⟨0, map, name, signature entries, created⟩)
    (hexists : ∀ e ∈ entries, db.journal.Exists e) : ∃ db' steps last,
    copyChain db map name entries created = .ok db' ∧
      db'.rows = { db.rows with
        chains := db.chains.rows ++ [⟨db.nextChain, map, name, signature entries, created⟩]
        steps := db.steps.rows ++ steps
        last := last } ∧
      StepsFrom db.nextChain 0 entries steps := by
  obtain ⟨db₁, h₁⟩ := Db.insertChain_succeeds hfree hmap
  obtain ⟨-, -, -, hrows⟩ := Db.insertChain_ok h₁
  have hlast : db₁.last = db.nextChain := congrArg Rows.last hrows
  have hsteps : db₁.steps.rows = db.steps.rows := congrArg Rows.steps hrows
  have hjournal : db₁.journal = db.journal := congrArg Rows.journal hrows
  have hchains : db₁.chains.rows = db.chains.rows ++ [_] := congrArg Rows.chains hrows
  have hchain : db₁.HasChain db.nextChain := by
    unfold Db.HasChain
    rw [hchains, List.map_append]
    exact List.mem_append_right _ List.mem_cons_self
  have hpos : ∀ r ∈ db₁.steps.rows, r.chainId = db.nextChain → r.pos < 0 := by
    intro r hr hc
    rw [hsteps] at hr
    exact absurd (hc ▸ db.stepChain r hr) Db.not_hasChain_nextChain
  obtain ⟨db₂, steps, last, h₂, hrest, hfrom⟩ := copySteps_free hchain hpos (hjournal ▸ hexists)
  refine ⟨db₂, steps, last, ?_, ?_, hfrom⟩
  · rw [copyChain, Db.insertChainOrIgnore, if_neg hfree, h₁]
    show copySteps db₁.last 0 entries db₁ = _
    rw [hlast]
    exact h₂
  · rw [hrest, hsteps, hrows]

/-! ### Copying some chains -/

/-- A chain to be copied. -/
structure NewChain where
  name : String
  entries : List Int
  created : Int

/-- Chains copied one after another. -/
def copyChains (map : Int) : List NewChain → Db → Except String Db
  | [], db => .ok db
  | c :: chains, db => do
    let db ← copyChain db map c.name c.entries c.created
    copyChains map chains db

/-- Copying chains adds chains of the map, under the names and sequences given, and steps. -/
theorem copyChains_ok {chains : List NewChain} (h : copyChains map chains db = .ok db') :
    ∃ new steps last, db'.rows = { db.rows with
        chains := db.chains.rows ++ new
        steps := db.steps.rows ++ steps
        last := last } ∧
      ∀ r ∈ new, r.mapId = map ∧ ∃ c ∈ chains, r.name = c.name ∧ r.signature = signature c.entries := by
  induction chains generalizing db with
  | nil =>
    cases h
    exact ⟨[], [], db'.last, by rw [List.append_nil, List.append_nil]; rfl,
      fun r hr ↦ absurd hr List.not_mem_nil⟩
  | cons c chains ih =>
    obtain ⟨db₁, h₁, h⟩ := bind_eq_ok.mp h
    obtain ⟨new₁, steps₁, last₁, hrows₁, hnew₁⟩ := copyChain_ok h₁
    obtain ⟨new, steps, last, hrows, hnew⟩ := ih h
    have hchains : db₁.chains.rows = db.chains.rows ++ new₁ := congrArg Rows.chains hrows₁
    have hsteps : db₁.steps.rows = db.steps.rows ++ steps₁ := congrArg Rows.steps hrows₁
    refine ⟨new₁ ++ new, steps₁ ++ steps, last, ?_, fun r hr ↦ ?_⟩
    · rw [hrows, hchains, hsteps, List.append_assoc, List.append_assoc, hrows₁]
    · rcases List.mem_append.mp hr with hr | hr
      · rw [hnew₁ r hr]
        exact ⟨rfl, c, List.mem_cons_self, rfl, rfl⟩
      · obtain ⟨hmap, x, hx, hsame⟩ := hnew r hr
        exact ⟨hmap, x, List.mem_cons_of_mem _ hx, hsame⟩

/-- The row of a chain that was copied, with its steps. -/
structure CopiedTo (db : Db) (map : Int) (c : NewChain) (r : ChainRow) : Prop where
  map : r.mapId = map
  name : r.name = c.name
  signature : r.signature = signature c.entries
  steps : db.stepsOf r.id = c.entries

/-- Chains whose names and sequences differ, none of them taken, are all copied. -/
theorem copyChains_free {chains : List NewChain} (hmap : db.HasMap map)
    (hexists : ∀ c ∈ chains, ∀ e ∈ c.entries, db.journal.Exists e)
    (hnames : (chains.map NewChain.name).Nodup) (hseqs : (chains.map NewChain.entries).Nodup)
    (hfree : ∀ r ∈ db.chains.rows, r.mapId = map →
      ∀ c ∈ chains, r.name ≠ c.name ∧ r.signature ≠ signature c.entries) :
    ∃ db' new steps last, copyChains map chains db = .ok db' ∧
      db'.rows = { db.rows with
        chains := db.chains.rows ++ new
        steps := db.steps.rows ++ steps
        last := last } ∧
      (∀ c, db.HasChain c → db'.stepsOf c = db.stepsOf c) ∧
      List.Forall₂ (CopiedTo db' map) chains new ∧
      (∀ r ∈ new, ∀ c, db.HasChain c → c < r.id) ∧ new.Pairwise fun a b ↦ a.id < b.id := by
  induction chains generalizing db with
  | nil =>
    exact ⟨db, [], [], db.last, rfl, by rw [List.append_nil, List.append_nil]; rfl, fun c _ ↦ rfl,
      .nil, fun r hr ↦ absurd hr List.not_mem_nil, .nil⟩
  | cons c chains ih =>
    rw [List.map_cons, List.nodup_cons] at hnames hseqs
    have hfree₀ : ¬ db.ChainTaken ⟨0, map, c.name, signature c.entries, c.created⟩ := by
      rintro (htaken | htaken)
      · obtain ⟨r, hr, hkey⟩ := List.mem_map.mp htaken
        obtain ⟨hm, hn⟩ := Prod.mk.inj hkey
        exact (hfree r hr hm c List.mem_cons_self).1 hn
      · obtain ⟨r, hr, hkey⟩ := List.mem_map.mp htaken
        obtain ⟨hm, hs⟩ := Prod.mk.inj hkey
        exact (hfree r hr hm c List.mem_cons_self).2 hs
    obtain ⟨db₁, steps₁, last₁, h₁, hrows₁, hfrom⟩ :=
      copyChain_free hmap hfree₀ (hexists c List.mem_cons_self)
    have hchains₁ : db₁.chains.rows =
        db.chains.rows ++ [⟨db.nextChain, map, c.name, signature c.entries, c.created⟩] :=
      congrArg Rows.chains hrows₁
    have hsteps₁ : db₁.steps.rows = db.steps.rows ++ steps₁ := congrArg Rows.steps hrows₁
    have hjournal₁ : db₁.journal = db.journal := congrArg Rows.journal hrows₁
    have hmap₁ : db₁.HasMap map := Db.hasMap_congr (congrArg Rows.maps hrows₁) hmap
    have hfree₁ : ∀ r ∈ db₁.chains.rows, r.mapId = map →
        ∀ x ∈ chains, r.name ≠ x.name ∧ r.signature ≠ signature x.entries := by
      intro r hr hm x hx
      rw [hchains₁, List.mem_append, List.mem_singleton] at hr
      rcases hr with hr | rfl
      · exact hfree r hr hm x (List.mem_cons_of_mem _ hx)
      · exact ⟨fun he ↦ hnames.1 (List.mem_map.mpr ⟨x, hx, he.symm⟩),
          fun he ↦ hseqs.1 (List.mem_map.mpr ⟨x, hx, (signature_injective he).symm⟩)⟩
    obtain ⟨db₂, new, steps₂, last₂, h₂, hrows₂, hold₂, hcopied, hnew, hgrow⟩ := ih hmap₁
      (hjournal₁ ▸ fun x hx ↦ hexists x (List.mem_cons_of_mem _ hx)) hnames.2 hseqs.2 hfree₁
    have hhas : ∀ {i}, db.HasChain i → db₁.HasChain i := by
      intro i hi
      unfold Db.HasChain
      rw [hchains₁, List.map_append]
      exact List.mem_append_left _ hi
    have hhead : db₁.HasChain db.nextChain := by
      unfold Db.HasChain
      rw [hchains₁, List.map_append]
      exact List.mem_append_right _ List.mem_cons_self
    refine ⟨db₂, ⟨db.nextChain, map, c.name, signature c.entries, c.created⟩ :: new,
      steps₁ ++ steps₂, last₂, bind_eq_ok.mpr ⟨db₁, h₁, h₂⟩, ?_, ?_,
      .cons ⟨rfl, rfl, rfl, ?_⟩ hcopied, ?_, List.pairwise_cons.mpr ⟨fun r hr ↦ ?_, hgrow⟩⟩
    · rw [hrows₂, hchains₁, hsteps₁, List.append_assoc, List.append_assoc, hrows₁]
      rfl
    · intro i hi
      have hne : i ≠ db.nextChain := fun he ↦ Db.not_hasChain_nextChain (he ▸ hi)
      rw [hold₂ i (hhas hi), stepsOf_other hfrom hsteps₁ hne]
    · rw [hold₂ _ hhead]
      exact stepsOf_new hfrom hsteps₁ fun r hr he ↦
        Db.not_hasChain_nextChain (he ▸ db.stepChain r hr)
    · intro r hr i hi
      rcases List.mem_cons.mp hr with rfl | hr
      · exact lt_nextRowid hi
      · exact hnew r hr i (hhas hi)
    · exact hnew r hr _ hhead

/-- In paired lists every right item has its left one. -/
theorem exists_left_of_forall₂ {α β : Type} {R : α → β → Prop} {as : List α} {bs : List β} {b : β}
    (h : List.Forall₂ R as bs) (hb : b ∈ bs) : ∃ a ∈ as, R a b := by
  induction h with
  | nil => exact absurd hb List.not_mem_nil
  | @cons x y _ _ hab _ ih =>
    rcases List.mem_cons.mp hb with rfl | hb
    · exact ⟨x, List.mem_cons_self, hab⟩
    · obtain ⟨a, ha, hr⟩ := ih hb
      exact ⟨a, List.mem_cons_of_mem _ ha, hr⟩

/-- In lists paired in two ways every left item has one right item for both. -/
theorem exists_right_of_forall₂ {α β : Type} {R S : α → β → Prop} {l : List α} {l' : List β}
    (h : List.Forall₂ R l l') (h' : List.Forall₂ S l l') {a : α} (ha : a ∈ l) :
    ∃ b, R a b ∧ S a b := by
  induction h with
  | nil => exact absurd ha List.not_mem_nil
  | cons hab _ ih =>
    cases h' with
    | cons hab' h' =>
      rcases List.mem_cons.mp ha with rfl | ha
      · exact ⟨_, hab, hab'⟩
      · exact ih h' ha


/-- Paired lists with equal images. -/
theorem map_eq_of_forall₂ {α β γ : Type} {R : α → β → Prop} {f : α → γ} {g : β → γ}
    {as : List α} {bs : List β} (h : List.Forall₂ R as bs) (hfg : ∀ a b, R a b → f a = g b) :
    as.map f = bs.map g := by
  induction h with
  | nil => rfl
  | cons hab _ ih => rw [List.map_cons, List.map_cons, hfg _ _ hab, ih]

/-- The chains of a new map are those that were copied. -/
theorem chainsOf_copied {chains : List NewChain} {new : List ChainRow}
    (hrows : db'.chains.rows = db.chains.rows ++ new)
    (hcopied : List.Forall₂ (CopiedTo db' map) chains new)
    (hgrow : new.Pairwise fun a b ↦ a.id < b.id) (hnone : ∀ r ∈ db.chains.rows, r.mapId ≠ map) :
    (db'.chainsOf map).map (fun c ↦ (c.name, c.entries)) =
      chains.map fun c ↦ (c.name, c.entries) := by
  have hold : (db.chains.rows.filter fun r ↦ r.mapId = map) = [] := by
    rw [List.filter_eq_nil_iff]
    exact fun r hr ↦ by simpa using hnone r hr
  have hall : (new.filter fun r ↦ r.mapId = map) = new := by
    rw [List.filter_eq_self]
    intro r hr
    obtain ⟨c, -, hc⟩ := exists_left_of_forall₂ hcopied hr
    simpa using hc.map
  unfold Db.chainsOf
  rw [hrows, List.filter_append, hold, hall, List.nil_append, ordered_eq_of_lt hgrow, List.map_map]
  symm
  apply map_eq_of_forall₂ hcopied
  intro c r hc
  rw [Function.comp_apply, hc.name, hc.steps]

end Claudebase.Mindmap
