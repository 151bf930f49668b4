import Claudebase.Journal.Adopt

/-!
# Which readers an adoption keeps

`src/journal.rs:337–408`, `src/daemon/journal_tools.rs:122–220,338–387`. Readers of the folder's
journal find it under its new key if they resolve to that; readers of other journals find theirs
unless the new one hides it. A call that is cut leaves the folder's journal where it is, refused or
not, beside an empty one.
-/

namespace Claudebase.Journal
open Claudebase.Base

section

variable {d : Disk} {key : Key} {path : Path}

/-! ### Where a reader lands -/

/-- The first item of another selection is the same where it selects that one and the other's
first item was selected before. -/
theorem find?_eq_of {α : Type} {p q : α → Bool} {xs : List α} {a : α} (ha : xs.find? p = some a)
    (hq : q a = true) (hp : ∀ b, xs.find? q = some b → p b = true) : xs.find? q = some a := by
  induction xs with
  | nil => cases ha
  | cons x xs ih =>
    rw [List.find?_cons] at ha
    rw [List.find?_cons] at hp ⊢
    cases hpx : p x with
    | true =>
      rw [hpx] at ha
      cases ha
      rw [hq]
    | false =>
      rw [hpx] at ha
      cases hqx : q x with
      | true =>
        rw [hqx] at hp
        rw [hp x rfl] at hpx
        cases hpx
      | false =>
        rw [hqx] at hp
        exact ih ha hp

/-- A session does not look at which journals are there. -/
theorem resolve_session {shares : Table ShareRow.key} {has has' : Key → Bool} {x : Reader}
    (h : x.session = true) : resolve shares has' x = resolve shares has x := by
  unfold resolve
  rw [if_pos h, if_pos h]

/-- A plain read lands where it resolves to. -/
theorem resolve_of_landing {shares : Table ShareRow.key} {has : Key → Bool} {x : Reader} {k : Key}
    (h : ¬ x.session = true) (hland : landing shares has x = some k) :
    resolve shares has x = k := by
  unfold landing at hland
  dsimp only at hland
  split at hland
  · exact Option.some.inj hland
  · rw [if_neg fun hs ↦ h hs.1] at hland
    cases hland

/-- A reader lands where it did as long as that journal is there and it does not land on a new
one. -/
theorem landing_stay {shares : Table ShareRow.key} {has has' : Key → Bool} {x : Reader} {k : Key}
    (h : landing shares has x = some k) (hk : has' k = true)
    (hnew : ∀ k', has' k' = true → has k' = true ∨ landing shares has' x ≠ some k') :
    landing shares has' x = some k := by
  have hresolved : has' (resolve shares has' x) = true →
      landing shares has' x = some (resolve shares has' x) := fun hhas ↦ if_pos hhas
  by_cases hfixed : resolve shares has' x = resolve shares has x
  · unfold landing at h
    dsimp only at h
    split at h
    · next hhas =>
      cases h
      rw [← hfixed] at hk ⊢
      exact hresolved hk
    · next hno =>
      split at h
      · next hadopts =>
        cases h
        have hno' : ¬ has' (resolve shares has' x) = true := by
          intro hhas
          rcases hnew _ hhas with hold | hother
          · exact hno (hfixed ▸ hold)
          · exact hother (hresolved hhas)
        unfold landing
        rw [if_neg hno', if_pos ⟨hadopts.1, hfixed ▸ hadopts.2.1, hk⟩]
      · cases h
  · -- only a plain read without a route resolves by what is there
    have hplain : x.session = false ∧ sharedKey shares x.host x.path = none := by
      constructor
      · by_contra hsession
        rw [Bool.not_eq_false] at hsession
        exact hfixed (resolve_session hsession)
      · by_contra hroute
        obtain ⟨key, hkey⟩ := Option.ne_none_iff_exists'.mp hroute
        exact hfixed ((resolve_routed hkey).trans (resolve_routed hkey).symm)
    have hplain' : ∀ has : Key → Bool, resolve shares has x =
        if projectKey x.projectId x.path ≠ .folder x.path ∧
          has (projectKey x.projectId x.path) = true then projectKey x.projectId x.path
        else nearestJournal has x.path := by
      intro has
      unfold resolve
      rw [hplain.2, hplain.1]
      rfl
    have hlands := resolve_of_landing (by simp [hplain.1]) h
    have hthere := has_of_landing h
    have hkept : ∀ k', has' k' = true → resolve shares has' x = k' → has k' = true := by
      rintro k' hhas rfl
      exact (hnew _ hhas).resolve_right fun hother ↦ hother (hresolved hhas)
    exfalso
    apply hfixed
    rw [hlands]
    rw [hplain' has] at hlands
    by_cases hown : projectKey x.projectId x.path ≠ .folder x.path ∧
        has' (projectKey x.projectId x.path) = true
    · have hkey : resolve shares has' x = projectKey x.projectId x.path := by
        rw [hplain' has', if_pos hown]
      rw [if_pos ⟨hown.1, hkept _ hown.2 hkey⟩] at hlands
      exact hkey.trans hlands
    · have hkey : resolve shares has' x = nearestJournal has' x.path := by
        rw [hplain' has', if_neg hown]
      rw [hkey]
      have hnearest : nearestJournal has x.path = k := by
        split at hlands
        · next hold =>
          rw [← hlands] at hk
          exact absurd ⟨hold.1, hk⟩ hown
        · exact hlands
      unfold nearestJournal at hnearest hkey ⊢
      cases hfind : x.path.tails.find? fun p ↦ has (.folder p) with
      | none =>
        have hnone := List.find?_eq_none.mp hfind x.path
          ((List.mem_tails x.path x.path).mpr (List.suffix_refl _))
        rw [hfind] at hnearest
        rw [← hnearest] at hthere
        exact absurd hthere hnone
      | some p =>
        rw [hfind] at hnearest
        have hkeep := find?_eq_of (q := fun p ↦ has' (.folder p)) hfind
          (by rw [← hnearest] at hk; exact hk) fun b hb ↦ by
            rw [hb] at hkey
            exact hkept (.folder b) (by simpa using List.find?_some hb) hkey
        rw [hkeep]
        exact hnearest

/-- A reader finds an entry in the journal it lands on, if that records its key; one that it
resolves to may record none. -/
theorem finds_iff {x : Reader} {e : Entry} : d.Finds x e ↔
    ∃ k y, landing d.shares d.content.has x = some k ∧ d.content k = some y ∧
      (y.projectPath = some k ∨
        y.projectPath = none ∧ resolve d.shares d.content.has x = k) ∧ e ∈ y.db.entries.rows := by
  have hempty : e ∉ Db.empty.entries.rows := by simp [Db.empty]
  unfold Disk.Finds Disk.read landing
  dsimp only
  generalize resolve d.shares d.content.has x = key
  cases hkey : d.content key with
  | some y =>
    have hhas : d.content.has key = true := Catalog.has_of_eq_some hkey
    have hnot : ¬ d.content.adopts key x.path := by
      intro h
      rw [h.2.1] at hhas
      cases hhas
    rw [adoptUpTo_of_not hnot, if_pos hhas, if_pos hhas, ite_self]
    rcases openFor_of_some hkey with ⟨hrecorded, y', hopen, -, hdb⟩ | ⟨hother, msg, hopen⟩
    · rw [hopen]
      constructor
      · rintro ⟨db, hread, he⟩
        cases hread
        refine ⟨key, y, rfl, hkey, ?_, hdb ▸ he⟩
        exact hrecorded.imp_right fun h ↦ ⟨h, rfl⟩
      · rintro ⟨k, y₁, hk, hy₁, -, he⟩
        cases hk
        cases hkey.symm.trans hy₁
        exact ⟨y'.db, rfl, hdb ▸ he⟩
    · rw [hopen]
      constructor
      · rintro ⟨db, hread, -⟩
        cases hread
      · rintro ⟨k, y₁, hk, hy₁, hrecorded, -⟩
        cases hk
        cases hkey.symm.trans hy₁
        exact absurd (hrecorded.imp_right And.left) hother
  | none =>
    have hno : d.content.has key = false := Catalog.has_of_eq_none hkey
    rw [hno]
    simp only [Bool.false_eq_true, ↓reduceIte]
    by_cases hsession : x.session = true
    · rw [if_pos hsession]
      by_cases hadopts : d.content.adopts key x.path
      · obtain ⟨y, y', hy, hy', hdb, hafter⟩ := content_adoptUpTo_filed (n := adoptSteps.length)
          hadopts (by decide)
        obtain ⟨y₁, hy₁, hrecorded⟩ := exists_of_adopts hadopts
        cases hy.symm.trans hy₁
        have hhas : d.content.has (.folder x.path) = true := Catalog.has_of_eq_some hy
        rw [hafter, openFor_of_eq (Function.update_self _ _ _) hy',
          if_pos ⟨hsession, hadopts.1, hhas⟩]
        constructor
        · rintro ⟨db, hread, he⟩
          cases hread
          exact ⟨_, y, rfl, hy, Or.inl hrecorded, hdb ▸ he⟩
        · rintro ⟨k, y₁, hk, hy₁, -, he⟩
          cases hk
          cases hy.symm.trans hy₁
          exact ⟨y'.db, rfl, hdb ▸ he⟩
      · rw [adoptUpTo_of_not hadopts, openFor_of_none hkey]
        constructor
        · rintro ⟨db, hread, he⟩
          cases hread
          exact absurd he hempty
        · rintro ⟨k, y, hk, hy, hrecorded, -⟩
          split at hk
          · next hfolder =>
            cases hk
            refine absurd ⟨hfolder.2.1, hno, ?_⟩ hadopts
            rw [hy, Option.bind_some]
            exact hrecorded.resolve_right fun h ↦ hfolder.2.1 h.2
          · cases hk
    · rw [if_neg hsession, if_neg fun h ↦ hsession h.1]
      simp

/-! ### Readers of what a call leaves -/

/-- A reader finds an entry still where its journal is there, records its key or what it did, and
the reader does not land on a new one. -/
theorem Disk.Finds.stay {d' : Disk} {x : Reader} {e : Entry} {k : Key} {y y' : Content}
    (hshares : d'.shares = d.shares) (hland : landing d.shares d.content.has x = some k)
    (hy : y.projectPath = some k ∨
      y.projectPath = none ∧ resolve d.shares d.content.has x = k)
    (hk : d'.content k = some y')
    (hrecorded : y'.projectPath = y.projectPath ∨ y'.projectPath = some k)
    (he : e ∈ y'.db.entries.rows)
    (hnew : ∀ k', d'.content.has k' = true → d.content.has k' = true ∨
      landing d.shares d'.content.has x ≠ some k') : d'.Finds x e := by
  have hhas : d'.content.has k = true := Catalog.has_of_eq_some hk
  have hland' := landing_stay hland hhas hnew
  rw [finds_iff, hshares]
  refine ⟨k, y', hland', hk, ?_, he⟩
  rcases hrecorded with hsame | hself
  · rcases hy with hself | ⟨hnone, hresolve⟩
    · exact Or.inl (hsame.trans hself)
    · refine Or.inr ⟨hsame.trans hnone, ?_⟩
      by_cases hsession : x.session = true
      · rw [resolve_session hsession]
        exact hresolve
      · exact resolve_of_landing hsession hland'
  · exact Or.inl hself

theorem has_update {c : Catalog} {k : Key} {y : Content} :
    Catalog.has (Function.update c k (some y)) = fun k' ↦ k' == k || c.has k' := by
  funext k'
  unfold Catalog.has
  by_cases hk : k' = k
  · simp [hk]
  · have hne : (k' == k) = false := by simpa using hk
    rw [Function.update_of_ne hk, hne, Bool.false_or]

/-- A write into a journal that was there. -/
theorem Disk.Finds.save {x : Reader} {e : Entry} {f : Db → Db} (h : d.Finds x e)
    (hf : ∀ db : Db, ∀ e ∈ db.entries.rows, e ∈ (f db).entries.rows)
    (hhas : d.content.has key = true) : (d.save key f).Finds x e := by
  obtain ⟨k, y, hland, hy, hrecorded, he⟩ := finds_iff.mp h
  obtain ⟨y₀, hy₀⟩ := Option.isSome_iff_exists.mp hhas
  have hcontent := @content_save d key f
  rcases openFor_of_some hy₀ with ⟨-, y₁, hopen, hself, hdb⟩ | ⟨-, msg, hopen⟩
  · rw [hopen] at hcontent
    dsimp only at hcontent
    have hold : ∀ k', (d.save key f).content.has k' = true → d.content.has k' = true := by
      intro k' hk'
      rw [hcontent, has_update, Bool.or_eq_true, beq_iff_eq] at hk'
      exact hk'.elim (fun hk' ↦ hk' ▸ hhas) id
    by_cases hk : k = key
    · subst hk
      cases hy₀.symm.trans hy
      refine Disk.Finds.stay (shares_save f) hland hrecorded
        ((congrFun hcontent k).trans (Function.update_self _ _ _)) (Or.inr hself)
        (hf _ _ ?_) fun k' hk' ↦ Or.inl (hold k' hk')
      exact hdb ▸ he
    · exact Disk.Finds.stay (shares_save f) hland hrecorded
        ((congrFun hcontent k).trans ((Function.update_of_ne hk _ _).trans hy)) (Or.inl rfl) he
        fun k' hk' ↦ Or.inl (hold k' hk')
  · rw [hopen] at hcontent
    dsimp only at hcontent
    rw [finds_iff, shares_save, hcontent]
    exact finds_iff.mp h

end

/-! ### Which readers go on -/

/-- What becomes of the folder's journal, when the next write of the folder has come. -/
inductive Filing where
  | filed | left | halfway
  deriving DecidableEq, Repr

/-- The first update is the second step, the rename the fifth. A daemon that stops before the
update leaves the adoption to the next write; after a failure there is a journal of the key. -/
def filing (c : Catalog) (key : Key) (path : Path) (cut : Cut) : Filing :=
  if c.adopts key path then
    match cut with
    | .through => .filed
    | .stops n => if 2 ≤ n ∧ n < 5 then .halfway else .filed
    | .fails n => if n < 2 then .left else if n < 5 then .halfway else .filed
  else .left

/-- The journals when one of the key was made. -/
def withKey (has : Key → Bool) (key k : Key) : Bool := k == key || has k

/-- The journals when the folder's became the one of the key. -/
def withFiled (has : Key → Bool) (key : Key) (path : Path) (k : Key) : Bool :=
  k == key || (k != .folder path && has k)

/-- A reader goes on: the folder's journal becomes the one of the key, and the reader lands on
that exactly where it read the folder's; or the folder's stays, and the reader does not land on
the one of the key; or it is cut halfway, and besides the reader read another one. -/
def Filing.Spares (d : Disk) (key : Key) (path : Path) (x : Reader) : Filing → Prop
  | .filed => landing d.shares (withFiled d.content.has key path) x = some key ↔
      landing d.shares d.content.has x = some (.folder path)
  | .left => landing d.shares (withKey d.content.has key) x ≠ some key
  | .halfway => landing d.shares d.content.has x ≠ some (.folder path) ∧
      landing d.shares (withKey d.content.has key) x ≠ some key

/-- The key has its journal already, or the reader goes on. -/
def Spared (d : Disk) (key : Key) (path : Path) (cut : Cut) (x : Reader) : Prop :=
  d.content.has key = true ∨ (filing d.content key path cut).Spares d key path x

/-- What the journal of the key starts from. -/
def Filing.base (c : Catalog) (path : Path) : Filing → Db
  | .filed => ((c (.folder path)).map Content.db).getD .empty
  | _ => .empty

/-- The files after a call that made or filed a journal of the key. -/
structure Outcome (c c' : Catalog) (key : Key) (path : Path) (o : Filing) (db : Db) : Prop where
  made : ∃ y, c' key = some y ∧ y.projectPath = some key ∧ y.db = db
  others : ∀ k, k ≠ key → k ≠ .folder path ∨ o = .left → c' k = c k
  apart : o ≠ .left → key ≠ .folder path ∧ c.has (.folder path) = true
  filed : o = .filed → c' (.folder path) = none
  halfway : o = .halfway → ∃ y, c' (.folder path) = some y ∧ y.projectPath = some key

namespace Outcome

variable {c c' : Catalog} {key : Key} {path : Path} {o : Filing} {db : Db}

/-- Another write. -/
theorem update (h : Outcome c c' key path o db) {y : Content} (hy : y.projectPath = some key) :
    Outcome c (Function.update c' key (some y)) key path o y.db where
  made := ⟨y, Function.update_self _ _ _, hy, rfl⟩
  others k hk hor := (Function.update_of_ne hk _ _).trans (h.others k hk hor)
  apart := h.apart
  filed ho := by
    have hne := (h.apart (by rw [ho]; simp)).1
    exact (Function.update_of_ne (Ne.symm hne) _ _).trans (h.filed ho)
  halfway ho := by
    have hne := (h.apart (by rw [ho]; simp)).1
    rw [Function.update_of_ne (Ne.symm hne)]
    exact h.halfway ho

theorem has_key (h : Outcome c c' key path o db) : c'.has key = true := by
  obtain ⟨y, hy, -⟩ := h.made
  exact Catalog.has_of_eq_some hy

/-- The journals that are there. -/
theorem has_of_ne (h : Outcome c c' key path o db) (ho : o ≠ .filed) :
    c'.has = withKey c.has key := by
  funext k
  unfold withKey
  by_cases hk : k = key
  · subst hk
    rw [h.has_key, beq_self_eq_true, Bool.true_or]
  · have hne : (k == key) = false := by simpa using hk
    rw [hne, Bool.false_or]
    by_cases hfolder : k ≠ .folder path ∨ o = .left
    · rw [Catalog.has, h.others k hk hfolder]
      rfl
    · rw [not_or, not_not] at hfolder
      obtain ⟨hpath, hleft⟩ := hfolder
      have hhalfway : o = .halfway := by
        cases o
        · exact absurd rfl ho
        · exact absurd rfl hleft
        · rfl
      obtain ⟨y, hy, -⟩ := h.halfway hhalfway
      rw [hpath, (h.apart hleft).2, Catalog.has_of_eq_some hy]

theorem has_filed (h : Outcome c c' key path .filed db) : c'.has = withFiled c.has key path := by
  funext k
  unfold withFiled
  by_cases hk : k = key
  · subst hk
    rw [h.has_key, beq_self_eq_true, Bool.true_or]
  · have hne : (k == key) = false := by simpa using hk
    rw [hne, Bool.false_or]
    by_cases hfolder : k = .folder path
    · rw [hfolder, Catalog.has_of_eq_none (h.filed rfl), bne_self_eq_false, Bool.false_and]
    · rw [Catalog.has, h.others k hk (Or.inl hfolder), bne_iff_ne.mpr hfolder, Bool.true_and]
      rfl

end Outcome

section

variable {d : Disk} {key : Key} {path : Path} {cut : Cut} {f : Db → Db}

theorem not_adopts_of_has (h : d.content.has key = true) : ¬ d.content.adopts key path := by
  intro hadopts
  rw [hadopts.2.1] at h
  cases h

theorem call_of_goesOn (h : cut.goesOn = true) :
    d.call key path cut f = (d.adoptUpTo key path cut.done).save key f := if_pos h

theorem call_of_stops (h : ¬ cut.goesOn = true) :
    d.call key path cut f = d.adoptUpTo key path cut.done := if_neg h

/-- A journal of the key is opened. -/
theorem Outcome.save {c : Catalog} {o : Filing} {db : Db}
    (h : Outcome c d.content key path o db) :
    Outcome c (d.save key f).content key path o (f db) := by
  obtain ⟨y, hy, hself, hdb⟩ := h.made
  rw [content_save, openFor_of_eq hy hself]
  have hupdate := @Outcome.update _ _ _ _ _ _ h { y with db := f y.db } hself
  rw [hdb] at hupdate
  exact hdb ▸ hupdate

/-- A journal of the key is made. -/
theorem outcome_make (hno : d.content.has key = false) :
    Outcome d.content (d.save key f).content key path .left (f .empty) := by
  have hnone : d.content key = none := by
    rw [Catalog.has, Option.isSome_eq_false_iff, Option.isNone_iff_eq_none] at hno
    exact hno
  rw [content_save, openFor_of_none hnone]
  exact {
    made := ⟨_, Function.update_self _ _ _, rfl, rfl⟩
    others := fun k hk _ ↦ Function.update_of_ne hk _ _
    apart := fun h ↦ absurd rfl h
    filed := fun h ↦ by cases h
    halfway := fun h ↦ by cases h }

/-- The folder's journal was cut halfway, and one of the key was made. -/
theorem Outcome.halve {d' : Disk} {x : Content} {db : Db} (hadopts : d.content.adopts key path)
    (hx : x.projectPath = some key)
    (hcontent : d'.content = Function.update d.content (.folder path) (some x)) {c' : Catalog}
    (h : Outcome d'.content c' key path .left db) : Outcome d.content c' key path .halfway db where
  made := h.made
  others k hk hor := by
    have hpath : k ≠ .folder path := hor.resolve_right (by simp)
    rw [h.others k hk (Or.inr rfl), hcontent]
    exact Function.update_of_ne hpath _ _
  apart _ := by
    obtain ⟨y, hy, -⟩ := exists_of_adopts hadopts
    exact ⟨hadopts.1, Catalog.has_of_eq_some hy⟩
  filed ho := by cases ho
  halfway _ := by
    refine ⟨x, ?_, hx⟩
    rw [h.others _ (Ne.symm hadopts.1) (Or.inr rfl), hcontent]
    exact Function.update_self _ _ _

/-- The folder's journal became the one of the key. -/
theorem outcome_filed {n : Nat} (hadopts : d.content.adopts key path) (hn : 5 ≤ n) :
    Outcome d.content (d.adoptUpTo key path n).content key path .filed
      (Filing.filed.base d.content path) := by
  obtain ⟨x, x', hx, hself, hdb, hcontent⟩ := content_adoptUpTo_filed hadopts hn
  have hbase : Filing.filed.base d.content path = x'.db := by
    rw [Filing.base, hx, hdb]
    rfl
  rw [hcontent, hbase]
  exact {
    made := ⟨x', Function.update_self _ _ _, hself, rfl⟩
    others := fun k hk hor ↦ by
      rw [Function.update_of_ne hk, Function.update_of_ne (hor.resolve_right (by simp))]
    apart := fun _ ↦ ⟨hadopts.1, Catalog.has_of_eq_some hx⟩
    filed := fun _ ↦ by rw [Function.update_of_ne (Ne.symm hadopts.1), Function.update_self]
    halfway := fun h ↦ by cases h }

/-- A call that goes on makes or files a journal of the key. -/
theorem outcome_call (hno : d.content.has key = false) (hgo : cut.goesOn = true) :
    Outcome d.content (d.call key path cut f).content key path (filing d.content key path cut)
      (f ((filing d.content key path cut).base d.content path)) := by
  rw [call_of_goesOn hgo]
  unfold filing
  by_cases hadopts : d.content.adopts key path
  · rw [if_pos hadopts]
    cases cut with
    | through => exact (outcome_filed hadopts (by decide)).save
    | stops n => cases hgo
    | fails n =>
      dsimp only
      rw [show (Cut.fails n).done = n from rfl]
      by_cases hearly : n < 2
      · have hcontent := @content_adoptUpTo_of_lt d key path n hearly
        rw [if_pos hearly, ← hcontent]
        exact outcome_make (hcontent ▸ hno)
      · rw [if_neg hearly]
        by_cases hhalf : n < 5
        · rw [if_pos hhalf]
          obtain ⟨x, x', -, hself, -, hcontent⟩ :=
            content_adoptUpTo_half hadopts (Nat.le_of_not_lt hearly) hhalf
          refine Outcome.halve hadopts hself hcontent (outcome_make ?_)
          rw [hcontent, Catalog.has, Function.update_of_ne hadopts.1]
          exact hno
        · rw [if_neg hhalf]
          exact (outcome_filed hadopts (Nat.le_of_not_lt hhalf)).save
  · rw [if_neg hadopts, adoptUpTo_of_not hadopts]
    exact outcome_make hno

/-- The next write of the folder after a call. -/
theorem outcome_again {f' : Db → Db} (hno : d.content.has key = false) :
    Outcome d.content ((d.call key path cut f).call key path .through f').content key path
      (filing d.content key path cut)
      (f' ((if cut.goesOn then f else id)
        ((filing d.content key path cut).base d.content path))) := by
  by_cases hgo : cut.goesOn = true
  · have hfirst := @outcome_call d key path cut f hno hgo
    rw [if_pos hgo, @call_of_goesOn (d.call key path cut f) key path .through f' rfl,
      adoptUpTo_of_not (not_adopts_of_has hfirst.has_key)]
    exact hfirst.save
  · rw [if_neg hgo, id_eq]
    cases cut with
    | through => exact absurd rfl hgo
    | fails n => exact absurd rfl hgo
    | stops n =>
      rw [call_of_stops hgo, show (Cut.stops n).done = n from rfl]
      by_cases hadopts : d.content.adopts key path
      · have hthrough : ∀ c : Catalog, c.adopts key path → filing c key path .through = .filed :=
          fun c h ↦ if_pos h
        by_cases hhalf : 2 ≤ n ∧ n < 5
        · have hfiling : filing d.content key path (.stops n) = .halfway := by
            rw [filing, if_pos hadopts]
            exact if_pos hhalf
          obtain ⟨x, x', -, hself, -, hcontent⟩ := content_adoptUpTo_half hadopts hhalf.1 hhalf.2
          have hnot : ¬ (d.adoptUpTo key path n).content.adopts key path := by
            intro h
            obtain ⟨y, hy, hfolder⟩ := exists_of_adopts h
            rw [hcontent, Function.update_self] at hy
            cases hy
            exact hadopts.1 (Option.some.inj (hself.symm.trans hfolder))
          have hno' : (d.adoptUpTo key path n).content.has key = false := by
            rw [hcontent, Catalog.has, Function.update_of_ne hadopts.1]
            exact hno
          rw [hfiling, @call_of_goesOn _ key path .through f' rfl, adoptUpTo_of_not hnot]
          exact Outcome.halve hadopts hself hcontent (outcome_make hno')
        · have hfiling : filing d.content key path (.stops n) = .filed := by
            rw [filing, if_pos hadopts]
            exact if_neg hhalf
          rw [hfiling]
          by_cases hearly : n < 2
          · have hcontent := @content_adoptUpTo_of_lt d key path n hearly
            have hcall := @outcome_call (d.adoptUpTo key path n) key path .through f'
              (hcontent ▸ hno) rfl
            rw [hcontent, hthrough _ hadopts] at hcall
            exact hcall
          · have hfiled := @outcome_filed d key path n hadopts (by omega)
            rw [@call_of_goesOn _ key path .through f' rfl,
              adoptUpTo_of_not (not_adopts_of_has hfiled.has_key)]
            exact hfiled.save
      · have hcall := @outcome_call d key path .through f' hno rfl
        have hfiling : ∀ cut, filing d.content key path cut = .left := fun cut ↦ if_neg hadopts
        rw [hfiling] at hcall ⊢
        rw [adoptUpTo_of_not hadopts]
        exact hcall

/-! ### What readers find -/

/-- A reader that is spared finds its entry after the call. -/
theorem Outcome.finds {d' : Disk} {o : Filing} {db : Db} {x : Reader} {e : Entry}
    (h : Outcome d.content d'.content key path o db) (hshares : d'.shares = d.shares)
    (hno : d.content.has key = false)
    (hbase : e ∈ (o.base d.content path).entries.rows → e ∈ db.entries.rows)
    (hspares : o.Spares d key path x) (hfinds : d.Finds x e) : d'.Finds x e := by
  obtain ⟨k, y, hland, hy, hrecorded, he⟩ := finds_iff.mp hfinds
  have hhas : d.content.has k = true := Catalog.has_of_eq_some hy
  have hkey : k ≠ key := by
    rintro rfl
    rw [hno] at hhas
    cases hhas
  have hstay : d'.content k = d.content k → landing d.shares d'.content.has x ≠ some key →
      (∀ k', d'.content.has k' = true → k' ≠ key → d.content.has k' = true) → d'.Finds x e := by
    intro hsame hother hold
    refine Disk.Finds.stay hshares hland hrecorded (hsame.trans hy) (Or.inl rfl) he ?_
    intro k' hk'
    by_cases hk : k' = key
    · exact Or.inr (hk ▸ hother)
    · exact Or.inl (hold k' hk' hk)
  cases o with
  | left =>
    have hfn := h.has_of_ne (by simp)
    apply hstay (h.others k hkey (Or.inr rfl)) (hfn ▸ hspares)
    intro k' hk' hne
    rw [hfn] at hk'
    simpa [withKey, hne] using hk'
  | halfway =>
    have hfn := h.has_of_ne (by simp)
    have hpath : k ≠ .folder path := fun hk ↦ hspares.1 (hk ▸ hland)
    apply hstay (h.others k hkey (Or.inl hpath)) (hfn ▸ hspares.2)
    intro k' hk' hne
    rw [hfn] at hk'
    simpa [withKey, hne] using hk'
  | filed =>
    have hfn := h.has_filed
    by_cases hpath : k = .folder path
    · subst hpath
      obtain ⟨z, hz, hself, hdb⟩ := h.made
      have hnow : landing d'.shares d'.content.has x = some key := by
        rw [hshares, hfn]
        exact hspares.mpr hland
      refine finds_iff.mpr ⟨key, z, hnow, hz, Or.inl hself, ?_⟩
      rw [hdb]
      apply hbase
      rw [Filing.base, hy]
      exact he
    · apply hstay (h.others k hkey (Or.inl hpath))
      · rw [hfn]
        intro hnow
        exact hpath (Option.some.inj (hland.symm.trans (hspares.mp hnow)))
      · intro k' hk' hne
        rw [hfn, withFiled, Bool.or_eq_true, beq_iff_eq, or_iff_right hne, Bool.and_eq_true] at hk'
        exact hk'.2

/-- A reader that finds an entry of one journal alone was spared. -/
theorem Outcome.spares {d' : Disk} {o : Filing} {x : Reader} {e : Entry}
    (h : Outcome d.content d'.content key path o (o.base d.content path))
    (hshares : d'.shares = d.shares)
    (honly : ∀ k y k' y', d.content k = some y → e ∈ y.db.entries.rows →
      d.content k' = some y' → e ∈ y'.db.entries.rows → k = k')
    (hfinds : d.Finds x e) (hfinds' : d'.Finds x e) : o.Spares d key path x := by
  obtain ⟨k, y, hland, hy, hrecorded, he⟩ := finds_iff.mp hfinds
  obtain ⟨k', y', hland', hy', hrecorded', he'⟩ := finds_iff.mp hfinds'
  rw [hshares] at hland' hrecorded'
  obtain ⟨z, hz, hself, hdb⟩ := h.made
  have hempty : e ∉ Db.empty.entries.rows := by simp [Db.empty]
  -- the entry is in the journal of the key only if that was the folder's
  have hnew : k' = key → e ∈ (o.base d.content path).entries.rows := by
    rintro rfl
    cases hz.symm.trans hy'
    exact hdb ▸ he'
  have hsame : d'.content k' = d.content k' → k = k' :=
    fun hcontent ↦ honly k y k' y' hy he (hcontent ▸ hy') he'
  cases o with
  | left =>
    have hfn := h.has_of_ne (by simp)
    intro hnow
    rw [← hfn, hland', Option.some_inj] at hnow
    exact hempty (hnew hnow)
  | halfway =>
    have hfn := h.has_of_ne (by simp)
    have hother : k' ≠ key := fun hk ↦ hempty (hnew hk)
    constructor
    · intro hfolder
      have hk : k = .folder path := Option.some.inj (hland.symm.trans hfolder)
      by_cases hpath : k' = .folder path
      · obtain ⟨w, hw, htitle⟩ := h.halfway rfl
        rw [hpath, hw] at hy'
        cases hy'
        have hne := (h.apart (by simp)).1
        rcases hrecorded' with hfolder | ⟨hnone, -⟩
        · exact hne (Option.some.inj (htitle.symm.trans (hpath ▸ hfolder)))
        · rw [htitle] at hnone
          cases hnone
      · exact hpath ((hsame (h.others k' hother (Or.inl hpath))).symm.trans hk)
    · rw [← hfn, hland']
      exact fun hk ↦ hother (Option.some.inj hk)
  | filed =>
    have hfn := h.has_filed
    rw [hfn] at hland'
    constructor
    · intro hnow
      have hbase := hnew (Option.some.inj (hland'.symm.trans hnow))
      rw [Filing.base] at hbase
      cases hfolder : d.content (.folder path) with
      | none =>
        rw [hfolder] at hbase
        exact absurd hbase hempty
      | some w =>
        rw [hfolder] at hbase
        exact honly k y _ w hy he hfolder hbase ▸ hland
    · intro hold
      have hk : k = .folder path := Option.some.inj (hland.symm.trans hold)
      by_cases hother : k' = key
      · exact hother ▸ hland'
      · by_cases hpath : k' = .folder path
        · rw [hpath, h.filed rfl] at hy'
          cases hy'
        · exact absurd ((hsame (h.others k' hother (Or.inl hpath))).symm.trans hk) hpath

/-- What is read does not depend on how it lies in the files. -/
theorem Disk.Finds.congr {d' : Disk} {x : Reader} {e : Entry} (hshares : d'.shares = d.shares)
    (hcontent : d'.content = d.content) (h : d.Finds x e) : d'.Finds x e := by
  rw [finds_iff] at h ⊢
  rw [hshares, hcontent]
  exact h

/-- Halfway, a reader of another journal finds its entry. -/
theorem Disk.Finds.halve {x : Reader} {e : Entry} {n : Nat} (h : d.Finds x e)
    (hadopts : d.content.adopts key path) (hn : 2 ≤ n) (hn' : n < 5)
    (hother : landing d.shares d.content.has x ≠ some (.folder path)) :
    (d.adoptUpTo key path n).Finds x e := by
  obtain ⟨k, y, hland, hy, hrecorded, he⟩ := finds_iff.mp h
  obtain ⟨w, w', hw, -, -, hcontent⟩ := content_adoptUpTo_half hadopts hn hn'
  have hk : k ≠ .folder path := fun hk ↦ hother (hk ▸ hland)
  have hsame : (d.adoptUpTo key path n).content k = some y := by
    rw [hcontent, Function.update_of_ne hk]
    exact hy
  refine Disk.Finds.stay (shares_adoptUpTo n) hland hrecorded hsame (Or.inl rfl) he ?_
  intro k' hk'
  rw [hcontent, has_update, Bool.or_eq_true, beq_iff_eq] at hk'
  rcases hk' with rfl | hk'
  · exact Or.inl (Catalog.has_of_eq_some hw)
  · exact Or.inl hk'

/-- A spared reader finds its entry after the call. -/
theorem Disk.Finds.call {x : Reader} {e : Entry} (h : d.Finds x e)
    (hf : ∀ db : Db, ∀ e ∈ db.entries.rows, e ∈ (f db).entries.rows)
    (hspared : Spared d key path cut x) : (d.call key path cut f).Finds x e := by
  by_cases hhas : d.content.has key = true
  · by_cases hgo : cut.goesOn = true
    · rw [call_of_goesOn hgo, adoptUpTo_of_not (not_adopts_of_has hhas)]
      exact h.save hf hhas
    · rw [call_of_stops hgo, adoptUpTo_of_not (not_adopts_of_has hhas)]
      exact h
  · rw [Bool.not_eq_true] at hhas
    have hspares := hspared.resolve_left (by simp [hhas])
    by_cases hgo : cut.goesOn = true
    · exact (outcome_call hhas hgo).finds (shares_call _ _) hhas (hf _ _) hspares h
    · rw [call_of_stops hgo]
      by_cases hadopts : d.content.adopts key path
      · cases cut with
        | through => exact absurd rfl hgo
        | fails n => exact absurd rfl hgo
        | stops n =>
          rw [show (Cut.stops n).done = n from rfl]
          by_cases hearly : n < 2
          · exact h.congr (shares_adoptUpTo n) (content_adoptUpTo_of_lt hearly)
          · by_cases hhalf : n < 5
            · have hfiling : filing d.content key path (.stops n) = .halfway := by
                rw [filing, if_pos hadopts]
                exact if_pos ⟨Nat.le_of_not_lt hearly, hhalf⟩
              rw [hfiling] at hspares
              exact h.halve hadopts (Nat.le_of_not_lt hearly) hhalf hspares.1
            · have hfiling : filing d.content key path (.stops n) = .filed := by
                rw [filing, if_pos hadopts]
                exact if_neg fun hn ↦ hhalf hn.2
              rw [hfiling] at hspares
              exact (outcome_filed hadopts (Nat.le_of_not_lt hhalf)).finds (shares_adoptUpTo n) hhas
                id hspares h
      · rw [adoptUpTo_of_not hadopts]
        exact h

/-- And after the next write of the folder. -/
theorem Disk.Finds.again {x : Reader} {e : Entry} {f' : Db → Db} (h : d.Finds x e)
    (hf : ∀ db : Db, ∀ e ∈ db.entries.rows, e ∈ (f db).entries.rows)
    (hf' : ∀ db : Db, ∀ e ∈ db.entries.rows, e ∈ (f' db).entries.rows)
    (hspared : Spared d key path cut x) :
    ((d.call key path cut f).call key path .through f').Finds x e := by
  by_cases hhas : d.content.has key = true
  · have hthere : (d.call key path cut f).content.has key = true := by
      by_cases hgo : cut.goesOn = true
      · rw [call_of_goesOn hgo, adoptUpTo_of_not (not_adopts_of_has hhas), content_save]
        split
        · exact hhas
        · rw [has_update]
          simp
      · rw [call_of_stops hgo, adoptUpTo_of_not (not_adopts_of_has hhas)]
        exact hhas
    rw [@call_of_goesOn _ key path .through f' rfl, adoptUpTo_of_not (not_adopts_of_has hthere)]
    exact (h.call hf (Or.inl hhas)).save hf' hthere
  · rw [Bool.not_eq_true] at hhas
    have hbase : ∀ db : Db, ∀ e ∈ db.entries.rows,
        e ∈ (f' ((if cut.goesOn then f else id) db)).entries.rows := by
      intro db e he
      apply hf'
      split
      · exact hf db e he
      · exact he
    exact (outcome_again hhas).finds (by simp) hhas (hbase _ e)
      (hspared.resolve_left (by simp [hhas])) h

end

/-- What a session writes leaves every entry. -/
theorem mem_put {u : Unicode} {sha256 : String → String} (note : Note) (db : Db) :
    ∀ e ∈ db.entries.rows, e ∈ (note.put u sha256 db).entries.rows := by
  intro e he
  cases note with
  | entry op => exact (extends_write u sha256 db op).subset he
  | mindMap => exact he

/-- A reader finds an entry after a call, and after the next write of the folder, whatever they
write. -/
def KeepsFinding (u : Unicode) (sha256 : String → String) (d : Disk) (key : Key) (path : Path)
    (cut : Cut) (x : Reader) (e : Entry) : Prop :=
  ∀ note note' : Note,
    (d.call key path cut fun db ↦ note.put u sha256 db).Finds x e ∧
      ((d.call key path cut fun db ↦ note.put u sha256 db).call key path .through fun db ↦
        note'.put u sha256 db).Finds x e

/-- A reader of an entry goes on finding it where it is spared, wherever the adoption is cut; and
only there, when the entry is in one journal alone. -/
theorem adoption_keeps_reader {u : Unicode} {sha256 : String → String} {d : Disk} {key : Key}
    {path : Path} {cut : Cut} {x : Reader} {e : Entry} (h : d.Finds x e) :
    (Spared d key path cut x → KeepsFinding u sha256 d key path cut x e) ∧
      ((∀ k y k' y', d.content k = some y → e ∈ y.db.entries.rows → d.content k' = some y' →
          e ∈ y'.db.entries.rows → k = k') →
        KeepsFinding u sha256 d key path cut x e → Spared d key path cut x) := by
  constructor
  · intro hspared note note'
    exact ⟨h.call (mem_put note) hspared, h.again (mem_put note) (mem_put note') hspared⟩
  · intro honly hkeeps
    by_cases hhas : d.content.has key = true
    · exact Or.inl hhas
    · rw [Bool.not_eq_true] at hhas
      -- nothing is written but mind maps
      have houtcome := @outcome_again d key path cut id id hhas
      rw [ite_self, id_eq, id_eq] at houtcome
      exact Or.inr (houtcome.spares (by simp) honly h (hkeeps .mindMap .mindMap).2)

/-! ### An adoption that is cut -/

/-- A folder of a repository, read from a plain terminal. -/
def folderReader : Reader := ⟨"laptop", ["work"], some "github.com/o/r", false⟩

/-- A note of the folder. -/
def folderNote : Note :=
  .entry (.add { body := "the port is 4100", category := "finding", tags := ["net"] } 1)

/-- The journal of the folder, from before journals were filed by repository. -/
def folderDisk : Disk :=
  Disk.call ⟨.empty, fun _ ↦ none⟩ (.folder ["work"]) ["work"] .through fun db ↦
    folderNote.put .ascii id db

theorem finds_folderDisk : folderDisk.Finds folderReader portEntry := by
  have hread : (folderDisk.read folderReader).map (fun db ↦ db.entries.rows) =
      some [portEntry] := by
    decide +kernel
  obtain ⟨db, hdb, hrows⟩ := Option.map_eq_some_iff.mp hread
  exact ⟨db, hdb, hrows ▸ List.mem_singleton.mpr rfl⟩

/-- The adoption goes through: the reader finds the note in the repository's journal. -/
theorem adoption_keeps_reader_filed :
    KeepsFinding .ascii id folderDisk (.repo "github.com/o/r") ["work"] .through folderReader
      portEntry := by
  refine (@adoption_keeps_reader .ascii id folderDisk (.repo "github.com/o/r") ["work"] .through
    folderReader portEntry finds_folderDisk).1 (Or.inr ?_)
  rw [show filing folderDisk.content (.repo "github.com/o/r") ["work"] .through = .filed by
    decide +kernel]
  exact iff_of_true (by decide +kernel) (by decide +kernel)

/-- The daemon stops between the update and the rename: the file is refused under its own name. -/
theorem adoption_keeps_reader_cut :
    ¬ ∀ (d : Disk) (key : Key) (path : Path) (cut : Cut) (x : Reader) (e : Entry), d.Finds x e →
      KeepsFinding .ascii id d key path cut x e := by
  intro h
  obtain ⟨db, hread, -⟩ := (h folderDisk (.repo "github.com/o/r") ["work"] (.stops 3) folderReader
    portEntry finds_folderDisk .mindMap .mindMap).1
  have hnone : ((folderDisk.call (.repo "github.com/o/r") ["work"] (.stops 3) fun db ↦
      Note.mindMap.put .ascii id db).read folderReader).isNone = true := by
    decide +kernel
  rw [hread] at hnone
  cases hnone

end Claudebase.Journal
