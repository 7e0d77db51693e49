/-
**The order of findings does not matter.**

What a ledger tells is the set of all facts of its findings, so it does not depend on their order; nor
do the names by which texts know the cvars, the cvars that waiting writes belong to, the words that are
news, and what table entries account for.  Only writes at one place compete, for the last one stays.

Main definitions:

* `Upkeep.Cvar.WritesApart` — findings of which no two writes are at one place;
* `Upkeep.Cvar.Ledger.Alike` — ledgers of the same cvars, with records that are alike and the same
  verdicts.

Main results:

* `Upkeep.Cvar.classify_congr` — records that are alike have the same verdict;
* `Upkeep.Cvar.agrees_ledgerOf`, `Upkeep.Cvar.Ledger.Agrees.scanTexts` — what is told does not depend on
  the order of findings;
* `Upkeep.Cvar.finish_of_perm` — **the order of findings does not matter**.
-/

import Upkeep.Cvar.Verdict
import Upkeep.Proofs.Cvar.Analysis
import Upkeep.Proofs.Cvar.Facts

set_option relaxedAutoImplicit false
set_option autoImplicit false

namespace Upkeep

namespace Cvar

open Files

variable {fs fs' : List Finding} {dedup : Dedup} {texts : List (Path × List String)}

/-! ### Verdicts -/

/-- Paths of the same components lie in the same directories. -/
theorem inAnyDirectory_congr {p q : Path} (h : p.same q = true) (dirs : List String) :
    p.inAnyDirectory dirs = q.inAnyDirectory dirs := by
  rw [Path.inAnyDirectory, Path.inAnyDirectory, Path.same_iff.1 h]

/-- Records that are alike have the same verdict. -/
theorem classify_congr {r r' : Record} (h : r.Alike r') (p : Policy) :
    classify p r = classify p r' := by
  have hhas : ∀ role, r.has role = r'.has role := by
    intro role
    rw [Record.has, Record.has]
    have hplaces := h.places role
    generalize r.places role = ps at hplaces ⊢
    generalize r'.places role = ps' at hplaces ⊢
    cases hplaces <;> rfl
  have hflagged : p.flagged r = p.flagged r' := by
    have hflag : ∀ flag, r.hasFlag flag = r'.hasFlag flag := by
      intro flag
      rw [Bool.eq_iff_iff, Record.hasFlag, Record.hasFlag, List.contains_iff_mem,
        List.contains_iff_mem]
      exact h.flags.2.2 flag
    simp only [Policy.flagged, hflag]
  have htext : p.textInLiveDir r = p.textInLiveDir r' := by
    rw [Policy.textInLiveDir, Policy.textInLiveDir]
    have hplaces := h.places .text
    generalize r.places .text = ps at hplaces ⊢
    generalize r'.places .text = ps' at hplaces ⊢
    induction hplaces with
    | nil => rfl
    | cons hsame _ ih =>
        have hfile := Occurrence.sameLine_iff.1 (Occurrence.sameLine_of_same hsame)
        rw [List.any_cons, List.any_cons, ih, inAnyDirectory_congr (Path.same_iff.2 hfile.1)]
  simp only [classify, hhas, hflagged, htext]

/-! ### Recording -/

/-- The facts of findings do not depend on their order. -/
theorem agrees_recordAll (hperm : fs.Perm fs') :
    (Ledger.empty.recordAll fs).Agrees (Ledger.empty.recordAll fs') := by
  intro name fact
  rw [Ledger.tells_recordAll Ledger.ordered_empty, Ledger.tells_recordAll Ledger.ordered_empty]
  simp only [hperm.mem_iff]

/-- No write is attached while findings are recorded. -/
theorem free_recordAll (fs : List Finding) (k : Occurrence.Key) :
    (Ledger.empty.recordAll fs).Free k := by
  intro name site htells
  rcases (Ledger.tells_recordAll Ledger.ordered_empty fs).1 htells with htells | ⟨f, -, hfact⟩
  · exact Ledger.not_tells_empty htells
  · obtain ⟨shape, o⟩ := f
    cases shape <;> simp [Finding.facts, Finding.mem_about, Registration.facts] at hfact

namespace Ledger

variable {l l' : Ledger}

/-- Ledgers that tell the same give the same names. -/
theorem Tidy.textKeys_eq (h : l.Tidy) (h' : l'.Tidy) (hagree : l.Agrees l') :
    l.textKeys = l'.textKeys := by
  apply textKeys_congr
  rw [nameTable, nameTable, ← List.forall₂_eq_eq_eq, List.forall₂_map_left_iff,
    List.forall₂_map_right_iff]
  refine (h.alike h' hagree).imp ?_
  intro s s' hs
  rw [hs.1, hs.2.displayNames]

end Ledger

/-! ### Writes -/

/-- No two writes are at one place. -/
def WritesApart (fs : List Finding) : Prop :=
  (fs.filterMap Finding.write?).Pairwise fun w w' => w.place.same w'.place = false

theorem WritesApart.perm (h : WritesApart fs) (hperm : fs.Perm fs') : WritesApart fs' := by
  refine ((hperm.filterMap _).pairwise_iff ?_).1 h
  intro w w' hsame
  rw [← Bool.not_eq_true, ← Occurrence.key_eq_iff] at hsame ⊢
  exact Ne.symm hsame

/-- The facts of findings with all writes attached: those that they tell, and those of the writes whose
keys stand for a cvar. -/
theorem tells_ledgerOf (hapart : WritesApart fs) {name : String} {fact : Fact} :
    (ledgerOf fs).Tells name fact ↔ (Ledger.empty.recordAll fs).Tells name fact ∨
      ∃ w ∈ fs.filterMap Finding.write?, ∃ name',
        (Ledger.empty.recordAll fs).textKeys.find? w.key = some name' ∧
          (name, fact) ∈ Finding.about name' w.facts := by
  have hpending : (Ledger.empty.recordAll fs).pending = fs.filterMap Finding.write? :=
    Ledger.pending_recordAll _ _
  -- The order in which writes wait does not matter only because no two of them are at one place.
  have hplaces : (Ledger.empty.recordAll fs).pending.Pairwise
      fun w w' => w.place.key ≠ w'.place.key := by
    rw [hpending]
    refine hapart.imp ?_
    intro w w' hsame heq
    rw [Occurrence.key_eq_iff.1 heq] at hsame
    cases hsame
  rw [ledgerOf, Ledger.tells_resolveWrites (Ledger.ordered_empty.recordAll fs) hplaces
    fun w _ => free_recordAll fs _, hpending]

/-- What is told with all writes attached does not depend on the order of findings. -/
theorem agrees_ledgerOf (hperm : fs.Perm fs') (hapart : WritesApart fs) :
    (ledgerOf fs).Agrees (ledgerOf fs') := by
  intro name fact
  have hkeys := (Ledger.tidy_empty.recordAll fs).textKeys_eq (Ledger.tidy_empty.recordAll fs')
    (agrees_recordAll hperm)
  rw [tells_ledgerOf hapart, tells_ledgerOf (hapart.perm hperm), agrees_recordAll hperm name fact,
    hkeys]
  simp only [(hperm.filterMap Finding.write?).mem_iff]

theorem tidy_ledgerOf (fs : List Finding) : (ledgerOf fs).Tidy :=
  (Ledger.tidy_empty.recordAll fs).resolveWrites

/-- A write is attached to the cvar for which its key stands among all findings, whether this became
known before it or after it. -/
theorem attached_ledgerOf (hperm : fs.Perm fs') (hapart : WritesApart fs) {w : PendingWrite}
    (hw : w ∈ fs.filterMap Finding.write?) {name : String}
    (hkey : (Ledger.empty.recordAll fs).textKeys.find? w.key = some name) :
    ∃ r, (ledgerOf fs').get? name = some r ∧ (r.places .set).has w.place = true ∧
      r.writeAt? w.place = some w.site := by
  have hfacts : ∀ fact ∈ w.facts, (ledgerOf fs').Tells name fact := by
    intro fact hfact
    rw [← agrees_ledgerOf hperm hapart, tells_ledgerOf hapart]
    exact .inr ⟨w, hw, name, hkey, Finding.mem_about.2 ⟨rfl, .inr hfact⟩⟩
  obtain ⟨r, hget, hwrite⟩ := hfacts (.write w.place.key w.site) (by simp [PendingWrite.facts])
  obtain ⟨r', hget', hmention⟩ := hfacts (.mention .set w.place.key) (by simp [PendingWrite.facts])
  obtain rfl : r = r' := Option.some.inj (hget.symm.trans hget')
  refine ⟨r, hget, ?_, ?_⟩
  · obtain ⟨p, hp, hsame⟩ := List.mem_map.1 hmention
    exact List.any_eq_true.2 ⟨p, hp, Occurrence.key_eq_iff.1 hsame.symm⟩
  · obtain ⟨⟨p, site⟩, hp, heq⟩ := List.mem_map.1 hwrite
    obtain ⟨hsame, rfl⟩ := Prod.mk.inj heq
    have htidy := (tidy_ledgerOf fs').records _ (Data.mem_of_lookupBy hget)
    exact Data.lookupBy_of_mem htidy.writes hp (Occurrence.order_eq_iff_key.2 hsame.symm)

/-! ### The search in texts -/

theorem Dedup.covers_congr {o p q : Occurrence} (h : p.key = q.key) :
    dedup.covers o p = dedup.covers o q := by
  rw [Bool.eq_iff_iff]
  cases dedup with
  | line => rw [covers, covers, Occurrence.sameLine_iff_key, Occurrence.sameLine_iff_key, h]
  | exact => rw [covers, covers, ← Occurrence.key_eq_iff, ← Occurrence.key_eq_iff, h]

/-- Records that tell the same account for the same words. -/
theorem Record.accountsFor_congr {r r' : Record} (h : r.Ordered) (h' : r'.Ordered)
    (hsame : ∀ fact, r.Tells fact ↔ r'.Tells fact) (dedup : Dedup) (o : Occurrence) :
    r.accountsFor dedup o = r'.accountsFor dedup o := by
  have hone : ∀ {r r' : Record}, r.Ordered → r'.Ordered → (∀ fact, r.Tells fact ↔ r'.Tells fact) →
      r.accountsFor dedup o = true → r'.accountsFor dedup o = true := by
    intro r r' h h' hsame hacc
    obtain ⟨role, hparsed, p, hp, hcovers⟩ := (accountsFor_iff h).1 hacc
    obtain ⟨q, hq, hkey⟩ := List.mem_map.1
      ((hsame (.mention role p.key)).1 (List.mem_map_of_mem hp))
    rw [← Dedup.covers_congr hkey] at hcovers
    exact (accountsFor_iff h').2 ⟨role, hparsed, q, hq, hcovers⟩
  rw [Bool.eq_iff_iff]
  exact ⟨hone h h' hsame, hone h' h fun fact => (hsame fact).symm⟩

namespace Ledger

variable {l l' : Ledger}

/-- Ledgers that tell the same find the same news in texts. -/
theorem Agrees.hits_eq (hagree : l.Agrees l') (h : l.Tidy) (h' : l'.Tidy) :
    hits l dedup texts = hits l' dedup texts := by
  have hnews : l.isNews dedup = l'.isNews dedup := by
    funext hit
    rw [isNews, isNews]
    cases hget : l.get? hit.1 with
    | none =>
        cases hget' : l'.get? hit.1 with
        | none => rfl
        | some r' =>
            obtain ⟨r, hget₀, -⟩ := hagree.symm.get? hget'
            rw [hget] at hget₀
            cases hget₀
    | some r =>
        obtain ⟨r', hget', hsame⟩ := hagree.get? hget
        rw [hget', Option.any_some, Option.any_some, Record.accountsFor_congr
          (h.ordered.of_get? hget) (h'.ordered.of_get? hget') hsame]
  simp only [hits, hitsIn, h.textKeys_eq h' hagree, hnews]

/-- What is told after the search depends on nothing but what is told before. -/
theorem Agrees.scanTexts (hagree : l.Agrees l') (h : l.Tidy) (h' : l'.Tidy) :
    (l.scanTexts dedup texts).Agrees (l'.scanTexts dedup texts) := by
  intro name fact
  rw [Ledger.scanTexts, Ledger.scanTexts, tells_addHits h.ordered, tells_addHits h'.ordered,
    hagree name fact, hagree.hits_eq h h']

/-! ### The finished ledger -/

/-- Ledgers of the same cvars; what they hold of each is alike, and so is the verdict on it. -/
def Alike (l l' : Ledger) : Prop :=
  List.Forall₂ (fun s s' => s.1 = s'.1 ∧ s.2.Alike s'.2 ∧ ∀ p, classify p s.2 = classify p s'.2)
    l.symbols l'.symbols

theorem Agrees.alike (hagree : l.Agrees l') (h : l.Tidy) (h' : l'.Tidy) : l.Alike l' :=
  (h.alike h' hagree).imp fun _ _ hs => ⟨hs.1, hs.2, classify_congr hs.2⟩

/-- Ledgers that tell the same are alike when they are finished, and take the same texts for it. -/
theorem Agrees.finish (hagree : l.Agrees l') (h : l.Tidy) (h' : l'.Tidy) {cfg : Settings}
    {textScan : Bool} {sources : List Path} {w w' : Workspace} {done : Ledger}
    (hrun : (finish cfg textScan sources l).on w = (.ok done, w')) :
    ∃ done', (finish cfg textScan sources l').on w = (.ok done', w') ∧ done.Alike done' := by
  cases textScan with
  | false =>
      cases hrun
      exact ⟨l'.scrub, rfl, (hagree.scrub h.ordered h'.ordered).alike h.scrub h'.scrub⟩
  | true =>
      rw [Cvar.finish, if_pos rfl, on_bind_ok] at hrun
      obtain ⟨found, w₁, hscan, hdone⟩ := hrun
      cases hdone
      -- Which texts are read depends on the workspace alone, so both ledgers get the same ones.
      rw [Ledger.textScan, on_bind_ok] at hscan
      obtain ⟨texts, w₂, htexts, hfound⟩ := hscan
      cases hfound
      refine ⟨(l'.scanTexts cfg.textDedup texts).scrub, ?_, ?_⟩
      · rw [Cvar.finish, if_pos rfl, on_bind_ok]
        refine ⟨(l'.scanTexts cfg.textDedup texts, (hits l' cfg.textDedup texts).length), w', ?_, rfl⟩
        rw [Ledger.textScan, on_bind_ok]
        exact ⟨texts, w', htexts, rfl⟩
      · have hscan := h.scanTexts cfg.textDedup texts
        have hscan' := h'.scanTexts cfg.textDedup texts
        exact ((hagree.scanTexts h h').scrub hscan.ordered hscan'.ordered).alike hscan.scrub
          hscan'.scrub

end Ledger

/-- **The order of findings does not matter**, as long as no two writes are at one place: the ledgers of
the same findings in two orders are alike when they are finished over the same sources, with the same
verdict on every cvar.  And a write is attached to the cvar for which its key stands among all
findings, wherever it came among them. -/
theorem finish_of_perm (hperm : fs.Perm fs') (hapart : WritesApart fs) :
    (∀ (cfg : Settings) (textScan : Bool) (sources : List Path) (w w' : Workspace) (l : Ledger),
      (finish cfg textScan sources (ledgerOf fs)).on w = (.ok l, w') →
        ∃ l', (finish cfg textScan sources (ledgerOf fs')).on w = (.ok l', w') ∧ l.Alike l') ∧
    ∀ w ∈ fs.filterMap Finding.write?, ∀ name,
      (Ledger.empty.recordAll fs).textKeys.find? w.key = some name →
        ∃ r, (ledgerOf fs').get? name = some r ∧ (r.places .set).has w.place = true ∧
          r.writeAt? w.place = some w.site := by
  constructor
  · intro cfg textScan sources w w' l hrun
    exact (agrees_ledgerOf hperm hapart).finish (tidy_ledgerOf fs) (tidy_ledgerOf fs') hrun
  · intro w hw name hkey
    exact attached_ledgerOf hperm hapart hw hkey

/-- A write before the registrations of its cvar, which give it flags, bounds and a display name. -/
def lateNames : List Finding :=
  [⟨.setCall "fov" "\"90\"" "Cvar_Set(\"fov\", \"90\")", ⟨⟨"a.cpp"⟩, 1, 1⟩⟩,
    ⟨.registration "cg_fov" ⟨some "fov", some "\"80\"", ["CVAR_CHEAT"]⟩, ⟨⟨"a.cpp"⟩, 2, 1⟩⟩,
    ⟨.registration "cg_fov" ⟨none, none, ["CVAR_ROM"]⟩, ⟨⟨"./a.cpp"⟩, 3, 1⟩⟩,
    ⟨.declaration "cg_fov" true, ⟨⟨"a.cpp"⟩, 4, 10⟩⟩,
    ⟨.rangeCheck "cg_fov" "1" "9", ⟨⟨"a.cpp"⟩, 5, 1⟩⟩,
    ⟨.rangeCheck "cg_fov" "0" "8", ⟨⟨"a.cpp"⟩, 6, 1⟩⟩]

/-- A text that names the cvar. -/
def fovTexts : List (Path × List String) := [(⟨"ui.menu"⟩, ["slider \"fov\" 1 2"])]

/-- A workspace that holds the text. -/
def fovHeld : Workspace := ⟨⟨[], []⟩, fovTexts, false⟩

theorem finish_of_perm_lateNames :
    lateNames.Perm lateNames.reverse ∧ WritesApart lateNames ∧
      (∃ l l', (finish {} true [⟨"ui.menu"⟩] (ledgerOf lateNames)).on fovHeld = (.ok l, fovHeld) ∧
        (finish {} true [⟨"ui.menu"⟩] (ledgerOf lateNames.reverse)).on fovHeld = (.ok l', fovHeld) ∧
        l ≠ l' ∧ l.Alike l') ∧
      ∃ r, (ledgerOf lateNames.reverse).get? "cg_fov" = some r ∧
        (r.places .set).has ⟨⟨"a.cpp"⟩, 1, 1⟩ = true ∧
        r.writeAt? ⟨⟨"a.cpp"⟩, 1, 1⟩ = some ⟨"\"90\"", "Cvar_Set(\"fov\", \"90\")"⟩ := by
  have hperm : lateNames.Perm lateNames.reverse := (List.reverse_perm _).symm
  have hapart : WritesApart lateNames := by
    exact List.pairwise_singleton _ _
  obtain ⟨halike, hattached⟩ := finish_of_perm hperm hapart
  refine ⟨hperm, hapart, ?_, hattached ⟨"fov", ⟨⟨"a.cpp"⟩, 1, 1⟩, _⟩ (by decide +kernel) _
    (by decide +kernel)⟩
  have hrun : (finish {} true [⟨"ui.menu"⟩] (ledgerOf lateNames)).on fovHeld =
      (.ok (finishedLedger lateNames .line fovTexts), fovHeld) := rfl
  have hreverse : (finish {} true [⟨"ui.menu"⟩] (ledgerOf lateNames.reverse)).on fovHeld =
      (.ok (finishedLedger lateNames.reverse .line fovTexts), fovHeld) := rfl
  obtain ⟨l', hrun', hsame⟩ := halike _ _ _ _ _ _ hrun
  obtain rfl : finishedLedger lateNames.reverse .line fovTexts = l' := by
    rw [hreverse] at hrun'
    simpa using hrun'
  exact ⟨_, _, hrun, hreverse, by decide +kernel, hsame⟩

end Cvar

end Upkeep
