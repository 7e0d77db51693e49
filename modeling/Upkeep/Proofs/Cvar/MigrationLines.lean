/-
**Migrations to one-line texts.**

What a migration puts in the place of a line is put together from texts of the sources: default values,
bounds, flags, display names and the values that are written.  Where all of them are one line each, the
patch is made of lines.  A call that goes over several lines does no harm, for it is on no line, and is
marked.

Main definitions:

* `Upkeep.Cvar.Migration.Lined` — migrations with a name and definition arguments of one line each;
* `Upkeep.Cvar.Record.SitesLined` — records with values of one line in the calls of one line;
* `Upkeep.Cvar.LinePlan.Lined` — plans made of lines.

Main results:

* `Upkeep.Cvar.Migration.oneLine_definition_iff`, `Upkeep.Cvar.Migration.lined_of_oneLine` — which
  definitions are one line;
* `Upkeep.Cvar.Migration.Lined.editOf` — edits made of lines;
* `Upkeep.Cvar.Migration.keepsLined_patch` — **the patch of a migration of one-line texts**.
-/

import Upkeep.Proofs.Cvar.Facts
import Upkeep.Proofs.Cvar.Plans
import Upkeep.Proofs.Cvar.Reads
import Upkeep.Proofs.Patch.Lined

set_option relaxedAutoImplicit false
set_option autoImplicit false

namespace Upkeep

/-! ### Texts of one line -/

namespace Diff

/-- A text with no other characters than those of a line is a line. -/
theorem OneLine.of_subset {s t : String} (h : OneLine s) (hsub : t.toList ⊆ s.toList) : OneLine t :=
  fun hfeed => h (hsub hfeed)

end Diff

namespace Text

/-- Only what is there is left between blanks. -/
theorem trim_subset (s : String) : (trim s).toList ⊆ s.toList := by
  rw [trim, String.toList_ofList, trimChars, trimBoth, dropEndWhile]
  intro c hc
  have hc := (List.dropWhile_sublist _).subset (List.mem_reverse.1 hc)
  exact (List.dropWhile_sublist _).subset (List.mem_reverse.1 hc)

end Text

namespace Cvar

open Files Diff

theorem indentOf_subset (line : String) : (indentOf line).toList ⊆ line.toList := by
  rw [indentOf, String.toList_ofList]
  exact (List.takeWhile_sublist _).subset

/-- Between quotes a text has the lines that it has without them. -/
theorem oneLine_quoted_iff {s : String} : OneLine (quoted s) ↔ OneLine s := by
  -- No line feed is escaped.
  have hescape : ∀ c : Char, '\n' ∈ (if c == '\\' || c == '"' then ['\\', c] else [c]) ↔ c = '\n' := by
    intro c
    split
    · rename_i hc
      have hne : c ≠ '\n' := by
        rintro rfl
        exact absurd hc (by decide)
      simp [hne, hne.symm]
    · simp [eq_comm]
  refine not_congr ?_
  simp only [quoted, String.toList_ofList, List.cons_append, List.mem_cons, List.mem_append,
    List.mem_flatMap, hescape, exists_eq_right]
  simp

/-- Texts with a line between them are a line if all of them are. -/
theorem oneLine_intercalate_iff {sep : String} (hsep : OneLine sep) {ls : List String} :
    OneLine (sep.intercalate ls) ↔ ∀ l ∈ ls, OneLine l := by
  rw [OneLine, String.toList_intercalate, Text.not_mem_intercalate_iff hsep, List.forall_mem_map]
  rfl

namespace ValueType

theorem oneLine_render (t : ValueType) : OneLine t.render := by
  cases t <;> simp [OneLine, render, isRanged, bounds?, valueName]

theorem stripQuotes_subset (raw : String) : (stripQuotes raw).toList ⊆ raw.toList := by
  have htrim := Text.trim_subset raw
  rw [Text.trim, String.toList_ofList] at htrim
  rw [stripQuotes, String.toList_ofList]
  refine List.Subset.trans ?_ htrim
  cases hquotes : (Text.stripPrefix? ['"'] (Text.trimChars raw.toList)).bind (Text.stripSuffix? ['"']) with
  | none => exact List.Subset.refl _
  | some inner =>
      obtain ⟨rest, hrest, hinner⟩ := Option.bind_eq_some_iff.1 hquotes
      obtain ⟨reversed, hreversed, rfl⟩ := Option.map_eq_some_iff.1 hinner
      rw [Text.eq_append_of_stripPrefix? hrest]
      have hrest := congrArg List.reverse (Text.eq_append_of_stripPrefix? hreversed)
      rw [List.reverse_reverse, List.reverse_append] at hrest
      rw [Option.getD_some, hrest]
      intro c hc
      exact List.mem_append_right _ (List.mem_append_left _ hc)

/-- A value of one line is spelled on one line. -/
theorem oneLine_convert {raw : String} (h : OneLine raw) (t : ValueType) : OneLine (t.convert raw) := by
  have hplain := h.of_subset (stripQuotes_subset raw)
  cases t with
  | string => exact h.of_subset (Text.trim_subset raw)
  | bool =>
      rw [convert, convertBool]
      split
      · decide
      · split
        · decide
        · split
          · split <;> decide
          · exact hplain
  | _ => exact hplain

end ValueType

/-! ### Migrated texts -/

/-- The name and the arguments of the definition are one line each. -/
structure Migration.Lined (m : Migration) : Prop where
  name : OneLine m.name
  args : ∀ arg ∈ m.definitionArgs, OneLine arg

/-- The values that are written by calls of one line are one line each. -/
def Record.SitesLined (r : Record) : Prop := ∀ e ∈ r.writes, OneLine e.2.call → OneLine e.2.value

namespace Migration

variable {m : Migration} {indent value : String}

/-- **Which definitions are one line**: those with a name and arguments of one line each. -/
theorem oneLine_definition_iff (m : Migration) (indent : String) (isStatic : Bool) :
    OneLine (m.definition indent isStatic) ↔ OneLine indent ∧ m.Lined := by
  have hstatic : OneLine (if isStatic then "static " else "") := by cases isStatic <;> decide
  have htype := m.type.oneLine_render
  simp only [definition, oneLine_append_iff, oneLine_intercalate_iff (show OneLine ", " by decide)]
  constructor
  · rintro ⟨⟨⟨⟨⟨⟨⟨hindent, -⟩, -⟩, -⟩, hname⟩, -⟩, hargs⟩, -⟩
    exact ⟨hindent, hname, hargs⟩
  · rintro ⟨hindent, hname, hargs⟩
    exact ⟨⟨⟨⟨⟨⟨⟨hindent, hstatic⟩, htype⟩, by decide⟩, hname⟩, by decide⟩, hargs⟩, by decide⟩

theorem oneLine_migratedFlag {flag : String} (h : OneLine flag) : OneLine (migratedFlag flag) := by
  have htable : ∀ e ∈ flagTable, OneLine e.2 := by decide
  rw [migratedFlag]
  cases hfound : flagTable.lookup flag with
  | none => exact oneLine_append_iff.2 ⟨by decide, h⟩
  | some t =>
      obtain ⟨before, after, heq, -⟩ := List.lookup_eq_some_iff.1 hfound
      exact htable (flag, t) (by rw [heq]; simp)

theorem oneLine_renderFlags {flags : List String} (h : ∀ flag ∈ flags, OneLine flag) :
    OneLine (renderFlags (migratedFlags flags)) := by
  rw [renderFlags]
  split
  · decide
  · refine (oneLine_intercalate_iff (by decide)).2 fun t ht => ?_
    rw [migratedFlags, Record.mem_addAllNew] at ht
    obtain ⟨flag, hflag, rfl⟩ := List.mem_map.1 (ht.resolve_left List.not_mem_nil)
    obtain ⟨raw, hraw, rfl⟩ := List.mem_map.1 (List.mem_of_mem_filter (List.mem_of_mem_filter hflag))
    exact oneLine_migratedFlag ((h raw hraw).of_subset (Text.trim_subset raw))

/-- The migration of a cvar to one-line texts: its name, its description, and what the sources say of
its display name, default value, flags and bounds. -/
theorem lined_of_oneLine (hname : OneLine m.name) (hdescription : OneLine m.description)
    (hdisplay : ∀ s ∈ m.record.displayNames, OneLine s) (hdefaults : ∀ s ∈ m.record.defaults, OneLine s)
    (hflags : ∀ s ∈ m.record.flags, OneLine s)
    (hbounds : ∀ b ∈ m.type.bounds?, OneLine b.min ∧ OneLine b.max) : m.Lined := by
  have hshown : OneLine m.displayName := by
    rw [displayName]
    cases hhead : m.record.displayNames.head? with
    | none => exact hname
    | some s => exact hdisplay s (List.mem_of_head? hhead)
  have hdefault : OneLine m.defaultValue := by
    rw [defaultValue]
    cases hhead : m.record.defaults.head? with
    | none => cases m.type <;> simp [OneLine, ValueType.defaultLiteral]
    | some s => exact m.type.oneLine_convert (hdefaults s (List.mem_of_head? hhead))
  refine ⟨hname, List.forall_mem_append.2 ⟨?_, ?_⟩⟩
  · simp only [List.forall_mem_cons]
    exact ⟨oneLine_quoted_iff.2 hshown, oneLine_quoted_iff.2 hdescription, oneLine_renderFlags hflags,
      hdefault, by simp⟩
  · split
    · rename_i b hb
      simp only [List.forall_mem_cons]
      exact ⟨(hbounds b hb).1, (hbounds b hb).2, by simp⟩
    · simp

theorem Lined.displayName (h : m.Lined) : OneLine (quoted m.displayName) :=
  h.args _ (by simp [definitionArgs])

theorem Lined.declaration (h : m.Lined) (hindent : OneLine indent) : OneLine (m.declaration indent) := by
  simp only [Migration.declaration, oneLine_append_iff]
  exact ⟨⟨⟨⟨⟨hindent, by decide⟩, m.type.oneLine_render⟩, by decide⟩, h.name⟩, by decide⟩

theorem Lined.latchCall (h : m.Lined) (hindent : OneLine indent) : OneLine (m.latchCall indent) := by
  simp only [Migration.latchCall, oneLine_append_iff]
  exact ⟨⟨⟨hindent, by decide⟩, h.name⟩, by decide⟩

theorem Lined.writeCall (h : m.Lined) (hvalue : OneLine value) : OneLine (m.writeCall value) := by
  rw [Migration.writeCall]
  split
  · simp only [oneLine_append_iff]
    exact ⟨⟨⟨⟨by decide, h.displayName⟩, by decide⟩, hvalue.of_subset (Text.trim_subset value)⟩, by decide⟩
  · simp only [oneLine_append_iff]
    exact ⟨⟨⟨h.name, by decide⟩, m.type.oneLine_convert hvalue⟩, by decide⟩

theorem Lined.migrateRead? (h : m.Lined) {cfg : Settings} {field t : String}
    (ht : m.migrateRead? cfg field = some t) : OneLine t := by
  rw [Migration.migrateRead?] at ht
  split at ht
  · split at ht
    · cases ht
      exact oneLine_append_iff.2 ⟨h.name, by decide⟩
    · cases ht
  · split at ht
    · cases ht
    · cases ht
      exact oneLine_append_iff.2 ⟨h.name, by decide⟩

end Migration

/-! ### What happens to a line -/

/-- The texts that a plan puts in the place of a line are lines, and those that it puts in the place of
calls as far as the calls are. -/
structure LinePlan.Lined (plan : LinePlan) : Prop where
  whole : ∀ s ∈ plan.whole, OneLine s
  latch : ∀ s ∈ plan.latch, OneLine s
  calls : ∀ call ∈ plan.calls, OneLine call.1 → OneLine call.2

theorem LinePlan.lined_none : none.Lined := ⟨by simp [none], by simp [none], by simp [none]⟩

namespace Migration

variable {m : Migration} {cfg : Settings} {plan : LinePlan} {line : String} {text : List Char}

theorem lined_planIn (h : m.Lined) (hsites : m.record.SitesLined) (hplan : plan.Lined)
    (hline : OneLine line) (a : Mention) : (m.planIn line plan a).Lined := by
  obtain ⟨role, o⟩ := a
  have hindent := hline.of_subset (indentOf_subset line)
  have hwhole : ∀ s, OneLine s → ({ plan with whole := some s } : LinePlan).Lined := fun s hs =>
    ⟨by simpa using hs, hplan.latch, hplan.calls⟩
  have hsame : ∀ delete migrateReads mark : Bool,
      (⟨delete, plan.whole, plan.latch, plan.calls, migrateReads, mark⟩ : LinePlan).Lined :=
    fun _ _ _ => ⟨hplan.whole, hplan.latch, hplan.calls⟩
  cases role with
  | decl => exact hwhole _ (h.declaration hindent)
  | define => exact hwhole _ ((m.oneLine_definition_iff _ _).2 ⟨hindent, h⟩)
  | get =>
      rw [planIn]
      dsimp only
      split
      · exact ⟨hplan.whole, by simpa using h.latchCall hindent, hplan.calls⟩
      · exact hsame ..
  | set =>
      cases hsite : m.record.writeAt? o with
      | none =>
          simp only [planIn, hsite]
          exact hsame ..
      | some site =>
          simp only [planIn, hsite]
          refine ⟨hplan.whole, hplan.latch, List.forall_mem_append.2 ⟨hplan.calls, ?_⟩⟩
          obtain ⟨o', hmem, -⟩ := Data.exists_of_lookupBy hsite
          exact List.forall_mem_singleton.2 fun hcall => h.writeCall (hsites (o', site) hmem hcall)
  | range =>
      rw [planIn]
      dsimp only
      split
      · exact hsame ..
      · exact hsame ..
  | _ => exact hsame ..

/-- A call that goes over several lines is not on a line, and any other becomes a line. -/
theorem lineFeed_not_mem_migrateCalls {calls : List (String × String)}
    (hcalls : ∀ call ∈ calls, OneLine call.1 → OneLine call.2) (h : '\n' ∉ text) :
    '\n' ∉ (migrateCalls text calls).1 := by
  refine List.foldlRecOn (motive := fun t : List Char × Bool => '\n' ∉ t.1) _ _ h ?_
  intro t ht call hcall
  dsimp only
  rw [migrateCall]
  split
  · rename_i before after hsplit
    have htext := Text.eq_append_of_splitOnce? hsplit
    simp only [htext, List.mem_append, not_or] at ht ⊢
    exact ⟨⟨ht.1.1, hcalls call hcall ht.1.2⟩, ht.2⟩
  · exact ht

end Migration

/-- The pieces of a text hold no other characters than the text. -/
theorem mem_of_mem_piecesFrom {name : String} {fields : FieldNames} {skip : Nat} {before : Option Char}
    {s : List Char} {piece : Piece} (h : piece ∈ piecesFrom name fields skip before s) {c : Char}
    (hc : c ∈ piece.text) : c ∈ s := by
  fun_induction piecesFrom name fields skip before s with
  | case1 => cases h
  | case2 skip before d s ih => exact List.mem_cons_of_mem _ (ih h)
  | case3 before d s r hread ih =>
      rcases List.mem_cons.1 h with rfl | h
      · obtain ⟨q, rest, rfl, hs, -⟩ := readAt?_ok hread
        rw [hs]
        exact List.mem_append_left _ hc
      · exact List.mem_cons_of_mem _ (ih h)
  | case4 before d s hread ih =>
      rcases List.mem_cons.1 h with rfl | h
      · exact List.mem_singleton.1 hc ▸ List.mem_cons_self
      · exact List.mem_cons_of_mem _ (ih h)

namespace Migration

variable {m : Migration} {cfg : Settings} {plan : LinePlan} {line : String} {text : List Char}

/-- Reads become lines, or stay as they are. -/
theorem Lined.migrateReads (h : m.Lined) (cfg : Settings) (htext : '\n' ∉ text) :
    '\n' ∉ (m.migrateReads cfg text).1 := by
  intro hfeed
  obtain ⟨done, hdone, hfeed⟩ := List.mem_flatMap.1 hfeed
  obtain ⟨piece, hpiece, rfl⟩ := List.mem_map.1 hdone
  have hold : '\n' ∉ piece.text := fun hfeed => htext (mem_of_mem_piecesFrom hpiece hfeed)
  cases piece with
  | plain c => exact hold hfeed
  | read r =>
      rw [migratePiece] at hfeed
      split at hfeed
      · rename_i t ht
        exact h.migrateRead? ht hfeed
      · exact hold hfeed

theorem Lined.migrateLine (h : m.Lined) (cfg : Settings) (hplan : plan.Lined) (hline : OneLine line) :
    OneLine (m.migrateLine cfg plan line).1 := by
  have hcalls := lineFeed_not_mem_migrateCalls hplan.calls hline
  rw [Migration.migrateLine]
  generalize migrateCalls line.toList plan.calls = called at hcalls
  obtain ⟨text, missing⟩ := called
  dsimp only
  split
  · rw [OneLine, String.toList_ofList]
    exact h.migrateReads cfg hcalls
  · rw [OneLine, String.toList_ofList]
    exact hcalls

/-- The edit of a line by a plan made of lines is made of lines. -/
theorem Lined.editOf (h : m.Lined) (cfg : Settings) (hplan : plan.Lined) (hline : OneLine line)
    {e : LineEdit} (he : m.editOf cfg plan line = some e) : e.Lined := by
  have hmigrated := h.migrateLine cfg hplan hline
  have hmarked : ∀ {text : String} (mark : Bool), OneLine text →
      OneLine (if mark then Diff.mark ++ text else text) := by
    intro text mark htext
    split
    · exact oneLine_append_iff.2 ⟨by decide, htext⟩
    · exact htext
  have hreplace : ∀ {text : String} (mark : Bool), OneLine text →
      (let text := if mark then Diff.mark ++ text else text
        if text != line then some (LineEdit.replace text) else none) = some e → e.Lined := by
    intro text mark htext he
    obtain ⟨-, he⟩ := Option.ite_none_right_eq_some.1 he
    cases he
    exact LineEdit.lined_replace (hmarked mark htext)
  rw [Migration.editOf] at he
  cases hwhole : plan.whole with
  | some whole =>
      have hwhole' := hplan.whole whole hwhole
      cases hlatch : plan.latch with
      | some latch =>
          simp only [hwhole, hlatch] at he
          cases he
          refine LineEdit.lined_splice (List.forall_mem_cons.2 ⟨hmarked _ hwhole', ?_⟩)
          exact List.forall_mem_singleton.2 (hplan.latch latch hlatch)
      | none =>
          simp only [hwhole, hlatch] at he
          exact hreplace _ hwhole' he
  | none =>
      cases hlatch : plan.latch with
      | some latch =>
          simp only [hwhole, hlatch] at he
          exact hreplace _ (hplan.latch latch hlatch) he
      | none =>
          simp only [hwhole, hlatch] at he
          exact hreplace _ hmigrated he

/-! ### The patch -/

variable {p : Patch}

/-- What has to be one line each for a patch made of lines. -/
def AllLined (m : Migration) : Prop := m.Lined ∧ m.record.SitesLined

theorem keepsLined_planMention (hplan : m.AllLined → plan.Lined) (a : Mention) :
    (m.planMention plan a).KeepsLined fun plan' => m.AllLined → plan'.Lined := by
  rw [m.planMention_eq plan a ""]
  split
  · refine (keepsLined_heldLine a.2.file a.2.line).bind fun found hfound => .pure fun h => ?_
    refine lined_planIn h.1 h.2 (hplan h) ?_ a
    cases found with
    | none => decide
    | some line => exact hfound line rfl
  · exact .pure fun h => lined_planIn h.1 h.2 (hplan h) (by decide) a

theorem keepsLined_plans (m : Migration) :
    m.plans.KeepsLined fun plans => m.AllLined → ∀ e ∈ plans, e.2.Lined := by
  refine Work.KeepsLined.foldlM (by simp) fun plans hplans a _ => ?_
  have hplan : m.AllLined → ((Data.lookupBy LineKey.order a.key plans).getD .none).Lined := by
    intro h
    cases hfound : Data.lookupBy LineKey.order a.key plans with
    | none => exact LinePlan.lined_none
    | some plan =>
        obtain ⟨k, hmem, -⟩ := Data.exists_of_lookupBy hfound
        exact hplans h (k, plan) hmem
  refine (keepsLined_planMention hplan a).bind fun plan hplan => .pure fun h => ?_
  exact Data.forall_mem_upsertBy (hplans h) (hplan h) fun _ _ _ _ => hplan h

theorem keepsLined_applyPlan (cfg : Settings) (hp : m.AllLined → p.Lined) (k : LineKey)
    (hplan : m.AllLined → plan.Lined) :
    (m.applyPlan cfg p (k, plan)).KeepsLined fun p' => m.AllLined → p'.Lined := by
  obtain ⟨file, n⟩ := k
  rw [applyPlan]
  split
  · exact (Patch.keepsLined_edit hp (fun _ => LineEdit.lined_delete) file n).bind fun r hr => .pure hr
  · refine (keepsLined_heldLine file n).bind fun found hfound => ?_
    cases found with
    | none => exact .pure hp
    | some line =>
        dsimp only
        cases he : m.editOf cfg plan line with
        | none => exact .pure hp
        | some e =>
            have he := fun h : m.AllLined => h.1.editOf cfg (hplan h) (hfound line rfl) he
            exact (Patch.keepsLined_edit hp he file n).bind fun r hr => .pure hr

/-- **The patch of a migration of one-line texts** is made of lines. -/
theorem keepsLined_patch (m : Migration) (cfg : Settings) (context : Nat) :
    (m.patch cfg context).KeepsLined fun p => m.AllLined → p.Lined := by
  refine (keepsLined_plans m).bind fun plans hplans => ?_
  exact Work.KeepsLined.foldlM (fun _ => Patch.lined_empty context) fun p hp e he =>
    keepsLined_applyPlan cfg hp e.1 fun h => hplans h e he

end Migration

end Cvar

end Upkeep
