/-
**The units of a compile database.**

A source is compiled as the last usable entry for it says, in the place of the first one.  Entries for
one source need not stand together or be written alike: they are told apart by the normal paths of their
sources.  An entry that is left out, because it has no arguments or because its source or its driver is
not wanted, does not change the place of any other.

Main definitions:

* `Upkeep.Compile.Entry.usable`, `Upkeep.Compile.Entry.isFor` — the entries that say something, and those
  that say it about a source;
* `Upkeep.Compile.Collected` — the commands collected from a list of entries.

Main results:

* `Upkeep.Compile.mem_record` — a command takes the place of the one for its source;
* `Upkeep.Compile.Collected.step_of_not_usable`, `Upkeep.Compile.Collected.step_of_usable`,
  `Upkeep.Compile.collected` — what one more entry leaves, and what a list of entries leaves;
* `Upkeep.Compile.mem_units_iff` — the units of a database;
* `Upkeep.Compile.units_of_entries` — **each wanted source gives one unit, as its last usable entry says
  and in the place of the first one**.
-/

import Mathlib.Data.List.Induction
import Upkeep.Compile.Database
import Upkeep.Proofs.Path.Reduction
import Upkeep.Proofs.Text.Search

set_option relaxedAutoImplicit false
set_option autoImplicit false

namespace Upkeep

namespace Compile

/-! ### Usable entries -/

namespace Entry

variable {dir p : Path} {e : Entry}

/-- Whether an entry has arguments or a command. -/
def usable (e : Entry) : Bool := e.arguments.isSome || e.command.isSome

/-- The source of an entry, seen from a build directory. -/
def source (dir : Path) (e : Entry) : Path := Path.resolve (Path.resolve dir e.directory) e.file

/-- Whether an entry is usable and its source is `p`. -/
def isFor (dir p : Path) (e : Entry) : Bool := e.usable && e.source dir = p

theorem isFor_iff : e.isFor dir p = true ↔ e.usable = true ∧ e.source dir = p := by simp [isFor]

theorem isSome_args? (e : Entry) : e.args?.isSome = e.usable := by
  rw [args?, Option.isSome_or, Option.isSome_map, usable]

theorem invocation?_of_not_usable (h : e.usable = false) : e.invocation? dir = none := by
  rw [← isSome_args?, Option.isSome_eq_false_iff, Option.isNone_iff_eq_none] at h
  rw [invocation?, h, Option.map_none]

theorem invocation?_eq_some_iff {i : Invocation} : e.invocation? dir = some i ↔
    i.source = e.source dir ∧ i.directory = Path.resolve dir e.directory ∧ e.args? = some i.args := by
  simp only [invocation?, source]
  rw [Option.map_eq_some_iff]
  constructor
  · rintro ⟨args, hargs, rfl⟩
    simp [hargs]
  · rintro ⟨hsource, hdirectory, hargs⟩
    exact ⟨i.args, hargs, by rw [← hsource, ← hdirectory]⟩

theorem exists_invocation? (dir : Path) (h : e.usable = true) : ∃ i, e.invocation? dir = some i := by
  rw [← isSome_args?, Option.isSome_iff_exists] at h
  obtain ⟨args, hargs⟩ := h
  rw [invocation?, hargs]
  exact ⟨_, rfl⟩

end Entry

/-! ### Recording -/

section Recording

variable {found : List Invocation} {i j : Invocation}

/-- **A command takes the place of the one for its source.** -/
theorem mem_record (h : ∀ k ∈ found, k.source.same i.source = true → k.source = i.source) :
    j ∈ record found i ↔ j = i ∨ j ∈ found ∧ j.source ≠ i.source := by
  have hsame : ∀ k ∈ found, k.source.same i.source = true ↔ k.source = i.source :=
    fun k hk => ⟨h k hk, fun heq => by rw [heq, Path.same_self]⟩
  rw [record]
  split
  · rename_i hany
    obtain ⟨k, hk, hki⟩ := List.any_eq_true.1 hany
    rw [List.mem_map]
    constructor
    · rintro ⟨l, hl, rfl⟩
      by_cases hli : l.source = i.source
      · rw [if_pos ((hsame l hl).2 hli), hli]
        exact .inl rfl
      · rw [if_neg (mt (hsame l hl).1 hli)]
        exact .inr ⟨hl, hli⟩
    · rintro (rfl | ⟨hj, hji⟩)
      · exact ⟨k, hk, by rw [if_pos hki, h k hk hki]⟩
      · exact ⟨j, hj, if_neg (mt (hsame j hj).1 hji)⟩
  · rename_i hany
    rw [Bool.not_eq_true, List.any_eq_false] at hany
    rw [List.mem_append, List.mem_singleton, or_comm, iff_comm]
    refine or_congr_right (and_iff_left_of_imp fun hj hji => ?_)
    exact hany j hj ((hsame j hj).2 hji)

/-- A source keeps its place, and a new one comes last. -/
theorem sources_record (found : List Invocation) (i : Invocation) :
    (record found i).map Invocation.source = found.map Invocation.source ∨
    (i.source ∉ found.map Invocation.source ∧
      (record found i).map Invocation.source = found.map Invocation.source ++ [i.source]) := by
  rw [record]
  split
  · left
    rw [List.map_map]
    refine List.map_congr_left fun k _ => ?_
    rw [Function.comp_apply]
    split
    · rfl
    · rfl
  · rename_i hany
    rw [Bool.not_eq_true, List.any_eq_false] at hany
    right
    refine ⟨?_, List.map_append⟩
    rw [List.mem_map]
    rintro ⟨k, hk, hki⟩
    refine hany k hk ?_
    rw [hki, Path.same_self]

end Recording

/-! ### Collecting -/

/-- The commands collected from a list of entries: each source has its last usable entry, and the sources
are in the order of their first ones. -/
structure Collected (dir : Path) (entries : List Entry) (found : List Invocation) : Prop where
  mem_iff : ∀ i, i ∈ found ↔ ∃ e, entries.reverse.find? (Entry.isFor dir i.source) = some e ∧
    e.invocation? dir = some i
  order : (found.map Invocation.source).Pairwise fun p q =>
    entries.findIdx (Entry.isFor dir p) < entries.findIdx (Entry.isFor dir q)

section Collecting

variable {dir p : Path} {entries : List Entry} {found : List Invocation} {e : Entry} {i : Invocation}

theorem find?_reverse_concat (entries : List Entry) (e : Entry) (p : Path) :
    (entries ++ [e]).reverse.find? (Entry.isFor dir p) =
      if e.isFor dir p then some e else entries.reverse.find? (Entry.isFor dir p) := by
  rw [List.reverse_append, List.reverse_singleton, List.singleton_append, List.find?_cons]
  cases e.isFor dir p <;> rfl

/-- The sources are those of usable entries. -/
theorem Collected.mem_sources_iff (h : Collected dir entries found) :
    p ∈ found.map Invocation.source ↔ ∃ e ∈ entries, e.isFor dir p = true := by
  rw [List.mem_map]
  constructor
  · rintro ⟨i, hi, rfl⟩
    obtain ⟨e, he, -⟩ := (h.mem_iff i).1 hi
    exact ⟨e, List.mem_reverse.1 (List.mem_of_find?_eq_some he), List.find?_some he⟩
  · rintro ⟨e, he, hfor⟩
    obtain ⟨last, hlast⟩ := Option.isSome_iff_exists.1
      (List.find?_isSome.2 ⟨e, List.mem_reverse.2 he, hfor⟩)
    obtain ⟨husable, hsource⟩ := Entry.isFor_iff.1 (List.find?_some hlast)
    obtain ⟨i, hi⟩ := Entry.exists_invocation? dir husable
    have hip : i.source = p := (Entry.invocation?_eq_some_iff.1 hi).1.trans hsource
    subst hip
    exact ⟨i, (h.mem_iff i).2 ⟨last, hlast, hi⟩, rfl⟩

/-- More entries do not change the first ones. -/
theorem Collected.order_concat (h : Collected dir entries found) (e : Entry) :
    (found.map Invocation.source).Pairwise fun p q =>
      (entries ++ [e]).findIdx (Entry.isFor dir p) < (entries ++ [e]).findIdx (Entry.isFor dir q) := by
  have hfirst : ∀ p ∈ found.map Invocation.source,
      (entries ++ [e]).findIdx (Entry.isFor dir p) = entries.findIdx (Entry.isFor dir p) := by
    intro p hp
    rw [List.findIdx_append, if_pos (List.findIdx_lt_length.2 (h.mem_sources_iff.1 hp))]
  refine h.order.imp_of_mem fun hp hq hlt => ?_
  rwa [hfirst _ hp, hfirst _ hq]

/-- A source that is new comes behind the others. -/
theorem Collected.findIdx_concat_lt (h : Collected dir entries found) {q : Path}
    (hq : q ∈ found.map Invocation.source) (hp : p ∉ found.map Invocation.source) (e : Entry) :
    (entries ++ [e]).findIdx (Entry.isFor dir q) < (entries ++ [e]).findIdx (Entry.isFor dir p) := by
  rw [h.mem_sources_iff, ← List.findIdx_lt_length] at hq hp
  rw [List.findIdx_append, if_pos hq, List.findIdx_append, if_neg hp]
  omega

theorem Collected.step_of_not_usable (h : Collected dir entries found) (he : e.usable = false) :
    Collected dir (entries ++ [e]) found := by
  refine ⟨fun i => ?_, h.order_concat e⟩
  rw [find?_reverse_concat, if_neg (by simp [Entry.isFor, he]), h.mem_iff]

theorem Collected.step_of_usable (h : Collected dir entries found) (hi : e.invocation? dir = some i) :
    Collected dir (entries ++ [e]) (record found i) := by
  obtain ⟨hsource, -, hargs⟩ := Entry.invocation?_eq_some_iff.1 hi
  have husable : e.usable = true := by rw [← Entry.isSome_args?, hargs]; rfl
  have hfor : ∀ p, e.isFor dir p = true ↔ i.source = p := by
    intro p
    rw [Entry.isFor_iff, hsource, and_iff_right husable]
  refine ⟨fun j => ?_, ?_⟩
  · rw [mem_record, find?_reverse_concat]
    · by_cases hji : j.source = i.source
      · rw [if_pos ((hfor _).2 hji.symm)]
        simp only [hji, ne_eq, not_true, and_false, or_false, Option.some.injEq, exists_eq_left', hi]
        exact eq_comm
      · have hne : j ≠ i := fun heq => hji (congrArg Invocation.source heq)
        rw [if_neg (mt (hfor _).1 (Ne.symm hji)), h.mem_iff]
        simp [hji, hne]
    · -- Sources are normal paths, so that those that are the same are spelled alike.
      intro k hk hsame
      obtain ⟨e', -, he'⟩ := (h.mem_iff k).1 hk
      rw [(Entry.invocation?_eq_some_iff.1 he').1, hsource] at hsame ⊢
      exact Path.resolve_eq_of_same hsame
  · rcases sources_record found i with heq | ⟨hnew, heq⟩
    · rw [heq]
      exact h.order_concat e
    · rw [heq, List.pairwise_append]
      refine ⟨h.order_concat e, List.pairwise_singleton _ _, ?_⟩
      intro p hp q hq
      obtain rfl := List.mem_singleton.1 hq
      exact h.findIdx_concat_lt hp hnew e

/-- **What a list of entries leaves.** -/
theorem collected (dir : Path) (entries : List Entry) :
    Collected dir entries ((entries.filterMap (Entry.invocation? dir)).foldl record []) := by
  induction entries using List.reverseRecOn with
  | nil => exact ⟨by simp, List.Pairwise.nil⟩
  | append_singleton entries e ih =>
      rw [List.filterMap_append, List.foldl_append]
      cases husable : e.usable with
      | false =>
          rw [List.filterMap_cons_none (Entry.invocation?_of_not_usable husable)]
          exact ih.step_of_not_usable husable
      | true =>
          obtain ⟨i, hi⟩ := Entry.exists_invocation? dir husable
          rw [List.filterMap_cons_some hi]
          exact ih.step_of_usable hi

end Collecting

/-! ### Units -/

section Units

variable {dir p : Path} {entries : List Entry} {db : Database} {filter : String}
  {exclude : List String} {i : Invocation} {u : CompilationUnit}

theorem selects_iff : selects filter exclude p = true ↔
    filter.toList <:+: p.text.toList ∧ ∀ x ∈ exclude, ¬ x.toList <:+: p.text.toList := by
  simp [selects, Text.contains, ← Text.occursIn_iff, and_comm]

theorem Invocation.compiles_iff : i.compiles = true ↔
    ∃ driver rest, i.args = driver :: rest ∧ ¬ "rc.exe".toList <:+ driver.toList := by
  rw [Invocation.compiles]
  split
  · rename_i hnil
    simp [hnil]
  · rename_i driver rest hcons
    simp [hcons, Text.endsWith, ← List.isSuffixOf_iff_suffix]

/-- The units of a database are those of the commands for wanted sources that run a compiler. -/
theorem mem_units_iff : u ∈ db.units filter exclude ↔
    ∃ i ∈ db.invocations, selects filter exclude i.source = true ∧ i.compiles = true ∧ i.unit = u := by
  simp [Database.units, and_assoc]

/-- Sources that are left out do not change the places of the others. -/
theorem sources_units_sublist (db : Database) (filter : String) (exclude : List String) :
    ((db.units filter exclude).map CompilationUnit.source).Sublist
      (db.invocations.map Invocation.source) := by
  rw [Database.units, List.map_map]
  exact List.filter_sublist.map Invocation.source

/-- A unit is as the last usable entry for its source says. -/
theorem Collected.of_mem_units (h : Collected dir entries db.invocations)
    (hu : u ∈ db.units filter exclude) :
    ∃ e, entries.reverse.find? (Entry.isFor dir u.source) = some e ∧
      u.directory = Path.resolve dir e.directory ∧ e.args? = some u.givenArgs ∧
      u.args = adjustArguments u.givenArgs ∧ u.includeDirs = includeDirs u.args u.directory := by
  obtain ⟨i, hi, -, -, rfl⟩ := mem_units_iff.1 hu
  obtain ⟨e, hlast, he⟩ := (h.mem_iff i).1 hi
  obtain ⟨-, hdirectory, hargs⟩ := Entry.invocation?_eq_some_iff.1 he
  exact ⟨e, hlast, hdirectory, hargs, rfl, rfl⟩

/-- The sources of units are the wanted ones whose last usable entries run a compiler. -/
theorem Collected.mem_sources_units_iff (h : Collected dir entries db.invocations) :
    p ∈ (db.units filter exclude).map CompilationUnit.source ↔
      (filter.toList <:+: p.text.toList ∧ ∀ x ∈ exclude, ¬ x.toList <:+: p.text.toList) ∧
      ∃ e driver rest, entries.reverse.find? (Entry.isFor dir p) = some e ∧
        e.args? = some (driver :: rest) ∧ ¬ "rc.exe".toList <:+ driver.toList := by
  rw [← selects_iff, List.mem_map]
  constructor
  · rintro ⟨u, hu, rfl⟩
    obtain ⟨i, hi, hselects, hcompiles, rfl⟩ := mem_units_iff.1 hu
    obtain ⟨e, hlast, he⟩ := (h.mem_iff i).1 hi
    obtain ⟨driver, rest, hargs, hdriver⟩ := Invocation.compiles_iff.1 hcompiles
    refine ⟨hselects, e, driver, rest, hlast, ?_, hdriver⟩
    rw [← hargs]
    exact (Entry.invocation?_eq_some_iff.1 he).2.2
  · rintro ⟨hselects, e, driver, rest, hlast, hargs, hdriver⟩
    obtain ⟨-, hsource⟩ := Entry.isFor_iff.1 (List.find?_some hlast)
    obtain ⟨i, hi⟩ : ∃ i : Invocation,
        i = ⟨p, Path.resolve dir e.directory, driver :: rest⟩ := ⟨_, rfl⟩
    have hinvocation : e.invocation? dir = some i :=
      Entry.invocation?_eq_some_iff.2 (by simp [hi, hsource, hargs])
    have hmem : i ∈ db.invocations := (h.mem_iff i).2 ⟨e, by rw [hi, hlast], hinvocation⟩
    have hcompiles : i.compiles = true := Invocation.compiles_iff.2 ⟨driver, rest, by rw [hi], hdriver⟩
    refine ⟨i.unit, mem_units_iff.2 ⟨i, hmem, ?_, hcompiles, rfl⟩, ?_⟩
    · rw [hi, hselects]
    · rw [hi, Invocation.unit]

/-- Entries that are not usable leave nothing. -/
theorem ofEntries_filter_usable (buildDir : Path) (entries : List Entry) :
    Database.ofEntries buildDir (entries.filter Entry.usable) = Database.ofEntries buildDir entries := by
  rw [Database.ofEntries, Database.ofEntries, List.filterMap_filter]
  congr 3
  funext e
  cases husable : e.usable with
  | false => rw [if_neg Bool.false_ne_true, Entry.invocation?_of_not_usable husable]
  | true => rw [if_pos rfl]

/-- **Each wanted source gives one unit, as its last usable entry says and in the place of the first
one.**  A source is wanted if its path contains the filter and nothing that is excluded, and if the last
usable entry for it runs a driver other than the resource compiler.  Entries with neither arguments nor a
command make no difference, wherever they stand. -/
theorem units_of_entries (buildDir : Path) (entries : List Entry) (filter : String)
    (exclude : List String) :
    let dir := Path.normalize buildDir.text
    let units := (Database.ofEntries buildDir entries).units filter exclude
    ((units.map CompilationUnit.source).Nodup ∧ (units.map CompilationUnit.source).Pairwise fun p q =>
      entries.findIdx (Entry.isFor dir p) < entries.findIdx (Entry.isFor dir q)) ∧
    (∀ u ∈ units, ∃ e, entries.reverse.find? (Entry.isFor dir u.source) = some e ∧
      u.directory = Path.resolve dir e.directory ∧ e.args? = some u.givenArgs ∧
      u.args = adjustArguments u.givenArgs ∧ u.includeDirs = includeDirs u.args u.directory) ∧
    (∀ p, p ∈ units.map CompilationUnit.source ↔
      (filter.toList <:+: p.text.toList ∧ ∀ x ∈ exclude, ¬ x.toList <:+: p.text.toList) ∧
      ∃ e driver rest, entries.reverse.find? (Entry.isFor dir p) = some e ∧
        e.args? = some (driver :: rest) ∧ ¬ "rc.exe".toList <:+ driver.toList) ∧
    Database.ofEntries buildDir (entries.filter Entry.usable) = Database.ofEntries buildDir entries := by
  intro dir units
  have hcollected : Collected dir entries (Database.ofEntries buildDir entries).invocations :=
    collected dir entries
  have horder : (units.map CompilationUnit.source).Pairwise fun p q =>
      entries.findIdx (Entry.isFor dir p) < entries.findIdx (Entry.isFor dir q) :=
    hcollected.order.sublist (sources_units_sublist _ filter exclude)
  refine ⟨⟨horder.imp ?_, horder⟩, fun u hu => hcollected.of_mem_units hu,
    fun p => hcollected.mem_sources_units_iff, ofEntries_filter_usable buildDir entries⟩
  rintro p q hlt rfl
  exact Nat.lt_irrefl _ hlt

/-- Two entries for one source, written in two ways, with an entry for another between them. -/
example : ((Database.ofEntries ⟨"/w"⟩ [⟨"/w/b", "../a.c", some ["c++", "-O0", "-c"], none⟩,
      ⟨"/w", "z.c", some ["c++", "-c"], none⟩, ⟨".", "/w/a.c", none, some "c++ -O2 -c"⟩]).units "" []).map
        (fun u => (u.source, u.args)) = [(⟨"/w/a.c"⟩, ["-O2"]), (⟨"/w/z.c"⟩, [])] := by decide +kernel

end Units

end Compile

end Upkeep
