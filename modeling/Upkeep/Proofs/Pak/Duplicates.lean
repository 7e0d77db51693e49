/-
**The groups of paks are the classes of equal bytes.**

Paks are grouped one by one: a pak joins the group of its digest, or opens a group of its own behind the
others.  In the end the groups are what their digests say: for every digest, in the order in which digests
come first, all paks that have it, in the order given.  A pak that opens as an archive is read in one of
two ways, and either way all of its bytes are digested, so that no pak that opens is lost.

As long as the digests tell the contents of the paks apart, the groups are the classes of paks with equal
bytes.  This is so however bytes are opened as an archive, and however they are digested.

Main definitions:

* `Upkeep.Pak.keyed` — the members of a list, by the keys that they have;
* `Upkeep.Pak.Distinguished` — contents that are told apart by their digests;
* `Upkeep.Pak.Grouped`, `Upkeep.Pak.Block` — paks in groups by their bytes, and the lines about a group.

Main results:

* `Upkeep.Pak.keyed_concat` — one pak more;
* `Upkeep.Pak.duplicates_eq` — the groups of a list of paks, by their digests;
* `Upkeep.Pak.duplicates_grouped` — **the groups of paks are the classes of equal bytes**.
-/

import Upkeep.Bytes.Digest
import Upkeep.Pak.Archive
import Upkeep.Pak.Duplicates
import Upkeep.Proofs.Data.Members
import Upkeep.Proofs.Data.Outcome

set_option relaxedAutoImplicit false
set_option autoImplicit false

namespace Upkeep

namespace Pak

open Files

/-! ### Members by their keys -/

/-- Paks in groups: the keys in the order in which they come first, each with all paks that have it. -/
def keyed (f : Path → String) (ps : List Path) : Groups :=
  (ps.map f).eraseDups.map fun k => (k, ps.filter (f · = k))

/-- One pak more. -/
theorem keyed_concat (f : Path → String) (ps : List Path) (p : Path) :
    (keyed f ps).add (f p) p = keyed f (ps ++ [p]) := by
  have hkey : ∀ k, (ps ++ [p]).filter (f · = k) = ps.filter (f · = k) ++ if f p = k then [p] else [] := by
    intro k
    rw [List.filter_append, List.filter_singleton]
    simp
  have hthere : (keyed f ps).any (·.1 == f p) = true ↔ f p ∈ ps.map f := by
    simp [keyed]
  rw [Groups.add]
  by_cases hp : f p ∈ ps.map f
  · rw [if_pos (hthere.2 hp), keyed, keyed, List.map_append, List.map_singleton, Data.eraseDups_concat,
      if_pos hp, List.append_nil, List.map_map]
    refine List.map_congr_left fun k _ => ?_
    rw [hkey]
    by_cases hk : f p = k
    · simp [hk]
    · simp [hk, Ne.symm hk]
  · have hothers : ∀ k ∈ (ps.map f).eraseDups, f p ≠ k := by
      rintro k hk rfl
      exact hp (List.mem_eraseDups.1 hk)
    have hnone : ps.filter (f · = f p) = [] :=
      List.filter_eq_nil_iff.2 fun q hq hqp => hp (List.mem_map.2 ⟨q, hq, of_decide_eq_true hqp⟩)
    rw [if_neg (hthere.not.2 hp), keyed, keyed, List.map_append, List.map_singleton, Data.eraseDups_concat,
      if_neg hp, List.map_append, List.map_singleton, hkey, hnone, if_pos rfl, List.nil_append]
    congr 1
    refine List.map_congr_left fun k hk => ?_
    rw [hkey, if_neg (hothers k hk), List.append_nil]

theorem group_eq_keyed (f : Path → String) (ps : List Path) :
    group (ps.map fun p => (f p, p)) = keyed f ps := by
  induction ps using List.reverseRecOn with
  | nil => rfl
  | append_singleton ps p ih =>
      rw [← keyed_concat, ← ih, group, group, List.map_append, List.foldl_append]
      rfl

/-! ### The bytes of paks -/

/-- The digest of the bytes that a path leads to. -/
def contentDigest (digest : Digest) (d : Disk) (p : Path) : String :=
  ((d.read? p).map digest).getD ""

/-- Whether a path leads to an archive. -/
def opens (o : Opener) (d : Disk) (p : Path) : Bool := (openPak o d p).isOk

variable {o : Opener} {digest : Digest} {d : Disk} {paks : List Path} {p q : Path}

/-- What opens as an archive can be read. -/
theorem exists_read?_of_opens (h : opens o d p = true) : ∃ c, d.read? p = some c := by
  rw [opens, openPak] at h
  split at h
  · cases h
  · next names e he =>
    rw [Disk.read?, he, Option.bind_some]
    cases hc : e.content? with
    | none =>
        rw [hc] at h
        cases h
    | some c => exact ⟨c, rfl⟩

/-- All bytes are digested, whichever way they are read. -/
theorem digestOf_of_read? {c : ByteArray} (h : d.read? p = some c) :
    digestOf digest d p = .ok (contentDigest digest d p, p) := by
  have hdigest : contentDigest digest d p = digest c := by rw [contentDigest, h]; rfl
  obtain ⟨⟨names, e⟩, hfind, hcontent⟩ := Option.bind_eq_some_iff.1 h
  cases e with
  | file content =>
      cases hcontent
      rw [digestOf, readContent, hfind, hdigest]
      rfl
  | directory => cases hcontent
  | link target => cases hcontent

/-- The groups of a list of paks, by their digests. -/
theorem duplicates_eq (o : Opener) (digest : Digest) (d : Disk) (paks : List Path) :
    duplicates o digest d paks = .ok (keyed (contentDigest digest d) (paks.filter (opens o d))) := by
  have hdigests : (paks.filter (opens o d)).mapM (digestOf digest d) =
      .ok ((paks.filter (opens o d)).map fun p => (contentDigest digest d p, p)) := by
    refine mapM_ok_of_forall fun p hp => ?_
    obtain ⟨c, hc⟩ := exists_read?_of_opens (List.mem_filter.1 hp).2
    exact digestOf_of_read? hc
  rw [← group_eq_keyed]
  exact Outcome.bind_ok.2 ⟨_, hdigests, rfl⟩

/-! ### Classes of equal bytes -/

/-- The contents of some paks are told apart by their digests. -/
def Distinguished (digest : Digest) (d : Disk) (paks : List Path) : Prop :=
  ∀ p ∈ paks, ∀ q ∈ paks, ∀ b c, d.read? p = some b → d.read? q = some c →
    digest b = digest c → b = c

/-- Some paks in groups.  Every pak is in the groups as often as it is given, and in one group only; two
paks are in one group if their bytes are equal, and stand there in the order given; and the groups are in
the order of their first members. -/
structure Grouped (d : Disk) (paks : List Path) (groups : List (List Path)) : Prop where
  once : groups.flatten.Perm paks
  same : ∀ p ∈ paks, ∀ q ∈ paks, (∃ g ∈ groups, p ∈ g ∧ q ∈ g) ↔ d.read? p = d.read? q
  apart : groups.Pairwise List.Disjoint
  inside : ∀ g ∈ groups, g.Sublist paks
  order : groups.Pairwise fun g h => ∀ p ∈ g.head?, ∀ q ∈ h.head?, paks.idxOf p < paks.idxOf q

/-- The lines about a group: the digest of its bytes, its first member, and the others as duplicates. -/
inductive Block (digest : Digest) (d : Disk) : List Path → List String → Prop where
  | mk {first : Path} {c : ByteArray} (h : d.read? first = some c) (rest : List Path) :
    Block digest d (first :: rest)
      (("BLAKE3 " ++ digest c) :: first.text :: rest.map fun p => "DUPLICATE " ++ p.text)

theorem contentDigest_eq_iff (h : Distinguished digest d paks)
    (hread : ∀ p ∈ paks, ∃ c, d.read? p = some c) (hp : p ∈ paks) (hq : q ∈ paks) :
    contentDigest digest d p = contentDigest digest d q ↔ d.read? p = d.read? q := by
  obtain ⟨b, hb⟩ := hread p hp
  obtain ⟨c, hc⟩ := hread q hq
  refine ⟨fun hpq => ?_, fun hpq => by rw [contentDigest, contentDigest, hpq]⟩
  rw [contentDigest, contentDigest, hb, hc] at hpq
  rw [hb, hc, h p hp q hq b c hb hc hpq]

/-- Keys that tell the same as the bytes make groups by the bytes. -/
theorem grouped_keyed {f : Path → String}
    (hf : ∀ p ∈ paks, ∀ q ∈ paks, f p = f q ↔ d.read? p = d.read? q) :
    Grouped d paks ((keyed f paks).map Prod.snd) := by
  have hgroups : (keyed f paks).map Prod.snd =
      (paks.map f).eraseDups.map fun k => paks.filter (f · = k) := by
    rw [keyed, List.map_map]
    rfl
  have hmem : ∀ {g : List Path}, g ∈ (keyed f paks).map Prod.snd →
      ∃ k, g = paks.filter (f · = k) := by
    intro g hg
    rw [hgroups] at hg
    obtain ⟨k, -, rfl⟩ := List.mem_map.1 hg
    exact ⟨k, rfl⟩
  refine ⟨?_, fun p hp q hq => ⟨?_, fun hpq => ?_⟩, ?_, fun g hg => ?_, ?_⟩
  · rw [hgroups, ← List.flatMap_def]
    exact Data.perm_flatMap_filter (Data.nodup_eraseDups _) fun p hp =>
      List.mem_eraseDups.2 (List.mem_map_of_mem hp)
  · rintro ⟨g, hg, hpg, hqg⟩
    obtain ⟨k, rfl⟩ := hmem hg
    simp only [List.mem_filter, decide_eq_true_eq] at hpg hqg
    exact (hf p hp q hq).1 (hpg.2.trans hqg.2.symm)
  · refine ⟨paks.filter (f · = f p), ?_, ?_, ?_⟩
    · rw [hgroups]
      exact List.mem_map.2 ⟨f p, List.mem_eraseDups.2 (List.mem_map_of_mem hp), rfl⟩
    · simp [hp]
    · simp [hq, (hf p hp q hq).2 hpq]
  · rw [hgroups, List.pairwise_map]
    refine (Data.nodup_eraseDups (paks.map f)).imp fun {k k'} hne p hp hp' => hne ?_
    exact (of_decide_eq_true (List.mem_filter.1 hp).2).symm.trans
      (of_decide_eq_true (List.mem_filter.1 hp').2)
  · obtain ⟨k, rfl⟩ := hmem hg
    exact List.filter_sublist
  · rw [hgroups, List.pairwise_map]
    refine (Data.pairwise_idxOf_eraseDups (paks.map f)).imp fun {k k'} hlt p hp q hq => ?_
    rwa [Data.idxOf_of_mem_head? hp, Data.idxOf_of_mem_head? hq]

/-- The first member of a group is printed plainly behind the digest of the group, the others as
duplicates. -/
theorem block_of_mem_keyed (hread : ∀ p ∈ paks, ∃ c, d.read? p = some c) {g : String × List Path}
    (hg : g ∈ keyed (contentDigest digest d) paks) : Block digest d g.2 (groupLines g.1 g.2) := by
  obtain ⟨k, hk, rfl⟩ := List.mem_map.1 hg
  obtain ⟨p, hp, hkey⟩ := List.mem_map.1 (List.mem_eraseDups.1 hk)
  have hp' : p ∈ paks.filter (contentDigest digest d · = k) :=
    List.mem_filter.2 ⟨hp, decide_eq_true hkey⟩
  have hall : ∀ q ∈ paks.filter (contentDigest digest d · = k), ∃ c, d.read? q = some c ∧ k = digest c := by
    intro q hq
    obtain ⟨hq, hkey⟩ := List.mem_filter.1 hq
    obtain ⟨c, hc⟩ := hread q hq
    refine ⟨c, hc, ?_⟩
    rw [← of_decide_eq_true hkey, contentDigest, hc]
    rfl
  generalize paks.filter (contentDigest digest d · = k) = g at hp' hall
  cases g with
  | nil => cases hp'
  | cons first rest =>
      obtain ⟨c, hc, rfl⟩ := hall first List.mem_cons_self
      exact .mk hc rest

/-- **The groups of paks are the classes of equal bytes.**  Whatever paks are given, those that open as
archives are printed, each as often as it is given, and no others.  Paks are in one group if their bytes
are equal; the groups are in the order of their first members; and of a group the first member is printed
plainly, and all others as duplicates in the order given. -/
theorem duplicates_grouped (h : Distinguished digest d (paks.filter (opens o d))) :
    ∃ groups, duplicates o digest d paks = .ok groups ∧
      Grouped d (paks.filter (opens o d)) (groups.map Prod.snd) ∧
      ∃ blocks, List.Forall₂ (Block digest d) (groups.map Prod.snd) blocks ∧
        renderGroups groups = Text.unlines blocks.flatten := by
  have hread : ∀ p ∈ paks.filter (opens o d), ∃ c, d.read? p = some c :=
    fun p hp => exists_read?_of_opens (List.mem_filter.1 hp).2
  refine ⟨_, duplicates_eq o digest d paks,
    grouped_keyed fun p hp q hq => contentDigest_eq_iff h hread hp hq,
    (keyed (contentDigest digest d) (paks.filter (opens o d))).map fun g => groupLines g.1 g.2, ?_, ?_⟩
  · rw [List.forall₂_map_left_iff, List.forall₂_map_right_iff, List.forall₂_same]
    exact fun g hg => block_of_mem_keyed hread hg
  · rw [renderGroups, List.flatMap_def]

/-- An archive without entries, with a comment. -/
def emptyArchive (comment : List UInt8) : ByteArray :=
  ⟨([0x50, 0x4B, 5, 6] ++ List.replicate 16 0 ++ [UInt8.ofNat comment.length, 0] ++ comment).toArray⟩

/-- A disk with two archives that are equal, one that differs from them, and something else. -/
def twins : Disk :=
  ⟨[(["a.pk3"], .file (emptyArchive [])), (["b.pk3"], .file (emptyArchive [])),
    (["c.pk3"], .file (emptyArchive [0x63])), (["d.pk3"], .file ⟨#[0x64]⟩)], []⟩

/-- The paks on this disk, one of them twice. -/
def twinPaks : List Path := [⟨"/c.pk3"⟩, ⟨"/a.pk3"⟩, ⟨"/d.pk3"⟩, ⟨"/b.pk3"⟩, ⟨"/a.pk3"⟩]

theorem distinguished_twins (paks : List Path) (h : ∀ p ∈ paks,
    twins.read? p = some (emptyArchive []) ∨ twins.read? p = some (emptyArchive [0x63])) :
    Distinguished Bytes.digest twins paks := by
  have hne : Bytes.digest (emptyArchive []) ≠ Bytes.digest (emptyArchive [0x63]) := by decide +kernel
  intro p hp q hq b c hb hc hbc
  rcases h p hp with hp | hp <;> rcases h q hq with hq | hq <;> cases hp.symm.trans hb <;>
    cases hq.symm.trans hc
  · rfl
  · exact absurd hbc hne
  · exact absurd hbc.symm hne
  · rfl

theorem duplicates_grouped_twins :
    twinPaks.filter (opens .zip twins) = [⟨"/c.pk3"⟩, ⟨"/a.pk3"⟩, ⟨"/b.pk3"⟩, ⟨"/a.pk3"⟩] ∧
      Distinguished Bytes.digest twins (twinPaks.filter (opens .zip twins)) ∧
      ∃ groups, duplicates .zip Bytes.digest twins twinPaks = .ok groups ∧
        groups.map Prod.snd = [[⟨"/c.pk3"⟩], [⟨"/a.pk3"⟩, ⟨"/b.pk3"⟩, ⟨"/a.pk3"⟩]] ∧
        Grouped twins (twinPaks.filter (opens .zip twins)) (groups.map Prod.snd) ∧
        ∃ blocks, List.Forall₂ (Block Bytes.digest twins) (groups.map Prod.snd) blocks ∧
          renderGroups groups = Text.unlines blocks.flatten := by
  have hopening : twinPaks.filter (opens .zip twins) =
      [⟨"/c.pk3"⟩, ⟨"/a.pk3"⟩, ⟨"/b.pk3"⟩, ⟨"/a.pk3"⟩] := by decide +kernel
  have hdistinguished : Distinguished Bytes.digest twins (twinPaks.filter (opens .zip twins)) :=
    distinguished_twins _ (by decide +kernel)
  have hmembers : (duplicates .zip Bytes.digest twins twinPaks).toOption.map (·.map Prod.snd) =
      some [[⟨"/c.pk3"⟩], [⟨"/a.pk3"⟩, ⟨"/b.pk3"⟩, ⟨"/a.pk3"⟩]] := by decide +kernel
  obtain ⟨groups, hgroups, hgrouped, hblocks⟩ := duplicates_grouped hdistinguished
  rw [hgroups] at hmembers
  exact ⟨hopening, hdistinguished, groups, hgroups, Option.some.inj hmembers, hgrouped, hblocks⟩

end Pak

end Upkeep
