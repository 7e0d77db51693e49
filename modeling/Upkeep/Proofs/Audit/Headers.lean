/-
**Which headers are looked for.**

The headers of a tree are the files below its root whose names end in a point and the letter `h`.  Those in
ignored parts of the tree are left out by the beginnings of their paths, and so are those beside an ignored
part, in entries whose names begin like it: a slash at the end of the part is gone once the part is a normal
path, and cannot keep them apart.

Main definitions:

* `Upkeep.Audit.IsHeaderName`, `Upkeep.Audit.HeaderAt` — names of headers, and headers below a root;
* `Upkeep.Audit.ignoredPart`, `Upkeep.Audit.headerPath` — the normal paths that are compared.

Main results:

* `Upkeep.Audit.hasExtension_iff` — names with the extension of headers;
* `Upkeep.Audit.mem_relativeFiles_headerWalker` — what the walk for headers finds;
* `Upkeep.Audit.ignoredPart_slash` — a slash at the end of an ignored part means nothing;
* `Upkeep.Audit.headers_found` — **which headers are looked for**.
-/

import Upkeep.Audit.Headers
import Upkeep.Proofs.Data.Outcome
import Upkeep.Proofs.Files.Walk
import Upkeep.Proofs.Path.Normal
import Upkeep.Proofs.Path.Order
import Upkeep.Proofs.Text.Search

set_option relaxedAutoImplicit false
set_option autoImplicit false

namespace Upkeep

namespace Audit

open Files Upkeep.Path

variable {d : Disk} {root : Path} {names top : Names} {name : String}

/-! ### Headers -/

/-- A name with at least one character in front of a point and the letter `h`, small or capital. -/
def IsHeaderName (name : String) : Prop :=
  ∃ stem h, stem ≠ [] ∧ name.toList = stem ++ ['.', h] ∧ (h = 'h' ∨ h = 'H')

/-- A header stands at some names below a root.  A root that is a file has no names below it, and one
written as a single dash stands for no place. -/
def HeaderAt (d : Disk) (root : Path) (names : Names) : Prop :=
  root.same ⟨"-"⟩ = false ∧
    match d.find? root with
    | some (top, .directory) => names ≠ [] ∧ d.Holds (top ++ names) ∧ IsHeaderName (names.getLastD "")
    | some (_, .file _) => names = [] ∧ IsHeaderName (root.fileName?.getD "")
    | _ => False

/-- The walker for headers. -/
def headerWalker : Walker := ⟨⟨[]⟩, ["h"]⟩

theorem toLower_eq_h_iff {c : Char} : c.toLower = 'h' ↔ c = 'h' ∨ c = 'H' := by
  constructor
  · intro h
    by_cases hupper : c.val ≥ 'A'.val ∧ c.val ≤ 'Z'.val
    · have hle : c.toNat ≤ 90 := hupper.2
      have hlower : c.toLower.val = c.val + ('a'.val - 'A'.val) := congrArg Char.val (dif_pos hupper)
      have hval : (c.toNat + 32) % 4294967296 = 104 := by
        simpa [UInt32.toNat_add] using congrArg UInt32.toNat (hlower.symm.trans (congrArg Char.val h))
      have hcapital : c.toNat = 72 := by omega
      exact .inr (Char.toNat_inj.1 hcapital)
    · have hsame : c.toLower = c := dif_neg hupper
      exact .inl (hsame.symm.trans h)
  · rintro (rfl | rfl) <;> rfl

/-- What follows the last point of a name that does not begin with it. -/
theorem extensionOfName?_eq_some_iff {s ext : List Char} : extensionOfName? s = some ext ↔
    ∃ stem, stem ≠ [] ∧ s = stem ++ '.' :: ext ∧ '.' ∉ ext := by
  rw [extensionOfName?]
  constructor
  · intro h
    split at h
    · rename_i stem ext' hsplit
      split at h
      · cases h
      · rename_i hstem
        obtain rfl := Option.some.inj h
        exact ⟨stem, by simpa using hstem, Text.splitLast?_singleton_eq_some_iff.1 hsplit⟩
    · cases h
  · rintro ⟨stem, hstem, hs⟩
    rw [Text.splitLast?_singleton_eq_some_iff.2 hs]
    exact if_neg (by simpa using hstem)

/-- **Names with the extension of headers.** -/
theorem hasExtension_iff : headerWalker.hasExtension name = true ↔ IsHeaderName name := by
  have hextension : headerWalker.hasExtension name = true ↔
      ∃ ext, extensionOfName? name.toList = some ext ∧ Walker.lowerAscii ext = ['h'] := by
    rw [Walker.hasExtension, headerWalker]
    cases extensionOfName? name.toList with
    | none => simp
    | some ext =>
        have hword : ∀ s : List Char, String.ofList s = "h" ↔ s = ['h'] := by
          intro s
          rw [String.ext_iff, String.toList_ofList]
          rfl
        simp [hword]
  rw [hextension, IsHeaderName]
  constructor
  · rintro ⟨ext, hext, hlower⟩
    obtain ⟨stem, hstem, hname, -⟩ := extensionOfName?_eq_some_iff.1 hext
    obtain ⟨h, rfl, hh⟩ := List.map_eq_singleton_iff.1 hlower
    exact ⟨stem, h, hstem, hname, toLower_eq_h_iff.1 hh⟩
  · rintro ⟨stem, h, hstem, hname, hh⟩
    refine ⟨[h], extensionOfName?_eq_some_iff.2 ⟨stem, hstem, hname, ?_⟩, ?_⟩
    · rcases hh with rfl | rfl <;> decide
    · exact congrArg (fun c => [c]) (toLower_eq_h_iff.2 hh)

theorem wants_headerWalker : headerWalker.wants root names = true ↔ IsHeaderName (names.getLastD "") := by
  rw [Walker.wants_iff, hasExtension_iff]
  refine and_iff_left ⟨rfl, fun dir _ => rfl⟩

/-- **What the walk for headers finds.** -/
theorem mem_relativeFiles_headerWalker :
    names ∈ headerWalker.relativeFiles d root ↔ HeaderAt d root names := by
  rw [HeaderAt]
  cases hdash : root.same ⟨"-"⟩ with
  | true =>
      refine iff_of_false ?_ (by simp)
      rw [Walker.relativeFiles, hdash, if_pos rfl]
      exact List.not_mem_nil
  | false =>
      rw [and_iff_right rfl]
      cases hfind : d.find? root with
      | none =>
          rw [Walker.relativeFiles, hdash, hfind]
          simp
      | some found =>
          obtain ⟨top, e⟩ := found
          cases e with
          | directory => rw [Walker.mem_relativeFiles_iff hdash hfind, wants_headerWalker]
          | file content =>
              rw [Walker.relativeFiles, hdash, hfind, if_neg Bool.false_ne_true]
              dsimp only
              rw [← hasExtension_iff]
              cases headerWalker.hasExtension (root.fileName?.getD "") <;> simp [headerWalker]
          | link target =>
              rw [Walker.relativeFiles, hdash, hfind]
              simp

/-! ### Ignored parts -/

/-- The normal path of an ignored part of a tree. -/
def ignoredPart (root part : String) : Path := normalize ((normalize root).join ⟨part⟩).text

/-- The normal path of a header of a tree. -/
def headerPath (root : String) (names : Names) : Path :=
  normalize (Walker.walkedPath (normalize root) names).text

/-- **A slash at the end of an ignored part means nothing.** -/
theorem ignoredPart_slash {part : String} (h : part ≠ "") (root : String) :
    ignoredPart root (part ++ "/") = ignoredPart root part := by
  rw [ignoredPart, ignoredPart, join_slash h, normalize_slash (join_text_ne h _)]

variable {root : String} {ignore hs : List String}

/-- Whether a header is looked for: its path does not begin with that of an ignored part. -/
def looksFor (root : String) (ignore : List String) (names : Names) : Bool :=
  !ignore.any fun i => Text.startsWith (headerPath root names).text (ignoredPart root i).text

theorem looksFor_iff : looksFor root ignore names = true ↔ ∀ i ∈ ignore,
    ¬LiesIn (ignoredPart root i) (headerPath root names) ∧
      ¬LiesBeside (ignoredPart root i) (headerPath root names) := by
  rw [looksFor, Bool.not_eq_true', List.any_eq_false]
  refine forall₂_congr fun i _ => ?_
  rw [headerPath, ignoredPart, startsWith_normalize_iff, not_or]

/-- The names below the root of the headers that are looked for, in the order of their paths. -/
def headerNames (d : Disk) (root : String) (ignore : List String) : List Names :=
  ((headerWalker.relativeFiles d (normalize root)).mergeSort fun a b =>
    ((Walker.walkedPath (normalize root) a).compare (Walker.walkedPath (normalize root) b)).isLE).filter
      (looksFor root ignore)

theorem mem_headerNames : names ∈ headerNames d root ignore ↔ HeaderAt d (normalize root) names ∧
    ∀ i ∈ ignore, ¬LiesIn (ignoredPart root i) (headerPath root names) ∧
      ¬LiesBeside (ignoredPart root i) (headerPath root names) := by
  rw [headerNames, List.mem_filter, (List.mergeSort_perm _ _).mem_iff, mem_relativeFiles_headerWalker,
    looksFor_iff]

theorem pairwise_headerNames (d : Disk) (root : String) (ignore : List String) :
    (headerNames d root ignore).Pairwise fun a b =>
      ((Walker.walkedPath (normalize root) a).compare (Walker.walkedPath (normalize root) b)).isLE = true := by
  have : Std.TransCmp fun a b : Names =>
      (Walker.walkedPath (normalize root) a).compare (Walker.walkedPath (normalize root) b) :=
    Data.transCmp_on (Walker.walkedPath (normalize root))
  exact (Data.pairwise_mergeSort _).filter _

/-- **The headers are always told**, by their normal paths. -/
theorem headers_eq (d : Disk) (root : String) (ignore : List String) :
    headers d root ignore =
      .ok ((headerNames d root ignore).map fun names => (headerPath root names).text) := by
  have hwalker : Walker.ofTexts [] ["h"] = .ok headerWalker := ok_of_toOption (by rfl)
  have hfiles := List.map_mergeSort (r := fun a b : Names =>
    ((Walker.walkedPath (normalize root) a).compare (Walker.walkedPath (normalize root) b)).isLE)
    (l := headerWalker.relativeFiles d (normalize root)) (f := Walker.walkedPath (normalize root))
    (s := fun a b : Path => (a.compare b).isLE) fun _ _ _ _ => rfl
  rw [headers, hwalker]
  simp only [bind, Except.bind, pure, Except.pure]
  have hlooks : looksFor root ignore = fun names =>
      !ignore.any fun i => Text.startsWith (headerPath root names).text (ignoredPart root i).text := rfl
  rw [Walker.files, ← hfiles, List.map_map, List.filter_map, headerNames, hlooks]
  simp only [List.any_map, Function.comp_def, headerPath, ignoredPart]

/-- **Which headers are looked for.**  There is always an answer, and it holds the headers below the root, in
the order of their paths, that lie neither in an ignored part nor beside one, in an entry whose name begins
like it.  A slash at the end of the part makes no difference. -/
theorem headers_found (d : Disk) (root : String) (ignore : List String) : ∃ found : List Names,
    headers d root ignore = .ok (found.map fun names => (headerPath root names).text) ∧
    (∀ names, names ∈ found ↔ HeaderAt d (normalize root) names ∧
      ∀ i ∈ ignore, ¬LiesIn (ignoredPart root i) (headerPath root names) ∧
        ¬LiesBeside (ignoredPart root i) (headerPath root names)) ∧
    (found.Pairwise fun a b =>
      ((Walker.walkedPath (normalize root) a).compare (Walker.walkedPath (normalize root) b)).isLE = true) ∧
    ∀ i, i ≠ "" → headers d root ((i ++ "/") :: ignore) = headers d root (i :: ignore) := by
  refine ⟨headerNames d root ignore, headers_eq d root ignore, fun names => mem_headerNames,
    pairwise_headerNames d root ignore, fun i hi => ?_⟩
  have hsame : looksFor root ((i ++ "/") :: ignore) = looksFor root (i :: ignore) := by
    funext names
    rw [looksFor, looksFor, List.any_cons, List.any_cons, ignoredPart_slash hi]
  rw [headers_eq, headers_eq, headerNames, headerNames, hsame]

/-- A header in a directory that is ignored, one in a directory whose name is longer, and another one. -/
def headerTree : Disk where
  entries := [(["w", "src", "gen", "a.h"], .file .empty), (["w", "src", "gen2", "b.h"], .file .empty),
    (["w", "src", "c.H"], .file .empty)]
  home := ["w"]

/-- The last of these headers is looked for, and the one beside the ignored directory is not; without the
slash it is the same. -/
theorem headers_found_beside : "gen" ≠ "" ∧
    headers headerTree "src" ["gen/"] = headers headerTree "src" ["gen"] ∧
    ∃ hs, headers headerTree "src" ["gen"] = .ok hs ∧ "src/c.H" ∈ hs ∧ "src/gen2/b.h" ∉ hs := by
  obtain ⟨-, -, -, -, hslash⟩ := headers_found headerTree "src" []
  obtain ⟨found, hheaders, hfound, -, -⟩ := headers_found headerTree "src" ["gen"]
  refine ⟨by decide, hslash "gen" (by decide), _, hheaders, ?_, ?_⟩
  · have hat : HeaderAt headerTree (normalize "src") ["c.H"] :=
      mem_relativeFiles_headerWalker.1 (by decide +kernel)
    refine List.mem_map.2 ⟨["c.H"], (hfound _).2 ⟨hat, looksFor_iff.1 (by decide +kernel)⟩, ?_⟩
    decide +kernel
  · intro hbeside
    obtain ⟨names, hmem, hpath⟩ := List.mem_map.1 hbeside
    have hlooks := looksFor_iff.2 ((hfound names).1 hmem).2
    rw [looksFor, hpath] at hlooks
    revert hlooks
    decide +kernel

/-- A header that lies in no ignored part is not looked for. -/
theorem header_beside_missed : ¬∀ (d : Disk) (root : String) (ignore hs : List String) (names : Names),
    headers d root ignore = .ok hs → HeaderAt d (normalize root) names →
      (∀ i ∈ ignore, ¬LiesIn (ignoredPart root i) (headerPath root names)) →
        (headerPath root names).text ∈ hs := by
  intro h
  have hin := h headerTree "src" ["gen/"] _ ["gen2", "b.h"] (headers_eq _ _ _)
    (mem_relativeFiles_headerWalker.1 (by decide +kernel)) (by unfold LiesIn; decide +kernel)
  obtain ⟨names, hmem, hpath⟩ := List.mem_map.1 hin
  have hlooks := looksFor_iff.2 (mem_headerNames.1 hmem).2
  rw [looksFor, hpath] at hlooks
  revert hlooks
  decide +kernel

end Audit

end Upkeep
