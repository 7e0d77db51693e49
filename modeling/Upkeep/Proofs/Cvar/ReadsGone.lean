/-
**No read is left.**

A read of a migrated cvar becomes a call on it.  The calls are put in the text in one pass, and what is in
the text then could be read as a read again.  It is not, as long as no parenthesis opens in the name of the
cvar or in that of a typed field, and the fields are not empty, have no dot and are not named as the method
that is called: a read goes over no opening parenthesis then, and so it could only end in the method, where
the dot of the call is its own and the method its field.

Main definitions:

* `Upkeep.Cvar.IsField` — the names of fields for which this holds;
* `Upkeep.Cvar.calledPiece` — a piece with its read made a call.

Main results:

* `Upkeep.Cvar.ReadParts.Fits.ends_before` — a read does not end in the method of a call;
* `Upkeep.Cvar.Cut.no_read` — **no read is left where reads were made calls**;
* `Upkeep.Cvar.Migration.typed_reads_go` — **what a migration makes of a line with a read**.
-/

import Upkeep.Proofs.Cvar.LineChanges
import Upkeep.Proofs.Text.Words

set_option relaxedAutoImplicit false
set_option autoImplicit false

namespace Upkeep

namespace Cvar

variable {name : String} {fields : FieldNames} {before before' after : Option Char}
  {front rest s t u v : List Char} {c x : Char} {q : ReadParts}

/-! ### Reads and parentheses -/

/-- A field that is not empty, and in which no dot and no opening parenthesis stands. -/
structure IsField (f : String) : Prop where
  ne_nil : f.toList ≠ []
  dot : '.' ∉ f.toList
  paren : '(' ∉ f.toList

theorem isField_iff {f : String} :
    IsField f ↔ f.toList ≠ [] ∧ '.' ∉ f.toList ∧ '(' ∉ f.toList := by
  constructor
  · intro h
    exact ⟨h.ne_nil, h.dot, h.paren⟩
  · rintro ⟨hnil, hdot, hparen⟩
    exact ⟨hnil, hdot, hparen⟩

instance (f : String) : Decidable (IsField f) := decidable_of_iff _ isField_iff.symm

namespace ReadParts

/-- Behind the name, a read goes on with a blank, a dot or a dash. -/
theorem Fits.opening (h : q.Fits name fields before after) :
    ∃ x u, q.text name = name.toList ++ x :: u ∧ Unicode.isWord x = false := by
  cases hblanks : q.blanks with
  | cons b blanks =>
      have hb := h.blanks b (by simp [hblanks])
      exact ⟨b, blanks ++ q.tail, by simp [text, hblanks], Text.isWord_of_isBlank hb⟩
  | nil =>
      rcases h.access with haccess | haccess
      · exact ⟨'.', q.inner ++ q.field.toList, by simp [text, tail, hblanks, haccess], by decide⟩
      · exact ⟨'-', '>' :: (q.inner ++ q.field.toList), by simp [text, tail, hblanks, haccess],
          by decide⟩

/-- A read goes over no opening parenthesis. -/
theorem Fits.paren (hname : '(' ∉ name.toList) (hfields : ∀ f ∈ fields, IsField f)
    (h : q.Fits name fields before after) : '(' ∉ q.text name := by
  have hblanks : '(' ∉ q.blanks := fun hmem => absurd (h.blanks _ hmem) (by decide)
  have hinner : '(' ∉ q.inner := fun hmem => absurd (h.inner _ hmem) (by decide)
  have hfield := (hfields q.field h.field).paren
  rcases h.access with haccess | haccess <;> simp [text, tail, hname, hblanks, haccess, hinner, hfield]

/-- What stands in front of an opening parenthesis holds the read with which it begins. -/
theorem Fits.before_paren (hname : '(' ∉ name.toList) (hfields : ∀ f ∈ fields, IsField f)
    (h : q.Fits name fields before after) (hs : q.text name ++ rest = s ++ '(' :: t) :
    ∃ more, s = q.text name ++ more ∧ rest = more ++ '(' :: t := by
  rcases List.append_eq_append_iff.1 hs with ⟨more, hmore, hrest⟩ | ⟨more, htext, hmore⟩
  · exact ⟨more, hmore, hrest⟩
  · cases more with
    | nil => exact ⟨[], by simpa using htext.symm, hmore.symm⟩
    | cons c more =>
        obtain ⟨rfl, -⟩ := List.cons.inj hmore
        exact absurd (htext ▸ by simp) (h.paren hname hfields)

/-- A field that stands where a word and then something else does is the whole word. -/
theorem Fits.field_eq_word {word : List Char} (hword : ∀ c ∈ word, Unicode.isWord c = true)
    (h : q.Fits name fields before (s ++ t).head?) (hnil : q.field.toList ≠ [])
    (hs : q.inner ++ q.field.toList ++ s = word) : q.field.toList = word := by
  subst hs
  have hinner : q.inner = [] := by
    rw [List.eq_nil_iff_forall_not_mem]
    intro b hb
    have hblank := Text.isWord_of_isBlank (h.inner b hb)
    rw [hword b (by simp [hb])] at hblank
    cases hblank
  rw [hinner, List.nil_append]
  cases s with
  | nil => exact (List.append_nil _).symm
  | cons d s =>
      -- A shorter field ends between two word characters.
      have hends := h.ends
      have hlast := hword (q.field.toList.getLast hnil) (by simp)
      rw [tail, List.getLast?_append_of_ne_nil _ hnil, List.getLast?_eq_some_getLast hnil] at hends
      simp [Text.boundary, hlast, hword d (by simp)] at hends

/-- The only dot in what comes behind the name of a read is the one in front of the field. -/
theorem Fits.of_dot (hfield : '.' ∉ q.field.toList) (h : q.Fits name fields before after)
    (hs : q.blanks ++ q.tail = u ++ '.' :: v) : v = q.inner ++ q.field.toList := by
  have hblanks : '.' ∉ q.blanks := fun hmem => absurd (h.blanks _ hmem) (by decide)
  have hinner : '.' ∉ q.inner := fun hmem => absurd (h.inner _ hmem) (by decide)
  have hback : '.' ∉ q.inner ++ q.field.toList := by simp [hinner, hfield]
  rcases h.access with haccess | haccess
  · rw [tail, haccess, List.append_assoc, List.singleton_append,
      List.append_cons_inj_of_notMem hblanks hback] at hs
    exact hs.2.2.symm
  · have hmem : '.' ∈ q.blanks ++ q.tail := by simp [hs]
    simp [tail, haccess, hblanks, hinner, hfield] at hmem

/-- A read whose name ends in front of the call of a method ends in front of it. -/
theorem Fits.ends_before {method : String} (hname : '(' ∉ name.toList)
    (hfields : ∀ f ∈ fields, IsField f ∧ f ≠ method) (hword : ∀ c ∈ method.toList, Unicode.isWord c = true)
    (h : q.Fits name fields before rest.head?) (hlength : name.toList.length ≤ front.length)
    (hs : q.text name ++ rest = front ++ '.' :: (method.toList ++ '(' :: t)) :
    ∃ more, front = q.text name ++ more ∧ rest = more ++ '.' :: (method.toList ++ '(' :: t) := by
  obtain ⟨hfield, hne⟩ := hfields q.field h.field
  have hparen : q.text name ++ rest = (front ++ '.' :: method.toList) ++ '(' :: t := by simpa using hs
  obtain ⟨more, hmore, rfl⟩ := h.before_paren hname (fun f hf => (hfields f hf).1) hparen
  rcases List.append_eq_append_iff.1 hmore.symm with ⟨w, hfront, hmethod⟩ | ⟨w, htext, hmethod⟩
  · exact ⟨w, hfront, by simp [hmethod]⟩
  · cases w with
    | nil =>
        obtain rfl : more = '.' :: method.toList := by simpa using hmethod.symm
        exact ⟨[], by simpa using htext.symm, by simp⟩
    | cons d w =>
        -- Else the read ends in the method, which then is its field.
        obtain ⟨rfl, htail⟩ := List.cons.inj hmethod
        obtain ⟨gap, rfl⟩ : name.toList <+: front :=
          List.prefix_of_prefix_length_le ⟨q.blanks ++ q.tail, by simp [text]⟩ ⟨'.' :: w, htext.symm⟩ hlength
        have hgap : q.blanks ++ q.tail = gap ++ '.' :: w := by simpa [text] using htext
        rw [h.of_dot hfield.dot hgap] at htail
        exact absurd (String.toList_inj.1 (h.field_eq_word hword hfield.ne_nil htail.symm)) hne

end ReadParts

/-! ### Where no read begins -/

/-- The character in front of a read only matters for the word boundary. -/
theorem readAt?_of_boundary
    (hbefore : Text.boundary before' s.head? = true → Text.boundary before s.head? = true)
    (h : readAt? name fields before' s ≠ none) : readAt? name fields before s ≠ none := by
  rw [readAt?] at h ⊢
  split at h
  · exact absurd rfl h
  · split at h
    · rename_i hstarts
      rwa [if_pos (hbefore hstarts)]
    · exact absurd rfl h

/-- No read begins between two characters that make no word boundary. -/
theorem hasReadAfter_of_not_boundary (hbefore : Text.boundary before (some c) = false)
    (h : HasReadAfter name fields before (c :: s)) : HasReadAfter name fields (some c) s := by
  refine (hasReadAfter_cons h).resolve_left fun hread => ?_
  obtain ⟨r, hread⟩ := Option.ne_none_iff_exists'.1 hread
  obtain ⟨q, rest, -, hs, hfits⟩ := readAt?_ok hread
  have hstarts := hfits.starts
  rw [← List.head?_append_of_ne_nil _ hfits.text_ne_nil, ← hs, List.head?_cons, hbefore] at hstarts
  cases hstarts

/-- No read begins at a text in front of a parenthesis that has only word characters where something
else would have to come behind the name. -/
theorem hasReadAfter_of_word (hname : '(' ∉ name.toList) (hfields : ∀ f ∈ fields, IsField f)
    (hword : ∀ c ∈ s.drop name.toList.length, Unicode.isWord c = true)
    (h : HasReadAfter name fields before (s ++ '(' :: t)) : HasReadAfter name fields (some '(') t := by
  have hnone : ∀ {s before}, (∀ c ∈ s.drop name.toList.length, Unicode.isWord c = true) →
      readAt? name fields before (s ++ '(' :: t) = none := by
    intro s before hword
    by_contra hne
    obtain ⟨r, hread⟩ := Option.ne_none_iff_exists'.1 hne
    obtain ⟨q, rest, -, hs, hfits⟩ := readAt?_ok hread
    obtain ⟨more, rfl, -⟩ := hfits.before_paren hname hfields hs.symm
    obtain ⟨x, u, htext, hx⟩ := hfits.opening
    have hmem := hword x (by simp [htext])
    rw [hx] at hmem
    cases hmem
  induction s generalizing before with
  | nil => exact (hasReadAfter_cons h).resolve_left fun hread => hread (hnone hword)
  | cons c s ih =>
      rcases hasReadAfter_cons h with hread | hrest
      · exact absurd (hnone hword) hread
      · refine ih (fun d hd => hword d ?_) hrest
        exact List.drop_subset_drop_left (c :: s) (Nat.le_succ _) hd

/-! ### Calls in the place of reads -/

/-- A call of a method without arguments, as it stands behind the object. -/
def methodCall (method : String) : List Char := '.' :: (method.toList ++ ['(', ')'])

/-- What comes behind the name in a call: the method that gives the value, and for strings one more. -/
def methodCalls (isString : Bool) : List Char :=
  methodCall "Get" ++ if isString then methodCall "c_str" else []

/-- A piece with its read made a call. -/
def calledPiece (name : String) (isString : Bool) : Piece → List Char
  | .plain c => [c]
  | .read _ => name.toList ++ methodCalls isString

theorem methodCall_append (method : String) (s : List Char) :
    methodCall method ++ s = '.' :: (method.toList ++ '(' :: ')' :: s) := by
  simp [methodCall]

section Calls

variable {method : String} (hname : '(' ∉ name.toList)
  (hword : ∀ c ∈ method.toList, Unicode.isWord c = true)

include hname hword

/-- A call is not a read. -/
theorem readAt?_called (hfields : ∀ f ∈ fields, IsField f ∧ f ≠ method) :
    readAt? name fields before (name.toList ++ (methodCall method ++ s)) = none := by
  by_contra hne
  obtain ⟨r, hread⟩ := Option.ne_none_iff_exists'.1 hne
  obtain ⟨q, rest, -, hs, hfits⟩ := readAt?_ok hread
  rw [methodCall_append] at hs
  obtain ⟨more, hmore, -⟩ := hfits.ends_before hname hfields hword le_rfl hs.symm
  obtain ⟨x, u, htext, -⟩ := hfits.opening
  have hlength := congrArg List.length hmore
  simp only [htext, List.length_append, List.length_cons] at hlength
  omega

/-- No read begins in a call. -/
theorem hasReadAfter_of_called (hfields : ∀ f ∈ fields, IsField f ∧ f ≠ method)
    (h : HasReadAfter name fields before (name.toList ++ (methodCall method ++ s))) :
    HasReadAfter name fields (some ')') s := by
  have hnone : readAt? name fields before (name.toList ++ (methodCall method ++ s)) = none :=
    readAt?_called hname hword hfields
  obtain ⟨c, l, hcl⟩ := List.exists_cons_of_ne_nil
    (List.append_ne_nil_of_right_ne_nil name.toList (List.cons_ne_nil '.' method.toList))
  have htext : name.toList ++ (methodCall method ++ s) = c :: (l ++ '(' :: ')' :: s) := by
    rw [methodCall_append, ← List.cons_append, ← List.cons_append, ← hcl, List.append_assoc]
  rw [htext] at h hnone
  have hrest := (hasReadAfter_cons h).resolve_left fun hread => hread hnone
  -- Behind the first character, the method stands where something else would have to come.
  have hdrop : l.drop name.toList.length = method.toList := by
    have hdrop := congrArg (List.drop (name.toList.length + 1)) hcl
    simpa using hdrop.symm
  have hopen := hasReadAfter_of_word hname (fun f hf => (hfields f hf).1) (hdrop ▸ hword) hrest
  exact hasReadAfter_of_not_boundary (by decide) hopen

/-- No read begins in the call of one more method. -/
theorem hasReadAfter_of_methodCall (hfields : ∀ f ∈ fields, IsField f)
    (h : HasReadAfter name fields (some ')') (methodCall method ++ s)) :
    HasReadAfter name fields (some ')') s := by
  rw [methodCall_append] at h
  have hmethod := hasReadAfter_of_not_boundary (by decide) h
  have hopen := hasReadAfter_of_word hname hfields (fun c hc => hword c (List.mem_of_mem_drop hc)) hmethod
  exact hasReadAfter_of_not_boundary (by decide) hopen

end Calls

theorem isWord_of_mem_get : ∀ c ∈ "Get".toList, Unicode.isWord c = true := by
  rw [← List.all_eq_true]
  decide

theorem isWord_of_mem_c_str : ∀ c ∈ "c_str".toList, Unicode.isWord c = true := by
  rw [← List.all_eq_true]
  decide

/-- No read begins in what a read becomes. -/
theorem hasReadAfter_of_methodCalls (hname : '(' ∉ name.toList)
    (hfields : ∀ f ∈ fields, IsField f ∧ f ≠ "Get") {isString : Bool}
    (h : HasReadAfter name fields before (name.toList ++ methodCalls isString ++ s)) :
    HasReadAfter name fields (some ')') s := by
  rw [methodCalls, List.append_assoc, List.append_assoc] at h
  have hget := hasReadAfter_of_called hname isWord_of_mem_get hfields h
  cases isString with
  | false => exact hget
  | true => exact hasReadAfter_of_methodCall hname isWord_of_mem_c_str (fun f hf => (hfields f hf).1) hget

/-! ### The text before and after -/

/-- A text and what it becomes are the same, or they part behind a name, where the text goes on with a
character of no word and the new one with the call. -/
theorem Cut.parting {ps : List Piece} (isString : Bool) (h : Cut name fields before s ps) :
    ps.flatMap (calledPiece name isString) = s ∨ ∃ p x u v, s = p ++ name.toList ++ x :: u ∧
      ps.flatMap (calledPiece name isString) = p ++ name.toList ++ (methodCall "Get" ++ v) ∧
      Unicode.isWord x = false := by
  induction h with
  | nil before => exact .inl rfl
  | @plain before c s ps hnone hrest ih =>
      rw [List.flatMap_cons, calledPiece]
      rcases ih with heq | ⟨p, x, u, v, hs, hnew, hx⟩
      · left
        rw [heq]
        rfl
      · right
        refine ⟨c :: p, x, u, v, ?_, ?_, hx⟩
        · simp [hs]
        · simp [hnew]
  | @read before q s ps hfits hrest ih =>
      right
      obtain ⟨x, u, htext, hx⟩ := hfits.opening
      refine ⟨[], x, u ++ s, (if isString then methodCall "c_str" else []) ++
        ps.flatMap (calledPiece name isString), ?_, ?_, hx⟩
      · simp [htext]
      · simp [calledPiece, methodCalls]

/-- A read that begins in front of a name is one whatever comes behind the name, as long as it is not a
word character. -/
theorem readAt?_of_parting {p : List Char} (hname : '(' ∉ name.toList)
    (hfields : ∀ f ∈ fields, IsField f ∧ f ≠ "Get") (hx : Unicode.isWord x = false)
    (h : readAt? name fields before (p ++ name.toList ++ (methodCall "Get" ++ v)) ≠ none) :
    readAt? name fields before (p ++ name.toList ++ x :: u) ≠ none := by
  obtain ⟨r, hread⟩ := Option.ne_none_iff_exists'.1 h
  obtain ⟨q, rest, -, hs, hfits⟩ := readAt?_ok hread
  rw [methodCall_append] at hs
  obtain ⟨more, hmore, rfl⟩ := hfits.ends_before hname hfields isWord_of_mem_get (by simp) hs.symm
  have hends : Text.boundary q.tail.getLast? (more ++ x :: u).head? = true := by
    have hends := hfits.ends
    cases more with
    | cons d more => exact hends
    | nil =>
        have hdot : Unicode.isWord '.' = false := by decide
        simpa [Text.boundary, hx, hdot] using hends
  have hfits' : q.Fits name fields before (more ++ x :: u).head? := { hfits with ends := hends }
  rw [hmore, List.append_assoc]
  exact hfits'.readAt?_ne_none

/-- **No read is left** where reads were made calls.  The text may come behind another character than
it did, as long as no word boundary comes with it. -/
theorem Cut.no_read {ps : List Piece} {isString : Bool} (hname : '(' ∉ name.toList)
    (hfields : ∀ f ∈ fields, IsField f ∧ f ≠ "Get") (h : Cut name fields before s ps)
    (hbefore : Text.boundary before' s.head? = true → Text.boundary before s.head? = true) :
    ¬HasReadAfter name fields before' (ps.flatMap (calledPiece name isString)) := by
  induction h generalizing before' with
  | nil before => exact not_hasReadAfter_nil
  | @plain before c s ps hnone hrest ih =>
      rw [List.flatMap_cons, calledPiece, List.singleton_append]
      intro h
      refine ih id ((hasReadAfter_cons h).resolve_left fun hread => ?_)
      -- A read that begins here was there before.
      have hread := readAt?_of_boundary (s := c :: ps.flatMap (calledPiece name isString)) hbefore hread
      rcases hrest.parting isString with heq | ⟨p, x, u, v, rfl, hnew, hx⟩
      · rw [heq] at hread
        exact hread hnone
      · rw [hnew, ← List.cons_append, ← List.cons_append] at hread
        exact readAt?_of_parting hname hfields hx hread hnone
  | @read before q s ps hfits hrest ih =>
      rw [List.flatMap_cons, calledPiece]
      intro h
      refine ih (fun _ => ?_) (hasReadAfter_of_methodCalls hname hfields h)
      -- The read ended at a word boundary.
      rw [ReadParts.text, lastOf_append, lastOf_of_ne_nil _ hfits.tail_ne_nil]
      exact hfits.ends

/-! ### Lines with reads -/

namespace Migration

variable {m : Migration} {cfg : Settings} {field : String}

/-- A read that fits becomes the name and the calls of methods. -/
theorem migrateRead?_called {t : String} (h : m.migrateRead? cfg field = some t) :
    t.toList = m.name.toList ++ methodCalls m.type.isString := by
  rw [migrateRead?] at h
  split at h
  · obtain ⟨hstring, h⟩ := Option.ite_none_right_eq_some.1 h
    cases h
    rw [hstring, String.toList_append]
    rfl
  · obtain ⟨hstring, h⟩ := Option.ite_none_left_eq_some.1 h
    cases h
    rw [Bool.not_eq_true] at hstring
    rw [hstring, String.toList_append]
    rfl

/-- Where all reads were migrated, each of them is a call. -/
theorem ReadsMade.called {old new : List Char} (h : m.ReadsMade cfg old new) :
    new = (pieces m.name (fieldNames cfg) old).flatMap (calledPiece m.name m.type.isString) := by
  rw [h.made]
  apply List.flatMap_congr
  intro piece hpiece
  cases piece with
  | plain c => rfl
  | read r =>
      obtain ⟨t, ht⟩ := Option.isSome_iff_exists.1 (h.fits r hpiece)
      simp only [ht, Option.getD_some, calledPiece]
      exact migrateRead?_called ht

/-- Where all reads were migrated, none is left. -/
theorem ReadsMade.no_read (hname : '(' ∉ m.name.toList)
    (hfields : ∀ f ∈ fieldNames cfg, IsField f ∧ f ≠ "Get")
    {old new : List Char} (h : m.ReadsMade cfg old new) : ¬HasRead m.name (fieldNames cfg) new := by
  rw [h.called]
  exact (cut_pieces m.name (fieldNames cfg) old).no_read hname hfields id

/-- **What a migration makes of a line with a read**: if the cvar and the typed fields have names and no
field is named as the method that is called, then a line with a typed read for which nothing else comes is
marked, or no read is left in it.  All that is changed are the calls, each where it first stood, and then
the reads that fit.  Over readable files the patch can be made, and holds what becomes of the lines. -/
theorem typed_reads_go (cfg : Settings) (hname : '(' ∉ m.name.toList)
    (hfields : ∀ f ∈ fieldNames cfg, IsField f ∧ f ≠ "Get") :
    (∀ w context, m.record.Readable w →
      ∃ p w', (m.patch cfg context).on w = (.ok p, w') ∧ m.Carried cfg w' p) ∧
    ∀ ms line, ms.any (·.1.isTypedRead) = true → ms.any m.hides = false →
      ∃ called missing new marked,
        m.outcome cfg ms line = [if marked then Diff.mark ++ new else new] ∧
        CallsTried (ms.filterMap m.call?) line.toList called missing ∧
        Swaps (m.ReadBecomes cfg) none called new.toList ∧
        (missing = true → marked = true) ∧
        (marked = false → ¬HasRead m.name (fieldNames cfg) new.toList) := by
  refine ⟨fun w context => m.exists_carried cfg context, ?_⟩
  intro ms line hread hhides
  obtain ⟨called, missing, new, marked, houtcome, hcalled, hswaps, -, hmarked, hmade⟩ :=
    m.outcome_changes cfg line hhides
  rw [if_pos hread] at hswaps
  refine ⟨called, missing, new, marked, houtcome, hcalled, hswaps, fun h => hmarked (.inl h), ?_⟩
  intro h
  exact (hmade h hread).no_read hname hfields

theorem typed_reads_go_frameRate :
    frameRateMigration.record.Readable frameRateHeld ∧
      (∃ p w', (frameRateMigration.patch {} 3).on frameRateHeld = (.ok p, w') ∧
        frameRateMigration.Carried {} w' p) ∧
      frameRateMigration.outcome {} (frameRateMigration.record.mentionsAt (⟨"a.cpp"⟩, 3))
        "Cvar_Set(\"fps\", \"20\"); half = fps->integer / 2;" = ["fps.Set(20); half = fps.Get() / 2;"] ∧
      ¬HasRead "fps" (fieldNames {}) "fps.Set(20); half = fps.Get() / 2;".toList := by
  have hfile : frameRateHeld.Readable ⟨"a.cpp"⟩ := ⟨frameRate, rfl⟩
  have hrecord : frameRateMigration.record.Readable frameRateHeld := by
    simpa [Record.Readable, Record.mentions, frameRateMigration, ofRecord] using hfile
  have hfields : ∀ f ∈ fieldNames {}, IsField f ∧ f ≠ "Get" := by
    simp only [fieldNames, List.forall_mem_cons]
    exact ⟨by decide, by decide, by decide, by simp⟩
  obtain ⟨hpatch, hlines⟩ := typed_reads_go (m := frameRateMigration) {} (by decide) hfields
  obtain ⟨called, missing, new, marked, houtcome, -, -, -, hgone⟩ := hlines
    (frameRateMigration.record.mentionsAt (⟨"a.cpp"⟩, 3))
    "Cvar_Set(\"fps\", \"20\"); half = fps->integer / 2;" (by decide +kernel) (by decide +kernel)
  have hcomputed : frameRateMigration.outcome {} (frameRateMigration.record.mentionsAt (⟨"a.cpp"⟩, 3))
      "Cvar_Set(\"fps\", \"20\"); half = fps->integer / 2;" = ["fps.Set(20); half = fps.Get() / 2;"] := by
    decide +kernel
  have hnew := List.singleton_inj.1 (hcomputed.symm.trans houtcome)
  cases marked with
  | false =>
      rw [← show "fps.Set(20); half = fps.Get() / 2;" = new from hnew] at hgone
      exact ⟨hrecord, hpatch frameRateHeld 3 hrecord, hcomputed, hgone rfl⟩
  | true =>
      have hmark := congrArg (fun s => s.toList.head?) hnew
      simp [Diff.mark, String.toList_append] at hmark

/-- A line with a read becomes a line that is not marked and has a read still, though no field is named
as the method that is called. -/
def LeavesRead (name : String) (cfg : Settings) (old new : String) : Prop :=
  (∀ f ∈ fieldNames cfg, f ≠ "Get") ∧
    (Migration.mk name ⟨[(.int, [⟨⟨"a.cpp"⟩, 1, 5⟩])], [], [], [], [], []⟩ .int "").outcome cfg
      [(.int, ⟨⟨"a.cpp"⟩, 1, 5⟩)] old = [new] ∧
    Text.startsWith new Diff.mark = false ∧ HasRead name (fieldNames cfg) new.toList

instance (name : String) (cfg : Settings) (old new : String) : Decidable (LeavesRead name cfg old new) :=
  inferInstanceAs (Decidable (_ ∧ _ ∧ _ ∧ _))

/-- A read is left where a field is empty, has a dot or a parenthesis, or the name of the cvar has a
parenthesis: in all of them a read can end in the call. -/
theorem reads_left_by_odd_names :
    LeavesRead "x" { intField := "" } "y = x->value;" "y = x.Get()value;" ∧
      LeavesRead "x" { floatField := "x.Get" } "y = x.x.integer;" "y = x.x.Get();" ∧
      LeavesRead "x" { intField := "at()", floatField := "Get()" } "y = x.at()z;" "y = x.Get()z;" ∧
      LeavesRead "Get()" {} "y = Get().integer.integer;" "y = Get().Get().integer;" := by
  decide +kernel

end Migration

end Cvar

end Upkeep
