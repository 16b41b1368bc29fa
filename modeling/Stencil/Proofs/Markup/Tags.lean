import Stencil.Proofs.Markup.Passing
import Stencil.Proofs.Partial.Registry

/-!
# Tags of partials around and inside a text

Two things are read here. One is an opening tag of a name. Where it closes itself the
scan for that name finds it and goes on behind it (`scanTags_emptyTag`); where a closing
tag follows a text without tags the scan finds all of that and nothing else
(`scanTags_invocation`). A scan for another name passes over both.

The other is a value, which stands in markup with its backslashes doubled. Every
`<` of a value is unescaped there, so the tags of the markup are those that the
value spells: `tagNames` and `hasTag` read them off the value itself.
-/

namespace Stencil.Markup

open Partial (isValidName isNameChar_of_valid)

/-! ## Names -/

theorem ne_of_isNameChar {c d : Char} (h : isNameChar c = true) (hd : isNameChar d = false) :
    c ≠ d := by
  rintro rfl
  rw [h] at hd
  exact Bool.noConfusion hd

theorem not_mem_of_valid {name : Text} (h : isValidName name = true) {d : Char}
    (hd : isNameChar d = false) : d ∉ name := by
  intro hmem
  exact ne_of_isNameChar (isNameChar_of_valid h hmem) hd rfl

theorem isBlank_of_isNameChar {c : Char} (h : isNameChar c = true) : Text.isBlank c = false := by
  have range : 45 ≤ c.toNat ∧ c.toNat ≤ 122 := by
    change ((((decide (65 ≤ c.val ∧ c.val ≤ 90) || (decide (97 ≤ c.val) && decide (c.val ≤ 122))) ||
      (decide (48 ≤ c.val) && decide (c.val ≤ 57))) || decide (c = '_')) || decide (c = '-')) =
      true at h
    simp only [Bool.or_eq_true, Bool.and_eq_true, decide_eq_true_eq, UInt32.le_iff_toNat_le] at h
    change ((((65 ≤ c.toNat ∧ c.toNat ≤ 90) ∨ (97 ≤ c.toNat ∧ c.toNat ≤ 122)) ∨
      (48 ≤ c.toNat ∧ c.toNat ≤ 57)) ∨ c = '_') ∨ c = '-' at h
    rcases h with (((h | h) | h) | rfl) | rfl
    · omega
    · omega
    · omega
    · decide
    · decide
  simp only [Text.isBlank, Text.blankRanges, List.any_cons, List.any_nil, Bool.or_false,
    Bool.or_eq_false_iff, Bool.and_eq_false_iff, decide_eq_false_iff_not]
  omega

/-- A tag name ends only before a character that is in no name. -/
theorem endsName_cons {c : Char} (h : isNameChar c = true) (t : Text) :
    endsName (c :: t) = false := by
  simp [endsName, isBlank_of_isNameChar h, ne_of_isNameChar h (d := '/') rfl,
    ne_of_isNameChar h (d := '>') rfl]

theorem takeWhile_name {name rest : Text} (h : isValidName name = true)
    (hrest : endsName rest = true) : (name ++ rest).takeWhile isNameChar = name := by
  rw [List.takeWhile_append_of_pos fun c hc => isNameChar_of_valid h hc]
  cases rest with
  | nil => simp
  | cons c rest =>
      cases hc : isNameChar c with
      | true => exact absurd hrest (by simp [endsName_cons hc])
      | false => simp [hc]

/-- A text starts with the tag name of at most one partial. -/
theorem eq_of_name_append {name other rest rest' : Text} (h : isValidName name = true)
    (ho : isValidName other = true) (hrest : endsName rest = true) (hrest' : endsName rest' = true)
    (heq : name ++ rest = other ++ rest') : name = other := by
  rw [← takeWhile_name h hrest, heq, takeWhile_name ho hrest']

/-! ## An opening tag -/

/-- An opening tag of a partial, with a text behind its name. -/
def openingTag (name attributes : Text) : Text :=
  '<' :: ('_' :: name ++ (attributes ++ ['>']))

/-- What can stand behind the name in a tag: the name ends before it, and the tag does not
end in it. -/
structure TagRest (attributes : Text) : Prop where
  ends : endsName (attributes ++ ['>']) = true
  free : Free '>' false attributes
  closed : pending false attributes = false

theorem tagRest_nil : TagRest [] := ⟨rfl, free_nil '>' false, rfl⟩

theorem tagRest_slash : TagRest ['/'] := ⟨rfl, free_of_not_mem (by decide) false, rfl⟩

theorem TagRest.endsName {attributes : Text} (h : TagRest attributes) (rest : Text) :
    endsName (attributes ++ '>' :: rest) = true := by
  have hends := h.ends
  cases attributes with
  | nil => rfl
  | cons c attributes => exact hends

theorem openingTag_append (name attributes rest : Text) :
    openingTag name attributes ++ rest = '<' :: ('_' :: name ++ (attributes ++ '>' :: rest)) := by
  simp [openingTag]

theorem pending_openingTag (name attributes : Text) :
    pending false (openingTag name attributes) = false := by
  have hsnoc : openingTag name attributes = '<' :: ('_' :: name ++ attributes) ++ ['>'] := by
    simp [openingTag]
  rw [hsnoc, pending_snoc_of_ne (by decide)]

/-- A tag name is passed over up to the end of its tag. -/
theorem free_tagName {name : Text} (h : isValidName name = true) {d : Char}
    (hd : isNameChar d = false) : Free d false ('_' :: name) :=
  free_of_not_mem (List.not_mem_cons_of_ne_of_not_mem (Ne.symm (ne_of_isNameChar rfl hd))
    (not_mem_of_valid h hd)) false

theorem pending_tagName {name : Text} (h : isValidName name = true) :
    pending false ('_' :: name) = false :=
  pending_of_no_backslash
    (List.not_mem_cons_of_ne_of_not_mem (by decide) (not_mem_of_valid h rfl))

theorem free_openingTag {name attributes : Text} (hname : isValidName name = true) {d : Char}
    (hd : isNameChar d = false) (hlt : d ≠ '<') (hgt : d ≠ '>')
    (hfree : Free d false attributes) (hclosed : pending false attributes = false) :
    Free d false (openingTag name attributes) := by
  rw [openingTag, free_cons, free_append, free_append, pendingAfter_of_ne (by decide),
    pending_tagName hname, hclosed]
  refine ⟨fun heq => absurd heq (Ne.symm hlt), free_tagName hname hd, hfree, ?_⟩
  exact free_of_not_mem (by simpa using hgt) false

theorem tagKind?_opening {name after : Text} (h : endsName after = true) :
    tagKind? (some ('_' :: name)) ('_' :: name ++ after) = some .opening := by
  have hdrop : Text.dropHead? ('_' :: name) ('_' :: name ++ after) = some after :=
    Text.dropHead?_eq_some_iff.2 rfl
  have hstart : startsName (some ('_' :: name)) ('_' :: name ++ after) = true := by
    rw [startsName, hdrop]
    exact h
  rw [List.cons_append] at hstart ⊢
  simp [tagKind?, hstart]

theorem startsName_of_opening {filter : Option Text} {after : Text}
    (h : tagKind? filter after = some .opening) : startsName filter after = true := by
  unfold tagKind? at h
  split at h
  · split at h <;> simp at h
  · simpa using h

theorem scanTagsFrom_step {filter : Option Text} {offset : Nat} {p q : TagPhase} {c : Char}
    {rest : Text} {r : Option Region} (h : p.step filter offset c rest = (q, r)) :
    scanTagsFrom filter false offset p (c :: rest) =
      (scanTagsFrom filter (pendingAfter false c) (offset + c.utf8Size) q rest).consOption r := by
  rw [scanTagsFrom, if_neg Bool.false_ne_true, h]

/-- A tag closes itself if the text behind its name ends with the mark for it; a name does
not end so. -/
theorem head?_reverse_tagName {name : Text} (h : isValidName name = true)
    (attributes before : Text) :
    ((('_' :: name) ++ attributes).reverse ++ before).head? = some '/' ↔
      attributes.getLast? = some '/' := by
  have hlast : ('_' :: name).getLast? ≠ some '/' := by
    intro heq
    have hmem := List.mem_of_getLast? heq
    exact absurd hmem
      (List.not_mem_cons_of_ne_of_not_mem (by decide) (not_mem_of_valid h rfl))
  obtain ⟨last, hsome⟩ : ∃ last, ('_' :: name).getLast? = some last :=
    ⟨_, List.getLast?_cons⟩
  rw [List.head?_append, List.head?_reverse, List.getLast?_append, hsome]
  rw [hsome] at hlast
  cases attributes.getLast? with
  | none => simpa using hlast
  | some c => simp

/-- **The scan for a name takes an opening tag of it**, and is between tags behind it, or
behind a fragment if the tag closes itself. -/
theorem scanTagsFrom_openingTag {name attributes : Text} (hname : isValidName name = true)
    (h : TagRest attributes) (offset : Nat) (gap rest : Text) :
    scanTagsFrom (some ('_' :: name)) false offset (.outside gap)
        (openingTag name attributes ++ rest) =
      if attributes.getLast? = some '/' then
        (scanTagsFrom (some ('_' :: name)) false
          (offset + Text.byteLength (openingTag name attributes)) (.outside []) rest).cons
            ⟨gap.reverse, openingTag name attributes,
              ⟨offset, offset + Text.byteLength (openingTag name attributes)⟩⟩
      else
        scanTagsFrom (some ('_' :: name)) false
          (offset + Text.byteLength (openingTag name attributes))
          (.between gap offset 1 (openingTag name attributes).reverse) rest := by
  have opens : (TagPhase.outside gap).step (some ('_' :: name)) offset '<'
      (('_' :: name ++ attributes) ++ '>' :: rest) = (.tag gap offset 0 .opening ['<'], none) := by
    simp only [List.append_assoc, TagPhase.step, tagKind?_opening (h.endsName rest)]
    rfl
  have hfree : Free '>' false ('_' :: name ++ attributes) := by
    rw [free_append, pending_tagName hname]
    exact ⟨free_tagName hname rfl, h.free⟩
  have hpend : pending false ('_' :: name ++ attributes) = false := by
    rw [pending_append, pending_tagName hname, h.closed]
  have hsize : offset + Text.byteLength (openingTag name attributes) =
      offset + Char.utf8Size '<' + Text.byteLength ('_' :: name ++ attributes) +
        Char.utf8Size '>' := by
    simp only [openingTag, List.cons_append, Text.byteLength_cons, Text.byteLength_append,
      Text.byteLength_nil]
    omega
  have hread : (openingTag name attributes).reverse =
      '>' :: (('_' :: name ++ attributes).reverse ++ ['<']) := by
    simp [openingTag]
  have hslash := head?_reverse_tagName hname attributes ['<']
  rw [openingTag_append, ← List.append_assoc, scanTagsFrom_step opens,
    pendingAfter_of_ne (by decide),
    scanTagsFrom_keeping (p := .tag gap offset 0 .opening ['<']) hfree, TagPhase.keepAll_tag,
    hpend, hsize, hread]
  split
  · next hlast =>
      rw [scanTagsFrom_step (q := .outside [])
        (r := some ⟨gap.reverse, openingTag name attributes, _⟩)]
      · rfl
      · simp only [TagPhase.step, depthAfter, if_pos (hslash.2 hlast), if_true]
        rw [← hread, List.reverse_reverse]
  · next hlast =>
      rw [scanTagsFrom_step (q := .between gap offset 1 _) (r := none)]
      · rfl
      · simp only [TagPhase.step, depthAfter, if_neg (fun hh => hlast (hslash.1 hh)), if_true]

/-- A scan for another name passes over an opening tag. -/
theorem untagged_openingTag {name other attributes rest : Text} (hname : isValidName name = true)
    (ho : isValidName other = true) (hne : other ≠ name) (h : TagRest attributes)
    (hfree : Free '<' false attributes) (hrest : Untagged (some ('_' :: other)) false rest) :
    Untagged (some ('_' :: other)) false (openingTag name attributes ++ rest) := by
  have not_opened : tagKind? (some ('_' :: other)) ('_' :: name ++ (attributes ++ '>' :: rest)) ≠
      some .opening := by
    intro hkind
    have hstart := startsName_of_opening hkind
    rw [startsName, Option.any_eq_true] at hstart
    obtain ⟨after, hdrop, hends⟩ := hstart
    have heq := Text.dropHead?_eq_some_iff.1 hdrop
    rw [List.cons_append, List.cons_append] at heq
    exact hne (eq_of_name_append ho hname hends (h.endsName rest) (List.cons.inj heq).2.symm)
  have hpassed : Free '<' false ('_' :: name ++ (attributes ++ ['>'])) := by
    rw [free_append, free_append, pending_tagName hname, h.closed]
    exact ⟨free_tagName hname rfl, hfree, free_of_not_mem (by decide) false⟩
  have hclosed : pending false ('_' :: name ++ (attributes ++ ['>'])) = false := by
    rw [← List.append_assoc, pending_snoc_of_ne (by decide)]
  rw [openingTag_append, untagged_cons, pendingAfter_of_ne (by decide)]
  refine ⟨fun _ _ => not_opened, ?_⟩
  rw [List.append_cons attributes, ← List.append_assoc]
  exact untagged_append_of_free hpassed (by rwa [hclosed])

/-! ## A tag that closes itself -/

/-- An invocation of a partial with nothing inside. -/
def emptyTag (name : Text) : Text :=
  openingTag name ['/']

/-- Behind a text without tags the scan for a name finds the tag, and goes on behind it. -/
theorem scanTags_emptyTag {name before rest : Text} (hname : isValidName name = true)
    (hfree : Free '<' false before) (hclosed : pending false before = false)
    (hrest : Untagged (some ('_' :: name)) false rest) :
    scanTags (some ('_' :: name)) (before ++ (emptyTag name ++ rest)) =
      ⟨[⟨before, emptyTag name,
        ⟨Text.byteLength before, Text.byteLength before + Text.byteLength (emptyTag name)⟩⟩],
        rest, none⟩ := by
  have hslash : ['/'].getLast? = some '/' := rfl
  rw [scanTags, scanTagsFrom_keeping (p := .outside []) hfree, TagPhase.keepAll_outside, hclosed,
    emptyTag, scanTagsFrom_openingTag hname tagRest_slash, if_pos hslash,
    scanTagsFrom_of_untagged hrest]
  simp [Scan.cons]

/-! ## A fragment around a text -/

/-- A closing tag of a partial. -/
def closingTag (name : Text) : Text :=
  '<' :: ('/' :: '_' :: name ++ ['>'])

/-- An invocation of a partial with a text behind its name and a text inside. -/
def invocation (name attributes inner : Text) : Text :=
  openingTag name attributes ++ (inner ++ closingTag name)

/-- An invocation of a partial with a text inside. -/
def enclose (name inner : Text) : Text :=
  '<' :: ('_' :: name ++ '>' :: (inner ++ '<' :: ('/' :: '_' :: name ++ ['>'])))

theorem enclose_eq (name inner : Text) : enclose name inner = invocation name [] inner := by
  simp [enclose, invocation, openingTag, closingTag]

theorem tagKind?_closing {name : Text} :
    tagKind? (some ('_' :: name)) ('/' :: '_' :: name ++ ['>']) = some .closing := by
  have hdrop : Text.dropHead? ('_' :: name) ('_' :: name ++ ['>']) = some ['>'] :=
    Text.dropHead?_eq_some_iff.2 rfl
  have hstart : startsName (some ('_' :: name)) ('_' :: name ++ ['>']) = true := by
    rw [startsName, hdrop]
    rfl
  rw [List.cons_append] at hstart ⊢
  simp [tagKind?, hstart]

theorem free_closingName {name : Text} (hname : isValidName name = true) {d : Char}
    (hd : isNameChar d = false) (hslash : d ≠ '/') : Free d false ('/' :: '_' :: name) :=
  free_cons.2 ⟨fun heq => absurd heq (Ne.symm hslash), free_tagName hname hd⟩

theorem pending_closingName {name : Text} (hname : isValidName name = true) :
    pending false ('/' :: '_' :: name) = false := by
  rw [pending_cons_of_ne (by decide), pending_tagName hname]

theorem free_closingTag {name : Text} (hname : isValidName name = true) {d : Char}
    (hd : isNameChar d = false) (hlt : d ≠ '<') (hgt : d ≠ '>') (hslash : d ≠ '/') :
    Free d false (closingTag name) := by
  rw [closingTag, free_cons, free_append, pendingAfter_of_ne (by decide),
    pending_closingName hname]
  exact ⟨fun heq => absurd heq (Ne.symm hlt), free_closingName hname hd hslash,
    free_of_not_mem (by simpa using hgt) false⟩

/-- The scan for a name takes the closing tag of the fragment that it is in. -/
theorem scanTagsFrom_closingTag {name inner : Text} (hname : isValidName name = true)
    (hfree : Free '<' false inner) (hpend : pending false inner = false) (offset : Nat)
    (body : Text) :
    scanTagsFrom (some ('_' :: name)) false offset (.between [] 0 1 body)
        (inner ++ closingTag name) =
      ⟨[⟨[], body.reverse ++ (inner ++ closingTag name),
        ⟨0, offset + Text.byteLength (inner ++ closingTag name)⟩⟩], [], none⟩ := by
  have closes : ∀ offset body, (TagPhase.between [] 0 1 body).step (some ('_' :: name)) offset '<'
      ('/' :: '_' :: name ++ ['>']) = (.tag [] 0 1 .closing ('<' :: body), none) := by
    intro offset body
    simp only [TagPhase.step, tagKind?_closing, if_true]
  have closed : ∀ offset body, (TagPhase.tag [] 0 1 .closing body).step (some ('_' :: name))
      offset '>' [] = (.outside [], some ⟨[], ('>' :: body).reverse, ⟨0, offset + 1⟩⟩) :=
    fun _ _ => rfl
  rw [scanTagsFrom_keeping (p := .between [] 0 1 _) hfree, TagPhase.keepAll_between, hpend,
    closingTag, scanTagsFrom_step (closes _ _), pendingAfter_of_ne (by decide),
    scanTagsFrom_keeping (p := .tag [] 0 1 .closing _)
      (free_closingName (d := '>') hname rfl (by decide)),
    TagPhase.keepAll_tag, pending_closingName hname, scanTagsFrom_step (closed _ _)]
  have hsize : Char.utf8Size '>' = 1 := rfl
  simp [scanTagsFrom, TagPhase.finish, Scan.consOption, Scan.cons]
  omega

/-- The scan for a name finds an invocation of it, unless its opening tag closes itself. -/
theorem scanTags_invocation {name attributes inner : Text} (hname : isValidName name = true)
    (h : TagRest attributes) (hslash : attributes.getLast? ≠ some '/')
    (hfree : Free '<' false inner) (hpend : pending false inner = false) :
    scanTags (some ('_' :: name)) (invocation name attributes inner) =
      ⟨[⟨[], invocation name attributes inner,
        ⟨0, Text.byteLength (invocation name attributes inner)⟩⟩], [], none⟩ := by
  rw [invocation, scanTags, scanTagsFrom_openingTag hname h, if_neg hslash,
    scanTagsFrom_closingTag hname hfree hpend, List.reverse_reverse]
  simp only [Text.byteLength_append, Nat.zero_add]

/-- A scan for another name passes over such a fragment. -/
theorem untagged_invocation {name other attributes inner : Text} (hname : isValidName name = true)
    (ho : isValidName other = true) (hne : other ≠ name) (h : TagRest attributes)
    (hattributes : Free '<' false attributes) (hfree : Free '<' false inner)
    (hpend : pending false inner = false) :
    Untagged (some ('_' :: other)) false (invocation name attributes inner) := by
  have not_opened : tagKind? (some ('_' :: other)) ('/' :: '_' :: name ++ ['>']) ≠
      some .opening := by
    rw [List.cons_append, tagKind?]
    split <;> simp
  have hclosing : Free '<' false ('/' :: '_' :: name ++ ['>']) := by
    rw [free_append, pending_closingName hname]
    exact ⟨free_closingName hname rfl (by decide), free_of_not_mem (by decide) false⟩
  refine untagged_openingTag hname ho hne h hattributes (untagged_append_of_free hfree ?_)
  rw [hpend, closingTag, untagged_cons, pendingAfter_of_ne (by decide)]
  exact ⟨fun _ _ => not_opened, untagged_of_free hclosing⟩

/-- An invocation around a text has the delimiters of the text, and those of its
tags. -/
theorem free_invocation {name attributes inner : Text} (hname : isValidName name = true)
    {d : Char} (hd : isNameChar d = false) (hlt : d ≠ '<') (hgt : d ≠ '>') (hslash : d ≠ '/')
    (hattributes : Free d false attributes) (hclosed : pending false attributes = false)
    (hfree : Free d false inner) (hpend : pending false inner = false) :
    Free d false (invocation name attributes inner) := by
  rw [invocation, free_append, free_append, pending_openingTag, hpend]
  exact ⟨free_openingTag hname hd hlt hgt hattributes hclosed, hfree,
    free_closingTag hname hd hlt hgt hslash⟩

/-! ## Tags that a value spells -/

/-- The names of the opening partial tags in a text in which nothing is escaped. -/
def tagNames : Text → List Text
  | [] => []
  | c :: rest =>
      if c = '<' then
        match invokedName? rest with
        | some name => name :: tagNames rest
        | none => tagNames rest
      else tagNames rest

/-- Whether an opening tag of a partial stands in a text in which nothing is
escaped: `<_name` with a blank, a `/` or a `>` after it. -/
def hasTag (name : Text) : Text → Bool
  | [] => false
  | c :: rest =>
      (c = '<' && (Text.dropHead? ('_' :: name) rest).any fun after => after ≠ [] && endsName after)
        || hasTag name rest

/-- A value in markup: with its backslashes doubled, before some text. -/
theorem dropHead?_escapeText_append {head : Text} (h : '\\' ∉ head) {d : Char} (hd : d ∉ head)
    (t s : Text) :
    Text.dropHead? head (escapeText t ++ d :: s) =
      (Text.dropHead? head t).map fun rest => escapeText rest ++ d :: s := by
  induction head generalizing t with
  | nil => simp [Text.dropHead?]
  | cons c head ih =>
      rw [List.mem_cons, not_or] at h hd
      cases t with
      | nil => simp [Text.dropHead?, Ne.symm hd.1]
      | cons e t =>
          by_cases hce : c = e
          · subst hce
            simp [Text.dropHead?, escapeText_cons, Ne.symm h.1, ih h.2 hd.2]
          · by_cases he : e = '\\'
            · subst he
              simp [Text.dropHead?, escapeText_cons, hce]
            · simp [Text.dropHead?, escapeText_cons, hce, he]

theorem takeWhile_escapeText_append {d : Char} (hd : isNameChar d = false) (t s : Text) :
    (escapeText t ++ d :: s).takeWhile isNameChar = t.takeWhile isNameChar := by
  induction t with
  | nil => simp [hd]
  | cons c t ih =>
      by_cases hc : c = '\\'
      · subst hc
        simp [escapeText_cons, show isNameChar '\\' = false from rfl]
      · simp [escapeText_cons, hc, List.takeWhile_cons, ih]

theorem invokedName?_of_ne {c : Char} (h : c ≠ '_') (t : Text) : invokedName? (c :: t) = none := by
  unfold invokedName?
  split
  · next heq => exact absurd (List.cons.inj heq).1 h
  · rfl

theorem invokedName?_escapeText_append {d : Char} (hd : isNameChar d = false) (t s : Text) :
    invokedName? (escapeText t ++ d :: s) = invokedName? t := by
  have not_letter : isLetter d = false := by
    rw [isNameChar, Char.isAlphanum, Bool.or_eq_false_iff, Bool.or_eq_false_iff,
      Bool.or_eq_false_iff] at hd
    exact hd.1.1.1
  cases t with
  | nil => exact invokedName?_of_ne (Ne.symm (ne_of_isNameChar rfl hd)) s
  | cons c t =>
      by_cases hc : c = '_'
      · subst hc
        cases t with
        | nil => simp [escapeText_cons, invokedName?, not_letter]
        | cons e t =>
            by_cases he : e = '\\'
            · subst he
              simp [escapeText_cons, invokedName?, show isLetter '\\' = false from rfl]
            · simp [escapeText_cons, invokedName?, he, takeWhile_escapeText_append hd]
      · rw [invokedName?_of_ne hc]
        by_cases hb : c = '\\'
        · subst hb
          rw [escapeText_cons, if_pos rfl, List.append_assoc, List.cons_append]
          exact invokedName?_of_ne (by decide) _
        · rw [escapeText_cons, if_neg hb, List.append_assoc, List.cons_append]
          exact invokedName?_of_ne hc _

/-- The tags of a value in markup are those that it spells, and they stand in it. -/
theorem partialInvocationsFrom_escapeText {d : Char} (hd : isNameChar d = false) (hlt : d ≠ '<')
    (t : Text) (offset : Nat) :
    (partialInvocationsFrom false offset (escapeText t ++ [d])).map PartialInvocation.name =
      tagNames t ∧
    ∀ i ∈ partialInvocationsFrom false offset (escapeText t ++ [d]),
      offset ≤ i.offset ∧ i.offset < offset + Text.byteLength (escapeText t) := by
  induction t generalizing offset with
  | nil => simp [partialInvocationsFrom, tagNames, hlt]
  | cons c t ih =>
      by_cases hb : c = '\\'
      · subst hb
        obtain ⟨hnames, hoffsets⟩ := ih (offset + 1 + 1)
        have step : partialInvocationsFrom false offset (escapeText ('\\' :: t) ++ [d]) =
            partialInvocationsFrom false (offset + 1 + 1) (escapeText t ++ [d]) := rfl
        rw [step]
        refine ⟨hnames, fun i hi => ?_⟩
        have hrange := hoffsets i hi
        have hsize : Text.byteLength (escapeText ('\\' :: t)) =
            1 + (1 + Text.byteLength (escapeText t)) := rfl
        omega
      · obtain ⟨hnames, hoffsets⟩ := ih (offset + c.utf8Size)
        have hsize : Text.byteLength (escapeText (c :: t)) =
            c.utf8Size + Text.byteLength (escapeText t) := by
          simp [escapeText_cons, hb]
        have hpos := c.utf8Size_pos
        have later : ∀ i ∈ partialInvocationsFrom false (offset + c.utf8Size) (escapeText t ++ [d]),
            offset ≤ i.offset ∧ i.offset < offset + Text.byteLength (escapeText (c :: t)) := by
          intro i hi
          have hrange := hoffsets i hi
          omega
        rw [show escapeText (c :: t) ++ [d] = c :: (escapeText t ++ [d]) by
          simp [escapeText_cons, hb], partialInvocationsFrom, tagNames, pendingAfter_of_ne hb]
        by_cases hc : c = '<'
        · subst hc
          rw [invokedName?_escapeText_append hd]
          cases invokedName? t with
          | none => exact ⟨hnames, later⟩
          | some name =>
              refine ⟨congrArg (name :: ·) hnames, fun i hi => ?_⟩
              rcases List.mem_cons.1 hi with rfl | hi
              · change offset ≤ offset ∧ offset < _
                omega
              · exact later i hi
        · simp only [hc, decide_false, Bool.false_and, Bool.false_eq_true, if_false]
          exact ⟨hnames, later⟩

theorem endsName_escapeText_append {d : Char} (hends : endsName [d] = false) (t : Text) :
    endsName (escapeText t ++ [d]) = (t ≠ [] && endsName t) := by
  cases t with
  | nil => simpa using hends
  | cons c t =>
      by_cases hb : c = '\\'
      · subst hb
        simp [escapeText_cons, endsName, show Text.isBlank '\\' = false from rfl]
      · simp [escapeText_cons, endsName, hb]

/-- No scan for a name finds a tag in a value that spells none. -/
theorem untagged_escapeText {name : Text} (hname : isValidName name = true) {d : Char}
    (hd : isNameChar d = false) (hends : endsName [d] = false) (hlt : d ≠ '<') {t : Text}
    (h : hasTag name t = false) :
    Untagged (some ('_' :: name)) false (escapeText t ++ [d]) := by
  induction t with
  | nil => exact untagged_of_free (free_of_not_mem (by simpa using Ne.symm hlt) false)
  | cons c t ih =>
      rw [hasTag, Bool.or_eq_false_iff] at h
      obtain ⟨hhere, hrest⟩ := h
      by_cases hb : c = '\\'
      · subst hb
        rw [escapeText_cons, if_pos rfl, List.append_assoc]
        refine untagged_append_of_free (free_of_not_mem (by decide) false) ?_
        exact ih hrest
      · rw [escapeText_cons, if_neg hb, List.append_assoc, List.singleton_append, untagged_cons]
        rw [pendingAfter_of_ne hb]
        refine ⟨?_, ih hrest⟩
        rintro rfl - hkind
        have hstart := startsName_of_opening hkind
        rw [startsName, dropHead?_escapeText_append (by simpa using not_mem_of_valid hname rfl)
          (List.not_mem_cons_of_ne_of_not_mem (Ne.symm (ne_of_isNameChar rfl hd))
            (not_mem_of_valid hname hd)), Option.any_map] at hstart
        simp only [endsName_escapeText_append hends] at hstart
        rw [hstart] at hhere
        exact absurd hhere (by simp)

end Stencil.Markup
