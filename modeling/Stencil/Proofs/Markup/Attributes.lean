import Stencil.Markup.Attribute
import Stencil.Proofs.Bindings
import Stencil.Proofs.Markup.Tags

/-!
# Attributes as they are written

An attribute is written behind blanks, as a name, `=`, and a text in quotes of which it has no
other (`Entry`). What is written so is read so, whatever the text in the quotes looks like: the
search for an attribute goes on behind its second quote (`attributesIn_entries`), and the opening
tag ends behind the last attribute if no `>` in a text has its meaning
(`attributeBindings_entries`). A value that is written with its backslashes doubled is bound as
it is (`attributes_recovered`).
-/

namespace Stencil.Markup

/-! ## Blanks and words -/

/-- No code point is both that of a blank and that of a word character. -/
theorem blankRanges_wordRanges : ∀ b ∈ Text.blankRanges, ∀ w ∈ Text.wordRanges,
    b.2 < w.1 ∨ w.2 < b.1 := by
  decide +kernel

theorem exists_of_inRanges {ranges : List (Nat × Nat)} {n : Nat}
    (h : Text.inRanges ranges n = true) : ∃ r ∈ ranges, r.1 ≤ n ∧ n ≤ r.2 := by
  unfold Text.inRanges at h
  split at h
  · next r hfind =>
      have hle := List.find?_some hfind
      exact ⟨r, List.mem_of_find?_eq_some hfind, of_decide_eq_true h, of_decide_eq_true hle⟩
  · cases h

theorem not_isWordChar_of_isBlank {c : Char} (h : Text.isBlank c = true) :
    Text.isWordChar c = false := by
  rw [Text.isBlank, List.any_eq_true] at h
  obtain ⟨b, hb, hin⟩ := h
  rw [Bool.and_eq_true, decide_eq_true_iff, decide_eq_true_iff] at hin
  rw [← Bool.not_eq_true]
  intro hword
  obtain ⟨w, hw, hin'⟩ := exists_of_inRanges hword
  have := blankRanges_wordRanges b hb w hw
  omega

theorem ne_of_isBlank {c d : Char} (h : Text.isBlank c = true) (hd : Text.isBlank d = false) :
    c ≠ d := by
  rintro rfl
  rw [h] at hd
  cases hd

/-! ## Reading one attribute -/

theorem splitAt?_append {c : Char} {s : Text} (h : c ∉ s) (t : Text) :
    splitAt? c (s ++ c :: t) = some (s, t) := by
  induction s with
  | nil => simp [splitAt?]
  | cons d s ih =>
      rw [List.mem_cons, not_or] at h
      simp [splitAt?, Ne.symm h.1, ih h.2]

/-- A name of word characters and a text in quotes are an attribute. -/
theorem takeAttribute?_of_word {blank quote : Char} {name raw : Text}
    (hblank : Text.isBlank blank = true) (hquote : quote = '"' ∨ quote = '\'') (hne : name ≠ [])
    (hname : ∀ c ∈ name, Text.isWordChar c = true) (h : quote ∉ raw) (rest : Text) :
    takeAttribute? (blank :: (name ++ '=' :: quote :: (raw ++ quote :: rest))) =
      some (⟨name, raw⟩, rest) := by
  have hstop : Text.isWordChar '=' = false := by decide
  have hhead :
      (name ++ '=' :: quote :: (raw ++ quote :: rest)).head?.any Text.isWordChar = true := by
    cases name with
    | nil => exact absurd rfl hne
    | cons c name => exact hname c List.mem_cons_self
  have htake :
      (name ++ '=' :: quote :: (raw ++ quote :: rest)).takeWhile Text.isWordChar = name := by
    rw [List.takeWhile_append_of_pos hname, List.takeWhile_cons_of_neg (by simp [hstop]),
      List.append_nil]
  have hdrop : (name ++ '=' :: quote :: (raw ++ quote :: rest)).dropWhile Text.isWordChar =
      '=' :: quote :: (raw ++ quote :: rest) := by
    rw [List.dropWhile_append_of_pos hname, List.dropWhile_cons_of_neg (by simp [hstop])]
  have hquoted : takeQuoted? (quote :: (raw ++ quote :: rest)) = some (raw, rest) := by
    have hany : (decide (quote = '"') || decide (quote = '\'')) = true := by
      rcases hquote with rfl | rfl <;> rfl
    rw [takeQuoted?, if_pos hany, splitAt?_append h]
  rw [takeAttribute?, hblank, hhead, Bool.and_self, if_pos rfl, hdrop]
  simp only [hquoted, htake, Option.map_some]

/-- No attribute starts before what is no word character. -/
theorem takeAttribute?_eq_none {c : Char} {t : Text}
    (h : t.head?.any Text.isWordChar = false) : takeAttribute? (c :: t) = none := by
  rw [takeAttribute?, h, Bool.and_false]
  rfl

theorem attributesIn_of_take {c : Char} {t after : Text} {a : Attribute}
    (h : takeAttribute? (c :: t) = some (a, after)) :
    attributesIn (c :: t) = a :: attributesIn after := by
  rw [attributesIn]
  split
  · next heq =>
      obtain ⟨rfl, rfl⟩ := Prod.mk.inj (Option.some.inj (heq.symm.trans h))
      rfl
  · next heq => exact absurd (heq.symm.trans h) (by simp)

theorem attributesIn_of_none {c : Char} {t : Text} (h : takeAttribute? (c :: t) = none) :
    attributesIn (c :: t) = attributesIn t := by
  rw [attributesIn]
  split
  · next heq => exact absurd (h.symm.trans heq) (by simp)
  · rfl

/-- No attribute starts in a text without blanks. -/
theorem attributesIn_append_of_no_blank {s : Text} (h : ∀ c ∈ s, Text.isBlank c = false)
    (t : Text) : attributesIn (s ++ t) = attributesIn t := by
  induction s with
  | nil => rfl
  | cons c s ih =>
      have hnone : takeAttribute? (c :: (s ++ t)) = none := by
        simp [takeAttribute?, h c List.mem_cons_self]
      rw [List.cons_append, attributesIn_of_none hnone]
      exact ih fun d hd => h d (List.mem_cons_of_mem c hd)

/-- Of several blanks an attribute starts at the last. -/
theorem attributesIn_append_of_blank {s t : Text} (h : ∀ c ∈ s, Text.isBlank c = true)
    (ht : t.head?.any Text.isWordChar = false) : attributesIn (s ++ t) = attributesIn t := by
  induction s with
  | nil => rfl
  | cons c s ih =>
      rw [List.forall_mem_cons] at h
      have hhead : (s ++ t).head?.any Text.isWordChar = false := by
        cases s with
        | nil => exact ht
        | cons d s => exact not_isWordChar_of_isBlank (h.2 d List.mem_cons_self)
      rw [List.cons_append, attributesIn_of_none (takeAttribute?_eq_none hhead)]
      exact ih h.2

/-! ## Entries -/

/-- An attribute with the blanks before it and the quotes around its text. -/
structure Entry extends Attribute where
  blanks : Text
  quote : Char
  blanks_ne : blanks ≠ []
  isBlank : ∀ c ∈ blanks, Text.isBlank c = true
  name_ne : name ≠ []
  isWordChar : ∀ c ∈ name, Text.isWordChar c = true
  isQuote : quote = '"' ∨ quote = '\''
  not_mem : quote ∉ raw

/-- What can stand before the `>` of a tag behind its attributes. -/
inductive Ending : Text → Prop
  | blanks {t : Text} (h : ∀ c ∈ t, Text.isBlank c = true) : Ending t
  | slash {t : Text} (h : ∀ c ∈ t, Text.isBlank c = true) : Ending (t ++ ['/'])

namespace Entry

/-- The text of an attribute in a tag. -/
def text (e : Entry) : Text :=
  e.blanks ++ (e.name ++ '=' :: e.quote :: (e.raw ++ [e.quote]))

/-- The value that an attribute is to bind. -/
def meaning (e : Entry) : Json :=
  match Json.read? (unescape e.raw) with
  | some v => v
  | none => .string (unescape e.raw)

/-- The attribute with another text in its quotes, in which backslashes are doubled. -/
def withText (e : Entry) (v : Text) (h : e.quote ∉ v) : Entry :=
  { e with raw := escapeText v, not_mem := mt mem_escapeText.1 h }

end Entry

/-- The text of attributes in a tag. -/
def entriesText (entries : List Entry) : Text :=
  entries.flatMap Entry.text

section Entry

variable (e : Entry)

theorem Entry.value_eq : e.value = e.meaning := by
  rw [Attribute.value, meaning]
  cases Json.read? (unescape e.raw) <;> rfl

theorem attributesIn_entry (t : Text) :
    attributesIn (e.text ++ t) = e.toAttribute :: attributesIn t := by
  obtain ⟨blanks, blank, hlast⟩ : ∃ blanks blank, e.blanks = blanks ++ [blank] :=
    ⟨_, _, (List.dropLast_append_getLast e.blanks_ne).symm⟩
  have hblanks := e.isBlank
  rw [hlast, List.forall_mem_append, List.forall_mem_singleton] at hblanks
  have htext : e.text ++ t =
      blanks ++ blank :: (e.name ++ '=' :: e.quote :: (e.raw ++ e.quote :: t)) := by
    simp [Entry.text, hlast]
  have htake := takeAttribute?_of_word hblanks.2 e.isQuote e.name_ne e.isWordChar e.not_mem t
  rw [htext, attributesIn_append_of_blank hblanks.1 (t := blank :: _)
    (not_isWordChar_of_isBlank hblanks.2), attributesIn_of_take htake]

end Entry

theorem attributesIn_ending {t : Text} (h : Ending t) : attributesIn t = [] := by
  have hslash : attributesIn ['/'] = [] := by
    rw [attributesIn_of_none (takeAttribute?_eq_none rfl), attributesIn]
  cases h with
  | blanks h =>
      have := attributesIn_append_of_blank h (t := []) rfl
      rwa [List.append_nil, attributesIn] at this
  | slash h => rw [attributesIn_append_of_blank h (by decide), hslash]

/-- **The attributes that are read are those that are written.** -/
theorem attributesIn_entries (entries : List Entry) {ending : Text} (h : Ending ending) :
    attributesIn (entriesText entries ++ ending) = entries.map Entry.toAttribute := by
  induction entries with
  | nil => exact attributesIn_ending h
  | cons e entries ih =>
      rw [entriesText, List.flatMap_cons, List.append_assoc, attributesIn_entry, List.map_cons]
      exact congrArg (e.toAttribute :: ·) ih

/-! ## The end of the tag -/

namespace Entry

variable (e : Entry)

/-- What stands before the text in the quotes, and what behind it. -/
theorem text_eq_append :
    e.text = ((e.blanks ++ (e.name ++ ['='])) ++ [e.quote]) ++ (e.raw ++ [e.quote]) := by
  simp [text]

theorem quote_ne {c : Char} (h : c ≠ '"') (h' : c ≠ '\'') : e.quote ≠ c := by
  rcases e.isQuote with hq | hq <;> rw [hq]
  · exact h.symm
  · exact h'.symm

theorem pending_text (escaped : Bool) : pending escaped e.text = false := by
  rw [text_eq_append, ← List.append_assoc]
  exact pending_snoc_of_ne (e.quote_ne (by decide) (by decide)) _ _

/-- No backslash of the text in the quotes is about anything outside. -/
theorem free_text_iff : Free '>' false e.text ↔ Free '>' false e.raw := by
  have hblank : '>' ∉ e.blanks := fun hmem => ne_of_isBlank (e.isBlank _ hmem) (by decide) rfl
  have hword : '>' ∉ e.name := by
    intro hmem
    have hgreater : Text.isWordChar '>' = false := by decide
    rw [e.isWordChar _ hmem] at hgreater
    cases hgreater
  have hquote : e.quote ≠ '>' := e.quote_ne (by decide) (by decide)
  have hbefore : '>' ∉ (e.blanks ++ (e.name ++ ['='])) ++ [e.quote] := by
    simp [hblank, hword, hquote.symm]
  have hbehind : '>' ∉ [e.quote] := by simp [hquote.symm]
  rw [text_eq_append, free_append, pending_snoc_of_ne (e.quote_ne (by decide) (by decide)),
    free_append (s := e.raw)]
  exact ⟨fun h => h.2.1, fun h => ⟨free_of_not_mem hbefore _, h, free_of_not_mem hbehind _⟩⟩

end Entry

theorem pending_entriesText (entries : List Entry) :
    pending false (entriesText entries) = false := by
  induction entries with
  | nil => rfl
  | cons e entries ih =>
      rw [entriesText, List.flatMap_cons, pending_append, e.pending_text]
      exact ih

theorem free_entriesText_iff (entries : List Entry) :
    Free '>' false (entriesText entries) ↔ ∀ e ∈ entries, Free '>' false e.raw := by
  induction entries with
  | nil => exact iff_of_true (free_nil _ _) nofun
  | cons e entries ih =>
      rw [entriesText, List.flatMap_cons, free_append, e.pending_text, e.free_text_iff,
        List.forall_mem_cons]
      exact and_congr Iff.rfl ih

theorem Ending.not_mem {t : Text} (h : Ending t) {c : Char} (hc : Text.isBlank c = false)
    (hne : c ≠ '/') : c ∉ t := by
  have hnot : ∀ s : Text, (∀ d ∈ s, Text.isBlank d = true) → c ∉ s := fun s hs hmem =>
    ne_of_isBlank (hs c hmem) hc rfl
  cases h with
  | blanks h => exact hnot _ h
  | slash h => simp [hnot _ h, hne]

theorem pending_attributes (entries : List Entry) {ending : Text} (h : Ending ending) :
    pending false (entriesText entries ++ ending) = false := by
  rw [pending_append, pending_entriesText,
    pending_of_no_backslash (h.not_mem (by decide) (by decide))]

/-- The text of a tag before its `>`. -/
def tagHead (name attributes : Text) : Text :=
  '<' :: '_' :: name ++ attributes

/-- An opening tag ends at the first `>` that has its meaning. -/
theorem splitFirst?_tagHead {name attributes : Text}
    (hfree : Free '>' false (tagHead name attributes))
    (hpend : pending false (tagHead name attributes) = false) (rest : Text) :
    splitFirst? '>' false (openingTag name attributes ++ rest) =
      some (tagHead name attributes, rest) := by
  have htext : openingTag name attributes ++ rest = tagHead name attributes ++ '>' :: rest := by
    simp [openingTag, tagHead]
  rw [htext, splitFirst?_of_free hfree hpend]

section Head

variable {name : Text} (hname : ∀ c ∈ name, isNameChar c = true)
include hname

theorem not_mem_tagName {c : Char} (hc : isNameChar c = false) (hne : c ≠ '<') :
    c ∉ '<' :: '_' :: name := by
  have hunderscore : c ≠ '_' := by
    rintro rfl
    cases hc
  have hnot : c ∉ name := fun hmem => ne_of_isNameChar (hname c hmem) hc rfl
  simp [hne, hunderscore, hnot]

theorem no_blank_tagName : ∀ c ∈ '<' :: '_' :: name, Text.isBlank c = false := by
  simp only [List.forall_mem_cons]
  exact ⟨by decide, by decide, fun c hc => isBlank_of_isNameChar (hname c hc)⟩

/-- Nothing in the name of a tag escapes anything. -/
theorem pending_tagHead (attributes : Text) :
    pending false (tagHead name attributes) = pending false attributes := by
  rw [tagHead, pending_append,
    pending_of_no_backslash (not_mem_tagName hname (by decide) (by decide))]

theorem free_tagHead_iff {attributes : Text} :
    Free '>' false (tagHead name attributes) ↔ Free '>' false attributes := by
  rw [tagHead, free_append,
    pending_of_no_backslash (not_mem_tagName hname (by decide) (by decide))]
  exact and_iff_right (free_of_not_mem (not_mem_tagName hname (by decide) (by decide)) false)

/-- The attributes of a fragment are those behind the name in its opening tag. -/
theorem attributeBindings_tagHead {attributes : Text} (hfree : Free '>' false attributes)
    (hpend : pending false attributes = false) (rest : Text) :
    attributeBindings (openingTag name attributes ++ rest) =
      Bindings.ofList ((attributesIn attributes).map fun a => (a.name, a.value)) := by
  have hsplit := splitFirst?_tagHead ((free_tagHead_iff hname).2 hfree)
    ((pending_tagHead hname attributes).trans hpend) rest
  rw [attributeBindings, openingSegment, hsplit, Option.map_some, Option.getD_some, tagHead,
    attributesIn_append_of_no_blank (no_blank_tagName hname)]

variable {ending : Text} (hending : Ending ending)
include hending

/-- A `>` that ends the tag too early is in one of the texts. -/
theorem free_entries_iff (entries : List Entry) :
    Free '>' false (tagHead name (entriesText entries ++ ending)) ↔
      ∀ e ∈ entries, Free '>' false e.raw := by
  have hbehind := hending.not_mem (c := '>') (by decide) (by decide)
  rw [free_tagHead_iff hname, free_append, free_entriesText_iff]
  exact and_iff_left (free_of_not_mem hbehind _)

/-- **What is bound is what is written.** -/
theorem attributeBindings_entries {entries : List Entry}
    (hfree : Free '>' false (tagHead name (entriesText entries ++ ending))) (rest : Text) :
    attributeBindings (openingTag name (entriesText entries ++ ending) ++ rest) =
      Bindings.ofList (entries.map fun e => (e.name, e.meaning)) := by
  rw [attributeBindings_tagHead hname ((free_tagHead_iff hname).1 hfree)
    (pending_attributes entries hending), attributesIn_entries entries hending, List.map_map]
  simp only [Function.comp_def, Entry.value_eq]

end Head

/-- What bindings are those of attributes from left to right. -/
structure Recovers (entries : List Entry) (bs : Bindings Json) : Prop where
  inserted : bs = Bindings.ofList (entries.map fun e => (e.name, e.meaning))
  /-- A name has its first place, and nothing else is bound. -/
  names : bs.names = (entries.map fun e => e.name).eraseDups
  /-- A name has its last value. -/
  last : ∀ name, bs.get? name = (entries.reverse.find? fun e => e.name = name).map Entry.meaning

theorem recovers_ofList (entries : List Entry) :
    Recovers entries (Bindings.ofList (entries.map fun e => (e.name, e.meaning))) where
  inserted := rfl
  names := by
    rw [Bindings.names_ofList, List.map_map]
    rfl
  last name := by
    rw [Bindings.get?_ofList, ← List.map_reverse,
      Bindings.get?_map_eq_find? (fun e : Entry => e.name) Entry.meaning]

/-- A text that is no JSON is the value of its escaped form. -/
theorem Entry.meaning_withText (e : Entry) {v : Text} (hquote : e.quote ∉ v)
    (hjson : Json.read? v = none) : (e.withText v hquote).meaning = .string v := by
  rw [meaning, withText]
  dsimp only
  rw [unescape_escapeText, hjson]

/-- JSON does not start with a backslash. -/
theorem read?_backslash (t : Text) : Json.read? ('\\' :: t) = none := by
  have hvalue : Json.readValue Json.nestingLimit ⟨'\\' :: t, 0⟩ =
      Json.failNext .expectedValue ⟨'\\' :: t, 0⟩ := by
    unfold Json.readValue
    rfl
  have hread : Json.readAll ('\\' :: t) = .error (.expectedValue, 1) := by
    rw [Json.readAll, hvalue]
    rfl
  rw [Json.read?, Json.read, hread]
  rfl

/-- **Attributes are recovered from a tag.** If no `>` before that of the tag has its meaning, the
attributes are bound from left to right. A value without `>` that is no JSON is bound as it is
wherever it is put with its backslashes doubled. -/
theorem attributes_recovered {name : Text} (hname : ∀ c ∈ name, isNameChar c = true)
    {ending : Text} (hending : Ending ending) (rest : Text) :
    (∀ entries, Free '>' false (tagHead name (entriesText entries ++ ending)) →
      Recovers entries
        (attributeBindings (openingTag name (entriesText entries ++ ending) ++ rest))) ∧
    ∀ before after (e : Entry) v (hquote : e.quote ∉ v), '>' ∉ v → Json.read? v = none →
      Free '>' false (tagHead name (entriesText (before ++ after) ++ ending)) →
      attributeBindings (openingTag name
          (entriesText (before ++ e.withText v hquote :: after) ++ ending) ++ rest) =
        Bindings.ofList (before.map (fun e => (e.name, e.meaning)) ++
          (e.name, .string v) :: after.map fun e => (e.name, e.meaning)) := by
  refine ⟨fun entries hfree => ?_, fun before after e v hquote hgreater hjson hfree => ?_⟩
  · rw [attributeBindings_entries hname hending hfree]
    exact recovers_ofList entries
  · have hraw : Free '>' false (e.withText v hquote).raw :=
      free_of_not_mem (mt mem_escapeText.1 hgreater) false
    rw [free_entries_iff hname hending, List.forall_mem_append] at hfree
    have hwhole : Free '>' false
        (tagHead name (entriesText (before ++ e.withText v hquote :: after) ++ ending)) := by
      rw [free_entries_iff hname hending, List.forall_mem_append, List.forall_mem_cons]
      exact ⟨hfree.1, hraw, hfree.2⟩
    rw [attributeBindings_entries hname hending hwhole, List.map_append, List.map_cons,
      e.meaning_withText hquote hjson]
    rfl

/-- An attribute whose text looks like a tag with an attribute of the same name. -/
def nestedEntry : Entry where
  name := ['b']
  raw := "<a b=\"1\"\\>".toList
  blanks := "\n ".toList
  quote := '\''
  blanks_ne := by decide
  isBlank := List.all_eq_true.1 (by decide)
  name_ne := by decide
  isWordChar := List.all_eq_true.1 (by decide)
  isQuote := by decide
  not_mem := by decide

/-- The text is one value, and a second value of the name is put behind it. -/
theorem attributes_recovered_nested :
    Recovers [nestedEntry] (attributeBindings "<_box\n b='<a b=\"1\"\\>' />x".toList) ∧
    attributeBindings "<_box\n b='<a b=\"1\"\\>'\n b='\\\\x' />x".toList =
      Bindings.ofList [(['b'], nestedEntry.meaning), (['b'], .string "\\x".toList)] := by
  have hname : "box".toList.all isNameChar = true := by decide
  have hending : Ending ([' '] ++ ['/']) := .slash (List.all_eq_true.1 (by decide))
  obtain ⟨hrecovers, hvalue⟩ := attributes_recovered (List.all_eq_true.1 hname) hending ['x']
  exact ⟨hrecovers [nestedEntry] (by decide), hvalue [nestedEntry] [] nestedEntry "\\x".toList
    (by decide) (by decide) (read?_backslash _) (by decide)⟩

end Stencil.Markup
