import Stencil.Markup.Escape
import Stencil.Json.Reader
import Stencil.Text.Blank
import Stencil.Text.Word

/-!
# Attributes of a tag

An attribute is a blank, a name of word characters, `=`, and a text in double or
single quotes, which ends at the next such quote. Anything between attributes is
passed over. The value is the JSON value of the unescaped text, or that text
itself if it is no JSON.
-/

namespace Stencil.Markup

structure Attribute where
  name : Text
  /-- The text between the quotes. -/
  raw : Text
deriving Repr, DecidableEq

/-- The text before the first character like this one, and the text after it. -/
def splitAt? (target : Char) : Text → Option (Text × Text)
  | [] => none
  | c :: t =>
      if c = target then some ([], t)
      else (splitAt? target t).map fun p => (c :: p.1, p.2)

def takeQuoted? : Text → Option (Text × Text)
  | [] => none
  | c :: t => if c = '"' || c = '\'' then splitAt? c t else none

def takeAttribute? : Text → Option (Attribute × Text)
  | [] => none
  | c :: t =>
      if Text.isBlank c && t.head?.any Text.isWordChar then
        match t.dropWhile Text.isWordChar with
        | '=' :: value =>
            (takeQuoted? value).map fun p => (⟨t.takeWhile Text.isWordChar, p.1⟩, p.2)
        | _ => none
      else none

theorem splitAt?_length {target : Char} {t before after : Text}
    (h : splitAt? target t = some (before, after)) : after.length < t.length := by
  induction t generalizing before with
  | nil => simp [splitAt?] at h
  | cons c t ih =>
      by_cases hc : c = target
      · simp only [splitAt?, hc, if_pos, Option.some.injEq, Prod.mk.injEq] at h
        simp [h.2]
      · simp only [splitAt?, hc, if_neg, not_false_eq_true, Option.map_eq_some_iff] at h
        obtain ⟨p, hp, e⟩ := h
        obtain ⟨-, rfl⟩ := Prod.mk.inj e
        exact Nat.lt_succ_of_lt (ih hp)

theorem takeQuoted?_length {t raw after : Text} (h : takeQuoted? t = some (raw, after)) :
    after.length < t.length := by
  cases t with
  | nil => simp [takeQuoted?] at h
  | cons c t =>
      simp only [takeQuoted?] at h
      split at h
      · exact Nat.lt_succ_of_lt (splitAt?_length h)
      · simp at h

theorem takeAttribute?_length {t after : Text} {a : Attribute}
    (h : takeAttribute? t = some (a, after)) : after.length < t.length := by
  cases t with
  | nil => simp [takeAttribute?] at h
  | cons c t =>
      simp only [takeAttribute?] at h
      split at h
      · split at h
        · rename_i value hv
          obtain ⟨p, hp, e⟩ := Option.map_eq_some_iff.1 h
          obtain ⟨-, rfl⟩ := Prod.mk.inj e
          have h1 := takeQuoted?_length hp
          have h2 := (List.dropWhile_suffix (l := t) Text.isWordChar).length_le
          rw [hv] at h2
          simp only [List.length_cons] at h2 ⊢
          omega
        · simp at h
      · simp at h

def attributesIn (t : Text) : List Attribute :=
  match t with
  | [] => []
  | c :: rest =>
      match _h : takeAttribute? (c :: rest) with
      | some (a, after) => a :: attributesIn after
      | none => attributesIn rest
termination_by t.length
decreasing_by
  · exact takeAttribute?_length _h
  · simp

def Attribute.value (a : Attribute) : Json :=
  let t := unescape a.raw
  (Json.read? t).getD (.string t)

/-- The text of a fragment before the first unescaped `>`. -/
def openingSegment (fragment : Text) : Text :=
  ((splitFirst? '>' false fragment).map Prod.fst).getD fragment

/-- The bindings of the attributes on the opening tag of a fragment. -/
def attributeBindings (fragment : Text) : Bindings Json :=
  Bindings.ofList ((attributesIn (openingSegment fragment)).map fun a => (a.name, a.value))

end Stencil.Markup
