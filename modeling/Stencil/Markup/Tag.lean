import Stencil.Markup.Escape
import Stencil.Markup.Region
import Stencil.Text.Blank

/-!
# Tag fragments

A tag fragment runs from the `<` of an opening tag through the `>` that brings
the nesting depth back to zero. An opening tag adds one, a closing tag takes
one away, and a tag whose `>` follows a `/` adds nothing. A scan may look only
at the tags of one name; all others are plain text to it.

`tagKind?` decides what an unescaped `<` starts. `scanTags` finds the top-level
fragments, `fragmentAt?` asks for a fragment at the very start of a text, and
`partialInvocations` lists the tags `<_name` without regard to nesting.
-/

namespace Stencil.Markup

/-- What an unescaped `<` starts. -/
inductive TagKind where
  | opening
  | closing
deriving Repr, DecidableEq

def isLetter (c : Char) : Bool :=
  c.isAlpha

def isNameStart (c : Char) : Bool :=
  c.isAlpha || c = '_'

def isNameChar (c : Char) : Bool :=
  c.isAlphanum || c = '_' || c = '-'

/-- Whether a tag of the given name may end its name before this text: at the
end of the text, or before a blank, a `/` or a `>`. -/
def endsName : Text → Bool
  | [] => true
  | c :: _ => Text.isBlank c || c = '/' || c = '>'

/-- Whether a tag name that passes the filter stands at the start of the text. -/
def startsName (filter : Option Text) (t : Text) : Bool :=
  match filter with
  | none => t.head?.any isNameStart
  | some name => (Text.dropHead? name t).any endsName

/-- What a `<` starts when this text follows it, if it starts a tag that passes
the filter. -/
def tagKind? (filter : Option Text) (after : Text) : Option TagKind :=
  match after with
  | '/' :: name => if startsName filter name then some .closing else none
  | name => if startsName filter name then some .opening else none

/-- Where a scan for tags stands. Texts read so far are kept reversed. -/
inductive TagPhase where
  | outside (gap : Text)
  /-- In the fragment that opened at `start` with `depth` tags open, between the
  `<` of a tag and its `>`. -/
  | tag (gap : Text) (start depth : Nat) (kind : TagKind) (body : Text)
  /-- In the fragment that opened at `start`, between two of its tags. -/
  | between (gap : Text) (start depth : Nat) (body : Text)
deriving Repr, DecidableEq

/-- The depth after the `>` of a tag. `body` is the fragment before it,
reversed, so its head is the character before the `>`. -/
def depthAfter (kind : TagKind) (body : Text) (depth : Nat) : Nat :=
  match kind with
  | .closing => depth - 1
  | .opening => if body.head? = some '/' then depth else depth + 1

namespace TagPhase

def keep (c : Char) : TagPhase → TagPhase
  | outside gap => outside (c :: gap)
  | tag gap start depth kind body => tag gap start depth kind (c :: body)
  | between gap start depth body => between gap start depth (c :: body)

/-- The phase after the unescaped character `c` at byte `offset`, with the text
`rest` after it, and the fragment that it completes. -/
def step (filter : Option Text) (offset : Nat) (c : Char) (rest : Text) :
    TagPhase → TagPhase × Option Region
  | outside gap =>
      if c = '<' && tagKind? filter rest = some .opening then
        (tag gap offset 0 .opening [c], none)
      else (outside (c :: gap), none)
  | between gap start depth body =>
      match if c = '<' then tagKind? filter rest else none with
      | some kind => (tag gap start depth kind (c :: body), none)
      | none => (between gap start depth (c :: body), none)
  | tag gap start depth kind body =>
      if c = '>' then
        match depthAfter kind body depth with
        | 0 => (outside [],
            some ⟨gap.reverse, (c :: body).reverse, ⟨start, offset + c.utf8Size⟩⟩)
        | depth + 1 => (between gap start (depth + 1) (c :: body), none)
      else (tag gap start depth kind (c :: body), none)

def finish : TagPhase → Scan
  | outside gap => ⟨[], gap.reverse, none⟩
  | tag gap start _ _ body => ⟨[], gap.reverse ++ body.reverse, some start⟩
  | between gap start _ body => ⟨[], gap.reverse ++ body.reverse, some start⟩

end TagPhase

def scanTagsFrom (filter : Option Text) (escaped : Bool) (offset : Nat)
    (phase : TagPhase) : Text → Scan
  | [] => phase.finish
  | c :: rest =>
      let (phase, region) :=
        if escaped then (phase.keep c, none) else phase.step filter offset c rest
      (scanTagsFrom filter (pendingAfter escaped c) (offset + c.utf8Size)
        phase rest).consOption region

/-- The top-level balanced tag fragments, of every tag or of the tags of one
name. -/
def scanTags (filter : Option Text) (t : Text) : Scan :=
  scanTagsFrom filter false 0 (.outside []) t

/-- The fragment that stands at the very start of the text. -/
def fragmentAt? (t : Text) : Option Text :=
  match t with
  | '<' :: after =>
      if tagKind? none after = some .opening then
        match (scanTags none t).regions with
        | r :: _ => if r.span.start = 0 then some r.text else none
        | [] => none
      else none
  | _ => none

/-! ## Partial tags -/

/-- An opening tag `<_name`. -/
structure PartialInvocation where
  /-- The name without its leading underscore. -/
  name : Text
  offset : Nat
deriving Repr, DecidableEq

/-- The partial name that stands after a `<`, if `_` and a letter do. -/
def invokedName? : Text → Option Text
  | '_' :: c :: rest => if isLetter c then some (c :: rest.takeWhile isNameChar) else none
  | _ => none

def partialInvocationsFrom : (escaped : Bool) → (offset : Nat) → Text → List PartialInvocation
  | _, _, [] => []
  | escaped, offset, c :: rest =>
      let others := partialInvocationsFrom (pendingAfter escaped c) (offset + c.utf8Size) rest
      if c = '<' && !escaped then
        match invokedName? rest with
        | some name => ⟨name, offset⟩ :: others
        | none => others
      else others

/-- Every unescaped opening partial tag, from left to right. -/
def partialInvocations (t : Text) : List PartialInvocation :=
  partialInvocationsFrom false 0 t

end Stencil.Markup
