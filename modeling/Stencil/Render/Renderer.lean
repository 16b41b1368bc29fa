import Stencil.Config
import Stencil.Context.Digest
import Stencil.Expr.Evaluator
import Stencil.Markup.Brace
import Stencil.Memo
import Stencil.Partial.Invocation
import Stencil.Partial.Registry
import Stencil.Render.Error
import Stencil.Render.SourceMap

/-!
# Rendering

A text is rendered in two passes. The first puts the value of every expression
in its place, with backslashes doubled. The second looks for invocations of each
registered partial in turn and puts the rendered body in the place of each, in
rounds, until a round finds none. Escapes stay in the text all along and are
resolved once, at the end.

The body of a partial is rendered the same way in the context of its invocation.
The passes do not know how: they are given what an invocation gives. `renderText`
closes the knot and recurs on the *room* left, which is how many more partials may
nest; invoking a partial without room, or one that is being rendered with the same
bindings already, is a cycle.
-/

namespace Stencil.Render

open Partial (Registry)

structure Setting where
  registry : Registry
  config : Config

/-- A partial that is being rendered, and the digest of its context. -/
structure Entry where
  name : Text
  digest : UInt64
deriving Repr, DecidableEq

structure Scope where
  context : Context
  digest : UInt64
  origin : Origin
  /-- The partials being rendered, outermost first. -/
  stack : List Entry

abbrev Inner := Scope → (body : Text) → Except RenderError Text

/-- What the invocation of a partial by a fragment gives. -/
abbrev Invoke := (name body fragment : Text) → Except RenderError Text

/-- Fails at a region that opened at an offset and never closed, if there is
one and malformed markup fails. -/
def checkTerminated (config : Config) (kind : RegionKind) (origin : Origin)
    (offset : Option Nat) : Except RenderError Unit :=
  match offset with
  | some k => if config.isStrict then .error (.unterminated kind k origin) else .ok ()
  | none => .ok ()

/-- The markup that stands for an expression region. -/
def regionText (setting : Setting) (globals : Expr.Globals) (origin : Origin)
    (r : Markup.Region) : Except RenderError Text :=
  match Expr.evaluateText globals setting.config.limits r.text with
  | .ok t => .ok (Markup.escapeText t)
  | .error e => .error (.expression r.text r.span.start origin e)

def expressionPass (setting : Setting) (scope : Scope) (t : Text) : Except RenderError Draft := do
  let scan := Markup.scanExpressions t
  checkTerminated setting.config .expression scope.origin scan.unterminated
  let globals := Expr.Globals.within scope.context
  let outputs ←
    mapDistinct Markup.Region.text (regionText setting globals scope.origin) scan.regions
  return (Draft.ofSource t).replace scan outputs

def Scope.enter (scope : Scope) (name fragment : Text) : Scope :=
  let bindings := Partial.invocationBindings fragment
  let digest := scope.context.overlaidDigest scope.digest bindings
  { context := Bindings.overlay scope.context bindings
    digest
    origin := .body name
    stack := scope.stack ++ [⟨name, digest⟩] }

def Scope.cycle (entered : Scope) : RenderError :=
  .cyclic (entered.stack.map Entry.name)

/-- The rendered body of a partial for an invocation, unless the partial is
being rendered with the same bindings already. -/
def invoke (inner : Inner) (scope : Scope) : Invoke := fun name body fragment =>
  let entered := scope.enter name fragment
  if scope.stack.contains ⟨name, entered.digest⟩ then .error entered.cycle
  else inner entered body

def tagName (name : Text) : Text :=
  '_' :: name

/-- Puts the rendered body of a partial in the place of its invocations; none if
there is no invocation. -/
def expand? (setting : Setting) (invoke : Invoke) (origin : Origin) (name body : Text)
    (draft : Draft) : Except RenderError (Option Draft) := do
  let scan := Markup.scanTags (some (tagName name)) draft.text
  checkTerminated setting.config .tag origin (scan.unterminated.map draft.map.toSource)
  if scan.regions = [] then return none
  let outputs ← mapDistinct Markup.Region.text (fun r => invoke name body r.text) scan.regions
  return some (draft.replace scan outputs)

/-- Looks for invocations of one partial, after others of which some may have had
any. -/
def expandNext (setting : Setting) (invoke : Invoke) (origin : Origin) (state : Draft × Bool)
    (p : Text × Text) : Except RenderError (Draft × Bool) := do
  match ← expand? setting invoke origin p.1 p.2 state.1 with
  | some draft => return (draft, true)
  | none => return state

/-- Looks for invocations of each partial in turn, and tells whether there were
any. -/
def expandRound (setting : Setting) (invoke : Invoke) (origin : Origin) (draft : Draft) :
    Except RenderError (Draft × Bool) :=
  setting.registry.foldlM (expandNext setting invoke origin) (draft, false)

/-- Runs rounds until one finds no invocation, at most so many. -/
def expandRounds (setting : Setting) (invoke : Invoke) (origin : Origin) :
    (rounds : Nat) → Draft → Except RenderError Draft
  | 0, draft => .ok draft
  | rounds + 1, draft => do
      let (draft, found) ← expandRound setting invoke origin draft
      if found then expandRounds setting invoke origin rounds draft else return draft

/-- Fails at the first tag of a partial that is not registered, if malformed
markup fails. -/
def checkKnown (setting : Setting) (origin : Origin) (draft : Draft) : Except RenderError Unit :=
  let unknown := (Markup.partialInvocations draft.text).find? fun i =>
    !Bindings.contains setting.registry i.name
  match unknown with
  | some i =>
      if setting.config.isStrict then
        .error (.unknownPartial i.name (draft.map.toSource i.offset) origin)
      else .ok ()
  | none => .ok ()

/-- Renders a text with its escapes left in it, given what invocations give. -/
def renderPasses (setting : Setting) (invoke : Invoke) (scope : Scope) (t : Text) :
    Except RenderError Text := do
  let draft ← expressionPass setting scope t
  let draft ← expandRounds setting invoke scope.origin setting.config.maxPartialDepth draft
  checkKnown setting scope.origin draft
  return draft.text

/-- Renders a text with its escapes left in it, with room for so many partials
one inside another. -/
def renderText (setting : Setting) : (room : Nat) → Scope → Text → Except RenderError Text
  | 0, scope, t =>
      renderPasses setting (invoke (fun entered _ => .error entered.cycle) scope) scope t
  | room + 1, scope, t =>
      renderPasses setting
        (invoke (fun entered body => renderText setting room entered body) scope) scope t

def Scope.root (context : Context) : Scope :=
  { context, digest := context.digest, origin := .template, stack := [] }

end Stencil.Render

namespace Stencil

def render (template : Text) (context : Context) (partials : Partial.Registry) (config : Config) :
    Except Render.RenderError Text :=
  Markup.unescape <$>
    Render.renderText ⟨partials, config⟩ config.maxPartialDepth (Render.Scope.root context) template

end Stencil
