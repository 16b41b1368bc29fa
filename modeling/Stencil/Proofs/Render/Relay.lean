import Stencil.Proofs.Expr.Name
import Stencil.Proofs.Render.Single

/-!
# A value handed from partial to partial

A partial can hand what it has been given on to the next, as an attribute and as the
contents of the invocation. Each time the value is escaped into the markup of a tag, found
there again, cut out and resolved. What comes out at the end is the value as it was
(`render_relay`), whatever backslashes, braces and escape sequences it has: only a quote
would end the attribute, and only `<` and `>` are structure.
-/

namespace Stencil.Render

open Markup
open Partial (Registry isValidName contentsName)

def labelName : Text := "label".toList

/-- What stands behind the name in a tag that has a text as its label. -/
def labelled (t : Text) : Text :=
  ' ' :: (labelName ++ '=' :: '"' :: (t ++ ['"']))

/-- An invocation with a text as its label and a text inside. -/
def relay (name label inside : Text) : Text :=
  invocation name (labelled label) inside

example : relay "b".toList (braced labelName) (braced contentsName) =
    "<_b label=\"{label}\">{contents}</_b>".toList := by
  decide

/-- The body of a partial that shows what it has been given. -/
def shownBody : Text :=
  "{label}: {contents}".toList

/-- A body that hands on what has been given to it to some partials, one after another, the
last of which shows it. -/
inductive HandsOn (registry : Registry) : (body : Text) → List Text → Prop where
  | shown : HandsOn registry shownBody []
  | handed {next body : Text} {others : List Text}
      (get : Bindings.get? registry next = some body) (later : HandsOn registry body others) :
      HandsOn registry (relay next (braced labelName) (braced contentsName)) (next :: others)

/-- A text that an attribute can bind: it has no quote and no structure of tags in it, and
is no other value. -/
structure Carried (v : Text) : Prop where
  quote : '"' ∉ v
  opening : '<' ∉ v
  closing : '>' ∉ v
  text : Json.read? v = none

/-! ## What the invocation binds -/

theorem attributesIn_labelled {t : Text} (h : '"' ∉ t) :
    attributesIn (labelled t) = [⟨labelName, t⟩] := by
  have hne : labelName ≠ [] := by decide
  have hword : labelName.all Text.isWordChar = true := by decide
  have hblank : Text.isBlank ' ' = true := by decide
  have htake := takeAttribute?_of_word hblank (Or.inl rfl) hne (List.all_eq_true.1 hword) h []
  rw [labelled, attributesIn_of_take htake, attributesIn]

theorem labelled_eq_snoc (t : Text) :
    labelled t = (' ' :: (labelName ++ '=' :: '"' :: t)) ++ ['"'] := by
  simp [labelled]

theorem tagRest_labelled {t : Text} (h : '>' ∉ t) : TagRest (labelled t) where
  ends := by
    have hblank : Text.isBlank ' ' = true := by decide
    simp [labelled, endsName, hblank]
  free := by
    have hname : '>' ∉ labelName := by decide
    exact free_of_not_mem (by simp [labelled, hname, h]) false
  closed := by rw [labelled_eq_snoc, pending_snoc_of_ne (by decide)]

/-- What is bound when a value stands in such an invocation. -/
def handed (v : Text) : Context :=
  [(labelName, .string v), (contentsName, .string v)]

theorem invocationBindings_relay {name v : Text} (hname : isValidName name = true)
    (hv : Carried v) :
    Partial.invocationBindings (relay name (escapeText v) (escapeText v)) = handed v := by
  have hclosing : '>' ∉ escapeText v := fun h => hv.closing (mem_escapeText.1 h)
  have hquote : '"' ∉ escapeText v := fun h => hv.quote (mem_escapeText.1 h)
  have hvalue : Attribute.value ⟨labelName, escapeText v⟩ = .string v := by
    simp only [Attribute.value, unescape_escapeText, hv.text]
    rfl
  rw [relay, Partial.invocationBindings_invocation hname (tagRest_labelled hclosing)
    (pending_escapeText v), attributesIn_labelled hquote, unescape_escapeText, List.map_singleton,
    hvalue]
  rfl

/-! ## One partial -/

/-- A context in which a value has been handed over. -/
structure Carries (c : Context) (v : Text) : Prop where
  distinct : Bindings.Distinct c
  label : Stands c labelName v
  contents : Stands c contentsName v

theorem isName_labelName : Expr.IsName labelName :=
  ⟨by decide, by decide, by decide⟩

theorem carries_overlay {c : Context} (h : Bindings.Distinct c) (v : Text) :
    Carries (Bindings.overlay c (handed v)) v := by
  have hne : labelName ≠ contentsName := by decide
  have hdistinct : Bindings.Distinct (handed v) :=
    Bindings.distinct_cons.2 ⟨by simpa using hne, List.nodup_singleton _⟩
  refine ⟨Bindings.distinct_overlay h _, ⟨isName_labelName, ?_⟩, ⟨isName_contentsName, ?_⟩⟩
  · rw [Bindings.get?_overlay hdistinct, handed, Bindings.get?_cons, if_pos rfl]
    rfl
  · rw [Bindings.get?_overlay hdistinct, handed, Bindings.get?_cons, if_neg hne,
      Bindings.get?_cons, if_pos rfl]
    rfl

/-- The markup of a value that has been shown. -/
def shownMarkup (v : Text) : Text :=
  escapeText v ++ (": ".toList ++ escapeText v)

theorem unescape_shownMarkup (v : Text) : unescape (shownMarkup v) = v ++ ": ".toList ++ v := by
  have hcolon : unescape ": ".toList = ": ".toList := rfl
  rw [shownMarkup, unescape_escapeText_append, unescape_append (by decide), hcolon,
    unescape_escapeText, List.append_assoc]

theorem not_mem_shownMarkup {v : Text} (h : '<' ∉ v) : '<' ∉ shownMarkup v := by
  have hcolon : '<' ∉ ": ".toList := by decide
  simp only [shownMarkup, List.mem_append, mem_escapeText, not_or]
  exact ⟨h, hcolon, h⟩

variable {setting : Setting} {scope : Scope} {v : Text}

/-- The last partial shows the value. -/
theorem renderText_shownBody (hvalid : setting.registry.Valid)
    (hsteps : 1 ≤ setting.config.limits.steps) (room : Nat) (hc : Carries scope.context v)
    (hv : Carried v) : renderText setting room scope shownBody = .ok (shownMarkup v) := by
  have hshown : List.Forall₂ (Shown scope.context)
      [([], labelName), (": ".toList, contentsName)] [v, v] :=
    .cons ⟨free_nil '{' false, rfl, hc.label⟩ (.cons ⟨by decide, by decide, hc.contents⟩ .nil)
  obtain ⟨draft, hpass, htext⟩ :=
    expressionPass_shown hc.distinct hsteps hshown (free_nil '{' false)
  have hmarkup : draft.text = shownMarkup v := by
    rw [htext]
    simp [shownMarkup]
  rw [← hmarkup]
  refine renderText_of_settled setting room hpass (settled_of_tagless hvalid ?_)
  rw [hmarkup]
  exact tagless_of_free (free_of_not_mem (not_mem_shownMarkup hv.opening) false)

/-- What stands before the label in an invocation. -/
def relayOpening (name : Text) : Text :=
  '<' :: ('_' :: name ++ ' ' :: (labelName ++ ['=', '"']))

theorem slotted_relay (name label inside : Text) :
    slotted [(relayOpening name, label), (['"', '>'], inside)] (closingTag name) =
      relay name (braced label) (braced inside) := by
  simp [slotted, relay, relayOpening, invocation, openingTag, labelled]

theorem filled_relay (name label inside : Text) :
    ([((relayOpening name, label), v), ((['"', '>'], inside), v)].flatMap fun p =>
        p.1.1 ++ escapeText p.2) ++ closingTag name =
      relay name (escapeText v) (escapeText v) := by
  simp [relay, relayOpening, invocation, openingTag, labelled]

theorem shown_relayOpening {c : Context} {name label : Text} (hname : isValidName name = true)
    (hlabel : Stands c label v) : Shown c (relayOpening name, label) v := by
  have hfree : '{' ∉ relayOpening name := by
    have hword : '{' ∉ labelName := by decide
    simp [relayOpening, hword, not_mem_of_valid hname (d := '{') rfl]
  have hsnoc : relayOpening name =
      '<' :: ('_' :: name ++ ' ' :: (labelName ++ ['='])) ++ ['"'] := by
    simp [relayOpening]
  refine ⟨free_of_not_mem hfree false, ?_, hlabel⟩
  rw [hsnoc, pending_snoc_of_ne (by decide)]

/-- The value stands in the invocation as all that there is to expand. -/
theorem single_relay {registry : Registry} (hvalid : registry.Valid) {name : Text}
    (hmem : name ∈ Bindings.names registry) (hv : Carried v) :
    Single registry name (relay name (escapeText v) (escapeText v))
      ⟨[], relay name (escapeText v) (escapeText v),
        ⟨0, Text.byteLength (relay name (escapeText v) (escapeText v))⟩⟩ [] := by
  have hopening : '<' ∉ escapeText v := fun h => hv.opening (mem_escapeText.1 h)
  have hclosing : '>' ∉ escapeText v := fun h => hv.closing (mem_escapeText.1 h)
  have hlabelled : '<' ∉ labelled (escapeText v) := by
    have hword : '<' ∉ labelName := by decide
    simp [labelled, hword, hopening]
  have hlast : (labelled (escapeText v)).getLast? ≠ some '/' := by
    rw [labelled_eq_snoc, List.getLast?_concat]
    decide
  exact single_invocation hvalid hmem (tagRest_labelled hclosing) hlast
    (free_of_not_mem hlabelled false) (free_of_not_mem hopening false) (pending_escapeText v)

/-- **One partial**: the invocation renders to what the body makes of the value, where
the value is all that is handed over. -/
theorem renderText_relay (hvalid : setting.registry.Valid)
    (hsteps : 1 ≤ setting.config.limits.steps) (hdepth : 1 ≤ setting.config.maxPartialDepth)
    {name body : Text} (hget : Bindings.get? setting.registry name = some body)
    (hfresh : name ∉ scope.stack.map Entry.name) (hc : Bindings.Distinct scope.context)
    {label inside : Text} (hlabel : Stands scope.context label v)
    (hinside : Stands scope.context inside v) (hv : Carried v) {room : Nat}
    (hbody : renderText setting room (scope.enter name (relay name (escapeText v) (escapeText v)))
      body = .ok (shownMarkup v)) :
    renderText setting (room + 1) scope (relay name (braced label) (braced inside)) =
      .ok (shownMarkup v) := by
  obtain ⟨rounds, hrounds⟩ := Nat.exists_eq_add_of_le' hdepth
  have hmem := Bindings.mem_names_of_get? hget
  -- the value takes the place of both expressions
  have hshown : List.Forall₂ (Shown scope.context)
      [(relayOpening name, label), (['"', '>'], inside)] [v, v] :=
    .cons (shown_relayOpening (hvalid.named name hmem) hlabel)
      (.cons ⟨free_of_not_mem (by simp) false, rfl, hinside⟩ .nil)
  obtain ⟨draft, hpass, htext⟩ := expressionPass_shown hc hsteps hshown
    (free_closingTag (hvalid.named name hmem) rfl (by decide) (by decide) (by decide))
  rw [slotted_relay] at hpass
  have htext : draft.text = relay name (escapeText v) (escapeText v) :=
    htext.trans (filled_relay name label inside)
  have hsingle := single_relay hvalid hmem hv
  rw [← htext] at hsingle
  -- and the partial is entered
  have hguard : ⟨name, (scope.enter name (relay name (escapeText v) (escapeText v))).digest⟩ ∉
      scope.stack := fun hentry => hfresh (List.mem_map.2 ⟨_, hentry, rfl⟩)
  have hinvoke := invoke_of_ok hguard hbody
  rw [← htext] at hinvoke
  rw [renderText_eq, renderPasses_single hvalid hrounds hget hpass hsingle fun markup hmarkup => ?_,
    hinvoke]
  · simp
  · obtain rfl := Except.ok.inj (hinvoke.symm.trans hmarkup)
    refine settled_of_tagless hvalid (tagless_of_free (free_of_not_mem ?_ false))
    simpa using not_mem_shownMarkup hv.opening

/-! ## All of them -/

theorem carries_enter (scope : Scope) {name : Text} (hname : isValidName name = true)
    (hc : Bindings.Distinct scope.context) (hv : Carried v) :
    Carries (scope.enter name (relay name (escapeText v) (escapeText v))).context v := by
  rw [Scope.enter]
  simp only [invocationBindings_relay hname hv]
  exact carries_overlay hc v

/-- **What a body makes of the value**, by induction on the partials after it. -/
theorem renderText_handsOn (hvalid : setting.registry.Valid)
    (hsteps : 1 ≤ setting.config.limits.steps) (hdepth : 1 ≤ setting.config.maxPartialDepth)
    (hv : Carried v) {body : Text} {others : List Text}
    (h : HandsOn setting.registry body others) (hnodup : others.Nodup) {room : Nat}
    {scope : Scope} (hroom : others.length ≤ room) (hc : Carries scope.context v)
    (hfresh : ∀ name ∈ others, name ∉ scope.stack.map Entry.name) :
    renderText setting room scope body = .ok (shownMarkup v) := by
  induction h generalizing room scope with
  | shown => exact renderText_shownBody hvalid hsteps room hc hv
  | @handed next body others hget _ ih =>
      obtain ⟨hnext, hothers⟩ := List.nodup_cons.1 hnodup
      rw [List.forall_mem_cons] at hfresh
      obtain ⟨room, rfl⟩ := Nat.exists_eq_add_of_le' (Nat.le_of_add_left_le hroom)
      have hmem := Bindings.mem_names_of_get? hget
      -- the next partial is entered with the value handed over, and stands on the stack
      have hentered := carries_enter scope (hvalid.named next hmem) hc.distinct hv
      refine renderText_relay hvalid hsteps hdepth hget hfresh.1 hc.distinct hc.label hc.contents hv
        (ih hothers (Nat.le_of_succ_le_succ hroom) hentered fun name hname => ?_)
      have hne : name ≠ next := fun heq => hnext (heq ▸ hname)
      simpa [Scope.enter, hne] using hfresh.2 name hname

theorem isName_dir : Expr.IsName "dir".toList :=
  ⟨by decide, by decide, by decide⟩

/-- **A value goes through any number of partials as it is.** -/
theorem render_relay {registry : Registry} (hvalid : registry.Valid) {config : Config}
    (hsteps : 1 ≤ config.limits.steps) {first body : Text} {others : List Text}
    (hget : Bindings.get? registry first = some body) (h : HandsOn registry body others)
    (hnodup : (first :: others).Nodup)
    (hdepth : (first :: others).length ≤ config.maxPartialDepth) {c : Context}
    (hc : Bindings.Distinct c) {v : Text} (hv : Carried v)
    (hdir : Bindings.get? c "dir".toList = some (.string v)) :
    render (relay first (braced "dir".toList) (braced "dir".toList)) c registry config =
      .ok (v ++ ": ".toList ++ v) := by
  obtain ⟨hfirst, hothers⟩ := List.nodup_cons.1 hnodup
  obtain ⟨room, hroom⟩ := Nat.exists_eq_add_of_le' (Nat.le_of_add_left_le hdepth)
  have hmem := Bindings.mem_names_of_get? hget
  have hdepth' : 1 ≤ config.maxPartialDepth := Nat.le_of_add_left_le hdepth
  have hentered := carries_enter (Scope.root c) (hvalid.named first hmem) hc hv
  have hbody : renderText ⟨registry, config⟩ room
      ((Scope.root c).enter first (relay first (escapeText v) (escapeText v))) body =
        .ok (shownMarkup v) := by
    refine renderText_handsOn hvalid hsteps hdepth' hv h hothers ?_ hentered fun name hname => ?_
    · rw [List.length_cons, hroom] at hdepth
      exact Nat.le_of_succ_le_succ hdepth
    · have hne : name ≠ first := fun heq => hfirst (heq ▸ hname)
      simpa [Scope.enter, Scope.root] using hne
  have hstands : Stands (Scope.root c).context "dir".toList v := ⟨isName_dir, hdir⟩
  rw [render, hroom, renderText_relay hvalid hsteps hdepth' hget (by simp [Scope.root]) hc hstands
    hstands hv hbody, Except.map_ok, unescape_shownMarkup]

/-- Two partials, and a value with backslashes, braces and an escape sequence in it. -/
theorem render_relay_two :
    Registry.Valid [("a".toList, relay "b".toList (braced labelName) (braced contentsName)),
      ("b".toList, shownBody)] ∧
    Carried "\\{x}\\\\".toList ∧
    render (relay "a".toList (braced "dir".toList) (braced "dir".toList))
        [("dir".toList, .string "\\{x}\\\\".toList)]
        [("a".toList, relay "b".toList (braced labelName) (braced contentsName)),
          ("b".toList, shownBody)] {} =
      .ok "\\{x}\\\\: \\{x}\\\\".toList := by
  have hvalid : Registry.Valid
      [("a".toList, relay "b".toList (braced labelName) (braced contentsName)),
        ("b".toList, shownBody)] := by decide
  have hv : Carried "\\{x}\\\\".toList := ⟨by decide, by decide, by decide, read?_backslash _⟩
  have hands : HandsOn [("a".toList, relay "b".toList (braced labelName) (braced contentsName)),
      ("b".toList, shownBody)] (relay "b".toList (braced labelName) (braced contentsName))
      ["b".toList] := .handed rfl .shown
  exact ⟨hvalid, hv,
    render_relay hvalid (by decide) rfl hands (by decide) (by decide) (by decide) hv rfl⟩

end Stencil.Render
