import Stencil.Proofs.Render.Cycle

/-!
# What counts as the same bindings

The guard against re-entry tells bindings by a digest, and a digest is made of the JSON
texts of values. So bindings of the same texts are recognised, in whatever order the
context lists them (`reentry_of_sameTexts`).

Equal contexts need not have the same texts: an object is equal to one with its fields in
another order, and its text is not. A partial that is entered with such an object turned
round is let in, and only found to be a cycle one level later (`reentry_reordered`).
-/

namespace Stencil

/-- Contexts that bind the same names to values of the same text have one digest. -/
theorem Context.digest_eq_of_sameTexts {c d : Context} (hc : Bindings.Distinct c)
    (hd : Bindings.Distinct d) (h : c.SameTexts d) : c.digest = d.digest := by
  apply Context.digest_perm
  rw [Bindings.perm_iff hc hd]
  exact h.get?_eq

namespace Render

/-- **A partial is recognised by the texts of its bindings.** If a partial is being rendered
with some bindings, and is invoked where it would be entered with the same names bound to
values of the same texts, then the digests are equal and the invocation is a cycle. -/
theorem reentry_of_sameTexts {scope : Scope} (hscope : scope.Faithful) {c : Context}
    (hc : Bindings.Distinct c) {name fragment : Text}
    (hstack : ⟨name, c.digest⟩ ∈ scope.stack)
    (hsame : c.SameTexts (scope.enter name fragment).context) (inner : Inner) (body : Text) :
    c.digest = (scope.enter name fragment).digest ∧
      invoke inner scope name body fragment = .error (scope.enter name fragment).cycle := by
  have hentered := hscope.enter name fragment
  have hdigest : c.digest = (scope.enter name fragment).digest := by
    rw [hentered.digest]
    exact Context.digest_eq_of_sameTexts hc hentered.distinct hsame
  refine ⟨hdigest, ?_⟩
  rw [hdigest] at hstack
  exact if_pos (List.contains_iff_mem.2 hstack)

/-- A scope inside the partial that invokes itself, where a name is bound besides. -/
def inMirror (c : Context) : Scope :=
  { context := (Partial.contentsName, .string []) :: c
    digest := Context.digest ((Partial.contentsName, .string []) :: c)
    origin := .body "mirror".toList
    stack := [⟨"mirror".toList, Context.digest (c ++ [(Partial.contentsName, .string [])])⟩] }

/-- The order of the two names makes no difference. -/
theorem reentry_of_sameTexts_mirror :
    (inMirror [("x".toList, .null)]).Faithful ∧
    Bindings.Distinct ([("x".toList, .null), (Partial.contentsName, .string [])] : Context) ∧
    invoke (fun _ body => .ok body) (inMirror [("x".toList, .null)]) "mirror".toList
        "<_mirror/>".toList "<_mirror/>".toList =
      .error (.cyclic ["mirror".toList, "mirror".toList]) := by
  have hfaithful : (inMirror [("x".toList, .null)]).Faithful := ⟨by decide, rfl⟩
  have hdistinct : Bindings.Distinct
      ([("x".toList, .null), (Partial.contentsName, .string [])] : Context) := by decide
  have hentered : ((inMirror [("x".toList, .null)]).enter "mirror".toList
      "<_mirror/>".toList).context =
      [(Partial.contentsName, .string []), ("x".toList, .null)] := by
    change Bindings.overlay _ (Partial.invocationBindings _) = _
    rw [invocationBindings_mirror]
    rfl
  refine ⟨hfaithful, hdistinct, ?_⟩
  refine (reentry_of_sameTexts hfaithful hdistinct List.mem_cons_self ?_ _ _).2
  intro name
  rw [hentered]
  exact congrArg _ ((Bindings.perm_iff hdistinct (by decide)).1 (.swap _ _ _) name)

/-! ## An object turned round -/

/-- The chain of a cycle. -/
def chain? : Except RenderError Text → Option (List Text)
  | .error (.cyclic chain) => some chain
  | _ => none

theorem chain?_eq_some_iff {x : Except RenderError Text} {chain : List Text} :
    chain? x = some chain ↔ x = .error (.cyclic chain) := by
  cases x with
  | ok t => simp [chain?]
  | error e => cases e <;> simp [chain?]

/-- An invocation that binds an object of two fields. -/
def outward : Text := "<_a o='\\\x7b\"k\":1,\"l\":2\\\x7d'/>".toList

/-- The same with the fields in the other order. -/
def inward : Text := "<_a o='\\\x7b\"l\":2,\"k\":1\\\x7d'/>".toList

/-- Equal contexts may have different digests. A partial that is entered with the one and
invokes itself with the other is not recognised: it is entered a second time, and the
chain of the cycle has it three times. -/
theorem reentry_reordered :
    Context.same ((Scope.root []).enter ['a'] outward).context
      (((Scope.root []).enter ['a'] outward).enter ['a'] inward).context = true ∧
    ((Scope.root []).enter ['a'] outward).context.digest ≠
      (((Scope.root []).enter ['a'] outward).enter ['a'] inward).context.digest ∧
    render outward [] [(['a'], inward)] {} = .error (.cyclic [['a'], ['a'], ['a']]) := by
  refine ⟨by decide +kernel, by decide +kernel, ?_⟩
  rw [← chain?_eq_some_iff]
  decide +kernel

end Render

end Stencil
