import Stencil.Context.Digest
import Stencil.Proofs.Bindings

/-!
# The digest of an overlaid context

Binding a name changes the digest of a context by the hash of the new entry and that
of the old one, whatever the rest of the context. So the digest of an overlaid
context follows from the digest of the outer one (`digest_overlay`). Which hash it is
makes no difference to that (`digestBy_overlay`). The order of the entries has no part in
the digest (`digest_perm`).
-/

namespace Stencil.Context

/-! ## Any hash of the entries -/

section Hash

variable (hash : Text → Json → UInt64)

/-- The digest of a context by a hash of its entries. -/
def digestBy (c : Context) : UInt64 :=
  c.foldr (fun b d => hash b.1 b.2 + d) 0

/-- What the digest by a hash becomes when a value is bound. -/
def digestAfterBy (c : Context) (digest : UInt64) (name : Text) (value : Json) : UInt64 :=
  let rest :=
    match Bindings.get? c name with
    | some old => digest - hash name old
    | none => digest
  rest + hash name value

/-- The digest by a hash of a context overlaid by another whose names are distinct, from
that of the context. -/
def overlaidDigestBy (c : Context) (digest : UInt64) (inner : Context) : UInt64 :=
  inner.foldl (fun d b => c.digestAfterBy hash d b.1 b.2) digest

theorem digestBy_entryDigest : digestBy entryDigest = digest := rfl

theorem overlaidDigestBy_entryDigest : overlaidDigestBy entryDigest = overlaidDigest := rfl

theorem digestBy_cons (b : Text × Json) (c : Context) :
    digestBy hash (b :: c) = hash b.1 b.2 + digestBy hash c := rfl

theorem digestBy_insert (c : Context) (name : Text) (value : Json) :
    digestBy hash (Bindings.insert c name value) =
      c.digestAfterBy hash (c.digestBy hash) name value := by
  induction c with
  | nil =>
      change hash name value + 0 = 0 + hash name value
      rw [UInt64.add_comm]
  | cons b c ih =>
      obtain ⟨k, v⟩ := b
      rw [digestAfterBy] at ih ⊢
      rw [Bindings.insert, Bindings.get?_cons, digestBy_cons]
      by_cases h : k = name
      · subst h
        rw [if_pos rfl, if_pos rfl, digestBy_cons]
        grind
      · rw [if_neg h, if_neg h, digestBy_cons, ih]
        cases Bindings.get? c name with
        | some old => grind
        | none => grind

/-- What a context has under other names has no part in the digest after a binding. -/
theorem overlaidDigestBy_insert {inner : Context} {name : Text}
    (h : name ∉ Bindings.names inner) (c : Context) (value : Json) (digest : UInt64) :
    overlaidDigestBy hash (Bindings.insert c name value) digest inner =
      overlaidDigestBy hash c digest inner := by
  induction inner generalizing digest with
  | nil => rfl
  | cons b inner ih =>
      rw [Bindings.names_cons, List.mem_cons, not_or] at h
      have step : digestAfterBy hash (Bindings.insert c name value) digest b.1 b.2 =
          digestAfterBy hash c digest b.1 b.2 := by
        rw [digestAfterBy, digestAfterBy, Bindings.get?_insert, if_neg h.1]
      change overlaidDigestBy hash _ (digestAfterBy _ _ _ _ _) inner =
        overlaidDigestBy hash _ (digestAfterBy _ _ _ _ _) inner
      rw [step]
      exact ih h.2 _

/-- Whatever the hash, the digest of an overlaid context follows from that of the outer
one. -/
theorem digestBy_overlay {inner : Context} (h : Bindings.Distinct inner) (c : Context) :
    digestBy hash (Bindings.overlay c inner) =
      c.overlaidDigestBy hash (c.digestBy hash) inner := by
  induction inner generalizing c with
  | nil => rfl
  | cons b inner ih =>
      obtain ⟨hb, hinner⟩ := Bindings.distinct_cons.1 h
      calc digestBy hash (Bindings.overlay c (b :: inner))
          = digestBy hash (Bindings.overlay (Bindings.insert c b.1 b.2) inner) := rfl
        _ = overlaidDigestBy hash (Bindings.insert c b.1 b.2)
              (digestBy hash (Bindings.insert c b.1 b.2)) inner := ih hinner _
        _ = overlaidDigestBy hash c (digestBy hash (Bindings.insert c b.1 b.2)) inner :=
            overlaidDigestBy_insert hash hb c b.2 _
        _ = c.overlaidDigestBy hash (c.digestBy hash) (b :: inner) := by
            rw [digestBy_insert]
            rfl

end Hash

/-- **The digest of an overlaid context** takes no look at the outer entries that stay. -/
theorem digest_overlay {inner : Context} (h : Bindings.Distinct inner) (c : Context) :
    digest (Bindings.overlay c inner) = c.overlaidDigest c.digest inner :=
  digestBy_overlay entryDigest h c

/-! ## The order of the entries -/

theorem digest_cons (b : Text × Json) (c : Context) :
    digest (b :: c) = entryDigest b.1 b.2 + digest c := rfl

theorem digest_perm {c d : Context} (h : c.Perm d) : c.digest = d.digest := by
  induction h with
  | nil => rfl
  | cons b _ ih => rw [digest_cons, digest_cons, ih]
  | swap b b' c =>
      simp only [digest_cons]
      grind
  | trans _ _ ih ih' => exact ih.trans ih'

/-- The step to the digest of an overlaid context asks the outer one for old values only. -/
theorem overlaidDigest_congr {c d : Context}
    (same : ∀ name, Bindings.get? c name = Bindings.get? d name) (digest : UInt64)
    (inner : Context) : c.overlaidDigest digest inner = d.overlaidDigest digest inner := by
  have step : c.digestAfter = d.digestAfter := by
    funext digest name value
    rw [digestAfter, digestAfter, same]
  rw [overlaidDigest, overlaidDigest, step]

end Stencil.Context
