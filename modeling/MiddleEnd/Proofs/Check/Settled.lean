import MiddleEnd.Proofs.Check.Rules
import MiddleEnd.Proofs.Check.Steps

/-!
Checks that stand. Between the declarations and the end of the analysis the tables keep growing,
and fields are declared again that were announced before. What has passed once on the way passes at
the end.
-/

namespace MiddleEnd

namespace Session

variable {A σ τ Ω : Session}

/-- A member at the end is the one that was there, or a variable of the same type. -/
def SameMember (Ω : Session) (b b' : Binding) : Prop :=
  b' = b ∨ b.kind = .variable ∧ b'.kind = .variable ∧ Ω.types.sameType b.type b'.type = true

/-- The end of an analysis whose declarations were all known at `A`: every name in the body of a
class is a member of the class, and the members that a class had at `A` are still there. -/
structure Final (A Ω : Session) : Prop where
  valid : Ω.Valid
  mirrors : ∀ {c e id name b}, Ω.types.class? c = some e → e.body = some id →
    Ω.scopes.bindingAt? name id = some b → e.members.find? name = some b
  kept : ∀ {c e name b}, A.types.class? c = some e → e.members.find? name = some b →
    ∃ e' b', Ω.types.class? c = some e' ∧ e'.members.find? name = some b' ∧ Ω.SameMember b b'

/-- The members that a class has on the way are there at the end. -/
lemma Final.member (hΩ : A.Final Ω) (hA : A.Grows σ) (hσ : σ.Grows Ω) {c : ClassId}
    {e : ClassEntry} {name : String} {b : Binding} (he : σ.types.class? c = some e)
    (hb : e.members.find? name = some b) :
    ∃ e' b', Ω.types.class? c = some e' ∧ e'.members.find? name = some b' ∧
      Ω.SameMember b b' := by
  obtain ⟨e0, he0⟩ := hA.known he
  rcases hA.members he0 he hb with hb0 | ⟨id, hid, hb⟩
  · exact hΩ.kept he0 hb0
  · -- a name that is declared in the body stays declared there
    obtain ⟨e', he', hagree⟩ := (hA.trans hσ).cls he0
    have hmember := hΩ.mirrors he' (hagree.body.trans hid) (hσ.scopes.bindingAt? hb)
    exact ⟨e', b, he', hmember, Or.inl rfl⟩

/-- The nodes pass their checks at the end, however the session grows. -/
def Settled (A σ : Session) (ns : List Node) : Prop :=
  ∀ Ω, A.Final Ω → σ.Grows Ω → ∀ n ∈ ns, n.Checks Ω.analysis

lemma Settled.nil : A.Settled σ [] := fun _ _ _ _ h => nomatch h

lemma Settled.mono {ns : List Node} (h : A.Settled σ ns) (hστ : σ.Grows τ) : A.Settled τ ns :=
  fun Ω hΩ hτ => h Ω hΩ (hστ.trans hτ)

lemma Settled.append {ns ms : List Node} (h : A.Settled σ ns) (h' : A.Settled σ ms) :
    A.Settled σ (ns ++ ms) := by
  intro Ω hΩ hσ
  rw [List.forall_mem_append]
  exact ⟨h Ω hΩ hσ, h' Ω hΩ hσ⟩

lemma Settled.cons {n : Node} {ns : List Node}
    (hn : ∀ Ω, A.Final Ω → σ.Grows Ω → n.Checks Ω.analysis) (h : A.Settled σ ns) :
    A.Settled σ (n :: ns) := by
  intro Ω hΩ hσ
  rw [List.forall_mem_cons]
  exact ⟨hn Ω hΩ hσ, h Ω hΩ hσ⟩

/-- The expression has a type, which the session knows. -/
structure Typed (σ : Session) (e : Expr) : Prop where
  mark : e.mark.type = some e.type
  registered : σ.types.Registered e.type

lemma Typed.mono {e : Expr} (h : σ.Typed e) (hστ : σ.Grows τ) : τ.Typed e :=
  ⟨h.mark, hστ.registered h.registered⟩

lemma typed_of_mark {e : Expr} {t : TypeId} (hm : e.mark.type = some t)
    (ht : σ.types.Registered t) : σ.Typed e := by
  have htype : e.type = t := by rw [Expr.type, hm]; rfl
  exact ⟨by rw [htype, hm], by rw [htype]; exact ht⟩

/-- An expression of an unknown type may be marked so once more. -/
lemma Typed.typed_any {e : Expr} (h : σ.Typed e) (hany : e.type = .any) : e.typed .any = e := by
  have hmark : e.mark.typed .any = e.mark := by
    rw [Mark.typed, ← hany, ← h.mark]
  rw [Expr.typed, hmark, Expr.withMark_mark]

/-! ### Steps of the walk -/

/-- A step between valid sessions that has looked at some nodes, which pass their checks at the
end, and at some expressions, which have types. -/
structure Annotates (A σ τ : Session) (ns : List Node) (es : List Expr) : Prop where
  reaches : σ.Reaches τ
  settled : A.Settled τ ns
  typed : ∀ e ∈ es, τ.Typed e

namespace Annotates

variable {υ : Session} {ns ms : List Node} {es fs : List Expr}

lemma of_settled (h : σ.Reaches τ) (hns : A.Settled τ ns) : A.Annotates σ τ ns [] :=
  ⟨h, hns, nofun⟩

lemma of_reaches (h : σ.Reaches τ) : A.Annotates σ τ [] [] := of_settled h .nil

lemma trans (h : A.Annotates σ τ ns es) (h' : A.Annotates τ υ ms fs) :
    A.Annotates σ υ (ns ++ ms) (es ++ fs) := by
  refine ⟨h.reaches.trans h'.reaches, (h.settled.mono h'.reaches.grows).append h'.settled, ?_⟩
  rw [List.forall_mem_append]
  exact ⟨fun e he => (h.typed e he).mono h'.reaches.grows, h'.typed⟩

lemma before (h : σ.Reaches τ) (h' : A.Annotates τ υ ns es) : A.Annotates σ υ ns es :=
  (of_reaches h).trans h'

lemma andThen (h : A.Annotates σ τ ns es) (h' : τ.Reaches υ) : A.Annotates σ υ ns es := by
  simpa using h.trans (of_reaches h')

lemma expr (h : A.Annotates σ τ ns es) {e : Expr} {t : TypeId} (hm : e.mark.type = some t)
    (ht : τ.types.Registered t)
    (hchecks : ∀ Ω, A.Final Ω → τ.Grows Ω → e.Checks Ω.analysis) :
    A.Annotates σ τ (.expr e :: ns) [e] := by
  refine ⟨h.reaches, h.settled.cons hchecks, ?_⟩
  rw [List.forall_mem_singleton]
  exact typed_of_mark hm ht

lemma node (h : A.Annotates σ τ ns es) {n : Node}
    (hchecks : ∀ Ω, A.Final Ω → τ.Grows Ω → n.Checks Ω.analysis) :
    A.Annotates σ τ (n :: ns) [] :=
  of_settled h.reaches (h.settled.cons hchecks)

end Annotates
end Session
end MiddleEnd
