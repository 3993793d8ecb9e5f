import Cluon.Message.Visitable

/-!
# Visitors that cannot tell two objects apart

Two visitable types simulate each other along a relation if related objects stay related
whenever a visitor is accepted, and leave the visitor in the same state
(`Visitable.Simulates`). A visitor is uniform if it looks at nothing of a field but the
identifier, does nothing before and after a message, and treats a nested object only by
letting it accept (`Visitor.Uniform`). Such a visitor cannot distinguish two simulating
objects.
-/

set_option autoImplicit false

namespace Cluon

variable {σ α β : Type}

/-- Related objects stay related, and a visitor comes out in the same state. -/
structure Visitable.Simulates (R : α → β → Prop) (obj : Visitable σ α) (obj' : Visitable σ β) :
    Prop where
  accept : ∀ {v : α} {v' : β}, R v v' → ∀ s,
    R (obj.accept v s).1 (obj'.accept v' s).1 ∧ (obj.accept v s).2 = (obj'.accept v' s).2
  acceptField : ∀ {v : α} {v' : β}, R v v' → ∀ fieldId s,
    R (obj.acceptField fieldId v s).1 (obj'.acceptField fieldId v' s).1 ∧
      (obj.acceptField fieldId v s).2 = (obj'.acceptField fieldId v' s).2

/-- A visitor that only looks at the identifiers and the values of the fields. -/
structure Visitor.Uniform (V : Visitor σ) : Prop where
  preVisit_eq : ∀ info s, V.preVisit info s = s
  postVisit_eq : ∀ s, V.postVisit s = s
  visit_eq : ∀ {field field' : FieldInfo}, field.fieldIdentifier = field'.fieldIdentifier →
    ∀ t v s, V.visit field t v s = V.visit field' t v s
  visitMessage_simulates : ∀ {α β : Type} {R : α → β → Prop} {obj : Visitable σ α}
    {obj' : Visitable σ β}, obj.Simulates R obj' →
    ∀ {field field' : FieldInfo}, field.fieldIdentifier = field'.fieldIdentifier →
    ∀ {v : α} {v' : β}, R v v' → ∀ s,
      R (V.visitMessage field obj v s).1 (V.visitMessage field' obj' v' s).1 ∧
        (V.visitMessage field obj v s).2 = (V.visitMessage field' obj' v' s).2

theorem Visitor.Uniform.acceptAll_eq {V : Visitor σ} (uniform : V.Uniform) (info : MessageInfo)
    (visitFields : α → σ → α × σ) (v : α) (s : σ) :
    acceptAll V info visitFields v s = visitFields v s := by
  simp only [acceptAll, uniform.preVisit_eq, uniform.postVisit_eq]

end Cluon
