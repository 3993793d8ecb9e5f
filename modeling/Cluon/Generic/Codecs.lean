import Cluon.CSV.ToCSVVisitor
import Cluon.Generic.FromMessage
import Cluon.Generic.Parametric
import Cluon.JSON.FromJSONVisitor
import Cluon.LCM.FromLCMVisitor
import Cluon.MsgPack.FromMsgPackVisitor
import Cluon.MsgPack.ToMsgPackVisitor

/-!
# The parametric visitors

The encoders and decoders of all formats are parametric, and so is a generic message that is
accepted as a visitor. The visitors that write a specification down are not: they ask for what a
message is called.
-/

set_option autoImplicit false

namespace Cluon

open Library InputStream

theorem ToLCMVisitor.parametric : ToLCMVisitor.visitor.Parametric where
  preVisit_eq _ _ _ := rfl
  visit_eq := by
    intro field field' _ name t v s
    simp only [visitor, name]
  visitMessage_alike := by
    intro α β R obj obj' alike field field' _ name v v' related s
    obtain ⟨related', same⟩ := alike.accept related init
    refine ⟨related', ?_⟩
    simp only [visitor, name, same]

theorem FromLCMVisitor.parametric (uninit : Nat → Byte) :
    (FromLCMVisitor.visitor uninit).Parametric where
  preVisit_eq _ _ _ := rfl
  visit_eq := by
    intro field field' _ name t v s
    rw [visit_eq, visit_eq, name]
  visitMessage_alike := by
    intro α β R obj obj' alike field field' _ name v v' related s
    obtain ⟨related', same⟩ := alike.accept related (sharing s.buffer)
    rw [visitMessage_eq, visitMessage_eq, name]
    refine ⟨related', ?_⟩
    simp only [same]

theorem ToJSONVisitor.parametric (F : FloatFormat) : (ToJSONVisitor.visitor F).Parametric where
  preVisit_eq _ _ _ := rfl
  visit_eq := by
    intro field field' id name t v s
    simp only [visitor, id, name]
  visitMessage_alike := by
    intro α β R obj obj' alike field field' id name v v' related s
    obtain ⟨related', same⟩ := alike.accept related init
    simp only [visitor, id, name]
    split
    · exact ⟨related', by rw [same]⟩
    · exact ⟨related, rfl⟩

theorem KeyValueVisitor.parametric {κ : Type} (K : EntryKind κ) :
    (KeyValueVisitor.visitor K).Parametric where
  preVisit_eq _ _ _ := rfl
  visit_eq := by
    intro field field' _ name t v s
    simp only [visitor, visit, name]
  visitMessage_alike := by
    intro α β R obj obj' alike field field' _ name v v' related d
    simp only [visitor, visitMessage, name]
    by_cases stopped : d.terminated = true
    · rw [if_pos stopped, if_pos stopped]
      exact ⟨related, rfl⟩
    · rw [if_neg stopped, if_neg stopped]
      rcases (d.keyValues.find field'.name).bind K.nested with _ | m
      · exact ⟨related, rfl⟩
      · obtain ⟨related', same⟩ := alike.accept related ⟨m, false⟩
        refine ⟨related', ?_⟩
        simp only [same]

theorem FromJSONVisitor.parametric (F : FloatFormat) : (FromJSONVisitor.visitor F).Parametric :=
  KeyValueVisitor.parametric (JSONValue.kind F)

theorem FromMsgPackVisitor.parametric : FromMsgPackVisitor.visitor.Parametric :=
  KeyValueVisitor.parametric MsgPackAny.kind

theorem ToMsgPackVisitor.parametric : ToMsgPackVisitor.visitor.Parametric where
  preVisit_eq _ _ _ := rfl
  visit_eq := by
    intro field field' _ name t v s
    simp only [visitor, name]
  visitMessage_alike := by
    intro α β R obj obj' alike field field' _ name v v' related s
    obtain ⟨related', same⟩ := alike.accept related init
    refine ⟨related', ?_⟩
    simp only [visitor, name, same]

theorem ToCSVVisitor.parametric (F : FloatFormat) : (ToCSVVisitor.visitor F).Parametric where
  preVisit_eq _ _ _ := rfl
  visit_eq := by
    intro field field' id name t v s
    simp only [visitor, id, name]
  visitMessage_alike := by
    intro α β R obj obj' alike field field' id name v v' related e
    obtain ⟨related', same⟩ := alike.accept related
      (initNested field'.name e.delimiter e.withHeader true)
    simp only [visitor, id, name]
    split
    · exact ⟨related', by rw [same]⟩
    · exact ⟨related, rfl⟩

/-- A generic message gives a message its values by their identifiers only. -/
theorem AnyGenericMessage.parametric : AnyGenericMessage.visitor.Parametric where
  preVisit_eq _ _ _ := rfl
  visit_eq := by
    intro field field' id _ t v gm
    simp only [visitor, visit, id]
  visitMessage_alike := by
    intro α β R obj obj' alike field field' id _ v v' related gm
    simp only [visitor, visitMessage, id]
    split
    · split
      · exact ⟨(alike.accept related _).1, rfl⟩
      · exact ⟨related, rfl⟩
    · exact ⟨related, rfl⟩

end Cluon
