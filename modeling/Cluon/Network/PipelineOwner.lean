import Cluon.Pipeline.Notifications

/-!
# Owners of a pipeline

`UDPReceiver` and `TCPConnection` own a thread that reads from a socket, and a pipeline that the
reading thread adds entries to. Their constructors spawn the reading thread first and create the
pipeline then; their destructors join the reading thread first and destroy the pipeline then.
-/

set_option autoImplicit false

namespace Cluon

/-- Where the thread is that constructs and destroys the owner of a pipeline. -/
inductive PipelineOwner where
  /-- in the constructor, waiting for the reading thread -/
  | startingReader
  /-- in the constructor, waiting for the pipeline -/
  | startingPipeline
  /-- between the constructor and the destructor -/
  | constructed
  /-- in the destructor, after `m_readFromSocketThreadRunning.store(false)` -/
  | stopped
  /-- in the destructor, in `m_pipeline.reset()` -/
  | resetting
  deriving DecidableEq, Repr

/-- The constructor has not returned yet. -/
def PipelineOwner.constructing : PipelineOwner → Prop
  | .startingReader | .startingPipeline => True
  | _ => False

namespace NotifyingPipeline

variable {α : Type}

/-- A step of the thread of a pipeline, or of the destructor of the pipeline. -/
inductive OwnStep : NotifyingPipeline α → NotifyingPipeline α → Prop
  | processPipeline {p p' : NotifyingPipeline α} : p.processPipeline true = some p' → OwnStep p p'
  | spuriousWakeUp {p : NotifyingPipeline α} : p.consumer = .asleep →
      OwnStep p { p with consumer := .lock }
  | notify {p : NotifyingPipeline α} : p.owner = .stopped →
      OwnStep p { p.notifyAll with owner := .joining }
  | join {p : NotifyingPipeline α} : p.owner = .joining → p.consumer = .exited →
      OwnStep p { p with owner := .joined }

/-- The pipeline makes no entries of its own. -/
theorem OwnStep.added {p p' : NotifyingPipeline α} (step : OwnStep p p') : p'.added = p.added := by
  cases step with
  | processPipeline h => exact added_processPipeline h
  | spuriousWakeUp _ | join _ _ => rfl
  | notify _ => exact added_notifyAll p

theorem OwnStep.invariant {p p' : NotifyingPipeline α} (inv : p.Invariant true)
    (step : OwnStep p p') : p'.Invariant true := by
  cases step with
  | processPipeline h => exact inv.processPipeline h
  | spuriousWakeUp asleep => exact invariant_step inv (.spuriousWakeUp asleep)
  | notify stopped => exact invariant_step inv (.notify stopped)
  | join joining exited => exact invariant_step inv (.join joining exited)

/-- What was handed over remains so. -/
theorem OwnStep.delivered {p p' : NotifyingPipeline α} (step : OwnStep p p') :
    p.delivered <+: p'.delivered := by
  cases step with
  | processPipeline h => exact delivered_processPipeline h
  | spuriousWakeUp _ | join _ _ => exact List.prefix_rfl
  | notify _ =>
      rw [notifyAll]
      split <;> exact List.prefix_rfl

/-- The thread goes to sleep only if there are no entries. -/
theorem OwnStep.attentive {p p' : NotifyingPipeline α} (inv : p.Attentive) (step : OwnStep p p') :
    p'.Attentive ∧ (p'.Unattended → p.Unattended) := by
  cases step with
  | processPipeline h =>
      obtain ⟨attentive, attended⟩ := inv.processPipeline h
      exact ⟨attentive, fun unattended => absurd unattended attended⟩
  | spuriousWakeUp _ => exact ⟨.of_not_holdsMutex not_false, fun unattended => nomatch unattended.1⟩
  | notify _ =>
      exact ⟨{ inv.notifyAll with }, fun unattended =>
        absurd unattended (not_unattended_notifyAll p)⟩
  | join _ _ => exact ⟨{ inv with }, id⟩

/-- What was added has been handed over or is in the deque. -/
theorem Invariant.added_eq_delivered {p : NotifyingPipeline α} (inv : p.Invariant true) :
    p.added = p.delivered ++ p.pipeline.drop (handedOver p.consumer).length := by
  obtain ⟨added, delivered, counted⟩ := inv
  rw [added, delivered, if_pos rfl, List.append_assoc]
  congr 1
  cases hc : p.consumer with
  | popFront entry i entries =>
      rw [hc] at counted
      obtain ⟨rest, hp⟩ := List.head?_eq_some_iff.mp counted.2
      rw [hp]
      rfl
  | _ => rfl

end NotifyingPipeline

end Cluon
