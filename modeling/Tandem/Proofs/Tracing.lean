import Tandem.Proofs.Evaluation.Tracing
import Tandem.Proofs.Machine.Tracing
/-!
Tracing in both engines. It writes messages and does nothing else: with tracing on, a run of the
machine and the evaluation of a tree come out as they do with tracing off. The machine's tracing
reads the operands of each instruction by a rule of its own and stops the run where it finds too few
bytes, but the run would not have come further without it.
-/
namespace Tandem

open Execution Machine

/-- Tracing is transparent. Whatever bytes a machine is given to run, its answer after any number of
steps is the same with tracing on and off once the trace messages are erased: the same end, or none
yet, and the same machine. With tracing on, one message is written for each instruction that is
found and executed, be it the one that stops the run; nothing is written for a byte that is no
opcode, for an opcode that lacks operand bytes, or with tracing off. And the evaluation of any node
gives the same value or error over the same store, trace messages aside. -/
theorem tracing_is_transparent :
    (∀ (bundle : Bundle) (globals : Slots) (host : Host) (steps : Nat),
      (load bundle globals host).runUntraced { trace := true } steps =
        (load bundle globals host).runUntraced { trace := false } steps) ∧
    (∀ (bundle : Bundle) (globals : Slots) (host : Host) (m : Machine) (steps : Nat),
      RunsFor { trace := true } (fun _ => True) (load bundle globals host) m steps →
      m.host.traced.size = host.traced.size + steps) ∧
    (∀ m : Machine,
      (∀ i, m.next? = some i → (step { trace := true } m).2.host.traced =
        m.host.traced.push (traceMessage m ⟨m.frame.cursor, i.item⟩)) ∧
      (m.next? = none → (step { trace := true } m).2.host.traced = m.host.traced) ∧
      (step { trace := false } m).2.host.traced = m.host.traced) ∧
    ∀ (n : Node) (scope : ScopeId) (store : Store) (steps : Nat),
      n.evaluateUntraced { trace := true } steps scope store =
        n.evaluateUntraced { trace := false } steps scope store := by
  refine ⟨fun bundle globals host steps => runUntraced_eq _ _ rfl steps,
    fun bundle globals host m steps run => run.size_traced, fun m => ⟨?_, ?_, ?_⟩,
    fun n scope store steps => n.evaluateUntraced_eq _ _ steps scope store⟩
  · intro i hNext
    rw [traced_step, messages, if_pos rfl, hNext]
    exact Array.push_eq_append.symm
  · intro hNext
    rw [traced_step, messages_of_next?_eq_none _ hNext, Array.append_empty]
  · rw [traced_step, messages, if_neg Bool.false_ne_true, Array.append_empty]

/-- A stream that pushes `true` and cannot negate it. -/
def negatesTrue : Bundle := { code := Code.assemble [(.pushTrue, []), (.negate, [])] }

/-- The second instruction stops the run, but not before its message was written. Without tracing
the run ends in the same way. -/
theorem negatesTrue_tracing_is_transparent :
    ∃ m, RunsFor { trace := true } (fun _ => True) (load negatesTrue { size := 0 } {}) m 1 ∧
      m.host.traced.size = 1 ∧
      (step { trace := true } m).1 = .error (.error (.unsupportedNegation "BOOLEAN")) ∧
      (step { trace := true } m).2.host.traced =
        m.host.traced.push (traceMessage m ⟨1, .instruction .negate []⟩) ∧
      (load negatesTrue { size := 0 } {}).runUntraced { trace := true } 2 =
        (load negatesTrue { size := 0 } {}).runUntraced { trace := false } 2 := by
  have run : RunsFor { trace := true } (fun _ => True) (load negatesTrue { size := 0 } {})
      (after { trace := true } (load negatesTrue { size := 0 } {}) 1) 1 :=
    RunsFor.succ (RunsFor.zero _) trivial rfl rfl
  obtain ⟨hRuns, hSize, hMessages, _⟩ := tracing_is_transparent
  refine ⟨_, run, ?_, rfl, ?_, hRuns negatesTrue { size := 0 } {} 2⟩
  · exact hSize _ _ _ _ _ run
  · exact (hMessages _).1 .negate rfl

end Tandem
