import Tandem.Builtin.Call
/-!
Actions on the host that look at nothing but the labels that are left, and leave nothing behind but
labels taken and lines printed. What else there is to a host can be changed without any effect on
them: the trace messages, and the lines printed before. Giving out labels is such an action, and so
is every call of a built-in function.
-/
namespace Tandem

namespace Host

def withTrace (messages : Array String) (host : Host) : Host := { host with traced := messages }

def untraced (host : Host) : Host := host.withTrace #[]

def unprinted (host : Host) : Host := { host with printed := #[] }

/-- The host with these lines printed before its own. -/
def printedAfter (earlier : Array String) (host : Host) : Host :=
  { host with printed := earlier ++ host.printed }

/-- A change of the host that programs cannot see: labels are given out and lines are printed as if
it had not been made. -/
structure Unseen (change : Host → Host) : Prop where
  freshLabel : ∀ host, Host.freshLabel.run (change host) =
    ((Host.freshLabel.run host).1, change (Host.freshLabel.run host).2)
  print : ∀ line host, (change host).print line = change (host.print line)

theorem unseen_withTrace (messages : Array String) : Unseen (withTrace messages) :=
  ⟨fun _ => rfl, fun _ _ => rfl⟩

theorem unseen_printedAfter (earlier : Array String) : Unseen (printedAfter earlier) := by
  refine ⟨fun _ => rfl, fun line host => ?_⟩
  simp [print, printedAfter]

/-- The action is done in the same way whether or not such a change was made before. So it neither
looks at trace messages nor writes any, and does not look at what has been printed. -/
def Quiet {α : Type} (action : StateM Host α) : Prop :=
  ∀ change, Unseen change → ∀ host, action.run (change host) =
    ((action.run host).1, change (action.run host).2)

section

variable {α β : Type} {action : StateM Host α}

/-- Trace messages are written by the engines and never by a quiet action, so they are left as they
were. -/
theorem Quiet.traced_eq (h : Quiet action) (host : Host) :
    (action.run host).2.traced = host.traced :=
  congrArg (fun answer => answer.2.traced) (h _ (unseen_withTrace host.traced) host)

/-- Hosts that differ in trace messages only answer alike and go on differing in these only. -/
theorem Quiet.untraced_eq (h : Quiet action) {host other : Host}
    (hHost : host.untraced = other.untraced) :
    (action.run host).1 = (action.run other).1 ∧
      (action.run host).2.untraced = (action.run other).2.untraced := by
  have hErased := h _ (unseen_withTrace #[])
  exact Prod.mk.inj ((hErased host).symm.trans ((congrArg action.run hHost).trans (hErased other)))

theorem quiet_pure (value : α) : Quiet (pure value : StateM Host α) := fun _ _ _ => rfl

/-- Quiet actions one after the other are quiet: the first hands its answer on whether or not the
change was made. -/
theorem Quiet.bind {next : α → StateM Host β} (h : Quiet action)
    (hNext : ∀ value, Quiet (next value)) : Quiet (action >>= next) := by
  intro change hUnseen host
  show (next (action.run (change host)).1).run (action.run (change host)).2 = _
  rw [h change hUnseen host]
  exact hNext (action.run host).1 change hUnseen (action.run host).2

theorem quiet_freshLabel : Quiet freshLabel := fun _ hUnseen => hUnseen.freshLabel

theorem quiet_print (line : String) : Quiet (modify (print line) : StateM Host Unit) :=
  fun _ hUnseen host => congrArg (Prod.mk ()) (hUnseen.print line host)

end

end Host

namespace Builtin

open Host

theorem quiet_fail (cause : BuiltinError) : Quiet (fail cause) :=
  quiet_freshLabel.bind fun _ => quiet_pure _

theorem quiet_answerArray (elements : List Value) : Quiet (answerArray elements) :=
  quiet_freshLabel.bind fun _ => quiet_pure _

/-- What was printed before is not looked at when more is printed. -/
theorem quiet_printAll (values : List Value) : Quiet (printAll values) := by
  induction values with
  | nil => exact quiet_pure ()
  | cons value rest ih => exact (quiet_print value.text).bind fun _ => ih

/-- This covers every built-in function, refusals included, as an error value only takes a label. -/
theorem quiet_call (b : Builtin) (arguments : List Value) : Quiet (b.call arguments) := by
  unfold call
  split
  case h_4 => exact (quiet_printAll _).bind fun _ => quiet_pure _
  all_goals first | exact quiet_pure _ | exact quiet_fail _ | exact quiet_answerArray _

end Builtin

end Tandem
