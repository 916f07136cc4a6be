import SeqPar.Proofs.CallByValue
import SeqPar.Proofs.ReturnPath

/-!
# Views of a run

A program that reads lines, computes with its variables and writes text depends on a small part of
the machine: the lines that are still to be read, the text that was written and the variables of the
innermost scope.  This part is the view of the machine.  A computation yields a value and a view
when on every machine with the view before it succeeds with that value and leaves a machine with the
view after it; all else on the machine is arbitrary, but for an interruption by the user, which must
not be due.

Views are run through a program statement by statement: there is one rule for each operation and
each construct that such programs use.

## Main definitions

* `View`, `View.took`, `View.said`, `View.bound` — what a run sees, and how it changes.
* `Machine.Shows` — a machine with a view.
* `Yields` — a computation that takes one view to another.

## Main results

* `Yields.bind` and its like — going on after a computation, and passing through handlers.
* `Yields.assign`, `Yields.output`, `Yields.input`, `Yields.cond`, `Yields.conjunction`,
  `Yields.runAll_cons` — the constructs of programs.
-/

namespace SeqPar

open Exec

/-! ### Tables -/

section Tables

variable {α : Type}

theorem Table.lookup_putIn_of_ne {name x : String} (h : x ≠ name) (a : α)
    (entries : List (String × α)) : (putIn name a entries).lookup x = entries.lookup x := by
  have hx : (x == name) = false := beq_false_of_ne h
  induction entries with
  | nil => simp [putIn, List.lookup_cons, hx]
  | cons entry rest ih =>
    obtain ⟨n, b⟩ := entry
    by_cases hn : n = name
    · rw [putIn, if_pos hn, List.lookup_cons, List.lookup_cons, hn, hx]
    · rw [putIn, if_neg hn, List.lookup_cons, List.lookup_cons, ih]

/-- An entry that is put into a table hides none under another name. -/
theorem Table.get?_put_of_ne (t : Table α) {name x : String} (h : x ≠ name) (a : α) :
    (t.put name a).get? x = t.get? x :=
  lookup_putIn_of_ne h a t.entries

end Tables

/-! ### Views -/

/-- What a run without interruptions sees of the machine. -/
structure View where
  /-- The lines that are still to be read. -/
  lines : List String
  /-- The text that was written. -/
  written : String
  /-- The variables of the innermost scope. -/
  vars : String → Option Value

namespace View

/-- The view after lines were read, when the given ones are left. -/
def took (s : View) (rest : List String) : View :=
  { s with lines := rest }

/-- The view after a text was written. -/
def wrote (s : View) (text : String) : View :=
  { s with written := s.written ++ text }

/-- The view after a line was written. -/
def said (s : View) (line : String) : View :=
  s.wrote (line ++ "\n")

/-- The view after a variable was bound. -/
def bound (s : View) (name : String) (v : Value) : View :=
  { s with vars := fun x => if x = name then some v else s.vars x }

theorem wrote_wrote (s : View) (a b : String) : (s.wrote a).wrote b = s.wrote (a ++ b) := by
  rw [wrote, wrote, wrote, String.append_assoc]

@[simp] theorem vars_took (s : View) (rest : List String) : (s.took rest).vars = s.vars := rfl

@[simp] theorem vars_said (s : View) (line : String) : (s.said line).vars = s.vars := rfl

@[simp] theorem lines_took (s : View) (rest : List String) : (s.took rest).lines = rest := rfl

@[simp] theorem lines_said (s : View) (line : String) : (s.said line).lines = s.lines := rfl

@[simp] theorem lines_bound (s : View) (name : String) (v : Value) :
    (s.bound name v).lines = s.lines := rfl

theorem vars_bound (s : View) (name : String) (v : Value) (x : String) :
    (s.bound name v).vars x = if x = name then some v else s.vars x := rfl

end View

/-- A machine with the given view, whose calls of `output` are not interrupted. -/
structure Machine.Shows (m : Machine) (s : View) : Prop where
  /-- The lines that are still to be read. -/
  lines : m.input = s.lines
  /-- The text that was written. -/
  written : m.output = s.written
  /-- The variables of the innermost scope. -/
  vars : ∀ name, m.scopes.top.get? name = s.vars name
  /-- No interruption is due. -/
  uncut : m.outputsLeft = none

/-- On every machine with the view `s` the computation succeeds with the value `a`, and the machine
has the view `s'` then. -/
def Yields {α : Type} (p : Exec α) (s : View) (a : α) (s' : View) : Prop :=
  ∀ m : Machine, m.Shows s → ∃ m', p m = .ok a m' ∧ m'.Shows s'

theorem runAll_append (run : Runner) (ns ns' : List Node) :
    runAll run (ns ++ ns') = (do
      runAll run ns
      runAll run ns') := by
  induction ns with
  | nil => rfl
  | cons n ns ih =>
    show (run n >>= fun _ => runAll run (ns ++ ns')) = _
    rw [ih]
    exact (bind_assoc (run n) (fun _ => runAll run ns) _).symm

namespace Yields

variable {α β : Type} {p : Exec α} {a : α} {b : β} {s s' s'' : View}

/-! ### Going on -/

theorem pure (a : α) (s : View) : Yields (Pure.pure a) s a s :=
  fun m hm => ⟨m, rfl, hm⟩

theorem bind {f : α → Exec β} (hp : Yields p s a s') (hf : Yields (f a) s' b s'') :
    Yields (p >>= f) s b s'' := by
  intro m hm
  obtain ⟨m₁, hfirst, hm₁⟩ := hp m hm
  obtain ⟨m₂, hrest, hm₂⟩ := hf m₁ hm₁
  exact ⟨m₂, (bind_of_ok f hfirst).trans hrest, hm₂⟩

theorem ofExcept {r : Except Fault α} (h : r = .ok a) (s : View) :
    Yields (Exec.ofExcept r) s a s := by
  rw [h]
  exact .pure a s

/-- Faults are not handled where there are none. -/
theorem recover (hp : Yields p s a s') (handler : Fault → Exec α) :
    Yields (recover p handler) s a s' := by
  intro m hm
  obtain ⟨m', hok, hm'⟩ := hp m hm
  refine ⟨m', ?_, hm'⟩
  rw [Exec.recover, hok]

theorem wrapFaults (hp : Yields p s a s') (wrap : Fault → Fault) :
    Yields (wrapFaults wrap p) s a s' :=
  hp.recover _

theorem exitOnInterrupt (hp : Yields p s a s') : Yields (exitOnInterrupt p) s a s' := by
  intro m hm
  obtain ⟨m', hok, hm'⟩ := hp m hm
  exact ⟨m', exitOnInterrupt_of_ok hok, hm'⟩

theorem forgetResult (hp : Yields p s a s') : Yields (forgetResult p) s a s' := by
  intro m hm
  obtain ⟨m', hok, hm'⟩ := hp m hm
  refine ⟨m', ?_, hm'⟩
  rw [SeqPar.forgetResult, hok]

/-! ### Operations of the machine -/

theorem write (text : String) (s : View) : Yields (write text) s () (s.wrote text) := by
  intro m hm
  refine ⟨{ m with output := m.output ++ text }, rfl, hm.lines, ?_, hm.vars, hm.uncut⟩
  show m.output ++ text = s.written ++ text
  rw [hm.written]

theorem writeLine (line : String) (s : View) : Yields (writeLine line) s () (s.said line) :=
  .write (line ++ "\n") s

/-- A value that has a display form is written in a line of its own. -/
theorem writeValues {v : Value} (hv : v.tooLong = false) (s : View) :
    Yields (writeValues [v]) s () (s.said v.display) := by
  have hdisplay : Yields (display v) s v.display s := by
    rw [display, hv]
    exact .pure v.display s
  rw [View.said, ← s.wrote_wrote]
  exact hdisplay.bind ((write v.display s).bind (write "\n" _))

theorem readLine {line : String} {rest : List String} (h : s.lines = line :: rest) :
    Yields readLine s line (s.took rest) := by
  intro m hm
  have hinput := hm.lines.trans h
  refine ⟨{ m with input := rest }, ?_, rfl, hm.written, hm.vars, hm.uncut⟩
  obtain ⟨scopes, functions, connections, input, interrupts, output, left, network⟩ := m
  cases hinput
  rfl

theorem outputDone (s : View) : Yields outputDone s () s := by
  intro m hm
  refine ⟨m, ?_, hm⟩
  have huncut := hm.uncut
  obtain ⟨scopes, functions, connections, input, interrupts, output, left, network⟩ := m
  cases huncut
  rfl

theorem bindHere (name : String) (v : Value) (s : View) :
    Yields (bindHere name v) s () (s.bound name v) := by
  intro m hm
  refine ⟨{ m with scopes := m.scopes.put name v }, rfl, hm.lines, hm.written, ?_, hm.uncut⟩
  intro x
  show (m.scopes.top.put name v).get? x = _
  rw [View.vars_bound]
  split
  · next h =>
    rw [h]
    exact Table.get?_put_self _ _ _
  · next h => rw [Table.get?_put_of_ne _ h, hm.vars]

/-- A variable that is bound. -/
theorem runIdent {name : String} {v : Value} (h : s.vars name = some v) :
    Yields (runIdent name) s v s := by
  intro m hm
  refine ⟨m, ?_, hm⟩
  have hbinding : binding? name m = .ok (some v) m := by
    rw [← h, ← hm.vars]
    rfl
  exact bind_of_ok _ hbinding

/-! ### Constructs of programs -/

variable {k : Nat} {type : Option String} {t : Token} {v w : Value}

theorem ident {decl : Bool} (h : s.vars t.text = some v) :
    Yields (exec (k + 1) (.ident type t decl)) s v s :=
  .runIdent h

theorem constant (s : View) : Yields (exec (k + 1) (.constant type t)) s (.text t.text) s :=
  .pure _ s

/-- An assignment to a variable, of a value that is stored as `w`. -/
theorem assign {decl : Bool} {right : Node} (hright : Yields (exec k right) s v s')
    (hstored : v.stored = .ok w) :
    Yields (exec (k + 1) (.assign (.ident type t decl) right)) s w (s'.bound t.text w) := by
  refine .exitOnInterrupt (.wrapFaults ?_ _)
  refine .bind (.pure t.text s) (.bind hright (.bind (.ofExcept hstored s') ?_))
  exact .bind (.bindHere t.text w s') (.pure w _)

/-- A call of `output` with one argument. -/
theorem output {arg : Node} (hname : t.text = "output") (harg : Yields (exec k arg) s v s')
    (hshown : (Builtin.shown v).tooLong = false) :
    Yields (exec (k + 1) (.call type t [arg])) s .nothing
      (s'.said (Builtin.shown v).display) := by
  have hargs : Yields (evalAll (exec k) [arg]) s [v] s' :=
    harg.bind (.bind (.pure [] s') (.pure [v] s'))
  have hcall : Yields (Builtin.call .output [v]) s' .nothing
      (s'.said (Builtin.shown v).display) :=
    .exitOnInterrupt ((writeValues hshown s').bind ((outputDone _).bind (.pure _ _)))
  have hbuiltin : Yields (callBuiltin (exec k) t.text .output [arg]) s .nothing
      (s'.said (Builtin.shown v).display) :=
    .recover (hargs.bind hcall) _
  show Yields (runCall (exec k) t.text [arg]) s _ _
  rw [runCall, hname]
  rw [hname] at hbuiltin
  exact hbuiltin

/-- A call of `input`. -/
theorem input {line : String} {rest : List String} (hname : t.text = "input")
    (h : s.lines = line :: rest) :
    Yields (exec (k + 1) (.call type t [])) s (decodeText line) (s.took rest) := by
  have hcall : Yields (Builtin.call .input []) s (decodeText line) (s.took rest) :=
    .exitOnInterrupt ((readLine h).bind (.pure _ _))
  have hbuiltin : Yields (callBuiltin (exec k) t.text .input []) s (decodeText line)
      (s.took rest) := .recover (.bind (.pure [] s) hcall) _
  show Yields (runCall (exec k) t.text []) s _ _
  rw [runCall, hname]
  rw [hname] at hbuiltin
  exact hbuiltin

/-- A comparison. -/
theorem relational {left right : Node} {r : Bool} (hleft : Yields (exec k left) s v s')
    (hright : Yields (exec k right) s' w s'') (h : SeqPar.relational t.text v w = .ok r) :
    Yields (exec (k + 1) (.relational type t left right)) s (.bool r) s'' :=
  hleft.bind (hright.bind ((ofExcept h s'').bind (.pure _ s'')))

/-- A conjunction of truth values. -/
theorem conjunction {left right : Node} {x y : Bool} (hname : t.text = "&&")
    (hleft : Yields (exec k left) s (.bool x) s')
    (hright : Yields (exec k right) s' (.bool y) s'') :
    Yields (exec (k + 1) (.logical type t left right)) s (.bool (x && y)) s'' := by
  show Yields (runLogical (exec k) t.text left right) s _ _
  rw [hname]
  refine hleft.bind (hright.bind ?_)
  cases x with
  | false => exact .pure _ s''
  | true => exact .pure _ s''

theorem runAll_nil (s : View) : Yields (runAll (exec k) []) s () s :=
  .pure () s

theorem runAll_cons {n : Node} {ns : List Node} (hn : Yields (exec k n) s v s')
    (hns : Yields (runAll (exec k) ns) s' () s'') : Yields (runAll (exec k) (n :: ns)) s () s'' :=
  hn.bind hns

/-- A statement on its own. -/
theorem runAll_singleton {n : Node} (hn : Yields (exec k n) s v s') :
    Yields (runAll (exec k) [n]) s () s' :=
  hn.runAll_cons (runAll_nil s')

theorem runAll_append {ns ns' : List Node} (hns : Yields (runAll (exec k) ns) s () s')
    (hns' : Yields (runAll (exec k) ns') s' () s'') :
    Yields (runAll (exec k) (ns ++ ns')) s () s'' := by
  rw [SeqPar.runAll_append]
  exact hns.bind hns'

/-- A conditional with two branches runs the one that its condition picks. -/
theorem cond {condition : Node} {body orElse : List Node} {x : Bool}
    (hcondition : Yields (exec k condition) s (.bool x) s')
    (hbranch : Yields (runAll (exec k) (bif x then body else orElse)) s' () s'') :
    Yields (exec (k + 1) (.cond condition body (some orElse))) s .nothing s'' := by
  refine hcondition.bind ?_
  cases x with
  | false => exact hbranch.bind (.pure _ s'')
  | true => exact hbranch.bind (.pure _ s'')

theorem seq {body : List Node} (hbody : Yields (runAll (exec k) body) s () s') :
    Yields (exec (k + 1) (.seq body)) s .nothing s' :=
  hbody.forgetResult.bind (.pure _ s')

end Yields

end SeqPar
