import SeqPar.Proofs.ScopeFree

/-!
# Simulations between runs

Facts about every run of every node are proved here only once.  A relation between computations is
a *congruence* when every computation that leaves scopes and functions alone is related to itself,
when the operations on variables and functions are related to themselves, and when going on after
related computations gives related ones.  A congruence relates the runs of every node as soon as it
relates the calls of defined functions; the way in which these calls are made is a parameter of the
runs, so that a run can be compared with one in which calls are made differently.

Two operations reach further than the others: a parallel block binds variables in every scope, and
a function definition changes the functions.  A relation that they do not keep may still be a *local*
congruence; it then relates the runs of the nodes that hold no such statement.  A local congruence
need not relate the end of the fuel to itself, so that it may also say that a run does not end there.
A relation that does not even keep all bindings of variables in the innermost scope may be a
congruence *of signals*; what reading an unbound variable and assigning do is then left to be shown.

## Main definitions

* `Caller`, `execWith` — running nodes with another way of calling defined functions.
* `Node.parts` — the nodes that running a node may run.
* `SignalCongruence`, `LocalCongruence`, `Congruence` — what a relation between computations has to
  satisfy.

## Main results

* `execWith_callFunction` — `execWith` with the calls of `exec` is `exec`.
* `SignalCongruence.step`, `LocalCongruence.step` — one node of any kind other than a call, when the
  runs of its parts are related.
* `Congruence.execWith` — related ways of calling functions give related runs of all nodes.
-/

namespace SeqPar

open Exec

/-! ### Ways of calling functions -/

theorem callFunction_apply (run : Runner) (params body args : List Node) (m : Machine) :
    callFunction run params body args m =
      handle (bindParams run 0 params args)
        (fun _ => afterwards (runBody run .nothing body) Machine.leaveScope) throw
        (m.withScopes m.scopes.enter) := by
  rw [← bind_eq_handle]
  rfl

/-- How a call of a defined function is made. -/
abbrev Caller := Runner → (params body args : List Node) → Exec Value

/-- A call of a name that is not built in, given the functions that were defined. -/
def callNamed (call : Caller) (run : Runner) (name : String) (args : List Node)
    (functions : Table Node) : Exec Value :=
  match functions.get? name with
  | some (.funcDef _ _ params body) => call run params body args
  | _ => callUndefined run name args

/-- A call, when defined functions are called by `call`. -/
def callWith (call : Caller) (run : Runner) (name : String) (args : List Node) : Exec Value :=
  match Builtin.ofName? name with
  | some f => callBuiltin run name f args
  | none => do callNamed call run name args (← get).functions

/-- Runs a node, given how to run the nodes inside it and how to call defined functions. -/
def stepWith (call : Caller) (run : Runner) : Node → Exec Value
  | .call _ t args => callWith call run t.text args
  | n => step run n

/-- Runs a node to a depth, when defined functions are called by `call`. -/
def execWith (call : Caller) : (fuel : Nat) → Node → Exec Value
  | 0, _ => throw .exhausted
  | fuel + 1, n => stepWith call (execWith call fuel) n

theorem runCall_eq_callWith (run : Runner) (name : String) (args : List Node) :
    runCall run name args = callWith callFunction run name args :=
  rfl

/-- A call of a defined function. -/
theorem runCall_apply {run : Runner} {name name' : String} {args params body : List Node}
    {ret : Option String} {m : Machine} (hbuiltin : Builtin.ofName? name = none)
    (hdefined : m.functions.get? name = some (.funcDef name' ret params body)) :
    runCall run name args m = callFunction run params body args m := by
  rw [runCall_eq_callWith, callWith, hbuiltin]
  change callNamed callFunction run name args m.functions m = _
  rw [callNamed, hdefined]

theorem stepWith_callFunction (run : Runner) (n : Node) :
    stepWith callFunction run n = step run n := by
  cases n with
  | call type t args => exact (runCall_eq_callWith run t.text args).symm
  | _ => rfl

theorem execWith_callFunction (fuel : Nat) : execWith callFunction fuel = exec fuel := by
  induction fuel with
  | zero => rfl
  | succ fuel ih =>
    funext n
    rw [execWith, exec, ih, stepWith_callFunction]

/-! ### Parts of nodes -/

/-- The nodes that running a node may run, those inside functions apart. -/
def Node.parts : Node → List Node
  | .assign _ right => [right]
  | .cond condition body orElse => condition :: (body ++ orElse.getD [])
  | .loop condition body => condition :: body
  | .seq body | .par body => body
  | .clientChannel _ host port => [host, port]
  | .serverChannel _ _ _ greeting _ => [greeting]
  | .access _ _ base index => [base, index]
  | .logical _ _ left right | .relational _ _ left right | .arithmetic _ _ left right =>
    [left, right]
  | .unary _ _ expr => [expr]
  | .call _ _ args => args
  | .ret expr => [expr]
  | _ => []

/-- Defines a function. -/
def define (name : String) (n : Node) : Exec Unit :=
  modify fun m => { m with functions := m.functions.put name n }

/-! ### Congruences -/

/-- A relation between computations that the constructs of programs keep, but for the operations
that bind variables or define functions.  Nothing goes on after the end of the fuel on either side:
runs on the right may use it to stop for good, and a relation may rule it out. -/
structure SignalCongruence (rel : ∀ α : Type, Exec α → Exec α → Prop) : Prop where
  /-- A computation that leaves scopes and functions alone, and that the end of the fuel does not
  end, is related to itself. -/
  steady : ∀ {α : Type} {p : Exec α}, Steady p → rel α p p
  /-- Going on after related computations. -/
  handle : ∀ {α β : Type} {p q : Exec α} {f g : α → Exec β} {h k : Signal → Exec β},
    rel α p q → (∀ a, rel β (f a) (g a)) →
    (∀ signal, signal ≠ .exhausted → rel β (h signal) (k signal)) →
    h .exhausted = throw .exhausted → k .exhausted = throw .exhausted →
    rel β (handle p f h) (handle q g k)
  /-- Reading the functions. -/
  functions : rel _ (do return (← get).functions) (do return (← get).functions)
  /-- Reading a variable in the innermost scope. -/
  binding? : ∀ name, rel _ (binding? name) (binding? name)

/-- A relation between computations that the constructs of programs keep, but for the operations
that bind variables in every scope or define functions. -/
structure LocalCongruence (rel : ∀ α : Type, Exec α → Exec α → Prop) : Prop
    extends SignalCongruence rel where
  /-- Binding a variable in the innermost scope. -/
  bindHere : ∀ name v, rel _ (bindHere name v) (bindHere name v)

/-- A relation between computations that all constructs of programs keep. -/
structure Congruence (rel : ∀ α : Type, Exec α → Exec α → Prop) : Prop
    extends LocalCongruence rel where
  /-- The end of the fuel. -/
  exhausted : ∀ {α : Type}, rel α (throw .exhausted) (throw .exhausted)
  /-- Defining a function. -/
  define : ∀ name n, rel _ (define name n) (define name n)
  /-- Binding a variable in every scope. -/
  bindEverywhere : ∀ name v, rel _ (bindEverywhere name v) (bindEverywhere name v)

/-- Handlers that are related for the other signals are related for the end of the fuel too, when
that end is related to itself. -/
theorem handlers_related {β : Type} {rel : Exec β → Exec β → Prop} {h k : Signal → Exec β}
    (hh : ∀ signal, signal ≠ .exhausted → rel (h signal) (k signal))
    (hstop : h .exhausted = throw .exhausted) (hstop' : k .exhausted = throw .exhausted)
    (hrel : rel (throw .exhausted) (throw .exhausted)) (signal : Signal) :
    rel (h signal) (k signal) := by
  by_cases hsignal : signal = .exhausted
  · rw [hsignal, hstop, hstop']
    exact hrel
  · exact hh signal hsignal

namespace SignalCongruence

variable {rel : ∀ α : Type, Exec α → Exec α → Prop} (C : SignalCongruence rel)
variable {α β : Type} {p q : Exec α}

include C

/-! ### Signals -/

theorem pure (a : α) : rel α (Pure.pure a) (Pure.pure a) :=
  C.steady (.pure a)

theorem fail (cause : Fault) : rel α (Exec.fail cause) (Exec.fail cause) :=
  C.steady (.fail cause)

theorem ofExcept (r : Except Fault α) : rel α (Exec.ofExcept r) (Exec.ofExcept r) :=
  C.steady (.ofExcept r)

theorem writeLine (text : String) : rel _ (Exec.writeLine text) (Exec.writeLine text) :=
  C.steady (.write _)

theorem bind {f g : α → Exec β} (hp : rel α p q) (hf : ∀ a, rel β (f a) (g a)) :
    rel β (p >>= f) (q >>= g) := by
  rw [bind_eq_handle, bind_eq_handle]
  exact C.handle hp hf (fun _ hsignal => C.steady (.throw hsignal)) rfl rfl

theorem recover {f g : Fault → Exec α} (hp : rel α p q) (hf : ∀ cause, rel α (f cause) (g cause)) :
    rel α (recover p f) (recover q g) := by
  rw [recover_eq_handle, recover_eq_handle]
  refine C.handle hp C.pure ?_ rfl rfl
  intro signal hsignal
  cases signal.cause? with
  | some cause => exact hf cause
  | none => exact C.steady (.throw hsignal)

theorem wrapFaults (wrap : Fault → Fault) (hp : rel α p q) :
    rel α (wrapFaults wrap p) (wrapFaults wrap q) :=
  C.recover hp fun cause => C.fail (wrap cause)

theorem exitOnInterrupt (hp : rel α p q) : rel α (exitOnInterrupt p) (exitOnInterrupt q) := by
  rw [exitOnInterrupt_eq_handle, exitOnInterrupt_eq_handle]
  refine C.handle hp C.pure ?_ rfl rfl
  intro signal hsignal
  exact C.steady (.throw (Signal.orExit_ne_exhausted hsignal))

theorem forgetResult (hp : rel α p q) : rel α (forgetResult p) (forgetResult q) := by
  rw [forgetResult_eq_handle, forgetResult_eq_handle]
  refine C.handle hp C.pure ?_ rfl rfl
  intro signal hsignal
  exact C.steady (.throw (Signal.withoutResult_ne_exhausted hsignal))

/-! ### Variables -/

section Everywhere

variable (hbind : ∀ name v, rel _ (bindEverywhere name v) (bindEverywhere name v))

include hbind

theorem bindIfUnbound (name : String) (v : Value) :
    rel _ (Exec.bindIfUnbound name v) (Exec.bindIfUnbound name v) := by
  refine C.bind (C.bind (C.binding? name) fun _ => C.pure _) fun bound => ?_
  cases bound with
  | true => exact C.pure ()
  | false => exact hbind name v

theorem bindTargets (start : String → Int) (ns : List Node) :
    rel _ (SeqPar.bindTargets start ns) (SeqPar.bindTargets start ns) := by
  induction ns with
  | nil => exact C.pure ()
  | cons n ns ih =>
    exact C.bind (C.steady n.steady_tokenText) fun name =>
      C.bind (C.bindIfUnbound hbind name _) fun _ => ih

end Everywhere

/-! ### Statements and expressions -/

variable {run run' : Runner}

theorem runAll {ns : List Node} (hns : ∀ n ∈ ns, rel _ (run n) (run' n)) :
    rel _ (SeqPar.runAll run ns) (SeqPar.runAll run' ns) := by
  induction ns with
  | nil => exact C.pure ()
  | cons n ns ih =>
    have hrest := ih fun n hn => hns n (List.mem_cons_of_mem _ hn)
    exact C.bind (hns n List.mem_cons_self) fun _ => hrest

theorem evalAll {ns : List Node} (hns : ∀ n ∈ ns, rel _ (run n) (run' n)) :
    rel _ (SeqPar.evalAll run ns) (SeqPar.evalAll run' ns) := by
  induction ns with
  | nil => exact C.pure []
  | cons n ns ih =>
    have hrest := ih fun n hn => hns n (List.mem_cons_of_mem _ hn)
    exact C.bind (hns n List.mem_cons_self) fun _ => C.bind hrest fun _ => C.pure _

/-- An assignment, when the relation keeps the binding that it makes. -/
theorem runAssign {left right : Node} (hright : rel _ (run right) (run' right))
    (hbind : ∀ t, left.token? = some t → ∀ v, rel _ (bindHere t.text v) (bindHere t.text v)) :
    rel _ (SeqPar.runAssign run left right) (SeqPar.runAssign run' left right) := by
  refine C.exitOnInterrupt (C.wrapFaults _ ?_)
  unfold Node.tokenText
  cases ht : left.token? with
  | none => exact C.fail _
  | some t =>
    have hstore (v : Value) : rel Value
        (do let stored ← Exec.ofExcept v.stored; bindHere t.text stored; return stored)
        (do let stored ← Exec.ofExcept v.stored; bindHere t.text stored; return stored) :=
      C.bind (C.ofExcept v.stored) fun stored => C.bind (hbind t ht stored) fun _ => C.pure stored
    -- Once the name is known, both sides start with the right side.
    have hrun := C.bind hright hstore
    exact hrun

theorem runCond {condition : Node} {body : List Node} {orElse : Option (List Node)}
    (hcondition : rel _ (run condition) (run' condition))
    (hbody : ∀ n ∈ body, rel _ (run n) (run' n))
    (horElse : ∀ n ∈ orElse.getD [], rel _ (run n) (run' n)) :
    rel _ (SeqPar.runCond run condition body orElse)
      (SeqPar.runCond run' condition body orElse) := by
  refine C.bind hcondition fun v => ?_
  by_cases h : v.holds
  · simp only [h, if_true]
    exact C.bind (C.runAll hbody) fun _ => C.pure _
  · simp only [h]
    exact C.bind (C.runAll horElse) fun _ => C.pure _

theorem runRound {condition : Node} {body : List Node}
    (hcondition : rel _ (run condition) (run' condition))
    (hbody : ∀ n ∈ body, rel _ (run n) (run' n)) :
    rel _ (SeqPar.runRound run condition body) (SeqPar.runRound run' condition body) := by
  refine C.wrapFaults _ (C.bind hcondition fun v => ?_)
  by_cases h : v.continuesLoop
  · simp only [h, if_true]
    have hwrapped : ∀ n ∈ body, rel _ (Exec.wrapFaults .inLoopBody (run n))
        (Exec.wrapFaults .inLoopBody (run' n)) := fun n hn => C.wrapFaults _ (hbody n hn)
    exact C.bind (C.runAll hwrapped) fun _ => C.pure _
  · simp only [h]
    exact C.pure _

theorem runRounds {round round' : Exec Bool} (h : rel _ round round') (n : Nat) :
    rel _ (SeqPar.runRounds round n) (SeqPar.runRounds round' n) := by
  induction n with
  | zero => exact C.pure ()
  | succ n ih =>
    refine C.bind h fun again => ?_
    cases again with
    | true => exact ih
    | false => exact C.pure ()

theorem runLoop {condition : Node} {body : List Node}
    (hcondition : rel _ (run condition) (run' condition))
    (hbody : ∀ n ∈ body, rel _ (run n) (run' n)) :
    rel _ (SeqPar.runLoop run condition body) (SeqPar.runLoop run' condition body) :=
  C.bind (C.runRounds (C.runRound hcondition hbody) roundLimit) fun _ => C.pure _

theorem runSeq {body : List Node} (hbody : ∀ n ∈ body, rel _ (run n) (run' n)) :
    rel _ (SeqPar.runSeq run body) (SeqPar.runSeq run' body) :=
  C.bind (C.forgetResult (C.runAll hbody)) fun _ => C.pure _

theorem runPar {body : List Node}
    (hbind : ∀ name v, rel _ (bindEverywhere name v) (bindEverywhere name v))
    (hbody : ∀ n ∈ body, rel _ (run n) (run' n)) :
    rel _ (SeqPar.runPar run body) (SeqPar.runPar run' body) := by
  have hunbound := C.bindIfUnbound hbind
  refine C.bind (C.bindTargets hbind _ _) fun _ => ?_
  refine C.bind (hunbound _ _) fun _ => C.bind (hunbound _ _) fun _ => ?_
  refine C.bind (hunbound _ _) fun _ => C.bind (hunbound _ _) fun _ => ?_
  refine C.exitOnInterrupt (C.wrapFaults _ ?_)
  -- The block either is the known pair of series or runs its own statements.
  by_cases h : body.any writesSeriesPrompt
  · simp only [h, if_true]
    exact C.bind (C.steady steady_runSeries) fun _ => C.pure _
  · simp only [h]
    exact C.bind (C.runAll hbody) fun _ => C.pure _

theorem channelValue {n : Node} (hn : rel _ (run n) (run' n)) :
    rel _ (SeqPar.channelValue run n) (SeqPar.channelValue run' n) := by
  unfold SeqPar.channelValue
  split
  · exact C.pure _
  · exact hn

theorem runClient (name : String) {host port : Node} (hhost : rel _ (run host) (run' host))
    (hport : rel _ (run port) (run' port)) :
    rel _ (SeqPar.runClient run name host port) (SeqPar.runClient run' name host port) := by
  refine C.bind (C.channelValue hhost) fun hostValue => ?_
  refine C.bind (C.channelValue hport) fun portValue => ?_
  refine C.bind (C.steady (steady_hostText hostValue)) fun hostValue => ?_
  refine C.bind (C.steady (steady_portNumber portValue)) fun portValue => ?_
  refine C.bind (C.steady .makeSocket) fun socket => ?_
  refine C.bind (C.steady (.connect socket hostValue portValue)) fun _ => ?_
  exact C.bind (C.steady (.changing fun _ _ _ => rfl)) fun _ => C.pure _

theorem runServer (host port : Node) {greeting : Node} (handler : String)
    (hgreeting : rel _ (run greeting) (run' greeting)) :
    rel _ (SeqPar.runServer run host port greeting handler)
      (SeqPar.runServer run' host port greeting handler) := by
  refine C.bind (C.steady .makeSocket) fun socket => ?_
  refine C.bind (C.ofExcept _) fun portValue => ?_
  refine C.bind (C.steady (.record _)) fun _ => C.bind (C.steady (.record _)) fun _ => ?_
  refine C.bind (C.steady (.record _)) fun _ => C.bind hgreeting fun text => ?_
  have hanswer := C.bind C.functions fun functions =>
    C.steady (steady_answer socket handler functions)
  -- A greeting that counts as true is sent before the answer is awaited.
  by_cases h : text.holds
  · simp only [h, if_true]
    split
    · exact C.bind (C.steady (.send _ _)) fun _ => hanswer
    · exact C.bind (C.fail _) fun _ => hanswer
  · simp only [h]
    exact hanswer

section Operands

variable {left right : Node} (hleft : rel _ (run left) (run' left))
  (hright : rel _ (run right) (run' right))

include hleft hright

theorem runAccess :
    rel _ (SeqPar.runAccess run left right) (SeqPar.runAccess run' left right) := by
  refine C.bind hleft fun container => C.bind hright fun key => C.steady ?_
  split
  · split
    · split
      · exact .pure _
      · exact .bind (.display _) fun _ => .fail _
    · exact .fail _
  · split
    · exact .fail _
    · split
      · exact .pure _
      · exact .bind (.display _) fun _ => .fail _
  · exact .fail _

theorem runLogical (operator : String) :
    rel _ (SeqPar.runLogical run operator left right)
      (SeqPar.runLogical run' operator left right) := by
  refine C.bind hleft fun a => C.bind hright fun b => ?_
  split
  · exact C.pure _
  · exact C.pure _
  · exact C.pure _

theorem runRelational (operator : String) :
    rel _ (SeqPar.runRelational run operator left right)
      (SeqPar.runRelational run' operator left right) := by
  refine C.bind hleft fun a => C.bind hright fun b => ?_
  exact C.bind (C.ofExcept _) fun _ => C.pure _

theorem runArithmetic (operator : String) :
    rel _ (SeqPar.runArithmetic run operator left right)
      (SeqPar.runArithmetic run' operator left right) := by
  refine C.bind hleft fun a => C.bind hright fun b => ?_
  exact C.ofExcept _

end Operands

theorem runUnary (operator : String) {expr : Node} (hexpr : rel _ (run expr) (run' expr)) :
    rel _ (SeqPar.runUnary run operator expr) (SeqPar.runUnary run' operator expr) := by
  refine C.bind hexpr fun v => C.steady ?_
  split
  · exact .pure _
  · split
    · exact .pure _
    · exact .ofExcept _
    · exact .pure _

/-! ### Calls -/

section Arguments

variable {args : List Node} (hargs : ∀ n ∈ args, rel _ (run n) (run' n))

include hargs

theorem callBuiltin (name : String) (f : Builtin) :
    rel _ (SeqPar.callBuiltin run name f args) (SeqPar.callBuiltin run' name f args) := by
  refine C.recover ?_ fun cause => ?_
  · exact C.bind (C.evalAll hargs) fun values => C.steady (f.steady_call values)
  · exact C.bind (C.ofExcept _) fun _ => C.bind (C.writeLine _) fun _ => C.pure _

theorem callUndefined (name : String) :
    rel _ (SeqPar.callUndefined run name args) (SeqPar.callUndefined run' name args) := by
  refine C.bind (C.bind (C.binding? _) fun _ => C.pure _) fun bound => ?_
  by_cases h : name == "activation" && bound
  · simp only [h, if_true]
    cases args with
    | nil => exact C.steady (.bind (.pure _) steady_threshold)
    | cons arg args =>
      exact C.bind (hargs arg List.mem_cons_self) fun x => C.steady (steady_threshold x)
  · simp only [h]
    exact C.bind (C.writeLine _) fun _ => C.pure _

/-- A call, when the two ways of calling defined functions are related. -/
theorem callWith {call call' : Caller}
    (hcall : ∀ params body, rel _ (call run params body args) (call' run' params body args))
    (name : String) :
    rel _ (SeqPar.callWith call run name args) (SeqPar.callWith call' run' name args) := by
  unfold SeqPar.callWith
  cases Builtin.ofName? name with
  | some f => exact C.callBuiltin hargs name f
  | none =>
    refine C.bind C.functions (f := callNamed call run name args)
      (g := callNamed call' run' name args) fun functions => ?_
    unfold callNamed
    split
    · exact hcall _ _
    · exact C.callUndefined hargs name

end Arguments

theorem runBody (last : Value) (body : List Node) (hbody : ∀ n ∈ body, rel _ (run n) (run' n)) :
    rel _ (SeqPar.runBody run last body) (SeqPar.runBody run' last body) := by
  induction body generalizing last with
  | nil => exact C.pure last
  | cons n ns ih =>
    rw [runBody_cons_eq_handle, runBody_cons_eq_handle]
    have hrest := fun v => ih v fun n hn => hbody n (List.mem_cons_of_mem _ hn)
    refine C.handle (hbody n List.mem_cons_self) hrest ?_ rfl rfl
    -- A returned value is the value of the body; the other signals pass through.
    intro signal hsignal
    cases signal with
    | returned v => exact C.pure v
    | _ => exact C.steady (.throw hsignal)

theorem runReturn {expr : Node} (hexpr : rel _ (run expr) (run' expr)) :
    rel _ (SeqPar.runReturn run expr) (SeqPar.runReturn run' expr) := by
  unfold SeqPar.runReturn
  extract_lets present
  cases present with
  | true => exact C.bind hexpr fun _ => C.steady (.throw nofun)
  | false => exact C.steady (.bind (.pure _) fun _ => .throw nofun)

/-! ### Nodes -/

/-- **One node of any kind other than a call**: its runs are related when the runs of its parts are,
provided that the relation keeps the bindings and definitions that it makes. -/
theorem step {n : Node} (hparts : ∀ c ∈ n.parts, rel _ (run c) (run' c))
    (hcall : ∀ type t args, n ≠ .call type t args)
    (hident : ∀ type t decl, n = .ident type t decl → rel _ (runIdent t.text) (runIdent t.text))
    (hassign : ∀ left right, n = .assign left right → ∀ t, left.token? = some t →
      ∀ v, rel _ (bindHere t.text v) (bindHere t.text v))
    (hpar : ∀ body, n = .par body →
      ∀ name v, rel _ (bindEverywhere name v) (bindEverywhere name v))
    (hdefine : ∀ name ret params body, n = .funcDef name ret params body →
      rel _ (define name n) (define name n)) :
    rel _ (SeqPar.step run n) (SeqPar.step run' n) := by
  -- Nodes that bind or define have a hypothesis of their own; the others follow from their parts.
  cases n with
  | assign left right =>
    exact C.runAssign (hparts _ (by simp [Node.parts])) (hassign left right rfl)
  | cond condition body orElse =>
    refine C.runCond (hparts _ (by simp [Node.parts])) ?_ ?_
    · exact fun n hn => hparts n (by simp [Node.parts, hn])
    · exact fun n hn => hparts n (by simp [Node.parts, hn])
  | loop condition body =>
    refine C.runLoop (hparts _ (by simp [Node.parts])) ?_
    exact fun n hn => hparts n (by simp [Node.parts, hn])
  | seq body => exact C.runSeq hparts
  | par body => exact C.runPar (hpar body rfl) hparts
  | clientChannel name host port =>
    exact C.runClient name (hparts _ (by simp [Node.parts])) (hparts _ (by simp [Node.parts]))
  | serverChannel name host port greeting handler =>
    exact C.runServer host port handler (hparts _ (by simp [Node.parts]))
  | constant type t => exact C.pure _
  | ident type t decl => exact hident type t decl rfl
  | access type t base index =>
    exact C.runAccess (hparts _ (by simp [Node.parts])) (hparts _ (by simp [Node.parts]))
  | logical type t left right =>
    exact C.runLogical (hparts _ (by simp [Node.parts])) (hparts _ (by simp [Node.parts])) t.text
  | relational type t left right =>
    exact C.runRelational (hparts _ (by simp [Node.parts])) (hparts _ (by simp [Node.parts])) t.text
  | arithmetic type t left right =>
    exact C.runArithmetic (hparts _ (by simp [Node.parts])) (hparts _ (by simp [Node.parts])) t.text
  | unary type t expr => exact C.runUnary t.text (hparts _ (by simp [Node.parts]))
  | call type t args => exact absurd rfl (hcall type t args)
  | funcDef name ret params body =>
    exact C.bind (hdefine name ret params body rfl) fun _ => C.pure _
  | ret expr => exact C.runReturn (hparts _ (by simp [Node.parts]))
  | datum | program | breakLoop | continueLoop | blank | statement | expression =>
    exact C.fail _

end SignalCongruence

namespace LocalCongruence

variable {rel : ∀ α : Type, Exec α → Exec α → Prop} (C : LocalCongruence rel)
variable {run run' : Runner}

include C

theorem runIdent (name : String) : rel _ (SeqPar.runIdent name) (SeqPar.runIdent name) := by
  refine C.bind (C.binding? name) fun v => ?_
  cases v with
  | some v => exact C.pure v
  | none => exact C.bind (C.bindHere name _) fun _ => C.pure _

theorem bindParams (position : Nat) (params args : List Node)
    (hargs : ∀ n ∈ args, rel _ (run n) (run' n)) :
    rel _ (SeqPar.bindParams run position params args)
      (SeqPar.bindParams run' position params args) := by
  induction params generalizing position args with
  | nil =>
    unfold SeqPar.bindParams
    exact C.pure ()
  | cons param params ih =>
    cases args with
    | nil => exact C.pure ()
    | cons arg args =>
      have hrest := ih (position + 1) args fun n hn => hargs n (List.mem_cons_of_mem _ hn)
      refine C.bind (hargs arg List.mem_cons_self) fun v => C.bind (C.ofExcept _) fun name => ?_
      cases name with
      | some name => exact C.bind (C.bindHere name v) fun _ => hrest
      | none => exact C.bind (C.pure ()) fun _ => hrest

/-- **One node of any kind other than a call**: its runs are related when the runs of its parts are,
provided that the relation keeps what a parallel block or a definition does if it is one. -/
theorem step {n : Node} (hparts : ∀ c ∈ n.parts, rel _ (run c) (run' c))
    (hcall : ∀ type t args, n ≠ .call type t args)
    (hpar : ∀ body, n = .par body →
      ∀ name v, rel _ (bindEverywhere name v) (bindEverywhere name v))
    (hdefine : ∀ name ret params body, n = .funcDef name ret params body →
      rel _ (define name n) (define name n)) :
    rel _ (SeqPar.step run n) (SeqPar.step run' n) :=
  C.toSignalCongruence.step hparts hcall (fun _ t _ _ => C.runIdent t.text)
    (fun _ _ _ t _ => C.bindHere t.text) hpar hdefine

end LocalCongruence

/-- **Related ways of calling functions give related runs**: a congruence relates the runs of every
node to every depth, provided that it relates the calls of defined functions whenever it relates the
runs of the nodes in them. -/
theorem Congruence.execWith {rel : ∀ α : Type, Exec α → Exec α → Prop} (C : Congruence rel)
    {call call' : Caller}
    (hcall : ∀ run run' : Runner, (∀ n, rel _ (run n) (run' n)) →
      ∀ params body args, rel _ (call run params body args) (call' run' params body args))
    (fuel : Nat) (n : Node) :
    rel _ (SeqPar.execWith call fuel n) (SeqPar.execWith call' fuel n) := by
  induction fuel generalizing n with
  | zero => exact C.exhausted
  | succ fuel ih =>
    rw [SeqPar.execWith, SeqPar.execWith]
    -- The two runs take different steps at calls only.
    unfold stepWith
    split
    · exact C.callWith (fun n _ => ih n) (fun params body => hcall _ _ ih params body _) _
    · rename_i hn
      exact C.step (fun c _ => ih c) hn (fun _ _ => C.bindEverywhere)
        (fun name _ _ _ _ => C.define name n)

end SeqPar
