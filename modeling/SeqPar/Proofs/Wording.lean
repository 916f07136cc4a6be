import SeqPar.Proofs.ScopeFree

/-!
# Faults that can be worded

A handler that reports a fault has to word it, and one fault cannot be worded: that of a missing key
which holds a whole number with too many digits.  Only operations on channels give it, and those are
built-in functions, whose faults are reported where they are called.  No other part of a program gives
this fault or passes it on, neither as it is nor inside another fault.  A handler around a statement
can therefore always word the fault that it catches.

The proof goes through the constructs of programs, with the runs of the nodes inside as a parameter,
and then by induction on the depth of the run.

## Main definitions

* `Fault.isWorded` — a fault that can be worded, with all faults inside it.
* `WordedResult`, `Exec.Worded` — a result or computation that gives only such faults.

## Main results

* `Fault.wording_of_isWorded` — such a fault has a wording.
* `worded_step` — one node, when the nodes inside it give only such faults.
* `worded_exec` — **every fault that leaves a node can be worded.**
-/

namespace SeqPar

open Exec

/-- A fault that can be worded, with all faults inside it. -/
def Fault.isWorded : Fault → Bool
  | .missingLongEntry _ => false
  | .inAssignment cause | .inLoopBody cause | .inLoop cause | .inParallel cause
  | .inArithmetic cause => cause.isWorded
  | _ => true

theorem Fault.wording_of_isWorded {cause : Fault} (h : cause.isWorded = true) :
    cause.wording = .ok cause.message := by
  cases cause with
  | missingLongEntry quoted => cases h
  | _ => rfl

/-! ### Results -/

section Results

variable {α β : Type}

/-- A result that is no fault, or one that can be worded. -/
def WordedResult (r : Except Fault α) : Prop :=
  ∀ cause, r = .error cause → cause.isWorded = true

namespace WordedResult

theorem ok (a : α) : WordedResult (.ok a) :=
  nofun

theorem error {cause : Fault} (h : cause.isWorded = true) :
    WordedResult (.error cause : Except Fault α) := by
  rintro _ ⟨rfl⟩
  exact h

theorem bind {r : Except Fault α} {k : α → Except Fault β} (hr : WordedResult r)
    (hk : ∀ a, WordedResult (k a)) : WordedResult (r >>= k) := by
  cases r with
  | ok a => exact hk a
  | error cause => exact error (hr cause rfl)

theorem mapError {r : Except Fault α} {wrap : Fault → Fault} (hr : WordedResult r)
    (hwrap : ∀ cause, cause.isWorded = true → (wrap cause).isWorded = true) :
    WordedResult (r.mapError wrap) := by
  cases r with
  | ok a => exact ok a
  | error cause => exact error (hwrap cause (hr cause rfl))

end WordedResult

theorem worded_wholePart (x : Float) : WordedResult (wholePart x) := by
  unfold wholePart
  split
  · exact .ok _
  · split
    · exact .error rfl
    · exact .error rfl

theorem worded_intOfText (s : String) : WordedResult (intOfText s) := by
  unfold intOfText
  split
  · exact .ok _
  · exact .error rfl
  · exact .error rfl

theorem worded_textOfBytes (bytes : ByteArray) : WordedResult (textOfBytes bytes) := by
  unfold textOfBytes
  split
  · exact .ok _
  · unfold splitCharacterFault
    dsimp only
    split
    · exact .error rfl
    · exact .error rfl

theorem worded_numberOfText (s : String) : WordedResult (numberOfText s) := by
  unfold numberOfText
  split
  · exact .ok _
  · split
    · exact .ok _
    · exact (worded_wholePart _).bind fun _ => .ok _

theorem worded_toFloat (a : Numeric) : WordedResult a.toFloat := by
  cases a with
  | int n =>
    show WordedResult (floatOfInt n)
    unfold floatOfInt
    split
    · exact .ok _
    · exact .error rfl
  | float x => exact .ok x

theorem worded_combine (whole : Int → Int → Int) (double : Float → Float → Float)
    (a b : Numeric) : WordedResult (a.combine whole double b) := by
  unfold Numeric.combine
  split
  · exact .ok _
  · exact (worded_toFloat _).bind fun _ => (worded_toFloat _).bind fun _ => .ok _

theorem worded_divide (a b : Numeric) : WordedResult (a.divide b) := by
  unfold Numeric.divide
  split
  · exact .error rfl
  · split
    · split
      · exact .ok _
      · exact .error rfl
    · exact (worded_toFloat _).bind fun _ => (worded_toFloat _).bind fun _ => .ok _

theorem worded_operate (operator : String) (a b : Numeric) :
    WordedResult (Numeric.operate operator a b) := by
  unfold Numeric.operate
  split
  · exact worded_combine _ _ a b
  · exact worded_combine _ _ a b
  · exact worded_combine _ _ a b
  · exact worded_divide a b
  · unfold Numeric.modulo
    split
    · exact .error rfl
    · exact worded_combine _ _ a b
  · exact .error rfl

theorem worded_operand (v : Value) : WordedResult v.operand := by
  unfold Value.operand
  split
  · refine (worded_numberOfText _).bind fun number => ?_
    split
    · exact .ok _
    · exact .error rfl
  · exact .ok _

theorem worded_arithmetic (operator : String) (left right : Value) :
    WordedResult (arithmetic operator left right) := by
  refine .mapError ?_ fun _ h => h
  refine (worded_operand left).bind fun a => (worded_operand right).bind fun b => ?_
  exact (worded_operate operator a b).bind fun _ => .ok _

/-- Values of one of the kinds that are ordered by their parts, and all others by their numbers. -/
theorem worded_compare_of {op : Comparison} {v w : Value}
    (hparts : ∀ vs ws : List Value, v = .list vs ∨ v = .tuple vs →
      WordedResult (Value.compareAll op vs ws)) : WordedResult (v.compare op w) := by
  unfold Value.compare
  split
  · split
    · exact .ok _
    · exact .error rfl
  · next vs =>
    split
    · next ws => exact hparts vs ws (.inl rfl)
    · exact .error rfl
  · next vs =>
    split
    · next ws => exact hparts vs ws (.inr rfl)
    · exact .error rfl
  · split
    · exact .ok _
    · exact .error rfl

mutual

theorem worded_compare (op : Comparison) (v w : Value) : WordedResult (v.compare op w) := by
  apply worded_compare_of
  intro vs ws hv
  exact worded_compareAll op vs ws
termination_by sizeOf v
decreasing_by rcases hv with rfl | rfl <;> simp

theorem worded_compareAll (op : Comparison) (vs ws : List Value) :
    WordedResult (Value.compareAll op vs ws) := by
  cases vs with
  | nil =>
    unfold Value.compareAll
    exact .ok _
  | cons v vs =>
    unfold Value.compareAll
    split
    · exact .ok _
    · split
      · exact worded_compareAll op vs _
      · exact worded_compare op v _
termination_by sizeOf vs

end

theorem worded_compared (v : Value) : WordedResult v.compared := by
  unfold Value.compared
  split
  · exact (worded_numberOfText _).bind fun _ => .ok _
  · exact .ok _
  · exact .ok _

theorem worded_relational (operator : String) (left right : Value) :
    WordedResult (relational operator left right) := by
  refine (worded_compared left).bind fun a => (worded_compared right).bind fun b => ?_
  split
  · exact .ok _
  · exact .ok _
  · exact worded_compare _ a b
  · exact worded_compare _ a b
  · exact worded_compare _ a b
  · exact worded_compare _ a b
  · exact .ok _

theorem worded_stored (v : Value) : WordedResult v.stored := by
  unfold Value.stored
  split
  · refine (worded_numberOfText _).bind fun number => ?_
    split
    · exact .ok _
    · exact .ok _
  · exact .ok _

theorem worded_negated (v : Value) : WordedResult v.negated := by
  unfold Value.negated
  split
  · exact .ok _
  · exact .ok _
  · exact .ok _
  · split
    · exact .ok _
    · exact .ok _
    · exact .error rfl

theorem worded_toInt (v : Value) : WordedResult v.toInt := by
  unfold Value.toInt
  split
  · exact worded_intOfText _
  · split
    · exact .ok _
    · exact worded_wholePart _
    · exact .error rfl

theorem worded_paramName? (position : Nat) (param : Node) :
    WordedResult (paramName? position param) := by
  unfold paramName?
  split
  · exact .ok _
  · split
    · exact .ok _
    · exact .error rfl
    · exact .ok _
  · exact .ok _

end Results

/-! ### Computations -/

/-- A signal that is no fault, or one that can be worded. -/
def Signal.isWorded : Signal → Bool
  | .fault cause => cause.isWorded
  | _ => true

theorem Signal.isWorded_of_cause? {signal : Signal} {cause : Fault} (h : signal.isWorded = true)
    (hcause : signal.cause? = some cause) : cause.isWorded = true := by
  cases signal with
  | fault inner =>
    cases hcause
    exact h
  | returned v =>
    cases hcause
    rfl
  | interrupted => cases hcause
  | exit code => cases hcause
  | exhausted => cases hcause

namespace Exec

variable {α β : Type} {p : Exec α}

/-- A computation that gives only faults that can be worded. -/
def Worded (p : Exec α) : Prop :=
  ∀ m signal m', p m = .error signal m' → signal.isWorded = true

namespace Worded

theorem pure (a : α) : Worded (Pure.pure a : Exec α) :=
  nofun

theorem get : Worded (MonadState.get : Exec Machine) :=
  nofun

theorem set (m : Machine) : Worded (MonadStateOf.set m : Exec Unit) :=
  nofun

theorem modify (change : Machine → Machine) : Worded (modifyThe Machine change : Exec Unit) :=
  nofun

theorem throw {signal : Signal} (h : signal.isWorded = true) :
    Worded (throwThe Signal signal : Exec α) := by
  intro m signal' m' herror
  cases herror
  exact h

theorem fail {cause : Fault} (h : cause.isWorded = true) : Worded (Exec.fail cause : Exec α) :=
  .throw h

theorem ofExcept {r : Except Fault α} (h : WordedResult r) : Worded (Exec.ofExcept r) := by
  cases r with
  | ok a => exact .pure a
  | error cause => exact .fail (h cause rfl)

/-- Going on after a computation. -/
theorem handle {f : α → Exec β} {h : Signal → Exec β} (hp : Worded p) (hf : ∀ a, Worded (f a))
    (hh : ∀ signal, signal.isWorded = true → Worded (h signal)) : Worded (handle p f h) := by
  intro m signal m' herror
  rw [handle_apply] at herror
  cases hend : p m with
  | ok a m₁ =>
    rw [hend] at herror
    exact hf a m₁ signal m' herror
  | error inner m₁ =>
    rw [hend] at herror
    exact hh inner (hp m inner m₁ hend) m₁ signal m' herror

theorem bind {f : α → Exec β} (hp : Worded p) (hf : ∀ a, Worded (f a)) : Worded (p >>= f) := by
  rw [bind_eq_handle]
  exact hp.handle hf fun _ hsignal => .throw hsignal

/-- A handler that words every fault it is given needs nothing of what it handles. -/
theorem recover {handler : Fault → Exec α} (h : ∀ cause, Worded (handler cause)) :
    Worded (recover p handler) := by
  intro m signal m' herror
  rw [Exec.recover] at herror
  split at herror
  · next inner m₁ hend =>
    split at herror
    · next cause _ => exact h cause m₁ signal m' herror
    · next hnone =>
      -- a signal that is not handled is no fault
      cases herror
      cases signal with
      | fault cause => cases hnone
      | _ => rfl
  · next hnone => exact absurd herror (hnone _ _)

theorem wrapFaults {wrap : Fault → Fault} (hp : Worded p)
    (hwrap : ∀ cause, (wrap cause).isWorded = cause.isWorded) : Worded (wrapFaults wrap p) := by
  rw [Exec.wrapFaults, recover_eq_handle]
  refine hp.handle (fun a => .pure a) fun signal hsignal => ?_
  split
  · next cause hcause =>
    exact .fail ((hwrap cause).trans (Signal.isWorded_of_cause? hsignal hcause))
  · exact .throw hsignal

theorem exitOnInterrupt (hp : Worded p) : Worded (exitOnInterrupt p) := by
  rw [exitOnInterrupt_eq_handle]
  refine hp.handle (fun a => .pure a) fun signal hsignal => .throw ?_
  cases signal with
  | interrupted => rfl
  | _ => exact hsignal

theorem forgetResult (hp : Worded p) : Worded (forgetResult p) := by
  rw [forgetResult_eq_handle]
  refine hp.handle (fun a => .pure a) fun signal hsignal => .throw ?_
  cases signal with
  | returned v => rfl
  | _ => exact hsignal

theorem afterwards (hp : Worded p) (change : Machine → Machine) : Worded (afterwards p change) := by
  intro m signal m' herror
  rw [afterwards_apply] at herror
  cases hend : p m with
  | ok a m₁ =>
    rw [hend] at herror
    cases herror
  | error inner m₁ =>
    rw [hend] at herror
    cases herror
    exact hp m _ m₁ hend

/-! ### Operations of the machine -/

theorem write (text : String) : Worded (write text) :=
  .modify _

theorem display (v : Value) : Worded (display v) := by
  unfold Exec.display
  split
  · exact .fail rfl
  · exact .pure _

theorem writeValues (vs : List Value) : Worded (writeValues vs) := by
  fun_induction Exec.writeValues vs with
  | case1 => exact .write _
  | case2 v => exact .bind (.display v) fun _ => .bind (.write _) fun _ => .write _
  | case3 v vs _ ih =>
    exact .bind (.display v) fun _ => .bind (.write _) fun _ => .bind (.write _) fun _ => ih

theorem readLine : Worded readLine := by
  refine .bind .get fun m => ?_
  split
  · exact .bind (.set _) fun _ => .pure _
  · split
    · exact .throw rfl
    · exact .fail rfl

theorem binding? (name : String) : Worded (binding? name) :=
  .bind .get fun _ => .pure _

theorem bindIfUnbound (name : String) (v : Value) : Worded (bindIfUnbound name v) := by
  refine .bind (.bind (.binding? name) fun _ => .pure _) fun bound => ?_
  cases bound with
  | true => exact .pure ()
  | false => exact .modify _

theorem makeSocket : Worded makeSocket :=
  .bind .get fun _ => .bind (.set _) fun _ => .pure _

theorem connect (socket : Nat) (host port : Value) : Worded (connect socket host port) := by
  refine .bind (.modify _) fun _ => .bind .get fun m => ?_
  split
  · exact .fail rfl
  · exact .pure ()

theorem checkOpen (socket : Nat) : Worded (checkOpen socket) := by
  refine .bind .get fun m => ?_
  split
  · exact .fail rfl
  · exact .pure ()

theorem send (socket : Nat) (text : String) : Worded (send socket text) :=
  .bind (.checkOpen socket) fun _ => .modify _

theorem receive (socket : Nat) : Worded (receive socket) := by
  rw [receive_eq_received]
  refine .bind (.checkOpen socket) fun _ => .bind .get fun m => .bind (.modify _) fun _ => ?_
  generalize m.network.receive socket = r
  split
  · exact .ofExcept (worded_textOfBytes _)
  · split
    · exact .throw rfl
    · exact .pure _

theorem tokenText (n : Node) : Worded n.tokenText := by
  unfold Node.tokenText
  split
  · exact .pure _
  · exact .fail rfl

end Worded

end Exec

/-! ### Constructs of programs -/

section Constructs

variable {run : Runner} (hrun : ∀ n, Worded (run n))

theorem worded_bindTargets (start : String → Int) (ns : List Node) :
    Worded (bindTargets start ns) := by
  induction ns with
  | nil => exact .pure ()
  | cons n ns ih => exact .bind (.tokenText n) fun _ => .bind (.bindIfUnbound _ _) fun _ => ih

theorem worded_writeFibonacci (terms a b : Nat) : Worded (writeFibonacci terms a b) := by
  induction terms generalizing a b with
  | zero => exact .pure ()
  | succ terms ih => exact .bind (.writeValues _) fun _ => ih b (a + b)

theorem worded_runSeries : Worded runSeries := by
  refine .bind (.write _) fun _ => .bind .readLine fun line => ?_
  refine .bind (.ofExcept (worded_intOfText line)) fun n => .bind (.writeValues _) fun _ => ?_
  refine .bind (.write _) fun _ => .bind .readLine fun line => ?_
  exact .bind (.ofExcept (worded_intOfText line)) fun terms => worded_writeFibonacci _ _ _

theorem worded_hostText (v : Value) : Worded (hostText v) := by
  unfold hostText
  split
  · exact .pure _
  · exact .bind (.display _) fun _ => .pure _

theorem worded_portNumber (v : Value) : Worded (portNumber v) := by
  unfold portNumber
  split
  · exact .pure _
  · exact .pure _
  · split
    · exact .pure _
    · exact .bind (.display _) fun _ => .fail rfl

theorem worded_runIdent (name : String) : Worded (runIdent name) := by
  refine .bind (.binding? name) fun found => ?_
  split
  · exact .pure _
  · exact .bind (.modify _) fun _ => .pure _

/-- The faults of a built-in function are reported where it is called. -/
theorem worded_callBuiltin (name : String) (f : Builtin) (args : List Node) :
    Worded (callBuiltin run name f args) := by
  refine .recover fun cause => .bind (.ofExcept ?_) fun _ => .bind (.write _) fun _ => .pure _
  cases cause with
  | missingLongEntry quoted => exact .error rfl
  | _ => exact .ok _

include hrun

theorem worded_runAll (ns : List Node) : Worded (runAll run ns) := by
  induction ns with
  | nil => exact .pure ()
  | cons n ns ih => exact .bind (hrun n) fun _ => ih

theorem worded_runAssign (left right : Node) : Worded (runAssign run left right) := by
  refine .exitOnInterrupt (.wrapFaults ?_ fun _ => rfl)
  refine .bind (.tokenText left) fun _ => .bind (hrun right) fun v => ?_
  exact .bind (.ofExcept (worded_stored v)) fun _ => .bind (.modify _) fun _ => .pure _

theorem worded_runCond (condition : Node) (body : List Node) (orElse : Option (List Node)) :
    Worded (runCond run condition body orElse) := by
  refine .bind (hrun condition) fun v => ?_
  split
  · exact .bind (worded_runAll hrun body) fun _ => .pure _
  · exact .bind (worded_runAll hrun _) fun _ => .pure _

theorem worded_runLoop (condition : Node) (body : List Node) :
    Worded (runLoop run condition body) := by
  have hbody (n : Node) : Worded (wrapFaults .inLoopBody (run n)) :=
    (hrun n).wrapFaults fun _ => rfl
  have hround : Worded (runRound run condition body) := by
    refine .wrapFaults (.bind (hrun condition) fun v => ?_) fun _ => rfl
    split
    · exact .bind (worded_runAll hbody body) fun _ => .pure _
    · exact .pure _
  have hrounds (k : Nat) : Worded (runRounds (runRound run condition body) k) := by
    induction k with
    | zero => exact .pure ()
    | succ k ih =>
      refine .bind hround fun goesOn => ?_
      split
      · exact ih
      · exact .pure ()
  exact .bind (hrounds roundLimit) fun _ => .pure _

theorem worded_runPar (body : List Node) : Worded (runPar run body) := by
  refine .bind (worded_bindTargets _ _) fun _ => .bind (.bindIfUnbound _ _) fun _ => ?_
  refine .bind (.bindIfUnbound _ _) fun _ => .bind (.bindIfUnbound _ _) fun _ => ?_
  refine .bind (.bindIfUnbound _ _) fun _ => .exitOnInterrupt (.wrapFaults ?_ fun _ => rfl)
  split
  · exact .bind worded_runSeries fun _ => .pure _
  · exact .bind (worded_runAll hrun body) fun _ => .pure _

theorem worded_channelValue (n : Node) : Worded (channelValue run n) := by
  cases n with
  | datum v => exact .pure v
  | _ => exact hrun _

theorem worded_runClient (name : String) (host port : Node) :
    Worded (runClient run name host port) := by
  refine .bind (worded_channelValue hrun host) fun hostValue => ?_
  refine .bind (worded_channelValue hrun port) fun portValue => ?_
  refine .bind (worded_hostText hostValue) fun hostValue => ?_
  refine .bind (worded_portNumber portValue) fun portValue => .bind .makeSocket fun socket => ?_
  exact .bind (.connect _ _ _) fun _ => .bind (.modify _) fun _ => .pure _

theorem worded_runServer (host port greeting : Node) (handler : String) :
    Worded (runServer run host port greeting handler) := by
  have hanswer (socket : Nat) : Worded (do
      if (← MonadState.get).functions.contains handler then
        let message ← receive socket
        if message.isEmpty then
          closeSocket socket
          return Value.nothing
        else fail .handlerCall
      else fail (.missingEntry (Text.quote handler))) := by
    refine .bind .get fun m => ?_
    split
    · refine .bind (.receive socket) fun message => ?_
      split
      · exact .bind (.modify _) fun _ => .pure _
      · exact .fail rfl
    · exact .fail rfl
  refine .bind .makeSocket fun socket => .bind (.ofExcept (worded_toInt _)) fun portValue => ?_
  refine .bind (.modify _) fun _ => .bind (.modify _) fun _ => .bind (.modify _) fun _ => ?_
  refine .bind (hrun greeting) fun text => ?_
  split
  · split
    · exact .bind (.send _ _) fun _ => hanswer socket
    · exact .bind (.fail rfl) fun _ => hanswer socket
  · exact hanswer socket

theorem worded_runAccess (base index : Node) : Worded (runAccess run base index) := by
  refine .bind (hrun base) fun container => .bind (hrun index) fun key => ?_
  split
  · split
    · split
      · exact .pure _
      · exact .bind (.display _) fun _ => .fail rfl
    · exact .fail rfl
  · split
    · exact .fail rfl
    · split
      · exact .pure _
      · exact .bind (.display _) fun _ => .fail rfl
  · exact .fail rfl

theorem worded_runLogical (operator : String) (left right : Node) :
    Worded (runLogical run operator left right) := by
  refine .bind (hrun left) fun a => .bind (hrun right) fun b => ?_
  split
  · exact .pure _
  · exact .pure _
  · exact .pure _

theorem worded_runUnary (operator : String) (expr : Node) :
    Worded (runUnary run operator expr) := by
  refine .bind (hrun expr) fun v => ?_
  split
  · exact .pure _
  · split
    · exact .pure _
    · exact .ofExcept (worded_negated _)
    · exact .pure _

theorem worded_callUndefined (name : String) (args : List Node) :
    Worded (callUndefined run name args) := by
  have hthreshold (x : Value) : Worded (do
      if (← ofExcept (x.compare .ge (.int 0))) then
        writeLine "1"
        return Value.int 1
      else
        writeLine "0"
        return Value.int 0) := by
    refine .bind (.ofExcept (worded_compare _ _ _)) fun holds => ?_
    split
    · exact .bind (.write _) fun _ => .pure _
    · exact .bind (.write _) fun _ => .pure _
  refine .bind (.bind (.binding? _) fun _ => .pure _) fun bound => ?_
  split
  · split
    · exact .bind (.pure _) hthreshold
    · exact .bind (hrun _) hthreshold
  · exact .bind (.write _) fun _ => .pure _

theorem worded_bindParams (position : Nat) (params args : List Node) :
    Worded (bindParams run position params args) := by
  fun_induction bindParams run position params args with
  | case1 position param params arg args ih =>
    refine .bind (hrun arg) fun v => .bind (.ofExcept (worded_paramName? _ _)) fun name => ?_
    split
    · exact .bind (.modify _) fun _ => ih
    · exact ih
  | case2 => exact .pure ()

theorem worded_runBody (last : Value) (body : List Node) : Worded (runBody run last body) := by
  induction body generalizing last with
  | nil => exact .pure last
  | cons n ns ih =>
    rw [runBody_cons_eq_handle]
    refine (hrun n).handle ih fun signal hsignal => ?_
    cases signal with
    | returned v => exact .pure v
    | _ => exact .throw hsignal

theorem worded_callFunction (params body args : List Node) :
    Worded (callFunction run params body args) := by
  refine .bind (.modify _) fun _ => .bind (worded_bindParams hrun 0 params args) fun _ => ?_
  exact (worded_runBody hrun .nothing body).afterwards _

theorem worded_runCall (name : String) (args : List Node) : Worded (runCall run name args) := by
  unfold runCall
  split
  · exact worded_callBuiltin name _ args
  · refine .bind .get fun m => ?_
    split
    · exact worded_callFunction hrun _ _ args
    · exact worded_callUndefined hrun name args

theorem worded_runReturn (expr : Node) : Worded (runReturn run expr) := by
  have hthrow (v : Value) : Worded (MonadExcept.throw (.returned v) : Exec Value) := .throw rfl
  unfold runReturn
  extract_lets present
  cases present with
  | true => exact .bind (hrun expr) hthrow
  | false => exact .bind (.pure _) hthrow

/-- **One node gives only faults that can be worded**, when the nodes inside it do. -/
theorem worded_step (n : Node) : Worded (step run n) := by
  cases n with
  | assign left right => exact worded_runAssign hrun left right
  | cond condition body orElse => exact worded_runCond hrun condition body orElse
  | loop condition body => exact worded_runLoop hrun condition body
  | seq body => exact .bind (.forgetResult (worded_runAll hrun body)) fun _ => .pure _
  | par body => exact worded_runPar hrun body
  | clientChannel name host port => exact worded_runClient hrun name host port
  | serverChannel name host port greeting handler =>
    exact worded_runServer hrun host port greeting handler
  | constant type t => exact .pure _
  | ident type t decl => exact worded_runIdent t.text
  | access type t base index => exact worded_runAccess hrun base index
  | logical type t left right => exact worded_runLogical hrun t.text left right
  | relational type t left right =>
    refine .bind (hrun left) fun a => .bind (hrun right) fun b => ?_
    exact .bind (.ofExcept (worded_relational _ a b)) fun _ => .pure _
  | arithmetic type t left right =>
    refine .bind (hrun left) fun a => .bind (hrun right) fun b => ?_
    exact .ofExcept (worded_arithmetic _ a b)
  | unary type t expr => exact worded_runUnary hrun t.text expr
  | call type t args => exact worded_runCall hrun t.text args
  | funcDef name ret params body => exact .bind (.modify _) fun _ => .pure _
  | ret expr => exact worded_runReturn hrun expr
  | _ => exact .fail rfl

end Constructs

/-- **Every fault that leaves a node can be worded**, by induction on the depth. -/
theorem worded_exec (fuel : Nat) (n : Node) : Worded (exec fuel n) := by
  induction fuel generalizing n with
  | zero => exact .throw rfl
  | succ fuel ih => exact worded_step ih n

end SeqPar
