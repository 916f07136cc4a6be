import SeqPar.Machine.Eval

/-!
# Computations that leave the scopes alone

Most of what a program does has nothing to do with variables or with the functions that were
defined: it converts values, writes text, reads lines, talks to peers.  Such a computation gives the
same outcome on any scopes and functions, and these are as before when it ends.  Both are one law
here, which is kept when computations are put together, and every operation on the machine other
than those on variables and functions satisfies it.  None of these operations ends at the bound on
the depth of computations either: only running a node inside another one does.

## Main definitions

* `Outcome` — how a computation ends.
* `Exec.handle` — going on after a computation, in whatever way it ends; every treatment of signals
  is one.
* `Exec.ScopeFree` — computations that neither read nor change the scopes.
* `Exec.StoreFree` — computations that neither read nor change the scopes and the functions.
* `Exec.Steady` — store-free computations that do not end at the bound on the depth.

## Main results

* `Exec.StoreFree.handle`, `Exec.Steady.handle` — store-free and steady computations compose.
* `Exec.StoreFree.scopeFree` — store-free computations are scope-free.
* `Builtin.steady_call` — built-in functions leave scopes and functions alone and always end.
* `steady_runSeries` — so does the series that stands in for a parallel block.
-/

namespace SeqPar

/-- How a computation on the machine ends, with the machine at that point. -/
abbrev Outcome (α : Type) := EStateM.Result Signal Machine α

namespace Outcome

variable {α : Type}

/-- The machine at the end of a computation. -/
def machine : Outcome α → Machine
  | .ok _ m => m
  | .error _ m => m

/-- The outcome with its machine changed. -/
def onMachine (change : Machine → Machine) : Outcome α → Outcome α
  | .ok a m => .ok a (change m)
  | .error signal m => .error signal (change m)

/-- The computation ended at the bound on its depth. -/
def Exhausted : Outcome α → Prop
  | .error .exhausted _ => True
  | _ => False

@[simp] theorem machine_onMachine (change : Machine → Machine) (r : Outcome α) :
    machine (onMachine change r) = change (machine r) := by
  cases r <;> rfl

theorem exhausted_onMachine (change : Machine → Machine) (r : Outcome α) :
    Exhausted (onMachine change r) ↔ Exhausted r := by
  cases r with
  | ok a m => exact Iff.rfl
  | error signal m => cases signal <;> exact Iff.rfl

end Outcome

/-- An interruption becomes the end of the program. -/
def Signal.orExit : Signal → Signal
  | .interrupted => .exit 0
  | signal => signal

/-- A returned result becomes nothing. -/
def Signal.withoutResult : Signal → Signal
  | .returned _ => .returned .nothing
  | signal => signal

theorem Signal.orExit_ne_exhausted {signal : Signal} (h : signal ≠ .exhausted) :
    signal.orExit ≠ .exhausted := by
  cases signal with
  | interrupted => exact nofun
  | _ => exact h

theorem Signal.withoutResult_ne_exhausted {signal : Signal} (h : signal ≠ .exhausted) :
    signal.withoutResult ≠ .exhausted := by
  cases signal with
  | returned result => exact nofun
  | _ => exact h

/-- The machine with other scopes. -/
def Machine.withScopes (m : Machine) (s : Scopes Value) : Machine :=
  { m with scopes := s }

/-- The machine with other scopes and functions. -/
def Machine.withStore (m : Machine) (s : Scopes Value) (f : Table Node) : Machine :=
  { m with scopes := s, functions := f }

namespace Exec

variable {α β : Type}

/-! ### Going on after a computation -/

/-- Goes on after a computation, with `onValue` or with `onSignal`. -/
def handle (p : Exec α) (onValue : α → Exec β) (onSignal : Signal → Exec β) : Exec β := fun m =>
  match p m with
  | .ok a m' => onValue a m'
  | .error signal m' => onSignal signal m'

/-- What follows a computation that ended in the given way. -/
def sequel (onValue : α → Exec β) (onSignal : Signal → Exec β) : Outcome α → Exec β
  | .ok a _ => onValue a
  | .error signal _ => onSignal signal

theorem handle_apply (p : Exec α) (f : α → Exec β) (h : Signal → Exec β) (m : Machine) :
    handle p f h m = sequel f h (p m) (Outcome.machine (p m)) := by
  unfold handle
  cases p m <;> rfl

theorem bind_eq_handle (p : Exec α) (f : α → Exec β) : p >>= f = handle p f throw := by
  funext m
  change EStateM.bind p f m = _
  unfold EStateM.bind handle
  cases p m <;> rfl

theorem recover_eq_handle (p : Exec α) (handler : Fault → Exec α) :
    recover p handler = handle p pure fun signal =>
      match signal.cause? with
      | some cause => handler cause
      | none => throw signal := by
  funext m
  unfold recover handle
  cases p m with
  | ok a m' => rfl
  | error signal m' => cases signal <;> rfl

theorem exitOnInterrupt_eq_handle (p : Exec α) :
    exitOnInterrupt p = handle p pure fun signal => throw signal.orExit := by
  funext m
  unfold exitOnInterrupt handle
  cases p m with
  | ok a m' => rfl
  | error signal m' => cases signal <;> rfl

theorem forgetResult_eq_handle (p : Exec α) :
    forgetResult p = handle p pure fun signal => throw signal.withoutResult := by
  funext m
  unfold forgetResult handle
  cases p m with
  | ok a m' => rfl
  | error signal m' => cases signal <;> rfl

/-- What a signal is for the call around the statements of a function. -/
def resultOf : Signal → Exec Value
  | .returned v => pure v
  | signal => throw signal

theorem runBody_cons_eq_handle (run : Runner) (last : Value) (n : Node) (ns : List Node) :
    runBody run last (n :: ns) = handle (run n) (fun v => runBody run v ns) resultOf := by
  funext m
  rw [runBody]
  dsimp only [handle]
  cases run n m with
  | ok v m' => rfl
  | error signal m' => cases signal <;> rfl

theorem afterwards_apply (p : Exec α) (change : Machine → Machine) (m : Machine) :
    afterwards p change m = Outcome.onMachine change (p m) := by
  unfold afterwards
  cases p m <;> rfl

/-- What receiving gives, from what the network hands out and the network after it. -/
def received (socket : Nat) (r : Option ByteArray × Network) : Exec String := do
  modify fun m => { m with network := r.2 }
  match r.1 with
  | some bytes => ofExcept (textOfBytes bytes)
  | none => if (r.2.peer socket).interrupts then throw .interrupted else return ""

theorem receive_eq_received (socket : Nat) :
    receive socket =
      checkOpen socket >>= fun _ => (do received socket ((← get).network.receive socket)) :=
  rfl

/-! ### Computations that leave the scopes alone -/

/-- The computation neither reads nor changes the scopes: other scopes make no difference to it and
are still there when it ends. -/
def ScopeFree (p : Exec α) : Prop :=
  ∀ (m : Machine) (s : Scopes Value),
    p (m.withScopes s) = Outcome.onMachine (·.withScopes s) (p m)

namespace ScopeFree

/-- Reading a part of the machine other than the scopes. -/
theorem reading {f : Machine → α} (hf : ∀ m s, f (m.withScopes s) = f m) :
    ScopeFree (do return f (← get)) := by
  intro m s
  change EStateM.Result.ok (f (m.withScopes s)) (m.withScopes s) = _
  rw [hf]
  rfl

/-- A change of a part of the machine other than the scopes. -/
theorem changing {f : Machine → Machine}
    (hf : ∀ m s, f (m.withScopes s) = (f m).withScopes s) :
    ScopeFree (modify f : Exec Unit) := by
  intro m s
  change EStateM.Result.ok () (f (m.withScopes s)) = _
  rw [hf]
  rfl

/-- The scopes are as before when the computation ends. -/
theorem scopes_eq {p : Exec α} (hp : ScopeFree p) (m : Machine) :
    (Outcome.machine (p m)).scopes = m.scopes := by
  have h := congrArg (fun r => (Outcome.machine r).scopes) (hp m m.scopes)
  rw [Outcome.machine_onMachine] at h
  exact h

end ScopeFree

/-! ### Computations that leave the functions alone too -/

/-- The computation neither reads nor changes the scopes and the functions: others make no
difference to it and are still there when it ends. -/
def StoreFree (p : Exec α) : Prop :=
  ∀ (m : Machine) (s : Scopes Value) (f : Table Node),
    p (m.withStore s f) = Outcome.onMachine (·.withStore s f) (p m)

namespace StoreFree

theorem pure (a : α) : StoreFree (Pure.pure a : Exec α) :=
  fun _ _ _ => rfl

theorem throw (signal : Signal) : StoreFree (throwThe Signal signal : Exec α) :=
  fun _ _ _ => rfl

theorem handle {p : Exec α} {f : α → Exec β} {h : Signal → Exec β} (hp : StoreFree p)
    (hf : ∀ a, StoreFree (f a)) (hh : ∀ signal, StoreFree (h signal)) :
    StoreFree (handle p f h) := by
  intro m s t
  unfold Exec.handle
  rw [hp m s t]
  cases p m with
  | ok a m' => exact hf a m' s t
  | error signal m' => exact hh signal m' s t

theorem bind {p : Exec α} {f : α → Exec β} (hp : StoreFree p) (hf : ∀ a, StoreFree (f a)) :
    StoreFree (p >>= f) := by
  rw [bind_eq_handle]
  exact handle hp hf throw

/-- A computation that reads a part of the machine other than scopes and functions. -/
theorem reading {g : Machine → α} (hg : ∀ m s f, g (m.withStore s f) = g m) :
    StoreFree (do return g (← get)) := by
  intro m s f
  change EStateM.Result.ok (g (m.withStore s f)) (m.withStore s f) = _
  rw [hg]
  rfl

/-- A change of a part of the machine other than scopes and functions. -/
theorem changing {g : Machine → Machine}
    (hg : ∀ m s f, g (m.withStore s f) = (g m).withStore s f) :
    StoreFree (modify g : Exec Unit) := by
  intro m s f
  change EStateM.Result.ok () (g (m.withStore s f)) = _
  rw [hg]
  rfl

/-- The functions are as before when the computation ends. -/
theorem functions_eq {p : Exec α} (hp : StoreFree p) (m : Machine) :
    (Outcome.machine (p m)).functions = m.functions := by
  have h := congrArg (fun r => (Outcome.machine r).functions) (hp m m.scopes m.functions)
  rw [Outcome.machine_onMachine] at h
  exact h

theorem scopeFree {p : Exec α} (hp : StoreFree p) : ScopeFree p := by
  intro m s
  have hkept := hp.functions_eq m
  have h : p (m.withScopes s) = Outcome.onMachine (·.withStore s m.functions) (p m) :=
    hp m s m.functions
  rw [h]
  cases hpm : p m with
  | ok a m' =>
    rw [hpm] at hkept
    exact congrArg (fun f => EStateM.Result.ok a (m'.withStore s f)) hkept.symm
  | error signal m' =>
    rw [hpm] at hkept
    exact congrArg (fun f => EStateM.Result.error signal (m'.withStore s f)) hkept.symm

end StoreFree

/-! ### Computations that stay within every depth -/

/-- The computation leaves scopes and functions alone, and the bound on the depth of computations
does not end it. -/
structure Steady (p : Exec α) : Prop where
  /-- It leaves scopes and functions alone. -/
  storeFree : StoreFree p
  /-- It does not end at the bound. -/
  ends : ∀ m, ¬ Outcome.Exhausted (p m)

namespace Steady

/-- Both laws at once, for an operation that is read off machine by machine. -/
theorem of_forall {p : Exec α}
    (h : ∀ m s f, p (m.withStore s f) = Outcome.onMachine (·.withStore s f) (p m) ∧
      ¬ Outcome.Exhausted (p m)) : Steady p :=
  ⟨fun m s f => (h m s f).1, fun m => (h m m.scopes m.functions).2⟩

theorem pure (a : α) : Steady (Pure.pure a : Exec α) :=
  ⟨.pure a, fun _ h => h⟩

theorem throw {signal : Signal} (h : signal ≠ .exhausted) :
    Steady (throwThe Signal signal : Exec α) := by
  refine ⟨.throw signal, fun m => ?_⟩
  cases signal with
  | exhausted => exact absurd rfl h
  | _ => exact fun hend => hend

theorem fail (cause : Fault) : Steady (Exec.fail cause : Exec α) :=
  throw nofun

theorem ofExcept (r : Except Fault α) : Steady (Exec.ofExcept r) := by
  cases r with
  | ok a => exact pure a
  | error cause => exact fail cause

theorem handle {p : Exec α} {f : α → Exec β} {h : Signal → Exec β} (hp : Steady p)
    (hf : ∀ a, Steady (f a)) (hh : ∀ signal, signal ≠ .exhausted → Steady (h signal))
    (hstop : h .exhausted = throwThe Signal .exhausted) : Steady (handle p f h) := by
  constructor
  · refine .handle hp.storeFree (fun a => (hf a).storeFree) fun signal => ?_
    by_cases hsignal : signal = .exhausted
    · rw [hsignal, hstop]
      exact .throw .exhausted
    · exact (hh signal hsignal).storeFree
  · intro m
    have hend := hp.ends m
    rw [handle_apply]
    cases hpm : p m with
    | ok a m' => exact (hf a).ends m'
    | error signal m' =>
      -- A signal that reaches the handler is not the end of the depth.
      rw [hpm] at hend
      have hsignal : signal ≠ .exhausted := fun heq => hend (heq ▸ trivial)
      exact (hh signal hsignal).ends m'

theorem bind {p : Exec α} {f : α → Exec β} (hp : Steady p) (hf : ∀ a, Steady (f a)) :
    Steady (p >>= f) := by
  rw [bind_eq_handle]
  exact handle hp hf (fun _ => throw) rfl

theorem exitOnInterrupt {p : Exec α} (hp : Steady p) : Steady (exitOnInterrupt p) := by
  rw [exitOnInterrupt_eq_handle]
  exact handle hp pure (fun _ h => throw (Signal.orExit_ne_exhausted h)) rfl

/-- A computation that reads a part of the machine other than scopes and functions. -/
theorem reading {g : Machine → α} (hg : ∀ m s f, g (m.withStore s f) = g m) :
    Steady (do return g (← get)) :=
  ⟨.reading hg, fun _ h => h⟩

/-- A computation that goes on with a part of the machine other than scopes and functions. -/
theorem reading_bind {g : Machine → α} {k : α → Exec β} (hg : ∀ m s f, g (m.withStore s f) = g m)
    (hk : ∀ a, Steady (k a)) : Steady (do k (g (← get))) := by
  have h : Steady ((do return g (← get)) >>= k) := bind (reading hg) hk
  exact h

/-- A change of a part of the machine other than scopes and functions. -/
theorem changing {g : Machine → Machine}
    (hg : ∀ m s f, g (m.withStore s f) = (g m).withStore s f) :
    Steady (modify g : Exec Unit) :=
  ⟨.changing hg, fun _ h => h⟩

/-- A computation that fails where a part of the machine other than scopes and functions says so. -/
theorem failing_if {g : Machine → Bool} (hg : ∀ m s f, g (m.withStore s f) = g m) (cause : Fault) :
    Steady (do if g (← get) then Exec.fail cause) := by
  refine reading_bind (k := fun b => if b then Exec.fail cause else Pure.pure ()) hg fun b => ?_
  cases b with
  | false => exact pure _
  | true => exact fail _

/-! ### Operations on the machine -/

theorem write (text : String) : Steady (write text) :=
  changing fun _ _ _ => rfl

theorem display (v : Value) : Steady (display v) := by
  unfold Exec.display
  split
  · exact fail _
  · exact pure _

theorem writeValues (vs : List Value) : Steady (writeValues vs) := by
  fun_induction Exec.writeValues vs with
  | case1 => exact write _
  | case2 v => exact bind (display v) fun _ => bind (write _) fun _ => write _
  | case3 v vs _ ih =>
    exact bind (display v) fun _ => bind (write _) fun _ => bind (write _) fun _ => ih

theorem readLine : Steady readLine := by
  refine of_forall ?_
  rintro ⟨scopes, functions, connections, input, interrupts, output, outputsLeft, network⟩ s f
  cases input with
  | nil => cases interrupts <;> exact ⟨rfl, id⟩
  | cons line rest => exact ⟨rfl, id⟩

theorem outputDone : Steady outputDone := by
  refine of_forall ?_
  rintro ⟨scopes, functions, connections, input, interrupts, output, outputsLeft, network⟩ s f
  cases outputsLeft with
  | none => exact ⟨rfl, id⟩
  | some n =>
    -- Only the call that finds a count of one throws.
    match n with
    | 0 => exact ⟨rfl, id⟩
    | 1 => exact ⟨rfl, id⟩
    | n + 2 => exact ⟨rfl, id⟩

theorem record (event : SocketEvent) : Steady (record event) :=
  changing fun _ _ _ => rfl

theorem makeSocket : Steady makeSocket :=
  ⟨fun _ _ _ => rfl, fun _ h => h⟩

theorem connect (socket : Nat) (host port : Value) : Steady (connect socket host port) := by
  refine bind (record _) fun _ => ?_
  exact failing_if (g := fun m => (m.network.peer socket).refuses) (fun _ _ _ => rfl) _

theorem checkOpen (socket : Nat) : Steady (checkOpen socket) :=
  failing_if (g := fun m => m.network.isShut socket) (fun _ _ _ => rfl) _

theorem send (socket : Nat) (text : String) : Steady (send socket text) :=
  bind (checkOpen socket) fun _ => record _

theorem closeSocket (socket : Nat) : Steady (closeSocket socket) :=
  changing fun _ _ _ => rfl

/-- What is received and how it changes the network depend on the network only. -/
theorem receive (socket : Nat) : Steady (receive socket) := by
  rw [receive_eq_received]
  refine bind (checkOpen socket) fun _ => ?_
  refine reading_bind (g := fun m => m.network.receive socket) (fun _ _ _ => rfl) ?_
  rintro ⟨bytes, network⟩
  refine bind (changing fun _ _ _ => rfl) fun _ => ?_
  cases bytes with
  | some bytes => exact ofExcept _
  | none =>
    dsimp only
    split
    · exact throw nofun
    · exact pure _

end Steady

/-! ### Built-in functions -/

end Exec

open Exec

theorem Node.steady_tokenText (n : Node) : Steady n.tokenText := by
  unfold Node.tokenText
  split
  · exact .pure _
  · exact .fail _

namespace Builtin

theorem steady_single (function parameter : String) (args : List Value) :
    Steady (single function parameter args) := by
  unfold single
  split
  · exact .pure _
  · exact .fail _
  · exact .fail _

theorem steady_channel (name : Value) : Steady (channel name) := by
  unfold channel
  split
  · exact .fail _
  · split
    · exact .reading fun _ _ _ => rfl
    · exact .pure _

theorem steady_openChannel (name : Value) : Steady (openChannel name) := by
  refine .bind (steady_channel name) fun socket => ?_
  cases socket with
  | none => exact .fail _
  | some socket => exact .pure _

theorem steady_sendMessage (name message : Value) :
    Steady (sendMessage name message) := by
  refine .bind (steady_openChannel name) fun socket => ?_
  split
  · exact .bind (.send _ _) fun _ => .bind (.receive _) fun _ => .pure _
  · exact .fail _

/-- **Built-in functions leave scopes and functions alone** and always end: they work on the values
of their arguments and on the other parts of the machine, and run no node. -/
theorem steady_call (f : Builtin) (args : List Value) : Steady (f.call args) := by
  cases f with
  | print => exact .bind (.writeValues _) fun _ => .pure _
  | input =>
    cases args with
    | nil => exact .exitOnInterrupt (.bind .readLine fun _ => .pure _)
    | cons v vs => exact .fail _
  | output =>
    exact .exitOnInterrupt (.bind (.writeValues _) fun _ => .bind .outputDone fun _ => .pure _)
  | toNumber => exact .bind (steady_single _ _ _) fun _ => .ofExcept _
  | toString =>
    match args with
    | [] => exact .pure _
    | [v] => exact .bind (.display v) fun _ => .pure _
    | _ :: _ :: _ => exact .fail _
  | sleep => exact .bind (.ofExcept _) fun _ => .bind (.ofExcept _) fun _ => .pure _
  | send =>
    match args with
    | [] => exact .fail _
    | [_] => exact .fail _
    | [name, message] => exact steady_sendMessage name message
    | _ :: _ :: _ :: _ => exact .fail _
  | receive =>
    refine .bind (steady_single _ _ _) fun name => .bind (steady_channel name) ?_
    intro socket
    cases socket with
    | some socket => exact .bind (.receive socket) fun _ => .pure _
    | none => exact .bind (.display name) fun _ => .fail _
  | close =>
    exact .bind (steady_single _ _ _) fun name => .bind (steady_openChannel name) fun _ =>
      .bind (.closeSocket _) fun _ => .pure _
  | len => exact .bind (.ofExcept _) fun _ => .bind (.ofExcept _) fun _ => .pure _
  | isAlpha | isNum =>
    exact .bind (steady_single _ _ _) fun v => .bind (.display v) fun _ => .pure _
  -- A constant is no function: calling it is a fault.
  | pi | e => exact .fail _
  | toBool | exp | log | sqrt | sin | cos | tan | floor | ceil | round | pow | abs =>
    exact .ofExcept _

end Builtin

/-! ### Parts of statements -/

theorem steady_writeFibonacci (terms a b : Nat) : Steady (writeFibonacci terms a b) := by
  induction terms generalizing a b with
  | zero => exact .pure _
  | succ terms ih => exact .bind (.writeValues _) fun _ => ih b (a + b)

theorem steady_runSeries : Steady runSeries :=
  .bind (.write _) fun _ => .bind .readLine fun _ => .bind (.ofExcept _) fun _ =>
    .bind (.writeValues _) fun _ => .bind (.write _) fun _ => .bind .readLine fun _ =>
      .bind (.ofExcept _) fun _ => steady_writeFibonacci _ _ _

theorem steady_hostText (v : Value) : Steady (hostText v) := by
  unfold hostText
  split
  · exact .pure _
  · exact .bind (.display _) fun _ => .pure _

theorem steady_portNumber (v : Value) : Steady (portNumber v) := by
  unfold portNumber
  split
  · exact .pure _
  · exact .pure _
  · split
    · exact .pure _
    · exact .bind (.display _) fun _ => .fail _

/-- What a server channel does once it has greeted its client, given the functions that were
defined. -/
def answer (socket : Nat) (handler : String) (functions : Table Node) : Exec Value :=
  if functions.contains handler then do
    let message ← receive socket
    if message.isEmpty then
      closeSocket socket
      return .nothing
    else fail .handlerCall
  else fail (.missingEntry (Text.quote handler))

theorem steady_answer (socket : Nat) (handler : String) (functions : Table Node) :
    Steady (answer socket handler functions) := by
  unfold answer
  split
  · refine .bind (.receive socket) fun message => ?_
    split
    · exact .bind (.closeSocket _) fun _ => .pure _
    · exact .fail _
  · exact .fail _

/-- The threshold that stands in for an activation function. -/
theorem steady_threshold (x : Value) :
    Steady (do
      if (← ofExcept (x.compare .ge (.int 0))) then
        writeLine "1"
        return Value.int 1
      else
        writeLine "0"
        return Value.int 0) := by
  refine .bind (.ofExcept _) fun above => ?_
  cases above with
  | true => exact .bind (.write _) fun _ => .pure _
  | false => exact .bind (.write _) fun _ => .pure _

end SeqPar
