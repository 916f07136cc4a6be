import SeqPar.Proofs.ScopeChain

/-!
# The values of parameters

A call enters a new scope, runs its arguments there and binds the parameters to what they give.  So
an argument does not see the variables of the caller.  This is made precise by comparing two
machines that have only the innermost tables in common: since variables are looked up in the
innermost table alone, nothing that is run on them can tell the tables further out apart.

The parameters therefore get the values that the arguments have where no variable is bound at all.
These are the values that the arguments have for the caller exactly when the variables of the caller
do not matter to them.

## Main definitions

* `Scopes.AgreeTo`, `Machine.AgreeTo` — the innermost tables are the same.
* `Blind` — two computations that the tables further out make no difference to.
* `enterCall` — what a call does before the statements of the function start.
* `StartsWith`, `PassesByValue` — the parameters have given values, or those that the arguments have
  for the caller.

## Main results

* `blind_exec` — running a node is blind to the tables further out.
* `passesByValue_iff` — **parameters get the values for the caller exactly when these are the values
  without any variables**.
-/

namespace SeqPar

open Exec

variable {α : Type}

/-! ### Chains with the same innermost tables -/

namespace Scopes

/-- The innermost tables of two chains are the same, and so are the `j` tables around them. -/
def AgreeTo (j : Nat) (s s' : Scopes α) : Prop :=
  ∃ top inner rest rest', inner.length = j ∧ s = ⟨top, inner ++ rest⟩ ∧ s' = ⟨top, inner ++ rest'⟩

namespace AgreeTo

variable {j : Nat} {s s' : Scopes α}

theorem top_eq (h : AgreeTo j s s') : s.top = s'.top := by
  obtain ⟨top, inner, rest, rest', _, rfl, rfl⟩ := h
  rfl

theorem weaken (h : AgreeTo (j + 1) s s') : AgreeTo j s s' := by
  obtain ⟨top, inner, rest, rest', hlen, rfl, rfl⟩ := h
  refine ⟨top, inner.take j, inner.drop j ++ rest, inner.drop j ++ rest', ?_, ?_, ?_⟩
  · rw [List.length_take]
    omega
  · rw [← List.append_assoc, List.take_append_drop]
  · rw [← List.append_assoc, List.take_append_drop]

theorem put (h : AgreeTo j s s') (name : String) (a : α) :
    AgreeTo j (s.put name a) (s'.put name a) := by
  obtain ⟨top, inner, rest, rest', hlen, rfl, rfl⟩ := h
  exact ⟨top.put name a, inner, rest, rest', hlen, rfl, rfl⟩

theorem putEverywhere (h : AgreeTo j s s') (name : String) (a : α) :
    AgreeTo j (s.putEverywhere name a) (s'.putEverywhere name a) := by
  obtain ⟨top, inner, rest, rest', hlen, rfl, rfl⟩ := h
  refine ⟨top.put name a, inner.map (·.put name a), rest.map (·.put name a),
    rest'.map (·.put name a), ?_, ?_, ?_⟩
  · rw [List.length_map, hlen]
  · rw [← List.map_append]
    rfl
  · rw [← List.map_append]
    rfl

theorem enter (h : AgreeTo j s s') : AgreeTo (j + 1) s.enter s'.enter := by
  obtain ⟨top, inner, rest, rest', hlen, rfl, rfl⟩ := h
  exact ⟨.empty, top :: inner, rest, rest', by rw [List.length_cons, hlen], rfl, rfl⟩

/-- A new scope is the same whatever it is entered from. -/
theorem enter_zero (s s' : Scopes α) : AgreeTo 0 s.enter s'.enter :=
  ⟨.empty, [], s.tables, s'.tables, rfl, rfl, rfl⟩

theorem leave (h : AgreeTo (j + 1) s s') : AgreeTo j s.leave s'.leave := by
  obtain ⟨top, inner, rest, rest', hlen, rfl, rfl⟩ := h
  cases inner with
  | nil => exact absurd hlen (Nat.succ_ne_zero j).symm
  | cons t inner =>
    rw [List.length_cons] at hlen
    exact ⟨t, inner, rest, rest', Nat.succ.inj hlen, rfl, rfl⟩

end AgreeTo

end Scopes

/-! ### Computations that do not look further out -/

/-- The machines differ only in tables further out than the `j` around the innermost one. -/
def Machine.AgreeTo (j : Nat) (m m' : Machine) : Prop :=
  m.scopes.AgreeTo j m'.scopes ∧ m'.withScopes m.scopes = m

/-- The outcomes are the same, with machines that agree. -/
inductive Outcome.AgreeTo (j : Nat) : Outcome α → Outcome α → Prop
  /-- Both computations give the same value. -/
  | ok (a : α) {m m' : Machine} (h : m.AgreeTo j m') : AgreeTo j (.ok a m) (.ok a m')
  /-- Both computations end with the same signal. -/
  | error (signal : Signal) {m m' : Machine} (h : m.AgreeTo j m') :
    AgreeTo j (.error signal m) (.error signal m')

/-- On machines that agree, the computations have outcomes that agree. -/
def Blind (α : Type) (p q : Exec α) : Prop :=
  ∀ j m m', Machine.AgreeTo j m m' → Outcome.AgreeTo j (p m) (q m')

theorem Machine.AgreeTo.withScopes {j k : Nat} {m m' : Machine} (h : m.AgreeTo j m')
    {s s' : Scopes Value} (hs : s.AgreeTo k s') :
    (m.withScopes s).AgreeTo k (m'.withScopes s') := by
  refine ⟨hs, ?_⟩
  rw [← h.2]
  rfl

/-- A change of the scopes that keeps chains agreeing. -/
theorem Blind.changing {f : Scopes Value → Scopes Value}
    (hf : ∀ {j s s'}, Scopes.AgreeTo j s s' → Scopes.AgreeTo j (f s) (f s')) :
    Blind Unit (modify fun m => m.withScopes (f m.scopes))
      (modify fun m => m.withScopes (f m.scopes)) :=
  fun _ _ _ h => .ok () (h.withScopes (hf h.1))

/-- A computation that leaves the scopes alone does not look at them. -/
theorem Blind.of_scopeFree {p : Exec α} (hp : ScopeFree p) : Blind α p p := by
  intro j m m' h
  have hm := hp m' m.scopes
  have hs := hp.scopes_eq m'
  rw [h.2] at hm
  rw [hm]
  cases hp' : p m' with
  | ok a m₁ =>
    rw [hp'] at hs
    exact .ok a ⟨hs ▸ h.1, rfl⟩
  | error signal m₁ =>
    rw [hp'] at hs
    exact .error signal ⟨hs ▸ h.1, rfl⟩

/-- Not looking further out is a congruence: what runs next runs again on machines that agree. -/
theorem blind_congruence : Congruence Blind where
  steady hp := .of_scopeFree hp.storeFree.scopeFree
  exhausted := .of_scopeFree (StoreFree.throw .exhausted).scopeFree
  functions := .of_scopeFree (.reading fun _ _ => rfl)
  define name n := .of_scopeFree (.changing fun _ _ => rfl)
  binding? name := by
    intro j m m' h
    have hv : binding? name m = .ok (m'.scopes.top.get? name) m := by
      rw [← h.1.top_eq]
      rfl
    rw [hv]
    exact .ok _ h
  bindHere name v := .changing fun h => h.put name v
  bindEverywhere name v := .changing fun h => h.putEverywhere name v
  handle := by
    intro α β p q f g h k hp hf hh hstop hstop' j m m' hm
    have hend : Blind β (throw .exhausted) (throw .exhausted) :=
      .of_scopeFree (StoreFree.throw .exhausted).scopeFree
    have hpq := hp j m m' hm
    unfold handle
    generalize p m = r at hpq ⊢
    generalize q m' = r' at hpq ⊢
    cases hpq with
    | ok a hm' => exact hf a j _ _ hm'
    | error signal hm' => exact handlers_related hh hstop hstop' hend signal j _ _ hm'

/-! ### Calls -/

/-- Leaving the innermost scopes of two outcomes. -/
theorem Outcome.AgreeTo.leaveScope {j : Nat} {r r' : Outcome α} (h : AgreeTo (j + 1) r r') :
    AgreeTo j (onMachine Machine.leaveScope r) (onMachine Machine.leaveScope r') := by
  cases h with
  | ok a hm => exact .ok a (hm.withScopes hm.1.leave)
  | error signal hm => exact .error signal (hm.withScopes hm.1.leave)

theorem blind_callFunction {run run' : Runner} (hrun : ∀ n, Blind Value (run n) (run' n))
    (params body args : List Node) :
    Blind Value (callFunction run params body args) (callFunction run' params body args) := by
  intro j m m' h
  have hargs := blind_congruence.bindParams 0 params args (fun n _ => hrun n) (j + 1) _ _
    (h.withScopes h.1.enter)
  rw [callFunction_apply, callFunction_apply]
  unfold handle
  generalize bindParams run 0 params args (m.withScopes m.scopes.enter) = r at hargs ⊢
  generalize bindParams run' 0 params args (m'.withScopes m'.scopes.enter) = r' at hargs ⊢
  cases hargs with
  | ok u hm =>
    dsimp only
    rw [afterwards_apply, afterwards_apply]
    exact (blind_congruence.runBody .nothing body (fun n _ => hrun n) (j + 1) _ _ hm).leaveScope
  | error signal hm =>
    -- The scope of the call is left behind on both sides.
    exact .error signal ⟨hm.1.weaken, hm.2⟩

/-- **Running a node does not look further out**: variables are looked up in the innermost table,
and what is bound in every table is the same on both sides. -/
theorem blind_exec (fuel : Nat) (n : Node) : Blind Value (exec fuel n) (exec fuel n) := by
  rw [← execWith_callFunction]
  exact blind_congruence.execWith (fun _ _ hrun => blind_callFunction hrun) fuel n

/-! ### What a function starts with -/

/-- What a call does before the statements of the function start. -/
def enterCall (run : Runner) (params args : List Node) : Exec Unit := do
  enterScope
  bindParams run 0 params args

/-- The statements of the function start with each parameter bound to the value at its position. -/
def StartsWith (run : Runner) (params args : List Node) (values : List Value) (m : Machine) :
    Prop :=
  ∃ start, enterCall run params args m = .ok () start ∧
    ∀ i param v name, params[i]? = some param → values[i]? = some v →
      paramName? i param = .ok (some name) → start.scopes.top.get? name = some v

/-- Whenever the arguments have values for the caller, the function starts with these. -/
def PassesByValue (run : Runner) (params args : List Node) (m : Machine) : Prop :=
  ∀ values m', evalAll run args m = .ok values m' → StartsWith run params args values m

/-- The machine without any variables. -/
def Machine.withoutVariables (m : Machine) : Machine :=
  m.withScopes .empty

/-- What a function starts with does not depend on the scopes of the caller. -/
theorem StartsWith.withScopes {fuel : Nat} {params args : List Node} {values : List Value}
    {m : Machine} (h : StartsWith (exec fuel) params args values m) (s : Scopes Value) :
    StartsWith (exec fuel) params args values (m.withScopes s) := by
  obtain ⟨start, hstart, hvalues⟩ := h
  -- Both chains start with the new empty table, which is all that the arguments can read.
  have hagree : (m.withScopes m.scopes.enter).AgreeTo 0 (m.withScopes s.enter) :=
    ⟨.enter_zero m.scopes s, rfl⟩
  have hentry := blind_congruence.bindParams 0 params args (fun n _ => blind_exec fuel n) 0 _ _
    hagree
  change bindParams _ 0 params args (m.withScopes m.scopes.enter) = _ at hstart
  rw [hstart] at hentry
  cases hother : bindParams (exec fuel) 0 params args (m.withScopes s.enter) with
  | ok u start' =>
    rw [hother] at hentry
    cases hentry with
    | ok _ hm =>
      refine ⟨start', hother, ?_⟩
      rw [← hm.1.top_eq]
      exact hvalues
  | error signal start' =>
    rw [hother] at hentry
    cases hentry

/-- **Parameters get the values for the caller exactly when these are the values without any
variables.**  A call of a defined function enters its scope with the parameters bound, runs the
statements and leaves the scope.  The parameters are bound to the values that the arguments have for
the caller if and only if they would be bound to the same values on a machine without variables. -/
theorem passesByValue_iff (fuel : Nat) (type : Option String) (t : Token) (args : List Node)
    (m : Machine) {name : String} {ret : Option String} {params body : List Node}
    (hbuiltin : Builtin.ofName? t.text = none)
    (hdefined : m.functions.get? t.text = some (.funcDef name ret params body)) :
    exec (fuel + 1) (.call type t args) m =
        (do
          enterCall (exec fuel) params args
          afterwards (runBody (exec fuel) .nothing body) Machine.leaveScope) m ∧
      (PassesByValue (exec fuel) params args m ↔
        ∀ values m', evalAll (exec fuel) args m = .ok values m' →
          StartsWith (exec fuel) params args values m.withoutVariables) := by
  refine ⟨?_, ?_, ?_⟩
  · exact runCall_apply hbuiltin hdefined
  · intro h values m' hvalues
    exact (h values m' hvalues).withScopes .empty
  · intro h values m' hvalues
    exact (h values m' hvalues).withScopes m.scopes

/-! ### Variables as arguments -/

theorem Table.lookup_putIn_self (name : String) (a : α) (entries : List (String × α)) :
    (putIn name a entries).lookup name = some a := by
  induction entries with
  | nil => simp [putIn]
  | cons entry rest ih =>
    obtain ⟨n, b⟩ := entry
    by_cases h : n = name
    · simp [putIn, h]
    · have hne : (name == n) = false := by simpa using fun heq : name = n => h heq.symm
      rw [putIn, if_neg h, List.lookup_cons, hne]
      exact ih

/-- An entry that is put into a table is found there. -/
theorem Table.get?_put_self (t : Table α) (name : String) (a : α) :
    (t.put name a).get? name = some a :=
  lookup_putIn_self name a t.entries

/-- The only parameter of a function gets the value that the only argument has in the new scope. -/
theorem startsWith_single_iff {run : Runner} {arg : Node} {w : Value} {m m' : Machine}
    (harg : run arg (m.withScopes m.scopes.enter) = .ok w m') (type : Option String) (p : Token)
    (decl : Bool) (v : Value) : StartsWith run [.ident type p decl] [arg] [v] m ↔ v = w := by
  have hentry : enterCall run [.ident type p decl] [arg] m =
      .ok () (m'.withScopes (m'.scopes.put p.text w)) := by
    change (run arg >>= fun v => _) (m.withScopes m.scopes.enter) = _
    rw [bind_eq_handle, handle_apply, harg]
    rfl
  have hbound : (m'.scopes.put p.text w).top.get? p.text = some w := Table.get?_put_self _ _ _
  constructor
  · rintro ⟨start, hstart, hvalues⟩
    rw [hentry] at hstart
    obtain ⟨⟩ := hstart
    have hv := hvalues 0 _ v p.text rfl rfl rfl
    exact (Option.some.inj (hbound.symm.trans hv)).symm
  · rintro rfl
    refine ⟨_, hentry, ?_⟩
    intro i param v' name hparam hvalue hname
    cases i with
    | zero =>
      obtain rfl := Option.some.inj hparam
      obtain rfl := Option.some.inj hvalue
      obtain rfl : p.text = name := Option.some.inj (Except.ok.inj hname)
      exact hbound
    | succ i => cases hparam

/-- A variable as the only argument gives zero, whatever it is bound to for the caller. -/
theorem startsWith_variable_iff (fuel : Nat) (type type' : Option String) (p x : Token)
    (decl decl' : Bool) (v : Value) (m : Machine) :
    StartsWith (exec (fuel + 1)) [.ident type p decl] [.ident type' x decl'] [v] m ↔
      v = .int 0 := by
  -- The new scope has no entry for `x`, and reading an unbound variable binds it to zero.
  have harg : exec (fuel + 1) (.ident type' x decl') (m.withScopes m.scopes.enter) =
      .ok (.int 0) (m.withScopes (m.scopes.enter.put x.text (.int 0))) := rfl
  exact startsWith_single_iff harg type p decl v

/-- A machine with the function `echo` and a variable `x` that is five. -/
def callerMachine : Machine :=
  echoMachine.withScopes ⟨.ofList [("x", .int 5)], []⟩

/-- A literal has the same value everywhere, so that it is passed by value. -/
theorem passesByValue_iff_literal :
    Builtin.ofName? "echo" = none ∧ callerMachine.functions.get? "echo" = some echo ∧
      PassesByValue (exec 1) [.ident none ⟨.ident, "p"⟩ true]
        [.constant (some "NUMBER") ⟨.number, "7"⟩] callerMachine := by
  refine ⟨rfl, rfl, (passesByValue_iff 1 none ⟨.ident, "echo"⟩ _ callerMachine rfl rfl).2.mpr ?_⟩
  intro values m' hvalues
  obtain ⟨⟩ := hvalues
  exact (startsWith_single_iff rfl _ _ _ _).mpr rfl

/-- The variable `x` is five for the caller of `echo(x)`, but the parameter gets zero. -/
theorem not_passesByValue_variable :
    ¬ PassesByValue (exec 1) [.ident none ⟨.ident, "p"⟩ true] [.ident none ⟨.ident, "x"⟩ false]
      callerMachine := by
  intro h
  have hstart := h [.int 5] callerMachine rfl
  have hzero := (startsWith_variable_iff 0 _ _ _ _ _ _ _ _).mp hstart
  exact absurd (Value.int.inj hzero) (by decide)

end SeqPar
