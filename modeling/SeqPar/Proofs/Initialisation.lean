import SeqPar.Machine.Run
import SeqPar.Proofs.Views

/-!
# Start values

Variables get values without being assigned to on three occasions: looking up the value of an unbound
variable with `valueOf` binds it to zero, a parallel block binds the variables that its statements
assign to and those of its series, and a program binds the variables that its statements assign to and
those of the sorting program.  In the first two cases, and for the variables that a program assigns to,
a start value is written only if the variable is unbound in the innermost table.  But it is then written
into every table of the chain.  So a variable that is bound further out is overwritten, unless it has
the start value already.  The variables of the sorting program are written without a look at any table.

## Main definitions

* `OnlyAdds` — variables were added to the tables of the chain, and nothing else happened.
* `Writes` — every table got the given entries.
* `bindStarts` — writes start values where the innermost table has none.
* `targetStarts`, `parallelStarts` — the start values of programs and of parallel blocks.

## Main results

* `Writes.onlyAdds_iff` — writing entries only adds variables when they are new or there already.
* `bindStarts_writes` — what is written, by induction on the start values.
* `start_values_only_add_iff` — **the chains on which start values overwrite nothing.**
-/

namespace SeqPar

open Exec

/-! ### Entries that are written into all tables -/

namespace Table

variable {α : Type}

/-- Every entry of the first table stands in the second one too. -/
def Within (t t' : Table α) : Prop :=
  ∀ name a, t.get? name = some a → t'.get? name = some a

/-- Under the name there is no entry, or the given one. -/
def Admits (t : Table α) (name : String) (a : α) : Prop :=
  ∀ b, t.get? name = some b → b = a

/-- The second table is the first one with the given entries, in place of those that it had. -/
def With (entries : String → Option α) (t t' : Table α) : Prop :=
  ∀ name, t'.get? name = (entries name).or (t.get? name)

theorem with_put (t : Table α) (name : String) (a : α) :
    t.With (fun x => if x = name then some a else none) (t.put name a) := by
  intro x
  dsimp only
  split
  · next hx => exact hx ▸ get?_put_self t x a
  · next hx => exact get?_put_of_ne t hx a

theorem With.trans {entries entries' : String → Option α} {t t' t'' : Table α}
    (h : t.With entries t') (h' : t'.With entries' t'') :
    t.With (fun name => (entries' name).or (entries name)) t'' := by
  intro name
  rw [h' name, h name, Option.or_assoc]

theorem With.within_iff {entries : String → Option α} {t t' : Table α} (h : t.With entries t') :
    t.Within t' ↔ ∀ name a, entries name = some a → t.Admits name a := by
  constructor
  · intro hwithin name a ha b hb
    have hlater := hwithin name b hb
    rw [h name, ha] at hlater
    exact (Option.some.inj hlater).symm
  · intro hadmits name b hb
    rw [h name]
    cases ha : entries name with
    | none => exact hb
    | some a => rw [hadmits name a ha b hb]; rfl

theorem all_within_iff {entries : String → Option α} {ts ts' : List (Table α)}
    (h : List.Forall₂ (With entries) ts ts') : List.Forall₂ Within ts ts' ↔
      ∀ t ∈ ts, ∀ name a, entries name = some a → t.Admits name a := by
  induction h with
  | nil => exact iff_of_true .nil (List.forall_mem_nil _)
  | cons ht _ ih => rw [List.forall₂_cons, List.forall_mem_cons, ih, ht.within_iff]

end Table

/-- From the first machine to the second, variables were added to the tables of the chain, and nothing
else happened. -/
structure OnlyAdds (m m' : Machine) : Prop where
  /-- The variables of every table keep their values. -/
  tables : List.Forall₂ Table.Within m.scopes.tables m'.scopes.tables
  /-- The rest of the machine is the same. -/
  rest : m' = m.withScopes m'.scopes

/-- From the first machine to the second, every table of the chain got the given entries, and nothing
else happened. -/
structure Writes (entries : String → Option Value) (m m' : Machine) : Prop where
  /-- Every table has the entries. -/
  tables : List.Forall₂ (Table.With entries) m.scopes.tables m'.scopes.tables
  /-- The rest of the machine is the same. -/
  rest : m' = m.withScopes m'.scopes

namespace Writes

variable {entries entries' : String → Option Value} {m m' m'' : Machine}

theorem refl (m : Machine) : Writes (fun _ => none) m m :=
  ⟨List.forall₂_same.mpr fun _ _ _ => rfl, rfl⟩

/-- The entries that are written later count. -/
theorem trans (h : Writes entries m m') (h' : Writes entries' m' m'') :
    Writes (fun name => (entries' name).or (entries name)) m m'' := by
  refine ⟨Table.all_compose h.tables h'.tables Table.With.trans, ?_⟩
  rw [h'.rest, h.rest]
  rfl

theorem congr (h : Writes entries m m') (hentries : ∀ name, entries name = entries' name) :
    Writes entries' m m' :=
  funext hentries ▸ h

/-- The innermost table is one of the tables. -/
theorem get?_top (h : Writes entries m m') (name : String) :
    m'.scopes.top.get? name = (entries name).or (m.scopes.top.get? name) :=
  (List.forall₂_cons.mp h.tables).1 name

/-- **Writing entries only adds variables** exactly when, in every table, each of them is new or there
already. -/
theorem onlyAdds_iff (h : Writes entries m m') :
    OnlyAdds m m' ↔ ∀ name v, entries name = some v → ∀ t ∈ m.scopes.tables, t.Admits name v := by
  have htables := Table.all_within_iff h.tables
  constructor
  · exact fun hadds name v hv t ht => htables.mp hadds.tables t ht name v hv
  · exact fun hadmits => ⟨htables.mpr fun t ht name v hv => hadmits name v hv t ht, h.rest⟩

end Writes

theorem bindEverywhere_writes (name : String) (v : Value) (m : Machine) :
    ∃ m', bindEverywhere name v m = .ok () m' ∧
      Writes (fun x => if x = name then some v else none) m m' := by
  refine ⟨_, rfl, .cons (m.scopes.top.with_put name v) ?_, rfl⟩
  show List.Forall₂ _ m.scopes.outer (m.scopes.outer.map (·.put name v))
  rw [List.forall₂_map_right_iff, List.forall₂_same]
  exact fun t _ => t.with_put name v

/-! ### Start values -/

/-- Writes start values, each of them into every table, unless the innermost one has a value. -/
def bindStarts : List (String × Value) → Exec Unit
  | [] => return ()
  | (name, v) :: rest => do
    bindIfUnbound name v
    bindStarts rest

/-- The start values of the variables that the innermost table does not have.  Of two under one name
the first counts, since the variable is bound then. -/
def missingStarts (top : Table Value) (starts : List (String × Value)) (name : String) :
    Option Value :=
  if (top.get? name).isSome then none else starts.lookup name

theorem bindStarts_append (starts starts' : List (String × Value)) :
    bindStarts (starts ++ starts') = (do
      bindStarts starts
      bindStarts starts') := by
  induction starts with
  | nil => rfl
  | cons entry rest ih =>
    obtain ⟨name, v⟩ := entry
    rw [List.cons_append, bindStarts, bindStarts, ih, bind_assoc]

theorem binding?_of_get? {name : String} {found : Option Value} {m : Machine}
    (h : m.scopes.top.get? name = found) : binding? name m = .ok found m :=
  congrArg (EStateM.Result.ok · m) h

theorem isBound_of_get? {name : String} {found : Option Value} {m : Machine}
    (h : m.scopes.top.get? name = found) : isBound name m = .ok found.isSome m :=
  bind_of_ok _ (binding?_of_get? h)

theorem bindIfUnbound_of_bound {name : String} {w : Value} {m : Machine}
    (h : m.scopes.top.get? name = some w) (v : Value) : bindIfUnbound name v m = .ok () m :=
  bind_of_ok _ (isBound_of_get? h)

theorem bindIfUnbound_of_unbound {name : String} {m : Machine}
    (h : m.scopes.top.get? name = none) (v : Value) :
    bindIfUnbound name v m = bindEverywhere name v m :=
  bind_of_ok _ (isBound_of_get? h)

theorem exists_bindIfUnbound (name : String) (v : Value) (m : Machine) :
    ∃ s, bindIfUnbound name v m = .ok () (m.withScopes s) := by
  cases h : m.scopes.top.get? name with
  | some w => exact ⟨m.scopes, bindIfUnbound_of_bound h v⟩
  | none => exact ⟨_, bindIfUnbound_of_unbound h v⟩

/-- **What start values are written**, by induction on their list. -/
theorem bindStarts_writes (starts : List (String × Value)) (m : Machine) :
    ∃ m', bindStarts starts m = .ok () m' ∧ Writes (missingStarts m.scopes.top starts) m m' := by
  induction starts generalizing m with
  | nil => exact ⟨m, rfl, (Writes.refl m).congr fun name => by unfold missingStarts; split <;> rfl⟩
  | cons entry rest ih =>
    obtain ⟨name, v⟩ := entry
    cases hname : m.scopes.top.get? name with
    | some w =>
      obtain ⟨m', hrest, hwrites⟩ := ih m
      refine ⟨m', ?_, hwrites.congr fun x => ?_⟩
      · rw [bindStarts, bind_of_ok _ (bindIfUnbound_of_bound hname v), hrest]
      · unfold missingStarts
        by_cases hx : x = name
        · rw [hx, hname]
          rfl
        · rw [List.lookup_cons, beq_false_of_ne hx]
    | none =>
      obtain ⟨m₁, hbind, hwrite⟩ := bindEverywhere_writes name v m
      obtain ⟨m', hrest, hwrites⟩ := ih m₁
      refine ⟨m', ?_, (hwrite.trans hwrites).congr fun x => ?_⟩
      · rw [bindStarts, bind_of_ok _ ((bindIfUnbound_of_unbound hname v).trans hbind), hrest]
      · -- The value that was just written is found in the innermost table from now on.
        unfold missingStarts
        rw [hwrite.get?_top, List.lookup_cons]
        by_cases hx : x = name
        · rw [hx, hname]
          simp
        · rw [beq_false_of_ne hx]
          simp [hx]

/-- Writing the value under the name, where the innermost table has none, changes no value further
out. -/
def Scopes.SparesOuter (s : Scopes Value) (name : String) (v : Value) : Prop :=
  s.top.get? name = none → ∀ t ∈ s.outer, t.Admits name v

/-- A start value that is missing in the innermost table is new there. -/
theorem missingStarts_admits_iff (s : Scopes Value) (starts : List (String × Value)) :
    (∀ name v, missingStarts s.top starts name = some v → ∀ t ∈ s.tables, t.Admits name v) ↔
      ∀ name v, starts.lookup name = some v → s.SparesOuter name v := by
  refine forall_congr' fun name => forall_congr' fun v => ?_
  unfold missingStarts
  cases hname : s.top.get? name with
  | some w =>
    refine iff_of_true ?_ ?_
    · intro hnone
      cases hnone
    · intro _ hnone
      rw [hname] at hnone
      cases hnone
  | none =>
    refine imp_congr_right fun _ => ?_
    show (∀ t ∈ s.top :: s.outer, t.Admits name v) ↔ _
    rw [List.forall_mem_cons]
    constructor
    · exact fun hadmits _ => hadmits.2
    · refine fun hspares => ⟨?_, hspares hname⟩
      intro w hw
      rw [hname] at hw
      cases hw

/-- **Start values only add variables** exactly when each of them spares the outer tables. -/
theorem bindStarts_onlyAdds_iff {starts : List (String × Value)} {m m' : Machine}
    (h : bindStarts starts m = .ok () m') :
    OnlyAdds m m' ↔ ∀ name v, starts.lookup name = some v → m.scopes.SparesOuter name v := by
  obtain ⟨m₁, hrun, hwrites⟩ := bindStarts_writes starts m
  rw [h] at hrun
  cases hrun
  rw [hwrites.onlyAdds_iff, missingStarts_admits_iff]

/-! ### Variables that are assigned to

The start values of a program or a parallel block are those of the variables on the left sides of
assignments.  A left side without a token has no variable, and what comes after it is not written. -/

/-- The start values of the variables that are assigned to, up to the first left side without a
token. -/
def targetStarts (start : String → Int) : List Node → List (String × Value)
  | [] => []
  | n :: ns =>
    match n.token? with
    | some t => (t.text, .int (start t.text)) :: targetStarts start ns
    | none => []

/-- Every left side has a token. -/
def AllNamed (ns : List Node) : Prop :=
  ∀ n ∈ ns, n.token?.isSome = true

instance (ns : List Node) : Decidable (AllNamed ns) :=
  inferInstanceAs (Decidable (∀ n ∈ ns, n.token?.isSome = true))

theorem lookup_targetStarts {start : String → Int} {ns : List Node} {name : String} {v : Value}
    (h : (targetStarts start ns).lookup name = some v) : v = .int (start name) := by
  induction ns with
  | nil => cases h
  | cons n ns ih =>
    rw [targetStarts] at h
    cases ht : n.token? with
    | none =>
      rw [ht] at h
      cases h
    | some t =>
      rw [ht, List.lookup_cons] at h
      by_cases hname : name = t.text
      · rw [hname, beq_self_eq_true] at h
        rw [hname]
        exact (Option.some.inj h).symm
      · rw [beq_false_of_ne hname] at h
        exact ih h

theorem tokenText_of_some {n : Node} {t : Token} (h : n.token? = some t) (m : Machine) :
    n.tokenText m = .ok t.text m := by
  unfold Node.tokenText
  rw [h]
  rfl

theorem tokenText_of_none {n : Node} (h : n.token? = none) (m : Machine) :
    n.tokenText m = .error (.fault (.noMember n.kindName "token")) m := by
  unfold Node.tokenText
  rw [h]
  rfl

/-- The variables that are assigned to get their start values, and then the left side without a token
is found, if there is one. -/
theorem bindTargets_apply (start : String → Int) (ns : List Node) (m : Machine) :
    ∃ m', bindStarts (targetStarts start ns) m = .ok () m' ∧
      (AllNamed ns → bindTargets start ns m = .ok () m') ∧
      (¬ AllNamed ns → ∃ signal, bindTargets start ns m = .error signal m') := by
  induction ns generalizing m with
  | nil => exact ⟨m, rfl, fun _ => rfl, fun h => absurd (List.forall_mem_nil _) h⟩
  | cons n ns ih =>
    have hnamed : AllNamed (n :: ns) ↔ n.token?.isSome = true ∧ AllNamed ns := List.forall_mem_cons
    cases ht : n.token? with
    | none =>
      refine ⟨m, ?_, ?_, fun _ => ⟨_, bind_of_error _ (tokenText_of_none ht m)⟩⟩
      · rw [targetStarts, ht]
        rfl
      · intro h
        have htoken := (hnamed.mp h).1
        rw [ht] at htoken
        cases htoken
    | some t =>
      obtain ⟨s, hbind⟩ := exists_bindIfUnbound t.text (.int (start t.text)) m
      obtain ⟨m', hstarts, hok, herror⟩ := ih (m.withScopes s)
      have htargets : bindTargets start (n :: ns) m = bindTargets start ns (m.withScopes s) :=
        (bind_of_ok _ (tokenText_of_some ht m)).trans (bind_of_ok _ hbind)
      rw [hnamed, ht, htargets]
      refine ⟨m', ?_, fun h => hok h.2, fun h => herror fun hns => h ⟨rfl, hns⟩⟩
      rw [targetStarts, ht]
      exact (bind_of_ok _ hbind).trans hstarts

/-! ### The three occasions -/

/-- The start values of the series that a parallel block may compute. -/
def seriesStarts : List (String × Value) :=
  [("fat", .int 1), ("i", .int 1), ("a", .int 0), ("b", .int 1)]

/-- The start values of a parallel block: its own variables, and those of its series. -/
def parallelStarts (body : List Node) : List (String × Value) :=
  targetStarts parallelStart (Node.targetsAll body) ++
    if AllNamed (Node.targetsAll body) then seriesStarts else []

/-- The variables of the sorting program. -/
def sortingNames : List String :=
  ["menor", "medio", "maior"]

theorem valueOf_eq_bindStarts (name : String) (m : Machine) :
    ∃ v m', valueOf name m = .ok v m' ∧ bindStarts [(name, .int 0)] m = .ok () m' := by
  cases h : m.scopes.top.get? name with
  | some v =>
    exact ⟨v, m, bind_of_ok _ (binding?_of_get? h), bind_of_ok _ (bindIfUnbound_of_bound h _)⟩
  | none =>
    exact ⟨.int 0, _, bind_of_ok _ (binding?_of_get? h),
      bind_of_ok _ (bindIfUnbound_of_unbound h _)⟩

/-- Looking up a variable can overwrite only values that it has further out. -/
theorem valueOf_onlyAdds_iff (name : String) (m : Machine) :
    OnlyAdds m (Outcome.machine (valueOf name m)) ↔ m.scopes.SparesOuter name (.int 0) := by
  obtain ⟨v, m', hvalue, hstarts⟩ := valueOf_eq_bindStarts name m
  rw [hvalue]
  refine (bindStarts_onlyAdds_iff hstarts).trans ⟨fun h => h name _ ?_, fun h x w hw => ?_⟩
  · rw [List.lookup_cons, beq_self_eq_true]
  · rw [List.lookup_cons] at hw
    by_cases hx : x = name
    · rw [hx, beq_self_eq_true] at hw
      cases hw
      exact hx ▸ h
    · rw [beq_false_of_ne hx] at hw
      cases hw

/-- A parallel block writes its start values, and does not come to those of its series when a left side
has no token. -/
theorem prepareParallel_eq_bindStarts (body : List Node) (m : Machine) :
    bindStarts (parallelStarts body) m = .ok () (Outcome.machine (prepareParallel body m)) := by
  obtain ⟨m₁, hstarts, hok, herror⟩ := bindTargets_apply parallelStart (Node.targetsAll body) m
  rw [parallelStarts, bindStarts_append, bind_of_ok _ hstarts, prepareParallel]
  by_cases hnamed : AllNamed (Node.targetsAll body)
  · rw [if_pos hnamed, bind_of_ok _ (hok hnamed)]
    obtain ⟨m', hseries, -⟩ := bindStarts_writes seriesStarts m₁
    rw [hseries]
    simp only [seriesStarts, bindStarts, bind_pure_unit] at hseries
    rw [hseries]
    rfl
  · obtain ⟨signal, hfails⟩ := herror hnamed
    rw [if_neg hnamed, bind_of_error _ hfails]
    rfl

/-- Binds variables in every scope, whatever their values. -/
def bindAll (v : Value) : List String → Exec Unit
  | [] => return ()
  | name :: names => do
    bindEverywhere name v
    bindAll v names

theorem bindAll_writes (v : Value) (names : List String) (m : Machine) :
    ∃ m', bindAll v names m = .ok () m' ∧
      Writes (fun name => if name ∈ names then some v else none) m m' := by
  induction names generalizing m with
  | nil => exact ⟨m, rfl, (Writes.refl m).congr fun name => (if_neg List.not_mem_nil).symm⟩
  | cons first names ih =>
    obtain ⟨m₁, hfirst, hwrite⟩ := bindEverywhere_writes first v m
    obtain ⟨m', hnames, hwrites⟩ := ih m₁
    refine ⟨m', (bind_of_ok _ hfirst).trans hnames, (hwrite.trans hwrites).congr fun name => ?_⟩
    by_cases hname : name ∈ names
    · simp [hname]
    · simp [hname]

/-- A program writes the start values of its variables, and then those of the sorting program if every
left side has a token. -/
theorem prepare_writes (stmts : List Node) (m : Machine) :
    Writes (fun name => (if AllNamed (Node.targetsAll stmts) ∧ name ∈ sortingNames
        then some (Value.int 0) else none).or
      (missingStarts m.scopes.top (targetStarts programStart (Node.targetsAll stmts)) name))
      m (Outcome.machine (prepare stmts m)) := by
  obtain ⟨m₁, hstarts, hok, herror⟩ := bindTargets_apply programStart (Node.targetsAll stmts) m
  obtain ⟨m₂, hrun, hwrites⟩ := bindStarts_writes (targetStarts programStart (Node.targetsAll stmts)) m
  rw [hstarts] at hrun
  cases hrun
  by_cases hnamed : AllNamed (Node.targetsAll stmts)
  · obtain ⟨m', hsorting, hzeros⟩ := bindAll_writes (.int 0) sortingNames m₁
    simp only [sortingNames, bindAll, bind_pure_unit] at hsorting
    rw [prepare, bind_of_ok _ (hok hnamed), hsorting]
    refine (hwrites.trans hzeros).congr fun name => ?_
    simp only [hnamed, true_and]
  · obtain ⟨signal, hfails⟩ := herror hnamed
    rw [prepare, bind_of_error _ hfails]
    refine hwrites.congr fun name => ?_
    simp only [hnamed, false_and, if_false, Option.none_or]

theorem programStart_of_mem : ∀ name ∈ sortingNames, programStart name = 0 := by
  decide

/-- The variables of a program spare the outer tables, and those of the sorting program are zero
wherever they are bound. -/
theorem prepare_onlyAdds_iff (stmts : List Node) (m : Machine) :
    OnlyAdds m (Outcome.machine (prepare stmts m)) ↔
      (∀ name v, (targetStarts programStart (Node.targetsAll stmts)).lookup name = some v →
        m.scopes.SparesOuter name v) ∧
      (AllNamed (Node.targetsAll stmts) → ∀ name ∈ sortingNames, ∀ t ∈ m.scopes.tables,
        t.Admits name (.int 0)) := by
  rw [(prepare_writes stmts m).onlyAdds_iff, ← missingStarts_admits_iff]
  constructor
  · intro hadmits
    have hsorting (hnamed : AllNamed (Node.targetsAll stmts)) (name : String)
        (hname : name ∈ sortingNames) : ∀ t ∈ m.scopes.tables, t.Admits name (.int 0) := by
      refine hadmits name _ ?_
      rw [if_pos ⟨hnamed, hname⟩]
      rfl
    refine ⟨fun name v hv => ?_, hsorting⟩
    by_cases hforced : AllNamed (Node.targetsAll stmts) ∧ name ∈ sortingNames
    · -- Written twice, with the same value.
      have hstart : v = .int (programStart name) := by
        unfold missingStarts at hv
        split at hv
        · cases hv
        · exact lookup_targetStarts hv
      rw [hstart, programStart_of_mem name hforced.2]
      exact hsorting hforced.1 name hforced.2
    · refine hadmits name v ?_
      rw [if_neg hforced]
      exact hv
  · rintro ⟨hmissing, hsorting⟩ name v hv
    by_cases hforced : AllNamed (Node.targetsAll stmts) ∧ name ∈ sortingNames
    · rw [if_pos hforced] at hv
      cases hv
      exact hsorting hforced.1 name hforced.2
    · rw [if_neg hforced] at hv
      exact hmissing name v hv

/-- **The chains on which start values overwrite nothing.**

* Looking up a variable that is unbound in the innermost table overwrites its values in the other
  tables, unless they are zero.
* A parallel block starts by writing its start values.  It overwrites the values in the other tables
  of every variable that is unbound in the innermost one, unless they are the start values.
* A program does the same for the variables that it assigns to, and overwrites the variables of the
  sorting program in all tables unless they are zero. -/
theorem start_values_only_add_iff (fuel : Nat) (name : String) (body stmts : List Node)
    (m : Machine) :
    (OnlyAdds m (Outcome.machine (valueOf name m)) ↔ m.scopes.SparesOuter name (.int 0)) ∧
    exec (fuel + 1) (.par body) = (do
      prepareParallel body
      exitOnInterrupt (wrapFaults .inParallel do
        if body.any writesSeriesPrompt then runSeries else runAll (exec fuel) body
        return Value.nothing)) ∧
    (OnlyAdds m (Outcome.machine (prepareParallel body m)) ↔
      ∀ x v, (parallelStarts body).lookup x = some v → m.scopes.SparesOuter x v) ∧
    (OnlyAdds m (Outcome.machine (prepare stmts m)) ↔
      (∀ x v, (targetStarts programStart (Node.targetsAll stmts)).lookup x = some v →
        m.scopes.SparesOuter x v) ∧
      (AllNamed (Node.targetsAll stmts) → ∀ x ∈ sortingNames, ∀ t ∈ m.scopes.tables,
        t.Admits x (.int 0))) :=
  ⟨valueOf_onlyAdds_iff name m, runPar_eq (exec fuel) body,
    bindStarts_onlyAdds_iff (prepareParallel_eq_bindStarts body m), prepare_onlyAdds_iff stmts m⟩

/-- A machine inside a scope of its own, with `x` five outside. -/
def innerMachine : Machine :=
  { (default : Machine) with scopes := (Scopes.empty.put "x" (.int 5)).enter }

/-- The assignment `x = 1`. -/
def assignOne : Node :=
  .assign (.ident none ⟨.ident, "x"⟩ false) (.constant (some "NUMBER") ⟨.number, "1"⟩)

/-- The start value that `PAR { x = 1; }` gives to `x` overwrites the `x` of the scope around it. -/
theorem parallel_overwrites_outer :
    ¬ OnlyAdds innerMachine (Outcome.machine (prepareParallel [assignOne] innerMachine)) := by
  rw [bindStarts_onlyAdds_iff (prepareParallel_eq_bindStarts [assignOne] innerMachine)]
  intro hspares
  have hzero := hspares "x" (.int 0) rfl rfl _ (List.mem_singleton.mpr rfl) (.int 5) rfl
  cases hzero

end SeqPar
