import SeqPar.Proofs.ReadStmt
import SeqPar.Proofs.Relexing
import SeqPar.Proofs.SortingProgram

/-!
# Literals and lines of input

A text comes into a program in two ways: as a line of input, and as a literal.  A line that spells
no number is the value of `input()` as it stands.  A literal is written between double quotes, and
its value keeps them.  So the two values of one text differ, whatever the text is: the literal has
two characters more, and a comparison of the two never holds.  Writing a literal hides the
difference, since `output` takes the quotes away.

This is followed through a whole program that reads a line, compares it with the literal of the same
text and compares the lengths of the two.

## Main definitions

* `literalOf` — the literal of a text.
* `comparing` — the program.

## Main results

* `readFloat?_quoted` — a text in quotes spells no number.
* `relational_quoted`, `length_quoted` — a text against its literal.
* `exists_source` — tokens that are recognised between separators are those of some source.
* `comparing_differs` — **the program finds a line of input and the literal of its text different.**
-/

namespace SeqPar

open Exec Text Number Written
open SeqPar.Parser (reference)

attribute [local instance] decidableForallMem

/-! ### Texts in quotes -/

theorem toList_quoted (s : String) : (quoted s).text.toList = '"' :: (s.toList ++ ['"']) := by
  simp [quoted, String.toList_append]

/-- Nothing is trimmed from a text in quotes. -/
theorem trimNumber_quoted (cs : List Char) :
    trimNumber ('"' :: (cs ++ ['"'])) = '"' :: (cs ++ ['"']) := by
  have hquote : isNumberBlank '"' = false := by decide
  rw [trimNumber, List.dropWhile_cons_of_neg (by simp [hquote])]
  have hreverse : ('"' :: (cs ++ ['"'])).reverse = '"' :: (cs.reverse ++ ['"']) := by simp
  rw [hreverse, List.dropWhile_cons_of_neg (by simp [hquote])]
  simp

/-- A text that starts with a quote is no unsigned number: it is no word for one and has no digit in
front. -/
theorem readUnsigned?_quote (cs : List Char) : readUnsigned? ('"' :: cs) = none := by
  have hdigit : digitValue? '"' = none := by decide
  have hword : ∀ w : List Char, w.head? ≠ some '"' → (lowerAscii ('"' :: cs) == w) = false := by
    intro w hw
    refine beq_false_of_ne ?_
    rintro rfl
    exact hw rfl
  rw [readUnsigned?, hword _ (by decide), hword _ (by decide), hword _ (by decide)]
  show readDecimal? ('"' :: cs) = none
  simp [readDecimal?, takeDigits, hdigit]

/-- **A text in quotes spells no number**, whatever stands between them. -/
theorem readFloat?_quoted (s : String) : readFloat? (quoted s).text = none := by
  rw [readFloat?, toList_quoted, trimNumber_quoted]
  show (readUnsigned? ('"' :: (s.toList ++ ['"']))).map _ = none
  rw [readUnsigned?_quote]
  rfl

theorem compared_of_readFloat? {s : String} (h : readFloat? s = none) :
    (Value.text s).compared = .ok (.text s) := by
  rw [Value.compared, numberOfText, h]
  rfl

theorem stored_of_readFloat? {s : String} (h : readFloat? s = none) :
    (Value.text s).stored = .ok (.text s) := by
  rw [Value.stored, numberOfText, h]
  rfl

theorem readFloat?_of_spelledNumber? {s : String} (h : spelledNumber? s = none) :
    readFloat? s = none := by
  unfold spelledNumber? at h
  cases hint : readInt? s with
  | some n => simp [hint] at h
  | none => simpa [hint] using h

/-- The literal of a text is two characters longer than the text. -/
theorem length_quoted (s : String) : (quoted s).text.length = s.length + 2 := by
  rw [← String.length_toList, toList_quoted]
  simp [String.length_toList]

/-- **A text is never found equal to its literal.** -/
theorem relational_quoted {s : String} (h : readFloat? s = none) :
    relational (mark .eq).text (.text s) (.text (quoted s).text) = .ok false := by
  have hne : (s == (quoted s).text) = false := by
    refine beq_false_of_ne fun heq => ?_
    have hlength := congrArg String.length heq
    rw [length_quoted] at hlength
    omega
  have hrelational : relational (mark .eq).text (.text s) (.text (quoted s).text) =
      .ok ((Value.text s).same (.text (quoted s).text)) := by
    rw [relational, compared_of_readFloat? h, compared_of_readFloat? (readFloat?_quoted s)]
    rfl
  rw [hrelational, Value.same, hne]

/-! ### Sources with given tokens -/

theorem exists_rendered (ws : List (List Char)) : ∃ cs, Rendered ws cs := by
  induction ws with
  | nil => exact ⟨[], .nil⟩
  | cons w ws ih =>
    cases ws with
    | nil => exact ⟨w, .single w⟩
    | cons w' ws =>
      obtain ⟨cs, hcs⟩ := ih
      exact ⟨_, .cons (.blank (c := ' ') (by decide)) hcs⟩

/-- Tokens that are recognised between separators are those of some source. -/
theorem exists_source {ts : List Token} (h : ∀ t ∈ ts, t.Lexed ∧ t.settled = t) :
    ∃ source, (tokens source).map Located.token = ts := by
  obtain ⟨cs, hcs⟩ := exists_rendered (ts.map fun t => t.text.toList)
  refine ⟨String.ofList cs, ?_⟩
  rw [map_token_tokens, String.toList_ofList, tokensFrom_rendered (fun t ht => (h t ht).1) hcs]
  exact (List.map_congr_left fun t ht => (h t ht).2).trans (List.map_id ts)

/-- A literal is recognised if there is no quote inside it. -/
theorem lexed_quoted {s : String} (h : '"' ∉ s.toList) : (quoted s).Lexed := by
  refine ⟨none, (quoted s).text.toList, s.toList.length + 2, ?_, ?_⟩
  · rw [toList_quoted]
    exact Lexeme.lexeme?_quoted h none []
  · rw [List.take_of_length_le]
    rw [String.length_toList, length_quoted, String.length_toList]

/-! ### The program -/

/-- The literal of a text. -/
def literalOf (s : String) : Written.Expr :=
  .literal .string (quoted s).text

/-- A call of `len`. -/
def lengthOf (e : Written.Expr) : Written.Expr :=
  .call "len" [e]

/-- A comparison of two expressions that is reported in one of two texts. -/
def reporting (left right : Written.Expr) (same different : String) : Written.Stmt :=
  .ifElse (.test (.compare .eq left right)) [.output (literalOf same) 0]
    [.output (literalOf different) 0]

/-- Reads a line into a variable, compares it with the literal of a text and compares the lengths of
the two. -/
def comparingBody (s : String) : List Written.Stmt :=
  [.assign "x" (.call "input" []) 0,
    reporting (.var "x") (literalOf s) "same" "different",
    reporting (lengthOf (.var "x")) (lengthOf (literalOf s)) "same length" "different length"]

/-- The program of these statements. -/
def comparing (s : String) : List Written.Item :=
  [.block .seq (comparingBody s)]

/-- A source of the program. -/
def plusSource : String :=
  "SEQ \x7b x = input(); " ++
    "if (x == \"+\") \x7b output(\"same\"); \x7d " ++
    "else \x7b output(\"different\"); \x7d " ++
    "if (len(x) == len(\"+\")) \x7b output(\"same length\"); \x7d " ++
    "else \x7b output(\"different length\"); \x7d \x7d"

theorem tokens_plusSource :
    (tokens plusSource).map Located.token = programTokens (comparing "+") := by
  decide +kernel

/-- The tokens of the program differ from text to text in the literal only. -/
theorem programTokens_comparing (s : String) : programTokens (comparing s) =
    (programTokens (comparing "+")).map fun t => if t = quoted "+" then quoted s else t :=
  rfl

/-- The program can be written down for every text without a quote. -/
theorem exists_source_comparing {s : String} (h : '"' ∉ s.toList) :
    ∃ source, (tokens source).map Located.token = programTokens (comparing s) := by
  refine exists_source ?_
  rw [programTokens_comparing]
  refine List.forall_mem_map.mpr fun t ht => ?_
  have hsettled : ∀ t ∈ programTokens (comparing "+"), t.settled = t := by decide +kernel
  by_cases hliteral : t = quoted "+"
  · rw [if_pos hliteral]
    exact ⟨lexed_quoted h, rfl⟩
  · rw [if_neg hliteral]
    have hmem : t ∈ tokensFrom none plusSource.toList := by
      rw [← map_token_tokens, tokens_plusSource]
      exact ht
    exact ⟨lexed_of_mem_tokensFrom hmem, hsettled t ht⟩

/-! ### Its run -/

/-- A call of `len`. -/
theorem Yields.len {k n : Nat} {type : Option String} {t : Token} {arg : Node} {v : Value}
    {s s' : View} (hname : t.text = "len") (harg : Yields (exec k arg) s v s')
    (hlength : v.length = .ok n) : Yields (exec (k + 1) (.call type t [arg])) s (.int n) s' := by
  have hargs : Yields (evalAll (exec k) [arg]) s [v] s' :=
    harg.bind (.bind (.pure [] s') (.pure [v] s'))
  have hcall : Yields (Builtin.call .len [v]) s' (.int n) s' :=
    .bind (.ofExcept rfl s') (.bind (.ofExcept hlength s') (.pure _ s'))
  have hbuiltin : Yields (callBuiltin (exec k) t.text .len [arg]) s (.int n) s' :=
    .recover (hargs.bind hcall) _
  show Yields (runCall (exec k) t.text [arg]) s _ _
  rw [runCall, hname]
  rw [hname] at hbuiltin
  exact hbuiltin

section Run

variable {k : Nat} {v : View} {s : String} {rest : List String}

/-- A line that spells no number is bound as it stands. -/
theorem yields_readText (hline : v.lines = s :: rest) (hnumber : spelledNumber? s = none)
    (x : String) :
    Yields (exec (k + 2) (reading x)) v (.text s) ((v.took rest).bound x (.text s)) := by
  have hinput : Yields (exec (k + 1) (.call none (named "input") [])) v (decodeText s)
      (v.took rest) := .input rfl hline
  rw [decodeText, hnumber] at hinput
  exact hinput.assign (stored_of_readFloat? (readFloat?_of_spelledNumber? hnumber))

/-- A report says which way the comparison went. -/
theorem yields_reporting {left right : Written.Expr} {a b : Value} {r : Bool}
    (hleft : Yields (exec (k + 1) left.node) v a v)
    (hright : Yields (exec (k + 1) right.node) v b v)
    (h : relational (mark .eq).text a b = .ok r) (same different : String) :
    Yields (exec (k + 3) (reporting left right same different).node) v .nothing
      (v.said (bif r then same else different)) := by
  refine .cond (.relational hleft hright h) ?_
  cases r with
  | true => exact (yields_saying same v).runAll_singleton
  | false => exact (yields_saying different v).runAll_singleton

/-- The view after the program has compared a line with its literal. -/
def View.compared (v : View) (rest : List String) (s : String) : View :=
  (((v.took rest).bound "x" (.text s)).said "different").said "different length"

/-- The statements find the line and the literal different, and of different length. -/
theorem yields_comparingBody (hline : v.lines = s :: rest) (hnumber : spelledNumber? s = none) :
    Yields (exec (k + 5) (.seq (Written.Stmt.nodes (comparingBody s)))) v .nothing
      (v.compared rest s) := by
  have hfloat := readFloat?_of_spelledNumber? hnumber
  have hlengths : relational (mark .eq).text (.int s.length) (.int (quoted s).text.length) =
      .ok false := by
    show Except.ok ((Value.int s.length).same (.int (quoted s).text.length)) = _
    rw [same_int, length_quoted, decide_eq_false (by omega)]
  let w : View := (v.took rest).bound "x" (.text s)
  have htexts : Yields (exec (k + 4) (reporting (.var "x") (literalOf s) "same" "different").node) w
      .nothing (w.said "different") :=
    yields_reporting (.ident rfl) (.constant w) (relational_quoted hfloat) _ _
  have hsizes : Yields (exec (k + 4) (reporting (lengthOf (.var "x")) (lengthOf (literalOf s))
      "same length" "different length").node) (w.said "different") .nothing (v.compared rest s) :=
    yields_reporting (.len rfl (.ident rfl) rfl) (.len rfl (.constant _) rfl) hlengths _ _
  exact .seq ((yields_readText hline hnumber "x").runAll_cons (htexts.runAll_cons
    hsizes.runAll_singleton))

end Run

/-- The statements that are read from the tokens of a written program, on whatever lines they
stand. -/
theorem programOf_of_tokens {items : List Written.Item} (h : ∀ i ∈ items, i.toStmt.Flat)
    {ts : List Located} (hts : ts.map Located.token = programTokens items) (hne : ts ≠ []) :
    programOf ts = .ok (items.map Written.Item.node) := by
  cases ts with
  | nil => exact absurd rfl hne
  | cons t ts =>
    have hlength : (programTokens items).length = (t :: ts).length := by
      rw [← hts, List.length_map]
    have hfuel : 4 * (programTokens items).length + 1 ≤ Parser.fuelFor (t :: ts).length := by
      rw [hlength, Parser.fuelFor]
      omega
    have hread := topLevel_reads h hfuel (t :: ts) [] t.line hts rfl
    rw [List.append_nil] at hread
    exact (resultOn_eq_ok_iff _ _ _ _).mpr ⟨_, hread⟩

/-- Every source of the program is read and passes its check. -/
theorem checkedProgram_comparing {source s : String}
    (h : (tokens source).map Located.token = programTokens (comparing s)) (m : Machine) :
    checkedProgram source m = .ok (.program [.seq (Written.Stmt.nodes (comparingBody s))]) m := by
  have hread : programOf (tokens source) = .ok [.seq (Written.Stmt.nodes (comparingBody s))] := by
    refine programOf_of_tokens ?_ h ?_
    · simp [comparing, comparingBody, reporting, Item.toStmt, Stmt.Flat, Stmt.AllFlat, Stmt.isBlock]
    · intro hnil
      rw [hnil] at h
      cases h
  rw [checkedProgram, hread]
  rfl

/-- Every source of the program, run on a line of input that spells no number, reports that the line
and the literal differ and that their lengths differ. -/
theorem run_comparing {source s : String}
    (hsource : (tokens source).map Located.token = programTokens (comparing s))
    (hnumber : spelledNumber? s = none) {depth : Nat} (hdepth : 5 ≤ depth) {m : Machine}
    {rest : List String} (hinput : m.input = s :: rest) (huncut : m.outputsLeft = none) :
    ∃ m', (do
        let program ← checkedProgram source
        runOrShow (exec depth) true program) m = .ok () m' ∧
      m'.output = withLines m.output ["different", "different length"] := by
  obtain ⟨k, rfl⟩ := Nat.exists_eq_add_of_le' hdepth
  have htargets : ∀ target ∈ Node.targetsAll [.seq (Written.Stmt.nodes (comparingBody s))],
      target.IsVariable := List.forall_mem_singleton.mpr ⟨none, named "x", false, rfl⟩
  obtain ⟨scopes, hprepare⟩ := exists_prepare htargets m
  -- The variables are bound before the first statement runs, and no statement depends on them.
  let m₀ := m.withScopes scopes
  let v : View := ⟨m.input, m.output, fun x => scopes.top.get? x⟩
  obtain ⟨m₁, hbody, hshows⟩ :=
    yields_comparingBody (k := k) (v := v) hinput hnumber m₀ ⟨rfl, rfl, fun _ => rfl, huncut⟩
  refine ⟨m₁, ?_, hshows.written⟩
  have hstatements : runStatements (exec (k + 5)) [.seq (Written.Stmt.nodes (comparingBody s))] m₀ =
      .ok () m₁ := bind_of_ok _ (runTopLevel_of_ok hbody)
  exact (bind_of_ok _ (checkedProgram_comparing hsource m)).trans
    ((bind_of_ok _ hprepare).trans hstatements)

/-- **The program finds a line of input and the literal of its text different.**  For every text
without a quote that spells no number there is a source with the tokens of the program; and every
such source, on every machine whose next line of input is the text and whose output is not
interrupted, is read, checked and run without a fault and reports that the line and the literal
differ and that their lengths differ.  The depth of the run may be any that the statements fit
in. -/
theorem comparing_differs {s : String} (hquote : '"' ∉ s.toList)
    (hnumber : spelledNumber? s = none) :
    (∃ source, (tokens source).map Located.token = programTokens (comparing s)) ∧
    ∀ source, (tokens source).map Located.token = programTokens (comparing s) →
      ∀ (depth : Nat) (m : Machine) (rest : List String), 5 ≤ depth → m.input = s :: rest →
        m.outputsLeft = none →
          ∃ m', (do
              let program ← checkedProgram source
              runOrShow (exec depth) true program) m = .ok () m' ∧
            m'.output = withLines m.output ["different", "different length"] := by
  refine ⟨exists_source_comparing hquote, ?_⟩
  intro source hsource depth m rest hdepth hinput huncut
  exact run_comparing hsource hnumber hdepth hinput huncut

theorem spelledNumber?_plus : spelledNumber? "+" = none := by
  decide +kernel

theorem input_plus : (Machine.initial "+\n" false none []).input = ["+"] := by
  decide +kernel

theorem plus_differs_from_literal :
    ∃ m', (do
        let program ← checkedProgram plusSource
        runOrShow (exec depthLimit) true program) (Machine.initial "+\n" false none []) =
          .ok () m' ∧
      m'.output = withLines "" ["different", "different length"] :=
  (comparing_differs (by decide) spelledNumber?_plus).2 plusSource tokens_plusSource depthLimit _ []
    (by decide) input_plus rfl

/-- The line `+` and the literal of its text are not reported to be the same. -/
theorem plus_not_same_as_literal :
    ¬ ∃ m', (do
        let program ← checkedProgram plusSource
        runOrShow (exec depthLimit) true program) (Machine.initial "+\n" false none []) =
          .ok () m' ∧
      m'.output = withLines "" ["same", "same length"] := by
  have hdepth : 5 ≤ depthLimit := by decide
  obtain ⟨m₁, hrun, hwritten⟩ :=
    run_comparing tokens_plusSource spelledNumber?_plus hdepth input_plus rfl
  rintro ⟨m₂, hrun', hsame⟩
  cases hrun.symm.trans hrun'
  rw [hwritten] at hsame
  exact absurd hsame (by decide)

end SeqPar
