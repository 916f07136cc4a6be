import SeqPar.Proofs.Literals
import SeqPar.Proofs.QuotedLayout

/-!
# Literals that are written

A program that consists of calls of `output`, each with one literal, writes the texts of its
literals, one in a line, and nothing else.  The texts may be anything without a double quote: the
scanner takes a literal from its first quote to the next one, so that no line break, comment,
semicolon, brace or word inside it is seen by any other rule, and the quotes are taken away again
when the literal is written.

The source is scanned as it is, without being brought into standard layout, which would look into
the literals (see `SeqPar.Proofs.QuotedLayout`).  Between the calls there may be blanks and
comments.

## Main definitions

* `Gap` — what may stand behind a call.
* `writingSource` — the source of calls with gaps behind them.

## Main results

* `tokensFrom_writingSource` — the tokens of the source.
* `yields_runStatements_saying` — the run of the calls.
* `writingSource_writes` — **the source writes the texts of its literals, and nothing else.**
-/

namespace SeqPar

open Exec Written Lexeme

/-! ### Scanning -/

/-- What may stand behind a call: nothing, or a separator. -/
def Gap (gap : String) : Prop :=
  gap = "" ∨ Separator gap.toList

/-- The source of calls of `output`: each one with its text and with the gap behind it. -/
def writingSource : List (String × String) → String
  | [] => ""
  | (s, gap) :: calls => Layout.outputOf s ++ (gap ++ writingSource calls)

/-- A call of `output` with the literal of a text. -/
def writing (s : String) : Written.Item :=
  .output (literalOf s) 0

/-- A gap behind a call adds nothing to the tokens. -/
theorem Gap.tokensFrom {gap : String} (h : Gap gap) {before : Option Char}
    (hbefore : isWordAt before = false) (rest : List Char) :
    tokensFrom before (gap.toList ++ rest) = SeqPar.tokensFrom none rest := by
  rcases h with rfl | hsep
  · exact tokensFrom_behind hbefore rest
  · exact tokensFrom_separator hsep before rest

/-- A call is scanned as its five tokens, whatever follows it. -/
theorem tokensFrom_enclosed {s : String} (h : '"' ∉ s.toList) (rest : List Char) :
    tokensFrom none (Layout.enclosed s.toList rest) =
      (writing s).tokens ++ tokensFrom (some ';') rest := by
  have hliteral : String.ofList ('"' :: (s.toList ++ ['"'])) = (quoted s).text := by
    rw [← toList_quoted, String.ofList_toList]
  rw [tokensFrom, Layout.pieces_enclosed h, List.filterMap_append]
  refine congrArg (· ++ tokensFrom (some ';') rest) ?_
  simp only [List.filterMap_cons, List.filterMap_nil, Piece.token?, Piece.tag?, hliteral]
  rfl

/-- **The tokens of the source** are those of its calls. -/
theorem tokensFrom_writingSource {calls : List (String × String)}
    (hquotes : ∀ call ∈ calls, '"' ∉ call.1.toList) (hgaps : ∀ call ∈ calls, Gap call.2) :
    tokensFrom none (writingSource calls).toList =
      programTokens (calls.map fun call => writing call.1) := by
  induction calls with
  | nil => exact tokensFrom_nil none
  | cons call calls ih =>
    obtain ⟨s, gap⟩ := call
    obtain ⟨hquote, hquotes⟩ := List.forall_mem_cons.mp hquotes
    obtain ⟨hgap, hgaps⟩ := List.forall_mem_cons.mp hgaps
    have hsource : (writingSource ((s, gap) :: calls)).toList =
        Layout.enclosed s.toList (gap.toList ++ (writingSource calls).toList) := by
      simp [writingSource, Layout.outputOf, Layout.enclosed, Layout.callFront, Layout.callEnd]
    rw [hsource, tokensFrom_enclosed hquote, hgap.tokensFrom (by decide), ih hquotes hgaps]
    rfl

/-! ### Reading -/

/-- **The source is read** as its calls. -/
theorem programOf_writingSource {calls : List (String × String)} (hne : calls ≠ [])
    (hquotes : ∀ call ∈ calls, '"' ∉ call.1.toList) (hgaps : ∀ call ∈ calls, Gap call.2) :
    programOf (tokens (writingSource calls)) = .ok ((calls.map Prod.fst).map saying) := by
  have htokens : (tokens (writingSource calls)).map Located.token =
      programTokens (calls.map fun call => writing call.1) := by
    rw [map_token_tokens, tokensFrom_writingSource hquotes hgaps]
  have hflat : ∀ item ∈ calls.map fun call => writing call.1, item.toStmt.Flat :=
    List.forall_mem_map.mpr fun _ _ => trivial
  have hnonempty : tokens (writingSource calls) ≠ [] := by
    intro hnil
    cases calls with
    | nil => exact hne rfl
    | cons call calls =>
      rw [hnil] at htokens
      cases htokens
  rw [programOf_of_tokens hflat htokens hnonempty, List.map_map, List.map_map]
  rfl

/-! ### Running -/

/-- A statement of the top level that ends without a fault. -/
theorem Yields.runTopLevel {k : Nat} {n : Node} {v : Value} {s s' : View}
    (h : Yields (exec k n) s v s') : Yields (runTopLevel (exec k) n) s () s' :=
  .recover (h.bind (.pure () s')) _

/-- **The run of the calls** writes their texts, by induction on the calls. -/
theorem yields_runStatements_saying {k : Nat} (texts : List String) (s : View) :
    Yields (runStatements (exec (k + 2)) (texts.map saying)) s ()
      { s with written := withLines s.written texts } := by
  induction texts generalizing s with
  | nil => exact .pure () s
  | cons text texts ih => exact (yields_saying text s).runTopLevel.bind (ih (s.said text))

/-- The calls assign to no variable. -/
theorem targetsAll_saying (texts : List String) : Node.targetsAll (texts.map saying) = [] := by
  induction texts with
  | nil => rfl
  | cons text texts ih => exact ih

/-- **The source writes the texts of its literals, one in a line, and nothing else.**  The texts may
be all those without a double quote, and between the calls there may be blanks and comments.  The
source is read, and the program runs to its end without a fault on every machine whose output is not
interrupted.  The depth of the run may be any that a call fits in. -/
theorem writingSource_writes {calls : List (String × String)} (hne : calls ≠ [])
    (hquotes : ∀ call ∈ calls, '"' ∉ call.1.toList) (hgaps : ∀ call ∈ calls, Gap call.2)
    {depth : Nat} (hdepth : 2 ≤ depth) {m : Machine} (huncut : m.outputsLeft = none) :
    ∃ m', (do
        let stmts ← ofParse (programOf (tokens (writingSource calls)))
        runOrShow (exec depth) true (.program stmts)) m = .ok () m' ∧
      m'.output = withLines m.output (calls.map Prod.fst) := by
  obtain ⟨k, rfl⟩ := Nat.exists_eq_add_of_le' hdepth
  generalize htexts : calls.map Prod.fst = texts
  have hread : programOf (tokens (writingSource calls)) = .ok (texts.map saying) := by
    rw [programOf_writingSource hne hquotes hgaps, htexts]
  have htargets : ∀ target ∈ Node.targetsAll (texts.map saying), target.IsVariable := by
    rw [targetsAll_saying]
    exact List.forall_mem_nil _
  obtain ⟨scopes, hprepare⟩ := exists_prepare htargets m
  let s : View := ⟨m.input, m.output, fun x => scopes.top.get? x⟩
  obtain ⟨m', hrun, hshows⟩ := yields_runStatements_saying (k := k) texts s (m.withScopes scopes)
    ⟨rfl, rfl, fun _ => rfl, huncut⟩
  refine ⟨m', ?_, hshows.written⟩
  rw [hread]
  exact (bind_of_ok _ hprepare).trans hrun

/-- A text with a line break, comment marks, a semicolon, braces and words of the language, the
empty text, and comments behind a call. -/
def markedCalls : List (String × String) :=
  [("SEQ \x7b # /* x = 1;\n\x7d else", ""), ("", " # \"done\"\n/* ; */"), ("*/", "")]

theorem gap_of_mem_markedCalls : ∀ call ∈ markedCalls, Gap call.2 := by
  have hspace : Separator " ".toList := .blank (by decide)
  have hline : Separator "# \"done\"\n".toList :=
    @Separator.lineComment " \"done\"".toList (by decide)
  have hblock : Separator "/* ; */".toList := @Separator.blockComment " ; ".toList (by decide)
  have hcomments : Gap " # \"done\"\n/* ; */" := .inr (.append (.append hspace hline) hblock)
  rw [markedCalls, List.forall_mem_cons, List.forall_mem_cons, List.forall_mem_singleton]
  exact ⟨.inl rfl, hcomments, .inl rfl⟩

theorem markedCalls_written :
    ∃ m', (do
        let stmts ← ofParse (programOf (tokens (writingSource markedCalls)))
        runOrShow (exec depthLimit) true (.program stmts)) (.initial "" false none []) = .ok () m' ∧
      m'.output = "SEQ \x7b # /* x = 1;\n\x7d else\n\n*/\n" :=
  writingSource_writes (List.cons_ne_nil _ _) (by decide) gap_of_mem_markedCalls (by decide) rfl

end SeqPar
