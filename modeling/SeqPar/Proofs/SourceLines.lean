import SeqPar.Proofs.Boundaries
import SeqPar.Proofs.ReadTrees

/-!
# The lines of a source

The scanner counts lines in steps: the line feeds of a token or of layout behind it, and those of
stray characters when the next lexeme is found.  The line of a token is nevertheless what it should
be: one more than the number of line feeds in the source in front of it.  At the end of the source
nothing counts the stray characters behind the last lexeme, but no line feed is among them, since a
line feed is a blank and always belongs to a lexeme.

A fault of syntax is reported on a line too: that of the lookahead, or of the last token when all
tokens are read.

## Main definitions

* `textOf` — the text that pieces form.
* `lineAt` — the line of a position in a text.
* `placed` — the tokens among pieces, each with the position where it starts.

## Main results

* `textOf_pieces` — the pieces of a text form the text.
* `Scanner.here_pass`, `Scanner.here_foldl_pass` — **no line feed is missed or counted twice**, by one
  piece and by any number of them.
* `tokens_eq_placed` — **every token stands on the line of its first character.**
* `scan_line` — the counter at the end of a source is the line of its end.
* `lines_exact` — **the lines of tokens, of the end and of faults are those of the source.**
-/

namespace SeqPar

open Text Lexeme

/-! ### Pieces and the text that they form -/

/-- The text that pieces form. -/
def textOf (ps : List Piece) : List Char :=
  ps.flatMap Piece.text

theorem textOf_cons (p : Piece) (ps : List Piece) : textOf (p :: ps) = p.text ++ textOf ps :=
  rfl

/-- **The pieces of a text form the text.** -/
theorem textOf_pieces (before : Option Char) (cs : List Char) : textOf (pieces before cs) = cs := by
  fun_induction pieces before cs with
  | case1 => rfl
  | case2 before c cs hnone ih => rw [textOf_cons, ih, List.singleton_append]
  | case3 before c cs kind length hfound text ih =>
    rw [textOf_cons, ih, List.cons_append, List.take_append_drop]

/-- No line feed is a stray character. -/
theorem lineFeed_not_mem_of_stray {before : Option Char} {cs : List Char} {p : Piece}
    (hp : p ∈ pieces before cs) (hstray : p.kind = none) : '\n' ∉ p.text := by
  fun_induction pieces before cs with
  | case1 => cases hp
  | case2 before c cs hnone ih =>
    rcases List.mem_cons.mp hp with rfl | hp
    · rw [List.mem_singleton]
      rintro rfl
      -- a line feed is a blank, so it would have been layout
      rw [lexeme?_blank (by decide)] at hnone
      cases hnone
    · exact ih hp
  | case3 before c cs kind length hfound text ih =>
    rcases List.mem_cons.mp hp with rfl | hp
    · cases hstray
    · exact ih hp

/-! ### Counting -/

@[simp] theorem lineFeeds_append (cs ds : List Char) :
    lineFeeds (cs ++ ds) = lineFeeds cs + lineFeeds ds :=
  List.count_append

/-- The line of a position in a text: one more than the number of line feeds in front of it. -/
def lineAt (cs : List Char) (position : Nat) : Nat :=
  1 + lineFeeds (cs.take position)

theorem lineAt_length_append (front rest : List Char) :
    lineAt (front ++ rest) front.length = 1 + lineFeeds front := by
  rw [lineAt, List.take_left]

namespace Scanner

/-- The line feeds of a piece are counted once, whatever the piece is. -/
theorem here_pass (s : Scanner) (p : Piece) : (s.pass p).here = s.here + lineFeeds p.text := by
  rw [pass]
  split
  · exact (Nat.add_assoc s.line s.skipped _).symm
  · rfl

/-- **No line feed is missed or counted twice**, by induction on the pieces. -/
theorem here_foldl_pass (s : Scanner) (ps : List Piece) :
    (ps.foldl pass s).here = s.here + lineFeeds (textOf ps) := by
  induction ps generalizing s with
  | nil => rfl
  | cons p ps ih =>
    rw [List.foldl_cons, ih, here_pass, textOf_cons, lineFeeds_append, Nat.add_assoc]

/-- A piece leaves nothing to be counted later, unless stray line feeds are in it. -/
theorem skipped_pass {s : Scanner} {p : Piece} (hs : s.skipped = 0)
    (hp : p.kind = none → '\n' ∉ p.text) : (s.pass p).skipped = 0 := by
  rw [pass]
  split
  · next hstray =>
    have hfeeds : lineFeeds p.text = 0 :=
      List.count_eq_zero.mpr (hp (Option.isNone_iff_eq_none.mp hstray))
    show s.skipped + lineFeeds p.text = 0
    rw [hs, hfeeds]
  · rfl

theorem skipped_foldl_pass {s : Scanner} {ps : List Piece} (hs : s.skipped = 0)
    (hps : ∀ p ∈ ps, p.kind = none → '\n' ∉ p.text) : (ps.foldl pass s).skipped = 0 := by
  induction ps generalizing s with
  | nil => exact hs
  | cons p ps ih =>
    obtain ⟨hp, hps⟩ := List.forall_mem_cons.mp hps
    exact ih (skipped_pass hs hp) hps

end Scanner

/-- **The counter at the end of a source is the line of its end.** -/
theorem scan_line (source : String) : (scan source).line = 1 + lineFeeds source.toList := by
  have hskipped : ((pieces none source.toList).foldl Scanner.pass .start).skipped = 0 :=
    Scanner.skipped_foldl_pass rfl fun p hp => lineFeed_not_mem_of_stray hp
  have hhere := Scanner.here_foldl_pass .start (pieces none source.toList)
  rw [Scanner.here, hskipped, textOf_pieces] at hhere
  exact hhere

/-! ### The lines of tokens -/

/-- The tokens among pieces, each with the position of its first character; the first piece starts at
`start`. -/
def placed (start : Nat) : List Piece → List (Nat × Token)
  | [] => []
  | p :: ps => (p.token?.map (Prod.mk start)).toList ++ placed (start + p.text.length) ps

/-- The tokens of pieces are found where they are placed. -/
theorem prefix_drop_of_mem_placed (front : List Char) {ps : List Piece} {position : Nat} {t : Token}
    (h : (position, t) ∈ placed front.length ps) :
    t.text.toList <+: (front ++ textOf ps).drop position := by
  induction ps generalizing front with
  | nil => cases h
  | cons p ps ih =>
    rcases List.mem_append.mp h with hhere | hlater
    · obtain ⟨u, hu, heq⟩ := Option.map_eq_some_iff.mp (Option.mem_toList.mp hhere)
      cases heq
      obtain ⟨tag, -, rfl⟩ := Option.map_eq_some_iff.mp hu
      rw [List.drop_left, String.toList_ofList, textOf_cons]
      exact List.prefix_append ..
    · -- a later token is placed behind a longer front
      rw [← List.length_append] at hlater
      have hfound := ih _ hlater
      rwa [List.append_assoc] at hfound

/-- The scanner gives every token the line of its first character, by induction on the pieces; the
text `front` is behind the scanner. -/
theorem locate_eq_placed (front : List Char) {s : Scanner} (hs : s.here = 1 + lineFeeds front)
    (ps : List Piece) : locate s ps = (placed front.length ps).map fun q =>
      ⟨q.2, lineAt (front ++ textOf ps) q.1⟩ := by
  induction ps generalizing s front with
  | nil => rfl
  | cons p ps ih =>
    have hnext : (s.pass p).here = 1 + lineFeeds (front ++ p.text) := by
      rw [Scanner.here_pass, hs, lineFeeds_append, Nat.add_assoc]
    -- the rest is located behind a longer front, in the same text
    have hrest := ih _ hnext
    rw [List.append_assoc, List.length_append] at hrest
    have hline : lineAt (front ++ (p.text ++ textOf ps)) front.length = s.here := by
      rw [lineAt_length_append, hs]
    rw [locate, placed, List.map_append, textOf_cons, ← hrest, Piece.token?]
    cases p.tag? with
    | none => rfl
    | some tag => simp [hline]

/-- **Every token stands on the line of its first character.** -/
theorem tokens_eq_placed (source : String) :
    tokens source = (placed 0 (pieces none source.toList)).map fun q =>
      ⟨q.2, lineAt source.toList q.1⟩ := by
  have hlocate := locate_eq_placed [] (s := .start) rfl (pieces none source.toList)
  rwa [List.nil_append, textOf_pieces] at hlocate

/-! ### The lines of faults -/

theorem map_line_getLast? (t : Located) (ts : List Located) :
    (t :: ts).getLast?.map Located.line = some (lastLine t.line ts) := by
  induction ts generalizing t with
  | nil => rfl
  | cons u ts ih => exact ih u

/-- The line of a place is that of the lookahead, or of the last of all tokens. -/
theorem Cursor.Reaches.map_line {t : Located} {ts : List Located} {d : Cursor}
    (h : Cursor.Reaches ⟨t :: ts, t.line⟩ d) :
    (d.ahead.head?.or (t :: ts).getLast?).map Located.line = some d.line := by
  obtain ⟨us, hahead, hpassed⟩ := h
  obtain ⟨ahead, passed⟩ := d
  cases ahead with
  | nil =>
    -- all tokens were passed over, so the line that is kept is that of the last
    obtain rfl : t :: ts = us := hahead.trans (List.append_nil us)
    rw [List.head?_nil, Option.none_or, map_line_getLast?]
    exact congrArg some hpassed.symm
  | cons u rest => rfl

/-- A fault of syntax at a place among the tokens `ts` is reported on the line of the lookahead, or of
the last token at the end of the input. -/
def ReportedAt (ts : List Located) (d : Cursor) (fault : Fault) : Prop :=
  ∃ line text, fault.message = syntaxText line text ∧
    (d.ahead.head?.or ts.getLast?).map Located.line = some line

/-- **The lines of a source are exact.**  The pieces of the source form it, and each of its tokens is
found at the position where it is placed and carries the line of that position; the counter at the
end is the line of the end; and a fault of syntax is reported on the line of the lookahead, or of the
last token at the end of the input. -/
theorem lines_exact (source : String) :
    textOf (pieces none source.toList) = source.toList ∧
    tokens source = (placed 0 (pieces none source.toList)).map
      (fun q => ⟨q.2, lineAt source.toList q.1⟩) ∧
    (∀ position t, (position, t) ∈ placed 0 (pieces none source.toList) →
      t.text.toList <+: source.toList.drop position) ∧
    (scan source).line = 1 + lineFeeds source.toList ∧
    ∀ fault d, Parser.runOn Parser.program (tokens source) = .ok (.error (.fault fault) d) →
      fault.kind = .syntactic → d.ahead <:+ tokens source ∧ ReportedAt (tokens source) d fault := by
  refine ⟨textOf_pieces _ _, tokens_eq_placed source, ?_, scan_line source, ?_⟩
  · intro position t hplaced
    have hfound := prefix_drop_of_mem_placed [] hplaced
    rwa [List.nil_append, textOf_pieces] at hfound
  · intro fault d hrun hkind
    cases hts : tokens source with
    | nil =>
      rw [hts] at hrun
      cases hrun
    | cons t ts =>
      rw [hts] at hrun
      obtain ⟨hfault, hreaches⟩ := Parser.isAt_of_program hrun
      obtain ⟨text, hmessage⟩ := hfault hkind
      exact ⟨hreaches.suffix, d.line, text, hmessage, hreaches.map_line⟩

/-- A source whose third line starts with a sign that starts no statement. -/
def straySignSource : String :=
  "SEQ \x7b\n x = 1; # one\n + \x7d\n"

/-- A source that ends, some lines after its last token, where a name is missing. -/
def missingNameSource : String :=
  "SEQ \x7b\n string\n\n"

/-- The tokens of the third line. -/
def straySign : List Located :=
  [⟨⟨.plus, "+"⟩, 3⟩, ⟨⟨.rbrace, "\x7d"⟩, 3⟩]

theorem tokens_straySignSource :
    tokens straySignSource = [⟨⟨.seq, "SEQ"⟩, 1⟩, ⟨⟨.lbrace, "\x7b"⟩, 1⟩, ⟨⟨.ident, "x"⟩, 2⟩,
      ⟨⟨.assign, "="⟩, 2⟩, ⟨⟨.number, "1"⟩, 2⟩, ⟨⟨.semicolon, ";"⟩, 2⟩] ++ straySign := by
  decide +kernel

theorem tokens_missingNameSource :
    tokens missingNameSource =
      [⟨⟨.seq, "SEQ"⟩, 1⟩, ⟨⟨.lbrace, "\x7b"⟩, 1⟩, ⟨⟨.stringType, "string"⟩, 2⟩] := by
  decide +kernel

/-- The sign is reported on its own line, and the missing name on the line of the last token. -/
theorem straySign_and_missingName_reported :
    (Parser.runOn Parser.program (tokens straySignSource) =
        .ok (.error (.fault (.invalidStatement 3 "+")) ⟨straySign, 2⟩) ∧
      ReportedAt (tokens straySignSource) ⟨straySign, 2⟩ (.invalidStatement 3 "+")) ∧
    Parser.runOn Parser.program (tokens missingNameSource) =
        .ok (.error (.fault (.expectedName 2)) ⟨[], 2⟩) ∧
      ReportedAt (tokens missingNameSource) ⟨[], 2⟩ (.expectedName 2) := by
  have hsign : Parser.runOn Parser.program (tokens straySignSource) =
      .ok (.error (.fault (.invalidStatement 3 "+")) ⟨straySign, 2⟩) := by
    rw [tokens_straySignSource]
    rfl
  have hname : Parser.runOn Parser.program (tokens missingNameSource) =
      .ok (.error (.fault (.expectedName 2)) ⟨[], 2⟩) := by
    rw [tokens_missingNameSource]
    rfl
  obtain ⟨-, -, -, -, hreported⟩ := lines_exact straySignSource
  obtain ⟨-, -, -, -, hreported'⟩ := lines_exact missingNameSource
  exact ⟨⟨hsign, (hreported _ _ hsign rfl).2⟩, hname, (hreported' _ _ hname rfl).2⟩

end SeqPar
