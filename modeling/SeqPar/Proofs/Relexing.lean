import SeqPar.Proofs.Recognition

/-!
# Scanning tokens again

The texts of the tokens of a source, written down one after the other with separators between them,
are a source again.  Scanning that source gives the same tokens.  There is one exception: an
identifier that is spelled like a closed word is only an identifier because of the characters next to
it, as in `1int` or `ifint`.  Between separators it is that word.

## Main definitions

* `Separator` — blanks, comments up to the end of a line, and comments with an end of their own.
* `Rendered ws cs` — the text `cs` is made of the texts `ws` with separators between them.
* `Token.settled` — a token as it is recognised between separators.

## Main results

* `tokensFrom_separator` — a separator adds nothing to the tokens.
* `lexeme?_settled` — a token in front of a separator is recognised again.
* `tokens_of_rendered` — **the rendered tokens of a source are its tokens, settled.**
-/

namespace SeqPar

open Text Lexeme

attribute [local instance] decidableForallMem

/-! ### Separators -/

/-- What may separate tokens. -/
inductive Separator : List Char → Prop
  /-- A blank. -/
  | blank {c : Char} : isBlank c = true → Separator [c]
  /-- A comment with the line feed that ends it. -/
  | lineComment {body : List Char} : '\n' ∉ body → Separator ('#' :: (body ++ ['\n']))
  /-- A comment with an end of its own. -/
  | blockComment {body : List Char} : ¬ ['*', '/'] <:+: body →
      Separator ('/' :: '*' :: (body ++ ['*', '/']))
  /-- One separator after another. -/
  | append {xs ys : List Char} : Separator xs → Separator ys → Separator (xs ++ ys)

/-- Whether a separator may start with a character. -/
def startsSeparator (c : Char) : Bool :=
  isBlank c || c == '#' || c == '/'

theorem Separator.exists_cons {sep : List Char} (h : Separator sep) :
    ∃ c cs, sep = c :: cs ∧ startsSeparator c = true := by
  induction h with
  | @blank c hc => exact ⟨c, [], rfl, by simp [startsSeparator, hc]⟩
  | lineComment _ => exact ⟨'#', _, rfl, rfl⟩
  | blockComment _ => exact ⟨'/', _, rfl, rfl⟩
  | append _ _ ihx _ =>
    obtain ⟨c, cs, rfl, hc⟩ := ihx
    exact ⟨c, _, rfl, hc⟩

/-- The character that a separator starts with belongs to no token before it. -/
theorem isOutside_of_startsSeparator {c : Char} (hc : startsSeparator c = true) :
    IsOutside c ∧ c ≠ '=' ∧ c ≠ '*' := by
  simp only [startsSeparator, Bool.or_eq_true, beq_iff_eq] at hc
  rcases hc with (hblank | rfl) | rfl
  · refine ⟨isOutside_of_isBoundary (isBoundary_of_isBlank hblank), ?_, ?_⟩
    · rintro rfl
      exact absurd hblank (by decide)
    · rintro rfl
      exact absurd hblank (by decide)
  · decide
  · decide

theorem tokensFrom_behind {before : Option Char} (hbefore : isWordAt before = false)
    (cs : List Char) : tokensFrom before cs = tokensFrom none cs := by
  rw [tokensFrom, pieces_behind hbefore]
  rfl

/-- A comment up to the end of a line adds nothing to the tokens. -/
theorem tokensFrom_lineComment {body : List Char} (hbody : '\n' ∉ body) (before : Option Char)
    (rest : List Char) :
    tokensFrom before ('#' :: (body ++ '\n' :: rest)) = tokensFrom none rest := by
  have htake : (body ++ '\n' :: rest).takeWhile (· != '\n') = body :=
    takeWhile_append_eq (fun c hc => bne_iff_ne.mpr (ne_of_mem_of_not_mem hc hbody)) (by simp)
  rw [tokensFrom_lexeme (lexeme?_lineComment before _), htake, Nat.add_sub_cancel_left,
    List.drop_left, tokensFrom_blank (by decide)]
  rfl

/-- The first end of a comment comes after its body. -/
theorem toClosing_append {body : List Char} (hbody : ¬ ['*', '/'] <:+: body) (rest : List Char) :
    toClosing (body ++ '*' :: '/' :: rest) = some (body.length + 2) := by
  induction body with
  | nil => rfl
  | cons c body ih =>
    have hbody' : ¬ ['*', '/'] <:+: body := fun hin => hbody (hin.trans (List.suffix_cons c body).isInfix)
    -- the body does not start with the end of a comment, whatever follows it
    have hstart : ∀ tail, c :: (body ++ '*' :: '/' :: rest) ≠ '*' :: '/' :: tail := by
      intro tail heq
      obtain ⟨rfl, htail⟩ := List.cons.inj heq
      cases body with
      | nil => simp at htail
      | cons d body =>
        obtain rfl : d = '/' := (List.cons.inj htail).1
        exact hbody ⟨[], body, rfl⟩
    rw [List.cons_append, toClosing, ih hbody']
    · rfl
    · intro tail hc htail
      exact hstart tail (by rw [hc, htail])

/-- A comment with an end of its own adds nothing to the tokens. -/
theorem tokensFrom_blockComment {body : List Char} (hbody : ¬ ['*', '/'] <:+: body)
    (before : Option Char) (rest : List Char) :
    tokensFrom before ('/' :: '*' :: (body ++ '*' :: '/' :: rest)) = tokensFrom none rest := by
  have hsplit : '*' :: (body ++ '*' :: '/' :: rest) = ('*' :: (body ++ ['*', '/'])) ++ rest := by
    simp
  have hlength : body.length + 2 + 2 - 1 = ('*' :: (body ++ ['*', '/'])).length := by
    simp
  rw [tokensFrom_lexeme (lexeme?_blockComment before (toClosing_append hbody rest)), hlength, hsplit,
    List.drop_left, List.take_left]
  have hlast : ('/' :: '*' :: (body ++ ['*', '/'])).getLast? = some '/' := by
    simp [List.getLast?_append, List.getLast?_cons]
  rw [hlast, tokensFrom_behind (by decide)]
  rfl

/-- **A separator adds nothing to the tokens.** -/
theorem tokensFrom_separator {sep : List Char} (h : Separator sep) (before : Option Char)
    (rest : List Char) : tokensFrom before (sep ++ rest) = tokensFrom none rest := by
  induction h generalizing before rest with
  | blank hc => exact tokensFrom_blank hc rest
  | lineComment hbody => simpa using tokensFrom_lineComment hbody before rest
  | blockComment hbody => simpa using tokensFrom_blockComment hbody before rest
  | append _ _ ihx ihy => rw [List.append_assoc, ihx, ihy]

/-! ### Tokens in front of separators -/

/-- A token as it is recognised between separators: an identifier that is spelled like a closed word
is that word. -/
def Token.settled (t : Token) : Token :=
  if t.tag = .ident then ⟨(closedWords.lookup t.text).getD .ident, t.text⟩ else t

theorem Token.text_settled (t : Token) : t.settled.text = t.text := by
  rw [settled]
  split
  · rfl
  · rfl

/-- A token that scanning some text gives. -/
def Token.Lexed (t : Token) : Prop :=
  ∃ before cs length, lexeme? before cs = some (.token t.tag, length) ∧
    t.text.toList = cs.take length

/-- What may follow a token: nothing, or the start of a separator. -/
def AtSeparator (rest : List Char) : Prop :=
  ∀ c ∈ rest.head?, startsSeparator c = true

theorem AtSeparator.isWordAt {rest : List Char} (h : AtSeparator rest) :
    isWordAt rest.head? = false := by
  cases hhead : rest.head? with
  | none => rfl
  | some c => exact (isOutside_of_startsSeparator (h c hhead)).1.1

/-- The tags of fixed texts are not that of identifiers. -/
theorem tag_ne_ident {s : String} {tag : Tag}
    (h : (s, tag) ∈ closedWords ++ (openWords ++ operators)) : tag ≠ .ident := by
  have hall : ∀ p ∈ closedWords ++ (openWords ++ operators), p.2 ≠ Tag.ident := by decide
  exact hall _ h

/-- A token that scanning gives and that starts with an open word has the tag of the word: the word is
recognised wherever it stands. -/
theorem Token.Lexed.tag_eq_of_openWord {t : Token} (ht : t.Lexed) {s : String} {tag : Tag}
    (hs : (s, tag) ∈ openWords) (hstarts : s.toList <+: t.text.toList) : t.tag = tag := by
  obtain ⟨more, hmore⟩ := hstarts
  obtain ⟨before, cs, length, hfound, htext⟩ := ht
  have hcs : cs = s.toList ++ (more ++ cs.drop length) := by
    rw [← List.append_assoc, hmore, htext, List.take_append_drop]
  rw [hcs, lexeme?_openWord hs, Option.some.injEq, Prod.mk.injEq] at hfound
  exact (Kind.token.inj hfound.1).symm

/-- An identifier that scanning gives starts with no open word. -/
theorem Token.Lexed.not_openWord_of_ident {t : Token} (ht : t.Lexed) (htag : t.tag = .ident) :
    ∀ s tag, (s, tag) ∈ openWords → ¬ s.toList <+: t.text.toList := by
  intro s tag hs hstarts
  have hident : tag = .ident := (ht.tag_eq_of_openWord hs hstarts).symm.trans htag
  exact tag_ne_ident (List.mem_append_right _ (List.mem_append_left _ hs)) hident

/-- **A token in front of a separator is recognised again**, settled. -/
theorem lexeme?_settled {t : Token} (ht : t.Lexed) {before : Option Char} {rest : List Char}
    (hbefore : isWordAt before = false) (hrest : AtSeparator rest) :
    lexeme? before (t.text.toList ++ rest) = some (.token t.settled.tag, t.text.length) := by
  have hopen := ht.not_openWord_of_ident
  obtain ⟨before', cs, length, hfound, htext⟩ := ht
  rw [← String.length_toList]
  have hrecognised := recognised_of_lexeme? hfound
  -- a fixed text settles as it is
  have hfixed : ∀ {s : String} {tail : List Char}, cs = s.toList ++ tail → length = s.length →
      (s, t.tag) ∈ closedWords ++ (openWords ++ operators) →
      t.text.toList = s.toList ∧ t.settled.tag = t.tag := by
    intro s tail hcs hlength hs
    constructor
    · rw [htext, hcs, hlength, ← String.length_toList, List.take_left]
    · rw [Token.settled, if_neg (tag_ne_ident hs)]
  generalize hkind : Kind.token t.tag = kind at hrecognised
  cases hrecognised with
  | @closedWord s tag tail hs hcs _ _ =>
    obtain rfl := Kind.token.inj hkind
    obtain ⟨hsame, htag⟩ := hfixed hcs rfl (List.mem_append_left _ hs)
    rw [hsame, htag, String.length_toList]
    exact lexeme?_closedWord hs hbefore hrest.isWordAt
  | @openWord s tag tail hs hcs =>
    obtain rfl := Kind.token.inj hkind
    obtain ⟨hsame, htag⟩ :=
      hfixed hcs rfl (List.mem_append_right _ (List.mem_append_left _ hs))
    rw [hsame, htag, String.length_toList]
    exact lexeme?_openWord hs before rest
  | @operator s tag tail hs hcs =>
    obtain rfl := Kind.token.inj hkind
    obtain ⟨hsame, htag⟩ :=
      hfixed hcs rfl (List.mem_append_right _ (List.mem_append_right _ hs))
    rw [hsame, htag, String.length_toList]
    rcases List.mem_append.mp hs with hfirm | hsoft
    · exact lexeme?_firmOperator hfirm before rest
    · refine lexeme?_softOperator hsoft before fun c hc => ?_
      exact (isOutside_of_startsSeparator (hrest c hc)).2
  | @ident w tail hw _ hcs =>
    have htag : t.tag = .ident := Kind.token.inj hkind
    have hsame : t.text.toList = w := by rw [htext, hcs, List.take_left]
    have hsettled : t.settled.tag = (closedWords.lookup (String.ofList w)).getD .ident := by
      rw [Token.settled, if_pos htag, ← hsame, String.ofList_toList]
    rw [hsame, hsettled]
    exact lexeme?_name hw hbefore hrest.isWordAt (hsame ▸ hopen htag)
  | @number w tail hne hw _ hcs =>
    have htag : t.tag = .number := Kind.token.inj hkind
    have hsame : t.text.toList = w := by rw [htext, hcs, List.take_left]
    rw [hsame, Token.settled, htag, if_neg (by decide), htag]
    refine lexeme?_number hne hw (fun c hc => ?_) before
    exact (isOutside_of_startsSeparator (hrest c hc)).1.2.2.2
  | @string body tail hbody hcs =>
    have htag : t.tag = .string := Kind.token.inj hkind
    have hsame : t.text.toList = '"' :: (body ++ ['"']) := by
      have hsplit : cs = ('"' :: (body ++ ['"'])) ++ tail := by rw [hcs]; simp
      have hlength : body.length + 2 = ('"' :: (body ++ ['"'])).length := by simp
      rw [htext, hsplit, hlength, List.take_left]
    rw [hsame, Token.settled, htag, if_neg (by decide), htag]
    simpa using lexeme?_quoted hbody before rest
  | blank _ _ => cases hkind
  | lineComment _ => cases hkind
  | blockComment _ => cases hkind

/-! ### Rendered tokens -/

/-- The text `cs` is made of the texts `ws` with separators between them. -/
inductive Rendered : List (List Char) → List Char → Prop
  /-- No texts. -/
  | nil : Rendered [] []
  /-- A single text. -/
  | single (w : List Char) : Rendered [w] w
  /-- A text, a separator, and more texts. -/
  | cons {w w' sep cs : List Char} {ws : List (List Char)} : Separator sep →
      Rendered (w' :: ws) cs → Rendered (w :: w' :: ws) (w ++ (sep ++ cs))

/-- The tokens that scanning gives. -/
theorem lexed_of_mem_tokensFrom {before : Option Char} {cs : List Char} {t : Token}
    (h : t ∈ tokensFrom before cs) : t.Lexed := by
  induction before, cs using pieces_induction with
  | nil before => simp at h
  | cons before p rest hfirst ih =>
    rw [tokensFrom, hfirst.pieces_eq, List.mem_filterMap] at h
    obtain ⟨q, hq, htoken⟩ := h
    rcases List.mem_cons.mp hq with rfl | hlater
    · obtain ⟨hkind, htext⟩ := Piece.token?_eq_some_iff.mp htoken
      refine ⟨before, q.text ++ rest, q.text.length, ?_, ?_⟩
      · rw [hfirst.lexeme, hkind]
        rfl
      · rw [List.take_left, htext]
    · exact ih (List.mem_filterMap.mpr ⟨q, hlater, htoken⟩)

theorem lexed_of_mem_tokens {source : String} {t : Located} (ht : t ∈ tokens source) :
    t.token.Lexed := by
  have hmem : t.token ∈ (tokens source).map Located.token := List.mem_map_of_mem ht
  rw [map_token_tokens] at hmem
  exact lexed_of_mem_tokensFrom hmem

theorem Token.Lexed.text_ne_nil {t : Token} (ht : t.Lexed) : t.text.toList ≠ [] := by
  obtain ⟨before, cs, length, hfound, htext⟩ := ht
  have hpos := lexeme?_pos hfound
  have hle := lexeme?_le hfound
  rw [htext, ← List.length_pos_iff, List.length_take]
  omega

/-- A token in front of a separator is scanned again. -/
theorem tokensFrom_lexed {t : Token} (ht : t.Lexed) {before : Option Char} {rest : List Char}
    (hbefore : isWordAt before = false) (hrest : AtSeparator rest) :
    tokensFrom before (t.text.toList ++ rest) =
      t.settled :: tokensFrom t.text.toList.getLast? rest := by
  have hlexeme := lexeme?_settled ht hbefore hrest
  rw [← String.length_toList] at hlexeme
  have htoken : Piece.token? ⟨some (.token t.settled.tag), t.text.toList⟩ = some t.settled := by
    rw [Piece.token?_eq_some_iff, t.text_settled]
    exact ⟨rfl, rfl⟩
  rw [tokensFrom, pieces_append ht.text_ne_nil hlexeme, List.filterMap_cons_some htoken]
  rfl

/-- The tokens of rendered tokens. -/
theorem tokensFrom_rendered {ts : List Token} (hts : ∀ t ∈ ts, t.Lexed) {cs : List Char}
    (h : Rendered (ts.map fun t => t.text.toList) cs) :
    tokensFrom none cs = ts.map Token.settled := by
  generalize hws : ts.map (fun t => t.text.toList) = ws at h
  induction h generalizing ts with
  | nil =>
    rw [List.map_eq_nil_iff.mp hws]
    simp
  | single w =>
    obtain ⟨t, rfl, rfl⟩ := List.map_eq_singleton_iff.mp hws
    have ht : t.Lexed := hts t (by simp)
    have hone := @tokensFrom_lexed t ht none [] rfl (by simp [AtSeparator])
    rw [List.append_nil, tokensFrom_nil] at hone
    exact hone
  | @cons w w' sep cs ws hsep _ ih =>
    obtain ⟨t, ts, rfl, rfl, htail⟩ := List.map_eq_cons_iff.mp hws
    rw [List.forall_mem_cons] at hts
    have hsep' : AtSeparator (sep ++ cs) := by
      obtain ⟨c, tail, rfl, hc⟩ := hsep.exists_cons
      intro d hd
      obtain rfl : c = d := by simpa using hd
      exact hc
    rw [tokensFrom_lexed hts.1 rfl hsep', tokensFrom_separator hsep, ih hts.2 htail, List.map_cons]

/-- **The rendered tokens of a source are its tokens, settled.** -/
theorem tokens_of_rendered {source text : String}
    (h : Rendered ((tokens source).map fun t => t.token.text.toList) text.toList) :
    (tokens text).map Located.token = ((tokens source).map Located.token).map Token.settled := by
  have hts : ∀ t ∈ (tokens source).map Located.token, t.Lexed := by
    intro t ht
    rw [map_token_tokens] at ht
    exact lexed_of_mem_tokensFrom ht
  rw [map_token_tokens text]
  refine tokensFrom_rendered hts ?_
  rwa [List.map_map]

/-- The word `int` stands next to a digit in the first text and between separators in the second. -/
theorem tokens_of_rendered_sample :
    Rendered ((tokens "1int/ifx=\"a b\"").map fun t => t.token.text.toList)
        "1 int/*/ *//#*/\nif\t x\n=/**/\"a b\"".toList ∧
      (tokens "1 int/*/ *//#*/\nif\t x\n=/**/\"a b\"").map Located.token =
        ((tokens "1int/ifx=\"a b\"").map Located.token).map Token.settled := by
  have htexts : ((tokens "1int/ifx=\"a b\"").map fun t => t.token.text.toList) =
      ["1".toList, "int".toList, "/".toList, "if".toList, "x".toList, "=".toList,
        "\"a b\"".toList] := by
    decide +kernel
  have hspace : Separator " ".toList := .blank (by decide)
  have hblock : Separator "/*/ */".toList := @Separator.blockComment "/ ".toList (by decide)
  have hline : Separator "#*/\n".toList := @Separator.lineComment "*/".toList (by decide)
  have hblanks : Separator "\t ".toList := .append (.blank (by decide)) (.blank (by decide))
  have hfeed : Separator "\n".toList := .blank (by decide)
  have hempty : Separator "/**/".toList := @Separator.blockComment [] (by decide)
  have hrendered : Rendered ((tokens "1int/ifx=\"a b\"").map fun t => t.token.text.toList)
      "1 int/*/ *//#*/\nif\t x\n=/**/\"a b\"".toList := by
    rw [htexts]
    exact .cons hspace (.cons hblock (.cons hline (.cons hblanks (.cons hfeed (.cons hempty
      (.single _))))))
  exact ⟨hrendered, tokens_of_rendered hrendered⟩

end SeqPar
