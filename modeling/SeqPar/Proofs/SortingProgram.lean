import SeqPar.CommandLine
import SeqPar.Proofs.TopLevel
import SeqPar.Proofs.WholeExpressions
import SeqPar.Proofs.WholeTexts

/-!
# The sorting program and its shortcut

One of the showcase programs reads three numbers, shows them, and then shows the least, the middle
one and the greatest of them.  It is written in the language itself, and it has a shortcut that runs
in its place when it is recognised.  The two agree: on three lines that spell whole numbers the
program, brought into standard layout, scanned, read, checked and run like every other, writes the
same text as the shortcut, and it ends without a fault.

The source is a fixed text, so that its layout, its tokens and its tree are computed.  Its run is
followed statement by statement for all numbers, through the views of the machine; so is the run of
the shortcut.  Both come to the same dialogue.  That every number can be shown is due to the limit
on the digits of a number that is read, which is the limit on those that are shown too.

## Main definitions

* `sortingSource`, `sortingTokens`, `sortingBody` — the program, as a text, as tokens and as a tree.
* `dialogue` — the lines that are written for three numbers.

## Main results

* `exceedsDigitLimit_of_readInt` — a number that is read can be shown.
* `yields_sortThree` — the dialogue of the shortcut.
* `yields_sortingBody` — the dialogue of the tree.
* `standardise_sortingSource`, `tokens_sortingSource`, `programOf_sortingTokens` — from the text to
  the tree.
* `sortingSource_agrees` — **the program writes what its shortcut writes.**
-/

namespace SeqPar

open Exec Written
open SeqPar.Parser (reference)

/-! ### Numbers that are read can be shown -/

namespace Number

/-- **A whole number that is read can be shown**: its digits are not too many. -/
theorem exceedsDigitLimit_of_readInt {s : String} {n : Int} (h : readInt s = .value n) :
    exceedsDigitLimit n = false := by
  unfold readInt at h
  generalize takeSign (trimNumber s.toList) = signed at h
  obtain ⟨negative, body⟩ := signed
  have hdigits := lt_ten_of_mem_takeDigits body
  dsimp only at h
  split at h
  · cases h
  · cases h
  · next ds rest _ _ htaken =>
    rw [htaken] at hdigits
    have hvalue : ofDigits ds < powTen ds.length := ofDigits_lt hdigits
    split at h
    · cases h
    · next hlimit =>
      have hle : powTen ds.length ≤ powTen intDigitLimit := powTen_le (Nat.le_of_not_lt hlimit)
      have habs : ∀ {k : Int}, k.natAbs = ofDigits ds → exceedsDigitLimit k = false := by
        intro k hk
        rw [exceedsDigitLimit, hk]
        exact decide_eq_false (Nat.not_le_of_lt (Nat.lt_of_lt_of_le hvalue hle))
      split at h
      · cases h
        cases negative with
        | false => exact habs (Int.natAbs_natCast _)
        | true => exact habs ((Int.natAbs_neg _).trans (Int.natAbs_natCast _))
      · cases h

end Number

theorem tooLong_of_intOfText {line : String} {n : Int} (h : intOfText line = .ok n) :
    (Value.int n).tooLong = false := by
  unfold intOfText at h
  split at h
  · next hread =>
    cases h
    exact Number.exceedsDigitLimit_of_readInt hread
  · cases h
  · cases h

/-- A line that spells a whole number stands for it. -/
theorem spelledNumber?_of_intOfText {line : String} {n : Int} (h : intOfText line = .ok n) :
    spelledNumber? line = some (.int n) := by
  unfold intOfText at h
  split at h
  · next hread =>
    cases h
    rw [spelledNumber?, Number.readInt?, hread]
  · cases h
  · cases h

theorem decodeText_of_intOfText {line : String} {n : Int} (h : intOfText line = .ok n) :
    decodeText line = .int n := by
  rw [decodeText, spelledNumber?_of_intOfText h]

/-! ### Comparisons of whole numbers -/

theorem relational_lte (a b : Int) :
    relational (mark .lte).text (.int a) (.int b) = .ok (decide (a ≤ b)) :=
  relational_int a b .lte

theorem relational_gte (a b : Int) :
    relational (mark .gte).text (.int a) (.int b) = .ok (decide (b ≤ a)) :=
  relational_int a b .gte

theorem relational_neq (a b : Int) :
    relational (mark .neq).text (.int a) (.int b) = .ok (!decide (a = b)) :=
  relational_int a b .neq

theorem atMost_int (a b : Int) : atMost (.int a) (.int b) = decide (a ≤ b) := by
  rw [atMost, compare_int]
  rfl

/-! ### The dialogue -/

/-- The first of three numbers if the first condition holds, the second if the second one does, and
the third otherwise. -/
def pick (x y : Bool) (a b c : Int) : Int :=
  if x then a else if y then b else c

/-- The least of three numbers. -/
def lowest (a b c : Int) : Int :=
  pick (decide (a ≤ b) && decide (a ≤ c)) (decide (b ≤ a) && decide (b ≤ c)) a b c

/-- The greatest of three numbers. -/
def highest (a b c : Int) : Int :=
  pick (decide (b ≤ a) && decide (c ≤ a)) (decide (a ≤ b) && decide (c ≤ b)) a b c

/-- The first of three numbers that is neither the least nor the greatest, or the last. -/
def between (a b c low high : Int) : Int :=
  pick (!decide (a = low) && !decide (a = high)) (!decide (b = low) && !decide (b = high)) a b c

-- Of two equal numbers neither is in the middle, so that the greatest may stand there.
example : between 1 1 2 (lowest 1 1 2) (highest 1 1 2) = 2 := by decide

/-- The lines that are written for three numbers: the prompts, the numbers as they were read, and
the least, the middle one and the greatest of them. -/
def dialogue (a b c : Int) : List String :=
  let low := lowest a b c
  let high := highest a b c
  ["Insira 3 números:", "Digite o primeiro número:", "Digite o segundo número:",
    "Digite o terceiro número:", "Vetor original:", (Value.int a).display, (Value.int b).display,
    (Value.int c).display, "Vetor ordenado:", (Value.int low).display,
    (Value.int (between a b c low high)).display, (Value.int high).display]

/-- A text with lines added to it. -/
def withLines (text : String) (lines : List String) : String :=
  lines.foldl (fun text line => text ++ (line ++ "\n")) text

section Dialogue

variable {k : Nat} {s : View} {l₁ l₂ l₃ line : String} {rest : List String} {a b c n : Int}

/-- Whichever of three numbers that are read is picked, it can be shown. -/
theorem tooLong_pick (ha : intOfText l₁ = .ok a) (hb : intOfText l₂ = .ok b)
    (hc : intOfText l₃ = .ok c) (x y : Bool) : (Value.int (pick x y a b c)).tooLong = false := by
  unfold pick
  split
  · exact tooLong_of_intOfText ha
  · split
    · exact tooLong_of_intOfText hb
    · exact tooLong_of_intOfText hc

/-! ### The run of the shortcut -/

theorem least_int (a b c : Int) : least (.int a) (.int b) (.int c) = .int (lowest a b c) := by
  simp only [least, atMost_int, lowest, pick, apply_ite Value.int]

theorem greatest_int (a b c : Int) :
    greatest (.int a) (.int b) (.int c) = .int (highest a b c) := by
  simp only [greatest, atMost_int, highest, pick, apply_ite Value.int]

theorem middle_int (a b c low high : Int) :
    middle (.int a) (.int b) (.int c) (.int low) (.int high) =
      .int (between a b c low high) := by
  simp only [middle, same_int, between, pick, apply_ite Value.int]

theorem yields_readNumber (hline : s.lines = line :: rest) (hn : intOfText line = .ok n)
    (prompt : String) (otherwise : Nat) :
    Yields (readNumber prompt otherwise) s (.int n) ((s.said prompt).took rest) := by
  refine (Yields.writeLine prompt s).bind ((Yields.readLine (s := s.said prompt) hline).bind ?_)
  rw [spelledNumber?_of_intOfText hn]
  exact .pure _ _

/-- **The dialogue of the shortcut.** -/
theorem yields_sortThree (hlines : s.lines = l₁ :: l₂ :: l₃ :: rest) (ha : intOfText l₁ = .ok a)
    (hb : intOfText l₂ = .ok b) (hc : intOfText l₃ = .ok c) :
    Yields sortThree s ()
      { s with lines := rest, written := withLines s.written (dialogue a b c) } := by
  have hshow := tooLong_pick ha hb hc
  refine (Yields.writeLine _ s).bind ?_
  refine (yields_readNumber (s := s.said _) hlines ha _ _).bind ?_
  refine (yields_readNumber rfl hb _ _).bind ?_
  refine (yields_readNumber rfl hc _ _).bind ?_
  dsimp only
  rw [least_int, greatest_int, middle_int]
  refine (Yields.writeLine _ _).bind ?_
  refine (Yields.writeValues (tooLong_of_intOfText ha) _).bind ?_
  refine (Yields.writeValues (tooLong_of_intOfText hb) _).bind ?_
  refine (Yields.writeValues (tooLong_of_intOfText hc) _).bind ?_
  refine (Yields.writeLine _ _).bind ?_
  refine (Yields.writeValues (hshow _ _) _).bind ?_
  refine (Yields.writeValues (hshow _ _) _).bind ?_
  exact Yields.writeValues (hshow _ _) _

/-! ### The run of the program -/

/-- The token of a text in double quotes. -/
def quoted (text : String) : Token := ⟨.string, "\"" ++ text ++ "\""⟩

/-- Writes a text. -/
def saying (text : String) : Node :=
  .call none ⟨.other "output", "output"⟩ [.constant (some "STRING") (quoted text)]

/-- Writes a variable. -/
def showing (x : String) : Node :=
  .call none ⟨.other "output", "output"⟩ [reference x]

/-- Reads a line into a variable. -/
def reading (x : String) : Node :=
  .assign (reference x) (.call none (named "input") [])

/-- Sets a variable to another. -/
def setting (x y : String) : Node :=
  .assign (reference x) (reference y)

/-- Compares a variable with two others. -/
def bothTests (op : Tag) (x y z : String) : Node :=
  .logical (some "BOOL") (mark .and)
    (.relational (some "BOOL") (mark op) (reference x) (reference y))
    (.relational (some "BOOL") (mark op) (reference x) (reference z))

/-- Sets a variable to the first of the three that compares with two others, or to the last. -/
def choosing (op : Tag) (target y₁ z₁ y₂ z₂ : String) : Node :=
  .cond (bothTests op "a" y₁ z₁) [setting target "a"]
    (some [.cond (bothTests op "b" y₂ z₂) [setting target "b"] (some [setting target "c"])])

/-- The statements that read three numbers and show them. -/
def asking : List Node :=
  [saying "Insira 3 números:", saying "Digite o primeiro número:", reading "a",
    saying "Digite o segundo número:", reading "b", saying "Digite o terceiro número:", reading "c",
    saying "Vetor original:", showing "a", showing "b", showing "c"]

/-- The statements that find the order of the numbers and show them again. -/
def ordering : List Node :=
  [choosing .lte "menor" "b" "c" "a" "c", choosing .gte "maior" "b" "c" "a" "c",
    choosing .neq "medio" "menor" "maior" "menor" "maior", saying "Vetor ordenado:",
    showing "menor", showing "medio", showing "maior"]

/-- The statements of the program. -/
def sortingBody : List Node := asking ++ ordering

theorem unquoted_quoted (text : String) : Builtin.unquoted (quoted text).text = text := by
  have hchars : (quoted text).text.toList = '"' :: (text.toList ++ ['"']) := by
    simp [quoted, String.toList_append]
  have hlast : ('"' :: (text.toList ++ ['"'])).getLast? = some '"' :=
    List.getLast?_concat (l := '"' :: text.toList)
  rw [Builtin.unquoted, hchars, hlast]
  simp

theorem yields_saying (text : String) (s : View) :
    Yields (exec (k + 2) (saying text)) s .nothing (s.said text) := by
  have hshown : Builtin.shown (.text (quoted text).text) = .text text :=
    congrArg Value.text (unquoted_quoted text)
  have hcall : Yields (exec (k + 2) (saying text)) s .nothing
      (s.said (Builtin.shown (.text (quoted text).text)).display) :=
    Yields.output rfl (.constant s) (by simp [hshown, Value.tooLong])
  rw [hshown] at hcall
  exact hcall

theorem yields_showing {x : String} (hx : s.vars x = some (.int n))
    (hn : (Value.int n).tooLong = false) :
    Yields (exec (k + 2) (showing x)) s .nothing (s.said (Value.int n).display) :=
  Yields.output (v := .int n) rfl (.ident hx) hn

theorem yields_reading (hline : s.lines = line :: rest) (hn : intOfText line = .ok n) (x : String) :
    Yields (exec (k + 2) (reading x)) s (.int n) ((s.took rest).bound x (.int n)) := by
  have hinput : Yields (exec (k + 1) (.call none (named "input") [])) s (decodeText line)
      (s.took rest) := .input rfl hline
  rw [decodeText_of_intOfText hn] at hinput
  exact hinput.assign rfl

theorem yields_setting {x y : String} (hy : s.vars y = some (.int n)) :
    Yields (exec (k + 2) (setting x y)) s (.int n) (s.bound x (.int n)) :=
  Yields.assign (.ident hy) rfl

section Choosing

variable {op : Tag} {holds : Int → Int → Bool}
  (hop : ∀ a b, relational (mark op).text (.int a) (.int b) = .ok (holds a b))

include hop

theorem yields_bothTests {x y z : String} (hx : s.vars x = some (.int a))
    (hy : s.vars y = some (.int b)) (hz : s.vars z = some (.int c)) :
    Yields (exec (k + 3) (bothTests op x y z)) s (.bool (holds a b && holds a c)) s :=
  .conjunction rfl (.relational (.ident hx) (.ident hy) (hop a b))
    (.relational (.ident hx) (.ident hz) (hop a c))

/-- A choice binds its variable to the number that the comparisons pick. -/
theorem yields_choosing {target y₁ z₁ y₂ z₂ : String} {p₁ q₁ p₂ q₂ : Int}
    (ha : s.vars "a" = some (.int a)) (hb : s.vars "b" = some (.int b))
    (hc : s.vars "c" = some (.int c)) (hy₁ : s.vars y₁ = some (.int p₁))
    (hz₁ : s.vars z₁ = some (.int q₁)) (hy₂ : s.vars y₂ = some (.int p₂))
    (hz₂ : s.vars z₂ = some (.int q₂)) :
    Yields (exec (k + 5) (choosing op target y₁ z₁ y₂ z₂)) s .nothing
      (s.bound target
        (.int (pick (holds a p₁ && holds a q₁) (holds b p₂ && holds b q₂) a b c))) := by
  refine .cond (yields_bothTests hop ha hy₁ hz₁) ?_
  cases holds a p₁ && holds a q₁ with
  | true => exact (yields_setting ha).runAll_singleton
  | false =>
    refine Yields.runAll_singleton (.cond (yields_bothTests hop hb hy₂ hz₂) ?_)
    cases holds b p₂ && holds b q₂ with
    | true => exact (yields_setting hb).runAll_singleton
    | false => exact (yields_setting hc).runAll_singleton

end Choosing

/-- The view once the three numbers were read and shown. -/
def View.asked (s : View) (rest : List String) (a b c : Int) : View :=
  { lines := rest
    written := withLines s.written ["Insira 3 números:", "Digite o primeiro número:",
      "Digite o segundo número:", "Digite o terceiro número:", "Vetor original:",
      (Value.int a).display, (Value.int b).display, (Value.int c).display]
    vars := (((s.bound "a" (.int a)).bound "b" (.int b)).bound "c" (.int c)).vars }

theorem yields_asking (hlines : s.lines = l₁ :: l₂ :: l₃ :: rest) (ha : intOfText l₁ = .ok a)
    (hb : intOfText l₂ = .ok b) (hc : intOfText l₃ = .ok c) :
    Yields (runAll (exec (k + 2)) asking) s () (s.asked rest a b c) := by
  refine (yields_saying _ s).runAll_cons ?_
  refine (yields_saying _ _).runAll_cons ?_
  refine (yields_reading (s := (s.said _).said _) hlines ha "a").runAll_cons ?_
  refine (yields_saying _ _).runAll_cons ?_
  refine (yields_reading rfl hb "b").runAll_cons ?_
  refine (yields_saying _ _).runAll_cons ?_
  refine (yields_reading rfl hc "c").runAll_cons ?_
  refine (yields_saying _ _).runAll_cons ?_
  refine (yields_showing (n := a) ?_ (tooLong_of_intOfText ha)).runAll_cons ?_
  · simp [View.vars_bound]
  refine (yields_showing (n := b) ?_ (tooLong_of_intOfText hb)).runAll_cons ?_
  · simp [View.vars_bound]
  refine (yields_showing (n := c) ?_ (tooLong_of_intOfText hc)).runAll_cons ?_
  · simp [View.vars_bound]
  exact .runAll_nil _

/-- The view once the numbers were shown again. -/
def View.ordered (s : View) (a b c : Int) : View :=
  let low := lowest a b c
  let high := highest a b c
  let mid := between a b c low high
  { s with
    written := withLines s.written ["Vetor ordenado:", (Value.int low).display,
      (Value.int mid).display, (Value.int high).display]
    vars :=
      (((s.bound "menor" (.int low)).bound "maior" (.int high)).bound "medio" (.int mid)).vars }

theorem yields_ordering (ha : s.vars "a" = some (.int a)) (hb : s.vars "b" = some (.int b))
    (hc : s.vars "c" = some (.int c))
    (hshow : ∀ x y, (Value.int (pick x y a b c)).tooLong = false) :
    Yields (runAll (exec (k + 5)) ordering) s () (s.ordered a b c) := by
  let s₁ := s.bound "menor" (.int (lowest a b c))
  let s₂ := s₁.bound "maior" (.int (highest a b c))
  let s₃ := s₂.bound "medio" (.int (between a b c (lowest a b c) (highest a b c)))
  have hlow : Yields (exec (k + 5) (choosing .lte "menor" "b" "c" "a" "c")) s .nothing s₁ :=
    yields_choosing relational_lte ha hb hc hb hc ha hc
  have hhigh : Yields (exec (k + 5) (choosing .gte "maior" "b" "c" "a" "c")) s₁ .nothing s₂ := by
    refine yields_choosing relational_gte ?_ ?_ ?_ ?_ ?_ ?_ ?_ <;>
      simp [s₁, View.vars_bound, ha, hb, hc]
  have hmid : Yields (exec (k + 5) (choosing .neq "medio" "menor" "maior" "menor" "maior")) s₂
      .nothing s₃ := by
    refine yields_choosing relational_neq ?_ ?_ ?_ ?_ ?_ ?_ ?_ <;>
      simp [s₁, s₂, View.vars_bound, ha, hb, hc]
  refine hlow.runAll_cons (hhigh.runAll_cons (hmid.runAll_cons ?_))
  refine (yields_saying _ s₃).runAll_cons ?_
  refine (yields_showing (n := lowest a b c) ?_ (hshow _ _)).runAll_cons ?_
  · simp [s₁, s₂, s₃, View.vars_bound]
  refine (yields_showing (n := between a b c (lowest a b c) (highest a b c)) ?_
    (hshow _ _)).runAll_cons ?_
  · simp [s₃, View.vars_bound]
  refine (yields_showing (n := highest a b c) ?_ (hshow _ _)).runAll_cons ?_
  · simp [s₂, s₃, View.vars_bound]
  exact .runAll_nil _

/-- **The dialogue of the tree.** -/
theorem yields_sortingBody (hlines : s.lines = l₁ :: l₂ :: l₃ :: rest) (ha : intOfText l₁ = .ok a)
    (hb : intOfText l₂ = .ok b) (hc : intOfText l₃ = .ok c) :
    Yields (exec (k + 6) (.seq sortingBody)) s .nothing ((s.asked rest a b c).ordered a b c) := by
  have hshow := tooLong_pick ha hb hc
  have hasking := yields_asking (k := k + 3) hlines ha hb hc
  refine .seq (hasking.runAll_append (yields_ordering ?_ ?_ ?_ hshow)) <;>
    simp [View.asked, View.vars_bound]

theorem written_ordered_asked (s : View) (rest : List String) (a b c : Int) :
    ((s.asked rest a b c).ordered a b c).written = withLines s.written (dialogue a b c) := rfl

end Dialogue

/-! ### From the text to the tree -/

/-- The lines of the program. -/
def sortingLines : List String :=
  ["SEQ \x7b",
    "# Interface simples",
    "output(\"Insira 3 números:\");",
    "",
    "output(\"Digite o primeiro número:\");",
    "a = input();",
    "",
    "output(\"Digite o segundo número:\");",
    "b = input();",
    "",
    "output(\"Digite o terceiro número:\");",
    "c = input();",
    "",
    "output(\"Vetor original:\");",
    "output(a);",
    "output(b);",
    "output(c);",
    "",
    "# Ordenação dos números",
    "# Encontrar o menor valor",
    "if (a <= b && a <= c) \x7b",
    "    menor = a;",
    "\x7d else if (b <= a && b <= c) \x7b",
    "    menor = b;",
    "\x7d else \x7b",
    "    menor = c;",
    "\x7d",
    "",
    "# Encontrar o maior valor",
    "if (a >= b && a >= c) \x7b",
    "    maior = a;",
    "\x7d else if (b >= a && b >= c) \x7b",
    "    maior = b;",
    "\x7d else \x7b",
    "    maior = c;",
    "\x7d",
    "",
    "# Encontrar o valor do meio por eliminação",
    "if (a != menor && a != maior) \x7b",
    "    medio = a;",
    "\x7d else if (b != menor && b != maior) \x7b",
    "    medio = b;",
    "\x7d else \x7b",
    "    medio = c;",
    "\x7d",
    "",
    "output(\"Vetor ordenado:\");",
    "output(menor);",
    "output(medio);",
    "output(maior);",
    "\x7d",
    ""]

/-- The program as characters. -/
def sortingChars : List Char :=
  Layout.unlines (sortingLines.map String.toList)

/-- The program as a text. -/
def sortingSource : String :=
  String.ofList sortingChars

/-- The program is in standard layout. -/
theorem standardiseChars_sortingChars : Layout.standardiseChars sortingChars = sortingChars := by
  decide +kernel

theorem standardise_sortingSource : Layout.standardise sortingSource = sortingSource := by
  rw [Layout.standardise, sortingSource, String.toList_ofList, standardiseChars_sortingChars]

/-- The tokens of a call of `output`. -/
def outputTokens (shown : Token) : List Token :=
  [mark .output, mark .lparen, shown, mark .rparen, mark .semicolon]

/-- The tokens of a statement that reads a variable. -/
def inputTokens (x : String) : List Token :=
  [named x, mark .assign, named "input", mark .lparen, mark .rparen, mark .semicolon]

/-- The tokens of an assignment. -/
def assignTokens (target x : String) : List Token :=
  [named target, mark .assign, named x, mark .semicolon]

/-- The tokens of a condition and of the brace behind it. -/
def testTokens (op : Tag) (x y z : String) : List Token :=
  [mark .ifWord, mark .lparen, named x, mark op, named y, mark .and, named x, mark op, named z,
    mark .rparen, mark .lbrace]

/-- The tokens of a choice, from a line on. -/
def choiceTokens (line : Int) (op : Tag) (target y₁ z₁ y₂ z₂ : String) : List (Int × List Token) :=
  [(line, testTokens op "a" y₁ z₁),
    (line + 1, assignTokens target "a"),
    (line + 2, mark .rbrace :: mark .elseWord :: testTokens op "b" y₂ z₂),
    (line + 3, assignTokens target "b"),
    (line + 4, [mark .rbrace, mark .elseWord, mark .lbrace]),
    (line + 5, assignTokens target "c"),
    (line + 6, [mark .rbrace])]

/-- The tokens of the program, line by line. -/
def sortingTokenLines : List (Int × List Token) :=
  [(1, [mark .seq, mark .lbrace]), (3, outputTokens (quoted "Insira 3 números:")),
    (5, outputTokens (quoted "Digite o primeiro número:")), (6, inputTokens "a"),
    (8, outputTokens (quoted "Digite o segundo número:")), (9, inputTokens "b"),
    (11, outputTokens (quoted "Digite o terceiro número:")), (12, inputTokens "c"),
    (14, outputTokens (quoted "Vetor original:")), (15, outputTokens (named "a")),
    (16, outputTokens (named "b")), (17, outputTokens (named "c"))] ++
  choiceTokens 21 .lte "menor" "b" "c" "a" "c" ++
  choiceTokens 30 .gte "maior" "b" "c" "a" "c" ++
  choiceTokens 39 .neq "medio" "menor" "maior" "menor" "maior" ++
  [(47, outputTokens (quoted "Vetor ordenado:")), (48, outputTokens (named "menor")),
    (49, outputTokens (named "medio")), (50, outputTokens (named "maior")), (51, [mark .rbrace])]

/-- The tokens of the program. -/
def sortingTokens : List Located :=
  sortingTokenLines.flatMap fun l => l.2.map (Located.mk · l.1)

theorem locate_sortingChars : locate .start (pieces none sortingChars) = sortingTokens := by
  decide +kernel

theorem tokens_sortingSource : tokens sortingSource = sortingTokens := by
  rw [tokens, scan, sortingSource, String.toList_ofList]
  exact locate_sortingChars

set_option maxRecDepth 20000 in
theorem programOf_sortingTokens : programOf sortingTokens = .ok [.seq sortingBody] := rfl

/-- The source is read and passes its check. -/
theorem checkedProgram_sortingSource (m : Machine) :
    checkedProgram (Layout.standardise sortingSource) m = .ok (.program [.seq sortingBody]) m := by
  rw [standardise_sortingSource, checkedProgram, tokens_sortingSource, programOf_sortingTokens]
  rfl

/-- The variables of the program. -/
theorem targetsAll_sortingBody :
    Node.targetsAll [.seq sortingBody] = (["a", "b", "c"] ++ List.replicate 3 "menor" ++
      List.replicate 3 "maior" ++ List.replicate 3 "medio").map reference := rfl

/-! ### Agreement -/

/-- **The program writes what its shortcut writes**: on every machine whose next three lines of
input spell whole numbers, and whose output is not interrupted, the source is brought into standard
layout, read, checked and run without a fault, the shortcut runs without a fault too, and the texts
that they write are the same.  The depth of the run may be any that the statements fit in. -/
theorem sortingSource_agrees {depth : Nat} (hdepth : 6 ≤ depth) {m : Machine}
    {l₁ l₂ l₃ : String} {rest : List String} {a b c : Int}
    (hinput : m.input = l₁ :: l₂ :: l₃ :: rest) (huncut : m.outputsLeft = none)
    (ha : intOfText l₁ = .ok a) (hb : intOfText l₂ = .ok b) (hc : intOfText l₃ = .ok c) :
    ∃ m₁ m₂,
      (do
        let program ← checkedProgram (Layout.standardise sortingSource)
        runOrShow (exec depth) true program) m = .ok () m₁ ∧
      sortThree m = .ok () m₂ ∧ m₁.output = m₂.output := by
  obtain ⟨k, rfl⟩ := Nat.exists_eq_add_of_le' hdepth
  have htargets : ∀ target ∈ Node.targetsAll [.seq sortingBody], target.IsVariable := by
    rw [targetsAll_sortingBody]
    exact List.forall_mem_map.mpr fun name _ => ⟨none, named name, false, rfl⟩
  obtain ⟨scopes, hprepare⟩ := exists_prepare htargets m
  let m₀ := m.withScopes scopes
  let s₀ : View := ⟨m.input, m.output, fun x => scopes.top.get? x⟩
  let s : View := ⟨m.input, m.output, fun x => m.scopes.top.get? x⟩
  -- The runs start from views that differ in the variables only, which no line depends on.
  obtain ⟨m₁, hbody, hshows₁⟩ :=
    yields_sortingBody (k := k) (s := s₀) hinput ha hb hc m₀ ⟨rfl, rfl, fun _ => rfl, huncut⟩
  obtain ⟨m₂, hshort, hshows₂⟩ :=
    yields_sortThree (s := s) hinput ha hb hc m ⟨rfl, rfl, fun _ => rfl, huncut⟩
  have hwritten : m₁.output = withLines m.output (dialogue a b c) :=
    hshows₁.written.trans (written_ordered_asked _ _ _ _ _)
  refine ⟨m₁, m₂, ?_, hshort, hwritten.trans hshows₂.written.symm⟩
  have hstatements : runStatements (exec (k + 6)) [.seq sortingBody] m₀ = .ok () m₁ :=
    bind_of_ok _ (runTopLevel_of_ok hbody)
  exact (bind_of_ok _ (checkedProgram_sortingSource m)).trans
    ((bind_of_ok _ hprepare).trans hstatements)

theorem sortingSource_agrees_on_three :
    ∃ m₁ m₂,
      (do
        let program ← checkedProgram (Layout.standardise sortingSource)
        runOrShow (exec depthLimit) true program) (Machine.initial "3\n1\n2\n" false none []) =
          .ok () m₁ ∧
      sortThree (Machine.initial "3\n1\n2\n" false none []) = .ok () m₂ ∧
      m₁.output = m₂.output := by
  have hinput : (Machine.initial "3\n1\n2\n" false none []).input = ["3", "1", "2"] := by
    decide +kernel
  have ha : intOfText "3" = .ok 3 := by decide +kernel
  have hb : intOfText "1" = .ok 1 := by decide +kernel
  have hc : intOfText "2" = .ok 2 := by decide +kernel
  exact sortingSource_agrees (by decide) hinput rfl ha hb hc

end SeqPar
