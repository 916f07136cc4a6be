import Mathlib.Data.List.Infix
import SeqPar.Proofs.Phrases

/-!
# The layout of functions

A function that ends in a `return` gets a new body: the head, and the `return` in braces.  Whatever
stands between the opening brace and the first `return` is not part of it.  So the standard layout
of a declared function has the tokens of the declaration, semicolons and braces apart, exactly when
the statements before the `return` hold no tokens.

The declarations here have the head with the opening brace on one line, and the `return` with its
result and semicolon on one line.  The statements may be laid out in any way.  No part leaves a comment
or a quoted text open.

## Main definitions

* `Declaration` — a function that ends in a `return`, as it is written.
* `Declaration.bare` — the same function without the statements before the `return`.
* `Declaration.Lining`, `Declaration.Filling` — what the line steps, and then the phrase steps, leave
  next to the head and the `return`.

## Main results

* `Declaration.exists_lined` — what the line steps make of a declaration.
* `Declaration.exists_standardiseChars` — the standard layout of a declaration.
* `content_standardise_iff` — **the standard layout of a function keeps its tokens exactly when
  there are none before the `return`.**
-/

namespace SeqPar.Layout

open SeqPar.Text

attribute [local instance] decidableForallMem

/-! ### Declarations -/

/-- The words that start a conditional or a loop. -/
def guardWords : List (List Char) :=
  ["if".toList, "while".toList]

/-- A function that ends in a `return`, as it is written: its head, statements that hold no opening
brace and in which no word ends in `return`, and the `return` with its result, in which no
conditional and no loop starts. -/
structure Declaration extends Head where
  /-- The statements before the `return`, without their semicolons. -/
  statements : List (List Char)
  /-- The result. -/
  result : List Char
  /-- The blanks between the head and the opening brace. -/
  beforeBrace : LineGap
  /-- The blanks between the statements and the `return`. -/
  beforeReturn : Gap
  /-- The blanks between the result and its semicolon. -/
  afterResult : LineGap
  /-- The blanks before the closing brace. -/
  beforeEnd : Gap
  closed_params : Closed params
  not_mem_statement : ∀ s ∈ statements, '\x7b' ∉ s
  not_return_suffix : ∀ s ∈ statements, ∀ run ∈ runs s, ¬ "return".toList <:+ run
  closed_statement : ∀ s ∈ statements, Closed s
  isMark_of_mem_result : ∀ c ∈ result, isMark c = false
  result_last : ∃ c ∈ result.getLast?, isBlank c = false
  closed_result : Closed result
  guardHead?_result : ∀ word ∈ guardWords, ∀ cs, cs <:+ result → guardHead? word cs = none

namespace Declaration

variable (d : Declaration)

/-- The text of a declaration up to the opening brace. -/
def opening : List Char :=
  d.text ++ (d.beforeBrace.text ++ ['\x7b'])

/-- The statements before the `return`, each with its semicolon. -/
def body : List Char :=
  d.statements.flatMap (· ++ [';'])

/-- The text of a declaration from the `return` on. -/
def ending : List Char :=
  "return ".toList ++ (d.result ++ (d.afterResult.text ++ ';' :: (d.beforeEnd.text ++ ['\x7d'])))

/-- The text of a declaration. -/
def chars : List Char :=
  d.opening ++ (d.body ++ (d.beforeReturn.text ++ d.ending))

/-- The source text of a declaration. -/
def source : String :=
  String.ofList d.chars

/-- The same function without the statements before the `return`. -/
def bare : Declaration :=
  { d with
    statements := []
    not_mem_statement := by simp
    not_return_suffix := by simp
    closed_statement := by simp }

/-! ### The segments of a declaration -/

theorem segment_eq_singleton {part : List Char} (hne : part ≠ [])
    (hhead : ∀ c ∈ part.head?, isBlank c = false) (hlast : ∀ c ∈ part.getLast?, isBlank c = false)
    (ended : Bool) : segment part ended = [⟨part, ended⟩] := by
  rw [segment, trim_eq_self hhead hlast, if_neg (by simpa using hne)]

theorem segments_opening (cs : List Char) :
    segments (d.opening ++ cs) = ⟨d.opening, false⟩ :: segments cs := by
  have hopening : d.opening = (d.text ++ d.beforeBrace.text) ++ ['\x7b'] := by
    unfold opening
    rw [List.append_assoc]
  have hmark : ∀ c ∈ d.text ++ d.beforeBrace.text, isMark c = false := by
    intro c hc
    rcases List.mem_append.mp hc with hmem | hmem
    · exact d.isMark_of_mem_text c hmem
    · exact d.beforeBrace.isMark_eq_false c hmem
  have hhead : ∀ c ∈ d.opening.head?, isBlank c = false := by
    intro c hc
    obtain ⟨cs, hcs⟩ := d.text_eq_cons
    obtain rfl : 'f' = c := by simpa [opening, hcs] using hc
    decide
  have hlast : ∀ c ∈ d.opening.getLast?, isBlank c = false := by
    intro c hc
    rw [hopening, List.getLast?_concat] at hc
    obtain rfl : '\x7b' = c := by simpa using hc
    decide
  -- The opening is one segment: only its last character is a mark, and no blank is trimmed.
  have hsegment : segment d.opening false = [⟨d.opening, false⟩] :=
    segment_eq_singleton (by simp [hopening]) hhead hlast false
  calc segments (d.opening ++ cs)
      = segmentsFrom [] ((d.text ++ d.beforeBrace.text) ++ '\x7b' :: cs) := by
        rw [hopening, List.append_assoc]
        rfl
    _ = segment d.opening false ++ segments cs := by
        rw [segmentsFrom_append_of_unmarked hmark, List.nil_append, segmentsFrom_mark (by decide),
          hopening]
        rfl
    _ = ⟨d.opening, false⟩ :: segments cs := by rw [hsegment, List.singleton_append]

theorem segments_body (cs : List Char) : segments (d.body ++ cs) = segments d.body ++ segments cs := by
  unfold body
  induction d.statements with
  | nil => rfl
  | cons s ss ih =>
    simp only [List.flatMap_cons, List.append_assoc, List.cons_append, List.nil_append]
    rw [segments_append_semicolon, ih, segments_append_semicolon s (List.flatMap _ ss),
      List.append_assoc]

theorem segments_ending : segments d.ending =
    [⟨"return ".toList ++ d.result, true⟩, ⟨['\x7d'], false⟩] := by
  have hword : ∀ c ∈ "return ".toList, isMark c = false := by decide
  have hmark : ∀ c ∈ "return ".toList ++ d.result ++ d.afterResult.text, isMark c = false := by
    intro c hc
    rcases List.mem_append.mp hc with hmem | hmem
    · rcases List.mem_append.mp hmem with hmem | hmem
      · exact hword c hmem
      · exact d.isMark_of_mem_result c hmem
    · exact d.afterResult.isMark_eq_false c hmem
  have hhead : ∀ c ∈ ("return ".toList ++ d.result).head?, isBlank c = false := by
    intro c hc
    obtain rfl : 'r' = c := by simpa using hc
    decide
  have hlast : ∀ c ∈ ("return ".toList ++ d.result).getLast?, isBlank c = false := by
    intro c hc
    obtain ⟨last, hresult, hblank⟩ := d.result_last
    rw [List.getLast?_append, hresult] at hc
    obtain rfl : last = c := by simpa using hc
    exact hblank
  have hend : segments (d.beforeEnd.text ++ ['\x7d']) = [⟨['\x7d'], false⟩] := by
    rw [segments_blank_append d.beforeEnd.isBlank_of_mem]
    decide
  -- The `return` and its result are one segment; the blanks behind them are trimmed.
  have hne : "return ".toList ++ d.result ≠ [] := by simp
  have hsegment := segment_eq_singleton hne hhead hlast true
  unfold ending
  generalize "return ".toList = word at hmark hsegment ⊢
  calc segments (word ++ (d.result ++ (d.afterResult.text ++ ';' :: (d.beforeEnd.text ++ ['\x7d']))))
      = segmentsFrom [] ((word ++ d.result ++ d.afterResult.text) ++
          ';' :: (d.beforeEnd.text ++ ['\x7d'])) := by simp [segments]
    _ = segment (word ++ d.result ++ d.afterResult.text) true ++ [⟨['\x7d'], false⟩] := by
        rw [segmentsFrom_append_of_unmarked hmark, List.nil_append, segmentsFrom_mark (by decide), hend]
        simp [kept]
    _ = _ := by
        rw [segment_append_blank d.afterResult.isBlank_of_mem, hsegment, List.singleton_append]

theorem segments_chars : segments d.chars = ⟨d.opening, false⟩ :: (segments d.body ++
    [⟨"return ".toList ++ d.result, true⟩, ⟨['\x7d'], false⟩]) := by
  rw [chars, segments_opening, segments_body, segments_blank_append d.beforeReturn.isBlank_of_mem,
    segments_ending]

/-! ### The line steps -/

/-- Whether a character is a blank, a semicolon or a closing brace: what stands around a declaration
after the line steps. -/
def isFiller (c : Char) : Bool :=
  isBlank c || c == ';' || c == '\x7d'

/-- What stands next to the fixed parts of a declaration in the standard layout. -/
structure Filling where
  /-- What stands before the head. -/
  gap : List Char
  /-- The blanks between the result and its semicolon. -/
  blanks : List Char
  /-- What stands after the `return`. -/
  tail : List Char
  isFiller_of_mem_gap : ∀ c ∈ gap, isFiller c = true
  isBlank_of_mem_blanks : ∀ c ∈ blanks, isBlank c = true
  isFiller_of_mem_tail : ∀ c ∈ tail, isFiller c = true

/-- What stands next to them after the line steps: no other `return` and no other brace comes before
the `return`. -/
structure Lining extends Filling where
  /-- What stands between the opening brace and the `return`. -/
  front : List Char
  not_mem_front : '\x7b' ∉ front
  return_not_in_front : ¬ "return ".toList <:+: front
  last_front : ∀ c ∈ front.getLast?, c ∉ "return".toList

/-- The text of a declaration from its head on, with what stands next to the fixed parts. -/
def withLining (l : Lining) : List Char :=
  d.opening ++ (l.front ++ ("return ".toList ++ (d.result ++ l.blanks ++ ';' :: l.tail)))

/-- A declaration after the line steps. -/
def lined : List Char :=
  standardiseLines (substitute ['\r', '\n'] ['\n'] d.chars)

theorem completes_lined : Completes (segments d.chars) (segments d.lined) := by
  have hbreaks : segments (substitute ['\r', '\n'] ['\n'] d.chars) = segments d.chars :=
    segmentsFrom_substitute_lineBreaks [] d.chars
  rw [← hbreaks]
  exact completes_standardiseLines _

theorem exists_segments_lined : ∃ ended xs ended',
    segments d.lined = ⟨d.opening, ended⟩ :: (xs ++
      ⟨"return ".toList ++ d.result, true⟩ :: [⟨['\x7d'], ended'⟩]) ∧
      Completes (segments d.body) xs := by
  have hlined := d.completes_lined
  rw [d.segments_chars] at hlined
  obtain ⟨ended, zs, hzs, -, hrest⟩ := hlined.exists_cons
  obtain ⟨xs, us, rfl, hxs, hus⟩ := hrest.exists_append
  obtain ⟨ended₁, vs, rfl, hended, hvs⟩ := hus.exists_cons
  obtain ⟨ended₂, ws, rfl, -, hws⟩ := hvs.exists_cons
  obtain rfl : ws = [] := by
    cases hws
    rfl
  exact ⟨ended, xs, ended₂, by rw [hzs, hended rfl], hxs⟩

theorem exists_mem_statement {c : Char} (hc : c ≠ ';') (h : c ∈ d.body) :
    ∃ s ∈ d.statements, c ∈ s := by
  obtain ⟨s, hs, hmem⟩ := List.mem_flatMap.mp h
  exact ⟨s, hs, by simpa [hc] using hmem⟩

theorem runs_body : runs d.body = d.statements.flatMap runs := by
  unfold body
  induction d.statements with
  | nil => rfl
  | cons s ss ih =>
    simp only [List.flatMap_cons, List.append_assoc, List.cons_append, List.nil_append]
    rw [runs_append_layout (by decide), ih]

/-- A text with the runs of the statements holds no `return`. -/
theorem return_not_in {front : List Char} (h : runs d.body = runs front) :
    ¬ "return ".toList <:+: front := by
  rintro ⟨before, after, hin⟩
  have hreturn : "return ".toList = "return".toList ++ [' '] := by decide
  have hrun : ∃ r ∈ runs front, "return".toList <:+ r := by
    rw [← hin, hreturn, List.append_assoc, List.append_assoc]
    exact exists_run_of_append_layout (by decide) (by decide) (by decide) [] before after
  obtain ⟨r, hr, hsuffix⟩ := hrun
  rw [← h, d.runs_body, List.mem_flatMap] at hr
  obtain ⟨s, hs, hmem⟩ := hr
  exact d.not_return_suffix s hs r hmem hsuffix

/-- A text whose only segment is a closing brace is filler. -/
theorem isFiller_of_segments {tail : List Char} {ended : Bool}
    (h : segments tail = [⟨['\x7d'], ended⟩]) : ∀ c ∈ tail, isFiller c = true := by
  intro c hc
  cases hblank : isBlank c with
  | true => simp [isFiller, hblank]
  | false =>
    by_cases hsemi : c = ';'
    · subst hsemi
      decide
    · obtain ⟨s, hs, hmem⟩ := exists_mem_segmentsFrom (List.mem_append_right [] hc) hblank hsemi
      change s ∈ segments tail at hs
      rw [h, List.mem_singleton] at hs
      obtain rfl : c = '\x7d' := by simpa [hs] using hmem
      decide

/-- What the line steps make of a declaration: the same opening, a text that holds neither a `return`
nor an opening brace, and the `return` with its result. -/
theorem exists_lined : ∃ l : Lining, d.lined = l.gap ++ d.withLining l := by
  obtain ⟨ended, xs, ended', hsegments, hxs⟩ := d.exists_segments_lined
  have hbrace : '\x7b' ∈ d.opening := by
    unfold opening
    simp
  -- The first segment and the last but one are known, so the text is split at both of them.
  obtain ⟨gap, after, hlined, hafter, hgap⟩ :=
    exists_of_segmentsFrom_eq_cons (by simp) hbrace hsegments
  obtain ⟨front, blanks, tail, hafter', hfront, htail, hblanks, hlast⟩ :=
    exists_of_segmentsFrom_eq_append (by simp) rfl hafter
  rw [List.nil_append] at hlined hafter'
  have hcompletes : Completes (segments d.body) (segments front) := hfront ▸ hxs
  have hfiller : ∀ c ∈ gap, isFiller c = true := by
    intro c hc
    rcases hgap c hc with hblank | rfl
    · simp [isFiller, hblank]
    · decide
  have hnobrace : '\x7b' ∉ front := by
    intro hmem
    have hbody : '\x7b' ∈ d.body := hcompletes.mem_of_mem (by decide) (by decide) hmem
    obtain ⟨s, hs, hs'⟩ := d.exists_mem_statement (by decide) hbody
    exact d.not_mem_statement s hs hs'
  have hletter : ∀ c ∈ front.getLast?, c ∉ "return".toList := by
    have hreturn : ∀ c ∈ "return".toList, isBlank c = false ∧ isMark c = false := by decide
    intro c hc hmem
    rcases hlast c hc with hblank | hmark
    · simp [(hreturn c hmem).1] at hblank
    · simp [(hreturn c hmem).2] at hmark
  refine ⟨⟨⟨gap, blanks, tail, hfiller, hblanks, isFiller_of_segments htail⟩, front, hnobrace,
    d.return_not_in hcompletes.runs_eq, hletter⟩, ?_⟩
  unfold withLining
  rw [hlined, hafter']
  generalize "return ".toList = word
  simp

/-! ### The phrase steps -/

theorem isFiller_eq_false {c : Char} (hc : isNameChar c = true) : isFiller c = false := by
  have hblank := isBlank_of_isNameChar hc
  have hmarks : c ≠ ';' ∧ c ≠ '\x7d' := by
    constructor
    all_goals
      rintro rfl
      exact absurd hc (by decide)
  simp [isFiller, hblank, hmarks]

theorem apart_of_isFiller {word : List Char} (hne : word ≠ [])
    (hword : ∀ c ∈ word, isNameChar c = true) {c : Char} (hc : isFiller c = true) (xs : List Char) :
    apart word (c :: xs) = true := by
  refine apart_of_not_mem hne (fun hmem => ?_) xs
  simp [isFiller_eq_false (hword c hmem)] at hc

theorem functionHead?_filler {c : Char} (hc : isFiller c = true) (cs : List Char) :
    functionHead? (c :: cs) = none := by
  have hword : ∀ c ∈ "function".toList, isNameChar c = true := by decide
  exact functionHead?_of_apart (apart_of_isFiller (by decide) hword hc []) cs

/-- The text between the opening brace and the semicolon in the standard layout. -/
def inner (f : Filling) : List Char :=
  "\n    ".toList ++ ("return ".toList ++ (d.result ++ f.blanks))

/-- The standard layout of a declaration, with the fillers around it. -/
def laidOut (f : Filling) : List Char :=
  f.gap ++ (d.tight.text ++ ' ' :: '\x7b' :: (d.inner f ++ ';' :: ('\n' :: '\x7d' :: f.tail)))

/-- The filling without a closing brace that belongs to the phrase. -/
def Filling.closed (f : Filling) : Filling :=
  { f with
    tail := skipOptional '\x7d' f.tail
    isFiller_of_mem_tail := fun c hc =>
      f.isFiller_of_mem_tail c ((skipOptional_suffix '\x7d' f.tail).subset hc) }

theorem Filling.gap_closed (f : Filling) : f.closed.gap = f.gap :=
  rfl

theorem opening_append (cs : List Char) :
    d.opening ++ cs = d.text ++ (d.beforeBrace.text ++ '\x7b' :: cs) := by
  unfold opening
  simp

theorem result_ne_nil : d.result ≠ [] := by
  obtain ⟨c, hc, -⟩ := d.result_last
  intro hnil
  simp [hnil] at hc

theorem not_mem_result_blanks (f : Filling) {c : Char} (hmark : isMark c = true)
    (hblank : isBlank c = false) : c ∉ d.result ++ f.blanks := by
  intro hmem
  rcases List.mem_append.mp hmem with hmem | hmem
  · simp [d.isMark_of_mem_result c hmem] at hmark
  · simp [f.isBlank_of_mem_blanks c hmem] at hblank

/-- The phrase of a declared function, and what is put in its place. -/
theorem returningFunction_eq (l : Lining) : returningFunction (d.withLining l) =
    some (braced d.tight.text ("return ".toList ++ (d.result ++ l.blanks) ++ [';']),
      (d.withLining l).length - l.closed.tail.length) := by
  have hresult : returnResult? (d.result ++ l.blanks ++ ';' :: l.tail) =
      some (d.result ++ l.blanks, l.tail) :=
    returnResult?_eq (by simp [d.result_ne_nil])
      (d.not_mem_result_blanks l.toFilling (by decide) (by decide)) l.tail
  have hfirst := firstReturn?_append l.not_mem_front l.return_not_in_front l.last_front hresult
  unfold returningFunction withLining
  rw [d.opening_append, d.functionHead?_append]
  simp only [Option.bind_eq_bind, Option.bind_some]
  rw [skipOptional_append d.beforeBrace.isBlank_of_mem (by decide), hfirst]
  simp only [Option.bind_some, Option.pure_def]
  rw [d.text_tight]
  rfl

theorem braced_tight (f : Filling) :
    braced d.tight.text ("return ".toList ++ (d.result ++ f.blanks) ++ [';']) =
      d.tight.text ++ ' ' :: '\x7b' :: (d.inner f ++ ';' :: ['\n', '\x7d']) := by
  have hopen : " \x7b\n    ".toList = ' ' :: '\x7b' :: "\n    ".toList := by decide
  unfold braced inner
  rw [hopen]
  generalize "return ".toList = word
  generalize "\n    ".toList = indent
  simp

/-- The phrase of a declared function ends where the rest of the tail starts. -/
theorem exists_withLining_eq (l : Lining) :
    ∃ phrase, phrase ≠ [] ∧ d.withLining l = phrase ++ l.closed.tail := by
  obtain ⟨skipped, hskipped⟩ := skipOptional_suffix '\x7d' l.tail
  refine ⟨d.opening ++ (l.front ++ ("return ".toList ++ (d.result ++ l.blanks ++ ';' :: skipped))),
    by simp [opening], ?_⟩
  unfold withLining Filling.closed
  conv_lhs => rw [← hskipped]
  generalize "return ".toList = word
  simp

theorem replaceMatches_returningFunction (l : Lining) :
    replaceMatches returningFunction (l.gap ++ d.withLining l) = d.laidOut l.closed := by
  have hnone : ∀ c, isFiller c = true → ∀ cs, returningFunction (c :: cs) = none := by
    intro c hc cs
    unfold returningFunction
    rw [functionHead?_filler hc]
    rfl
  have hphrase := d.returningFunction_eq l
  obtain ⟨phrase, hne, hsplit⟩ := d.exists_withLining_eq l
  rw [hsplit, List.length_append, Nat.add_sub_cancel] at hphrase
  rw [replaceMatches_append_of_forall fun c hc => hnone c (l.isFiller_of_mem_gap c hc), hsplit,
    replaceMatches_of_some hne hphrase,
    replaceMatches_of_forall fun c hc => hnone c (l.closed.isFiller_of_mem_tail c hc), d.braced_tight]
  have hinner : d.inner l.closed = d.inner l.toFilling := rfl
  unfold laidOut
  rw [hinner, Filling.gap_closed]
  simp

theorem not_mem_inner (f : Filling) {c : Char} (hmark : isMark c = true) (hblank : isBlank c = false) :
    c ∉ d.inner f := by
  have hindent : ∀ c ∈ "\n    ".toList, isBlank c = true := by decide
  have hword : ∀ c ∈ "return ".toList, isMark c = false := by decide
  unfold inner
  simp only [List.mem_append, not_or]
  refine ⟨fun hmem => ?_, fun hmem => ?_, ?_⟩
  · simp [hindent c hmem] at hblank
  · simp [hword c hmem] at hmark
  · simpa using d.not_mem_result_blanks f hmark hblank

/-- A phrase from a head on is left as it is in the standard layout. -/
theorem bracedStatement_inner (f : Filling) (start head tail : List Char) :
    bracedStatement (start ++ ' ' :: '\x7b' :: (d.inner f ++ ';' :: tail)) head
        (' ' :: '\x7b' :: (d.inner f ++ ';' :: tail)) =
      some (start ++ ' ' :: '\x7b' :: (d.inner f ++ [';']),
        (start ++ ' ' :: '\x7b' :: (d.inner f ++ [';'])).length) := by
  have hfirst := firstStatement?_brace (d.not_mem_inner f (by decide) (by decide)) tail
  have hbraced := bracedStatement_of_brace (start ++ ' ' :: '\x7b' :: (d.inner f ++ [';'])) head
    hfirst (by simp)
  rw [← hbraced]
  simp

theorem replaceMatches_plainFunction (f : Filling) :
    replaceMatches plainFunction (d.laidOut f) = d.laidOut f := by
  have hnone : ∀ c, isFiller c = true → ∀ cs, plainFunction (c :: cs) = none := by
    intro c hc cs
    unfold plainFunction
    rw [functionHead?_filler hc]
    rfl
  have hrest : ∀ c ∈ '\n' :: '\x7d' :: f.tail, isFiller c = true := by
    simp only [List.forall_mem_cons]
    exact ⟨by decide, by decide, f.isFiller_of_mem_tail⟩
  have hphrase : plainFunction (d.tight.text ++
      ' ' :: '\x7b' :: (d.inner f ++ ';' :: ('\n' :: '\x7d' :: f.tail))) =
      some (d.tight.text ++ ' ' :: '\x7b' :: (d.inner f ++ [';']),
        (d.tight.text ++ ' ' :: '\x7b' :: (d.inner f ++ [';'])).length) := by
    unfold plainFunction
    rw [d.tight.functionHead?_append]
    exact d.bracedStatement_inner f _ _ _
  have hsplit : d.tight.text ++ ' ' :: '\x7b' :: (d.inner f ++ ';' :: ('\n' :: '\x7d' :: f.tail)) =
      (d.tight.text ++ ' ' :: '\x7b' :: (d.inner f ++ [';'])) ++ '\n' :: '\x7d' :: f.tail := by
    simp
  unfold laidOut
  rw [hsplit] at hphrase ⊢
  rw [replaceMatches_append_of_forall fun c hc => hnone c (f.isFiller_of_mem_gap c hc),
    replaceMatches_of_some (by simp) hphrase, replaceMatches_of_forall fun c hc => hnone c (hrest c hc)]

/-! ### Guards in the standard layout -/

theorem isNameChar_of_mem_guard {word : List Char} (hword : word ∈ guardWords) :
    word ≠ [] ∧ ∀ c ∈ word, isNameChar c = true := by
  have hwords : ∀ word ∈ guardWords, word ≠ [] ∧ ∀ c ∈ word, isNameChar c = true := by decide
  exact hwords word hword

/-- No guard starts inside the fixed parts of the standard layout. -/
theorem apart_guard {word : List Char} (hword : word ∈ guardWords) :
    ∀ xs ∈ "function ".toList.tails ++ " \x7b\n    return ".toList.tails,
      xs = [] ∨ apart word xs = true := by
  have hwords : ∀ word ∈ guardWords, ∀ xs ∈ "function ".toList.tails ++
      " \x7b\n    return ".toList.tails, xs = [] ∨ apart word xs = true := by decide
  exact hwords word hword

theorem lead_append (f : Filling) (cs : List Char) :
    " \x7b\n    return ".toList ++ (d.result ++ (f.blanks ++ ';' :: cs)) =
      ' ' :: '\x7b' :: (d.inner f ++ ';' :: cs) := by
  have hlead : " \x7b\n    return ".toList =
      ' ' :: '\x7b' :: ("\n    ".toList ++ "return ".toList) := by decide
  unfold inner
  rw [hlead]
  generalize "return ".toList = word
  generalize "\n    ".toList = indent
  simp

/-- The standard layout, part by part. -/
theorem laidOut_eq (f : Filling) : d.laidOut f =
    f.gap ++ ("function ".toList ++ (d.name ++ ('(' :: (d.params ++ [')']) ++
      (" \x7b\n    return ".toList ++
        (d.result ++ (f.blanks ++ ';' :: ('\n' :: '\x7d' :: f.tail))))))) := by
  rw [d.lead_append]
  unfold laidOut
  rw [← d.text_tight]
  generalize "function ".toList = word
  simp

section Guards

variable {word : List Char} (hword : word ∈ guardWords)
include hword

theorem not_mem_guard {c : Char} (hc : isNameChar c = false) : c ∉ word := by
  intro hmem
  simp [(isNameChar_of_mem_guard hword).2 c hmem] at hc

/-- In the name a guard can only be its end, and then its statement has a brace. -/
theorem leavesAsIs_name (f : Filling) {xs : List Char} (hxs : xs <:+ d.name) (tail : List Char) :
    LeavesAsIs (guarded word) (xs ++ ('(' :: (d.params ++ ')' ::
      (' ' :: '\x7b' :: (d.inner f ++ ';' :: tail))))) := by
  have hopen : '(' ∉ word := not_mem_guard hword (by decide)
  cases hpre : word.isPrefixOf xs with
  | false =>
    have hnone : word.isPrefixOf (xs ++ ('(' :: (d.params ++ ')' ::
        (' ' :: '\x7b' :: (d.inner f ++ ';' :: tail))))) = false := by
      rw [isPrefixOf_append_cons hopen, hpre]
    exact .inl (guarded_eq_none (by simp [guardHead?, after?_eq_none hnone]))
  | true =>
    obtain ⟨ys, rfl⟩ := List.isPrefixOf_iff_prefix.mp hpre
    cases ys with
    | nil =>
      -- The name ends in the word, and the parameters look like its condition.
      rw [List.append_nil]
      by_cases hparams : d.params = []
      · exact .inl (guarded_eq_none (by rw [guardHead?_eq d.not_mem_params, if_pos hparams]))
      · have hguard := guardHead?_eq d.not_mem_params word
          (' ' :: '\x7b' :: (d.inner f ++ ';' :: tail))
        have hbraced := d.bracedStatement_inner f (word ++ '(' :: (d.params ++ [')']))
          (word ++ ' ' :: '(' :: d.params ++ [')']) tail
        refine .inr ⟨word ++ '(' :: (d.params ++ [')']) ++ ' ' :: '\x7b' :: (d.inner f ++ [';']),
          tail, by simp, by simp, ?_⟩
        unfold guarded
        rw [hguard, if_neg hparams, ← hbraced]
        simp
    | cons c ys =>
      -- The name goes on, so there is no parenthesis behind the word.
      have hc := d.isNameChar_of_mem c (hxs.subset (by simp))
      have hparen : c ≠ '(' := by
        rintro rfl
        exact absurd hc (by decide)
      refine .inl (guarded_eq_none ?_)
      rw [List.append_assoc]
      exact guardHead?_of_not_mem (isBlank_of_isNameChar hc) hparen (List.not_mem_nil (a := '('))

theorem guardHead?_params {xs : List Char} (hxs : xs <:+ '(' :: (d.params ++ [')'])) (hne : xs ≠ [])
    (ys : List Char) : guardHead? word (xs ++ ys) = none := by
  obtain ⟨hword_ne, -⟩ := isNameChar_of_mem_guard hword
  have hopen : '(' ∉ word := not_mem_guard hword (by decide)
  have hclose : ')' ∉ word := not_mem_guard hword (by decide)
  rcases List.suffix_cons_iff.mp hxs with rfl | hxs
  · exact guardHead?_of_apart (apart_of_not_mem hword_ne hopen _) ys
  · rcases suffix_append_cases hxs with hend | ⟨zs, -, hzs, rfl⟩
    · rcases List.suffix_cons_iff.mp hend with rfl | hnil
      · exact guardHead?_of_apart (apart_of_not_mem hword_ne hclose _) ys
      · exact absurd (List.suffix_nil.mp hnil) hne
    · rw [List.append_assoc, List.singleton_append]
      cases hpre : word.isPrefixOf zs with
      | false =>
        have hnone : word.isPrefixOf (zs ++ ')' :: ys) = false := by
          rw [isPrefixOf_append_cons hclose, hpre]
        simp [guardHead?, after?_eq_none hnone]
      | true =>
        obtain ⟨us, rfl⟩ := List.isPrefixOf_iff_prefix.mp hpre
        rw [List.append_assoc]
        refine guardHead?_of_not_mem (by decide) (by decide) fun hmem => ?_
        exact (d.params_unbroken _ (hzs.subset (by simp [hmem]))).2.1 rfl

theorem leavesAsIs_filler {c : Char} (hc : isFiller c = true) (cs : List Char) :
    LeavesAsIs (guarded word) (c :: cs) := by
  obtain ⟨hne, hnames⟩ := isNameChar_of_mem_guard hword
  exact .inl (guarded_eq_none (guardHead?_of_apart (apart_of_isFiller hne hnames hc []) cs))

theorem leavesAsIs_fixed {xs : List Char} (hne : xs ≠ [])
    (hxs : xs ∈ "function ".toList.tails ++ " \x7b\n    return ".toList.tails) (ys : List Char) :
    LeavesAsIs (guarded word) (xs ++ ys) := by
  rcases apart_guard hword xs hxs with hnil | hapart
  · exact absurd hnil hne
  · exact .inl (guarded_eq_none (guardHead?_of_apart hapart ys))

/-- The standard layout has no guard whose statement lacks braces. -/
theorem untouched_guarded (f : Filling) : Untouched (guarded word) (d.laidOut f) := by
  have hfiller : ∀ c ∈ f.blanks ++ ';' :: ('\n' :: '\x7d' :: f.tail), isFiller c = true := by
    intro c hc
    simp only [List.mem_append, List.mem_cons] at hc
    rcases hc with hmem | rfl | rfl | rfl | hmem
    · simp [isFiller, f.isBlank_of_mem_blanks c hmem]
    · decide
    · decide
    · decide
    · exact f.isFiller_of_mem_tail c hmem
  rw [d.laidOut_eq]
  -- part by part, from the last
  have hend : Untouched (guarded word) (f.blanks ++ ';' :: ('\n' :: '\x7d' :: f.tail)) := by
    intro v hv hne
    cases v with
    | nil => contradiction
    | cons c v => exact leavesAsIs_filler hword (hfiller c (hv.subset List.mem_cons_self)) v
  refine .append (.append (.append (.append (.append (.append hend ?result) ?lead) ?params) ?name)
    ?function) ?filler
  case result =>
    intro zs hzs _
    have hnone := d.guardHead?_result word hword zs hzs
    refine .inl (guarded_eq_none (guardHead?_append (fun c hc => ?_) hnone))
    have hc := hfiller c hc
    refine ⟨fun hmem => ?_, ?_, ?_⟩
    · simp [isFiller_eq_false ((isNameChar_of_mem_guard hword).2 c hmem)] at hc
    all_goals
      rintro rfl
      exact absurd hc (by decide)
  case lead =>
    intro zs hzs hne
    exact leavesAsIs_fixed hword hne (List.mem_append_right _ ((List.mem_tails _ _).mpr hzs)) _
  case params =>
    intro zs hzs hne
    exact .inl (guarded_eq_none (d.guardHead?_params hword hzs hne _))
  case name =>
    intro zs hzs _
    rw [d.lead_append]
    simpa using d.leavesAsIs_name hword f hzs ('\n' :: '\x7d' :: f.tail)
  case function =>
    intro zs hzs hne
    exact leavesAsIs_fixed hword hne (List.mem_append_left _ ((List.mem_tails _ _).mpr hzs)) _
  case filler =>
    intro zs hzs hne
    cases zs with
    | nil => contradiction
    | cons c zs =>
      exact leavesAsIs_filler hword (f.isFiller_of_mem_gap c (hzs.subset List.mem_cons_self)) _

end Guards

/-! ### The standard layout of a declaration -/

/-- The only opening brace in the standard layout comes after a closing parenthesis. -/
theorem not_infix_laidOut (f : Filling) {front : List Char} {c : Char} (hc : c ≠ ')') :
    ¬ (front ++ [c, ' ', '\x7b']) <:+: d.laidOut f := by
  rintro ⟨before, after, heq⟩
  have hfiller : isFiller '\x7b' = false := by decide
  have hbefore : '\x7b' ∉ f.gap ++ (d.tight.text ++ [' ']) := by
    simp only [List.mem_append, List.mem_singleton, not_or]
    refine ⟨fun hmem => ?_, fun hmem => ?_, by decide⟩
    · simp [f.isFiller_of_mem_gap _ hmem] at hfiller
    · exact absurd (d.tight.isMark_of_mem_text _ hmem) (by decide)
  have hafter : '\x7b' ∉ d.inner f ++ ';' :: ('\n' :: '\x7d' :: f.tail) := by
    simp only [List.mem_append, List.mem_cons, not_or]
    refine ⟨d.not_mem_inner f (by decide) (by decide), by decide, by decide, by decide,
      fun hmem => ?_⟩
    simp [f.isFiller_of_mem_tail _ hmem] at hfiller
  have hsplit : (f.gap ++ (d.tight.text ++ [' '])) ++
      '\x7b' :: (d.inner f ++ ';' :: ('\n' :: '\x7d' :: f.tail)) =
      (before ++ (front ++ [c, ' '])) ++ '\x7b' :: after := by
    unfold laidOut at heq
    simpa using heq.symm
  obtain ⟨hends, -, -⟩ := (List.append_cons_inj_of_notMem hbefore hafter).mp hsplit
  -- before the brace stand a parenthesis and a space in one text, `c` and a space in the other
  have hspace : (f.gap ++ d.tight.text) ++ [' '] = (before ++ (front ++ [c])) ++ [' '] := by
    simpa using hends
  have hlast := congrArg List.getLast? (List.append_cancel_right hspace)
  rw [List.getLast?_append, d.tight.getLast?_text, ← List.append_assoc, List.getLast?_concat] at hlast
  exact hc (by simpa using hlast.symm)

theorem unmarkBlocks_laidOut (f : Filling) : unmarkBlocks (d.laidOut f) = d.laidOut f := by
  have hseq : "BLOCK SEQ \x7b".toList = "BLOCK SE".toList ++ ['Q', ' ', '\x7b'] := by decide
  have hpar : "BLOCK PAR \x7b".toList = "BLOCK PA".toList ++ ['R', ' ', '\x7b'] := by decide
  unfold unmarkBlocks
  rw [hseq, hpar, substitute_eq_self (d.not_infix_laidOut f (by decide)),
    substitute_eq_self (d.not_infix_laidOut f (by decide))]

theorem addBraces_withLining (l : Lining) :
    addBraces (l.gap ++ d.withLining l) = d.laidOut l.closed := by
  have hif : "if".toList ∈ guardWords := List.mem_cons_self
  have hwhile : "while".toList ∈ guardWords := .tail _ List.mem_cons_self
  unfold addBraces
  rw [d.replaceMatches_returningFunction, d.replaceMatches_plainFunction,
    (d.untouched_guarded hif _).replaceMatches_eq, (d.untouched_guarded hwhile _).replaceMatches_eq]

theorem chars_eq_cons : ∃ cs, d.chars = 'f' :: cs := by
  obtain ⟨cs, hcs⟩ := d.text_eq_cons
  refine ⟨cs ++ (d.beforeBrace.text ++ '\x7b' :: (d.body ++ (d.beforeReturn.text ++ d.ending))), ?_⟩
  rw [chars, d.opening_append, hcs, List.cons_append]

/-- A declaration is no block, so only the lines and phrases matter. -/
theorem standardiseChars_chars : standardiseChars d.chars = unmarkBlocks (addBraces d.lined) := by
  obtain ⟨cs, hcs⟩ := d.chars_eq_cons
  have hfirst : substitute ['\r', '\n'] ['\n'] d.chars =
      'f' :: substitute ['\r', '\n'] ['\n'] cs := by
    rw [hcs]
    rfl
  unfold standardiseChars lined
  simp only []
  rw [hfirst]
  rfl

/-- **The standard layout of a declaration**: the head, and the `return` in braces. -/
theorem exists_standardiseChars : ∃ f, standardiseChars d.chars = d.laidOut f := by
  obtain ⟨l, hlined⟩ := d.exists_lined
  refine ⟨l.closed, ?_⟩
  rw [d.standardiseChars_chars, hlined, d.addBraces_withLining, d.unmarkBlocks_laidOut]

end Declaration

/-! ### The content of a declaration -/

theorem isLayout_of_isFiller {c : Char} (hc : Declaration.isFiller c = true) : isLayout c = true := by
  simp only [Declaration.isFiller, Bool.or_eq_true, beq_iff_eq] at hc
  rcases hc with (hblank | rfl) | rfl
  · exact isLayout_of_isBlank hblank
  · decide
  · decide

theorem contentFrom_gap_append {gap : List Char} (hgap : ∀ c ∈ gap, isBlank c = true) (cs : List Char) :
    contentFrom none (gap ++ cs) = contentFrom none cs :=
  contentFrom_layout_append (fun c hc => isLayout_of_isBlank (hgap c hc)) cs

/-- A closed text, blanks and a boundary. -/
theorem contentFrom_append_gap {xs gap : List Char} (hxs : Closed xs)
    (hgap : ∀ c ∈ gap, isBlank c = true) {c : Char} (hc : isBoundary c = true) (cs : List Char) :
    contentFrom none (xs ++ (gap ++ c :: cs)) =
      contentFrom none xs ++ (contentFrom none [c] ++ contentFrom none cs) := by
  rw [hxs.contentFrom_append, contentFrom_gap_append hgap, contentFrom_boundary hc]
  intro b hb
  cases gap with
  | nil =>
    obtain rfl : c = b := by simpa using hb
    exact hc
  | cons g gap =>
    obtain rfl : g = b := by simpa using hb
    exact isBoundary_of_isBlank (hgap g List.mem_cons_self)

/-- The content of the head of a function. -/
def Head.textContent (h : Head) : List Token :=
  contentFrom none "function".toList ++ (contentFrom none h.name ++
    (contentFrom none ['('] ++ (contentFrom none h.params ++ contentFrom none [')'])))

theorem Head.contentFrom_text_append (h : Head) (hparams : Closed h.params) (cs : List Char) :
    contentFrom none (h.text ++ cs) = h.textContent ++ contentFrom none cs := by
  have hfunction : Closed "function".toList := closed_of_isPlain (by decide)
  have hname : Closed h.name := by
    refine closed_of_isPlain (isPlain_of_forall fun c hc => ?_)
    have hc := h.isNameChar_of_mem c hc
    refine ⟨?_, ?_, ?_⟩
    all_goals
      rintro rfl
      exact absurd hc (by decide)
  have hgap : ∀ cs, ∀ c ∈ (h.beforeName.text ++ cs).head?, isBoundary c = true := by
    intro cs c hc
    cases hbefore : h.beforeName.text with
    | nil => exact absurd hbefore h.beforeName_ne_nil
    | cons b gap =>
      rw [hbefore] at hc
      obtain rfl : b = c := by simpa using hc
      exact isBoundary_of_isBlank (h.beforeName.isBlank_of_mem b (by simp [hbefore]))
  have hclose : contentFrom none (h.params ++ ')' :: cs) =
      contentFrom none h.params ++ (contentFrom none [')'] ++ contentFrom none cs) :=
    contentFrom_append_gap hparams (List.forall_mem_nil _) (by decide) cs
  unfold textContent
  rw [h.text_append, hfunction.contentFrom_append (hgap _),
    contentFrom_gap_append h.beforeName.isBlank_of_mem,
    contentFrom_append_gap hname h.afterName.isBlank_of_mem (by decide), hclose]
  simp only [List.append_assoc]

namespace Declaration

variable (d : Declaration)

theorem contentFrom_body_append (cs : List Char) : contentFrom none (d.body ++ cs) =
    d.statements.flatMap (contentFrom none) ++ contentFrom none cs := by
  have hclosed := d.closed_statement
  unfold body
  generalize d.statements = ss at hclosed ⊢
  induction ss with
  | nil => rfl
  | cons s ss ih =>
    rw [List.forall_mem_cons] at hclosed
    simp only [List.flatMap_cons, List.append_assoc, List.cons_append, List.nil_append]
    rw [hclosed.1 none ';' _ (by decide), contentFrom_isLayout (by decide), ih hclosed.2]

/-- The content of the `return`, wherever it is laid out. -/
theorem contentFrom_return {blanks tail : List Char} (hblanks : ∀ c ∈ blanks, isBlank c = true)
    (htail : ∀ c ∈ tail, isLayout c = true) :
    contentFrom none ("return ".toList ++ (d.result ++ (blanks ++ ';' :: tail))) =
      contentFrom none "return".toList ++ contentFrom none d.result := by
  have hword : "return ".toList = "return".toList ++ [' '] := by decide
  have hreturn : Closed "return".toList := closed_of_isPlain (by decide)
  have hnil : contentFrom none tail = [] := by
    rw [← List.append_nil tail, contentFrom_layout_append htail, contentFrom_nil]
  have hsemi : contentFrom none [';'] = [] := by
    rw [contentFrom_isLayout (by decide), contentFrom_nil]
  rw [hword, List.append_assoc, List.singleton_append, hreturn none ' ' _ (by decide),
    contentFrom_blank (by decide), contentFrom_append_gap d.closed_result hblanks (by decide), hnil,
    hsemi, List.append_nil, List.append_nil]

theorem contentFrom_chars : contentFrom none d.chars = d.textContent ++
    (d.statements.flatMap (contentFrom none) ++
      (contentFrom none "return".toList ++ contentFrom none d.result)) := by
  have hend : ∀ c ∈ d.beforeEnd.text ++ ['\x7d'], isLayout c = true := by
    intro c hc
    rcases List.mem_append.mp hc with hmem | hmem
    · exact isLayout_of_isBlank (d.beforeEnd.isBlank_of_mem c hmem)
    · rw [List.mem_singleton.mp hmem]
      decide
  unfold chars
  rw [d.opening_append, d.contentFrom_text_append d.closed_params,
    contentFrom_gap_append d.beforeBrace.isBlank_of_mem, contentFrom_isLayout (by decide),
    d.contentFrom_body_append, contentFrom_gap_append d.beforeReturn.isBlank_of_mem]
  unfold ending
  rw [d.contentFrom_return d.afterResult.isBlank_of_mem hend]

theorem contentFrom_laidOut (f : Filling) : contentFrom none (d.laidOut f) = d.textContent ++
    (contentFrom none "return".toList ++ contentFrom none d.result) := by
  have hindent : ∀ c ∈ "\n    ".toList, isBlank c = true := by decide
  have hend : ∀ c ∈ '\n' :: '\x7d' :: f.tail, isLayout c = true := by
    simp only [List.forall_mem_cons]
    exact ⟨by decide, by decide, fun c hc => isLayout_of_isFiller (f.isFiller_of_mem_tail c hc)⟩
  unfold laidOut inner
  rw [contentFrom_layout_append (fun c hc => isLayout_of_isFiller (f.isFiller_of_mem_gap c hc)),
    d.tight.contentFrom_text_append d.closed_params, contentFrom_blank (by decide),
    contentFrom_isLayout (by decide), List.append_assoc, contentFrom_gap_append hindent,
    List.append_assoc, List.append_assoc, d.contentFrom_return f.isBlank_of_mem_blanks hend]
  rfl

theorem content_source : content d.source = d.textContent ++ (d.statements.flatMap (contentFrom none) ++
    (contentFrom none "return".toList ++ contentFrom none d.result)) := by
  unfold source
  rw [content_eq, String.toList_ofList, d.contentFrom_chars]

theorem content_standardise : content (standardise d.source) = d.textContent ++
    (contentFrom none "return".toList ++ contentFrom none d.result) := by
  obtain ⟨f, hchars⟩ := d.exists_standardiseChars
  unfold standardise source
  rw [content_eq, String.toList_ofList, String.toList_ofList, hchars, d.contentFrom_laidOut]

end Declaration

/-- **The standard layout of a function keeps its tokens exactly when there are none before the
`return`.**  Semicolons and braces apart, the standard layout of a function has the tokens of the
function without the statements before the `return`: all of them are lost. -/
theorem content_standardise_iff (d : Declaration) :
    content (standardise d.source) = content d.bare.source ∧
      (content (standardise d.source) = content d.source ↔
        ∀ s ∈ d.statements, content (String.ofList s) = []) := by
  have hstatement : ∀ s, content (String.ofList s) = contentFrom none s := by
    intro s
    rw [content_eq, String.toList_ofList]
  constructor
  · rw [d.content_standardise, d.bare.content_source]
    rfl
  · simp only [hstatement]
    rw [d.content_standardise, d.content_source, List.append_cancel_left_eq, List.self_eq_append_left,
      List.flatMap_eq_nil_iff]

/-- A function with a statement before its `return`. -/
def Declaration.sample : Declaration where
  name := "f".toList
  params := "x".toList
  beforeName := .space
  afterName := .empty
  name_ne_nil := by decide
  isNameChar_of_mem := by decide
  beforeName_ne_nil := LineGap.space_ne_nil
  params_unbroken := by decide
  statements := ["\n    y = x + 1".toList]
  result := "y".toList
  beforeBrace := .space
  beforeReturn := ⟨"\n    ".toList, by decide⟩
  afterResult := .empty
  beforeEnd := ⟨['\n'], by decide⟩
  closed_params := closed_of_isPlain (by decide)
  not_mem_statement := by decide
  not_return_suffix := by decide
  closed_statement := by
    intro s hs
    rw [List.mem_singleton.mp hs]
    exact closed_of_isPlain (by decide)
  isMark_of_mem_result := by decide
  result_last := ⟨'y', by decide⟩
  closed_result := closed_of_isPlain (by decide)
  guardHead?_result := by
    have htails : ∀ word ∈ guardWords, ∀ cs ∈ "y".toList.tails, guardHead? word cs = none := by decide
    exact fun word hword cs hcs => htails word hword cs ((List.mem_tails _ _).mpr hcs)

example : Declaration.sample.source = "function f(x) \x7b\n    y = x + 1;\n    return y;\n\x7d" := by
  decide

/-- The function keeps the tokens of its head and its `return` only, and without the statement it
keeps all of them. -/
theorem content_sample_bare :
    content (standardise Declaration.sample.source) = content Declaration.sample.bare.source ∧
      content (standardise Declaration.sample.source) ≠ content Declaration.sample.source ∧
      content (standardise Declaration.sample.bare.source) =
        content Declaration.sample.bare.source := by
  obtain ⟨hbare, hiff⟩ := content_standardise_iff Declaration.sample
  refine ⟨hbare, fun hkept => ?_, ?_⟩
  · have hstatement := hiff.mp hkept _ (List.mem_singleton.mpr rfl)
    revert hstatement
    decide +kernel
  · exact (content_standardise_iff Declaration.sample.bare).2.mpr (List.forall_mem_nil _)

/-- The statement before the `return` is lost. -/
theorem content_sample_ne :
    content (standardise Declaration.sample.source) ≠ content Declaration.sample.source := by
  decide +kernel

end SeqPar.Layout
