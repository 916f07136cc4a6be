import SeqPar.Proofs.Channels
import SeqPar.Proofs.SignedLiterals
import SeqPar.Proofs.SortedTriples

/-!
# Numbers as texts

A program hands numbers on as texts: it writes them, and another program reads them as lines of its
input, receives them as messages or converts them.  All three readings look for the number in one way.
A whole number comes back from its written form, as long as its digits are few enough for it to have
one.

But a line is read to its end, and a message is not: one call gets 2048 bytes of it at most.  A longer
text is received as its first bytes are.  A long number is thus received as its leading digits, without
any fault, and of a text with a character across the cut nothing is received.

## Main definitions

* `Prints` — the line that `output` writes.
* `IsLine` — a text that is read as one line.
* `ReadAs`, `ReceivedAs`, `ConvertsTo` — what `input`, `receive` and `to_number` make of a text.
* `FirstPiece` — the part of a text that one call gets.

## Main results

* `Number.readInt_writeInt` — **a whole number is read back from its text.**
* `Prints.of_short`, `isLine_of_not_mem` — what is written, and that it is a line.
* `readAs_iff`, `receivedAs_iff` — a text is read as a whole, and received as its first piece is read.
* `receivedAs_writeInt` — **a whole number is received as its leading digits.**
* `text_transfer` — which numbers survive the transfer, and where all readings of a text are one.
-/

namespace SeqPar

open Exec Text Number

/-! ### Whole numbers from their texts -/

/-- A minus sign in front of digits. -/
theorem IsNumeral.spellsDigits_minus {d : String} (h : IsNumeral d) :
    SpellsDigits ("-" ++ d) true (d.toList.filterMap digitValue?) := by
  obtain ⟨-, -, -, hds⟩ := h.spellsDigits
  have hblank : ∀ c ∈ '-' :: d.toList, isBlank c = false := by
    refine List.forall_mem_cons.mpr ⟨by decide, fun c hc => ?_⟩
    exact (Lexeme.not_special_of_isDigit (h.2 c hc)).1
  refine ⟨d.toList, ?_, takeDigits_of_isDigit h.2, hds⟩
  rw [String.toList_append]
  show takeSign (trimNumber ('-' :: d.toList)) = _
  rw [trimNumber_of_not_blank hblank]
  rfl

namespace Number

theorem digitValue?_of_isDigit {c : Char} (h : c.isDigit = true) :
    digitValue? c = some (c.toNat - '0'.toNat) := by
  have hrange : 48 ≤ c.toNat ∧ c.toNat ≤ 57 := Char.isDigit_iff_toNat.mp h
  -- the zero of ASCII is the first in the list
  rw [digitValue?, zeroCodes, List.find?_cons_of_pos (by simp; omega)]
  rfl

/-- The values of the digits of a number. -/
theorem filterMap_toDigits (n : Nat) : (Nat.toDigits 10 n).filterMap digitValue? =
    (Nat.toDigits 10 n).map fun c => c.toNat - '0'.toNat := by
  rw [← List.filterMap_eq_map]
  exact List.filterMap_congr fun c hc => digitValue?_of_isDigit (isDigit_of_mem_toDigits hc)

theorem ofDigits_toDigits (n : Nat) : ofDigits ((Nat.toDigits 10 n).filterMap digitValue?) = n := by
  rw [filterMap_toDigits, ofDigits, List.foldl_map]
  exact Nat.ofDigitChars_ten_toDigits

theorem isNumeral_toDigits (n : Nat) : IsNumeral (String.ofList (Nat.toDigits 10 n)) := by
  rw [IsNumeral, String.toList_ofList]
  refine ⟨Nat.toDigits_ne_nil, fun c hc => ?_⟩
  rw [isDigit, digitValue?_of_isDigit (isDigit_of_mem_toDigits hc)]
  rfl

/-- The text of a whole number is its sign and its digits. -/
theorem spellsDigits_writeInt (n : Int) : SpellsDigits (writeInt n) (decide (n < 0))
    ((Nat.toDigits 10 n.natAbs).filterMap digitValue?) := by
  have hnumeral := isNumeral_toDigits n.natAbs
  rw [writeInt]
  by_cases hn : n < 0
  · have hspells := hnumeral.spellsDigits_minus
    rw [String.toList_ofList] at hspells
    rwa [decide_eq_true hn, if_pos hn]
  · have hspells := hnumeral.spellsDigits
    rw [String.toList_ofList] at hspells
    rwa [decide_eq_false hn, if_neg hn]

/-- Digits within the limit are read as the number that they denote. -/
theorem SpellsDigits.readInt {s : String} {negative : Bool} {ds : List Nat}
    (h : SpellsDigits s negative ds) (hlength : ds.length ≤ intDigitLimit) :
    readInt s = .value (withSign negative (ofDigits ds)) := by
  obtain ⟨body, hsign, hdigits, hds⟩ := h
  obtain ⟨d, ds, rfl⟩ := List.exists_cons_of_ne_nil hds
  rw [Number.readInt, hsign]
  dsimp only
  rw [hdigits]
  dsimp only
  rw [if_neg (Nat.not_lt_of_le hlength)]
  rfl

/-- **A whole number is read back from its text.** -/
theorem readInt_writeInt {n : Int} (h : digitCount n ≤ intDigitLimit) :
    readInt (writeInt n) = .value n := by
  have hlength : ((Nat.toDigits 10 n.natAbs).filterMap digitValue?).length ≤ intDigitLimit := by
    rwa [filterMap_toDigits, List.length_map]
  rw [(spellsDigits_writeInt n).readInt hlength, ofDigits_toDigits, withSign]
  by_cases hn : n < 0
  · rw [decide_eq_true hn, if_pos rfl, Int.ofNat_natAbs_of_nonpos (Int.le_of_lt hn), Int.neg_neg]
  · rw [decide_eq_false hn, if_neg Bool.false_ne_true, Int.natAbs_of_nonneg (Int.not_lt.mp hn)]

end Number

/-! ### The first digits of a number -/

namespace Number

/-- A number without its last digits, which are as many as the zeros of the divisor. -/
theorem exists_toDigits_div {n k : Nat} (h : k < (Nat.toDigits 10 n).length) :
    ∃ last : List Char, last.length = k ∧
      Nat.toDigits 10 n = Nat.toDigits 10 (n / powTen k) ++ last := by
  induction k with
  | zero => exact ⟨[], rfl, by rw [List.append_nil, powTen, Nat.pow_eq, Nat.pow_zero, Nat.div_one]⟩
  | succ k ih =>
    obtain ⟨last, hlast, hdigits⟩ := ih (Nat.lt_of_succ_lt h)
    -- What is left has two digits at least, and the last of them goes.
    have hten : 10 ≤ n / powTen k := by
      by_contra hsmall
      rw [hdigits, Nat.toDigits_of_lt_base (by omega), List.length_append, hlast] at h
      simp only [List.length_singleton] at h
      omega
    refine ⟨(n / powTen k % 10).digitChar :: last, congrArg Nat.succ hlast, ?_⟩
    rw [hdigits, Nat.toDigits_of_base_le (by decide) hten, Nat.div_div_eq_div_mul, ← powTen_succ,
      List.append_assoc]
    rfl

theorem powTen_le_of_lt_length {n k : Nat} (hn : 0 < n) (h : k < (Nat.toDigits 10 n).length) :
    powTen k ≤ n := by
  cases k with
  | zero => exact hn
  | succ k =>
    by_contra hsmall
    have hshort := (Nat.length_toDigits_le_iff (by decide) (Nat.succ_pos k)).mpr
      (Nat.lt_of_not_le hsmall)
    omega

theorem digitCount_powTen (k : Nat) : digitCount (powTen k) = k + 1 := by
  show (Nat.toDigits 10 (powTen k)).length = k + 1
  refine Nat.le_antisymm ?_ (Nat.lt_of_not_le fun hshort => ?_)
  · refine (Nat.length_toDigits_le_iff (by decide) (Nat.succ_pos k)).mpr ?_
    exact Nat.pow_lt_pow_right (by decide) (Nat.lt_succ_self k)
  · cases k with
    | zero => exact Nat.toDigits_ne_nil (List.eq_nil_of_length_eq_zero (Nat.le_zero.mp hshort))
    | succ k =>
      have hless := (Nat.length_toDigits_le_iff (by decide) (Nat.succ_pos k)).mp hshort
      exact Nat.lt_irrefl _ hless

theorem tdiv_powTen_succ (k : Nat) : (powTen (k + 1) : Int).tdiv (powTen 1) = powTen k :=
  congrArg Int.ofNat (Nat.mul_div_cancel (powTen k) (by decide : 0 < 10))

variable {n : Int} {k : Nat}

/-- The text of a whole number is that of its leading digits and then the others. -/
theorem exists_writeInt_tdiv (h : k < digitCount n) : ∃ last : List Char, last.length = k ∧
    (writeInt n).toList = (writeInt (n.tdiv (powTen k))).toList ++ last := by
  obtain ⟨last, hlast, hdigits⟩ := exists_toDigits_div h
  refine ⟨last, hlast, ?_⟩
  rw [toList_writeInt, toList_writeInt, hdigits, Int.natAbs_tdiv, Int.natAbs_natCast]
  -- The sign is kept, since some digit other than zero is.
  have hsign : n.tdiv (powTen k) < 0 ↔ n < 0 := by
    by_cases hn : n < 0
    · have hpos : 0 < n.natAbs := Int.natAbs_pos.mpr (Int.ne_of_lt hn)
      have hquotient : 0 < n.natAbs / powTen k :=
        Nat.div_pos (powTen_le_of_lt_length hpos h) (powTen_pos k)
      have hneg : n.tdiv (powTen k) = -((n.natAbs / powTen k : Nat) : Int) := by
        have hn' : n = -(n.natAbs : Int) := by omega
        nth_rewrite 1 [hn']
        exact Int.neg_tdiv _ _
      omega
    · have hnonneg := Int.tdiv_nonneg (Int.not_lt.mp hn) (Int.natCast_nonneg (powTen k))
      omega
  simp only [hsign]
  split
  · exact List.cons_append.symm
  · rfl

theorem digitCount_tdiv_le (h : k < digitCount n) : digitCount (n.tdiv (powTen k)) ≤ digitCount n := by
  obtain ⟨last, -, hdigits⟩ := exists_toDigits_div h
  rw [digitCount, digitCount, hdigits, List.length_append, Int.natAbs_tdiv, Int.natAbs_natCast]
  exact Nat.le_add_right _ _

theorem utf8Size_of_isDigit {c : Char} (h : c.isDigit = true) : c.utf8Size = 1 := by
  have hrange : 48 ≤ c.toNat ∧ c.toNat ≤ 57 := Char.isDigit_iff_toNat.mp h
  exact Char.utf8Size_eq_one_iff.mpr (UInt32.le_iff_toNat_le.mpr (by have := hrange.2; simp; omega))

end Number

theorem utf8ByteSize_ofList_of_ascii {cs : List Char} (h : ∀ c ∈ cs, c.utf8Size = 1) :
    (String.ofList cs).utf8ByteSize = cs.length := by
  induction cs with
  | nil => rfl
  | cons c cs ih =>
    obtain ⟨hc, hcs⟩ := List.forall_mem_cons.mp h
    have hcons : String.ofList (c :: cs) = String.singleton c ++ String.ofList cs := by simp
    rw [hcons, String.utf8ByteSize_append, String.utf8ByteSize_singleton, hc, ih hcs,
      List.length_cons, Nat.add_comm]

theorem utf8ByteSize_writeInt (n : Int) :
    (writeInt n).utf8ByteSize = (writeInt n).toList.length := by
  have hascii : ∀ c ∈ (writeInt n).toList, c.utf8Size = 1 := by
    intro c hc
    rw [toList_writeInt] at hc
    split at hc
    · obtain rfl | hdigit := List.mem_cons.mp hc
      · decide
      · exact utf8Size_of_isDigit (isDigit_of_mem_toDigits hdigit)
    · exact utf8Size_of_isDigit (isDigit_of_mem_toDigits hc)
  rw [← utf8ByteSize_ofList_of_ascii hascii, String.ofList_toList]

theorem length_writeInt (n : Int) :
    (writeInt n).toList.length = digitCount n + if n < 0 then 1 else 0 := by
  rw [toList_writeInt, digitCount]
  split <;> rfl

theorem intOfText_writeInt {n : Int} (h : digitCount n ≤ intDigitLimit) :
    intOfText (writeInt n) = .ok n := by
  rw [intOfText, readInt_writeInt h]

/-! ### Writing a text and reading it -/

/-- The call of `output` with this value writes this text in a line of its own.  The user may interrupt
it then, which ends the program. -/
def Prints (v : Value) (text : String) : Prop :=
  ∀ m : Machine, ∃ m' : Machine, m'.output = m.output ++ (text ++ "\n") ∧
    Builtin.call .output [v] m =
      if m.outputsLeft = some 1 then .error (.exit 0) m' else .ok .nothing m'

/-- A text that is read as one line, whatever follows it. -/
def IsLine (t : String) : Prop :=
  ∀ more, inputLines (t ++ "\n" ++ more) = t :: inputLines more

/-- A line of input stands for the value `v`. -/
def ReadAs (t : String) (v : Value) : Prop :=
  ∀ (m : Machine) (rest : List String), m.input = t :: rest →
    Builtin.call .input [] m = .ok v { m with input := rest }

/-- A message that is not replayed stands for the value `v` on an open channel. -/
def ReceivedAs (t : String) (v : Value) : Prop :=
  ∀ (m : Machine) (name : String) (socket : Nat) (rest : List ByteArray),
    m.connections.get? name = some socket → m.network.isShut socket = false →
    (m.network.peer socket).replays = false →
    (m.network.peer socket).messages = t.toByteArray :: rest →
    Builtin.call .receive [.text name] m = .ok v (m.asked socket)

/-- The text `p` is what one call gets of the text `t`: its first bytes, as many as are asked for. -/
def FirstPiece (t p : String) : Prop :=
  p.toList <+: t.toList ∧ p.utf8ByteSize = min t.utf8ByteSize Network.messageSize

/-- The text converts to the value `v`. -/
def ConvertsTo (t : String) (v : Value) : Prop :=
  ∀ m : Machine, Builtin.call .toNumber [.text t] m = .ok v m

/-- The text converts to no number. -/
def ConvertsNot (t : String) : Prop :=
  ∃ fault : Fault, fault.kind = .execution ∧
    ∀ m : Machine, Builtin.call .toNumber [.text t] m = .error (.fault fault) m

/-- The machine with one call of `output` less before the user interrupts. -/
def Machine.counted (m : Machine) : Machine :=
  { m with outputsLeft := m.outputsLeft.map (· - 1) }

/-- The user interrupts the last of the calls that they let pass. -/
theorem outputDone_apply (m : Machine) : outputDone m =
    if m.outputsLeft = some 1 then .error .interrupted m.counted else .ok () m.counted := by
  obtain ⟨scopes, functions, connections, input, interrupts, output, left, network⟩ := m
  cases left with
  | none => rfl
  | some k =>
    by_cases hlast : k = 1
    · subst hlast
      rfl
    · rw [if_neg fun h => hlast (Option.some.inj h)]
      show (if k = 1 then throw .interrupted else pure () : Exec Unit) _ = _
      rw [if_neg hlast]
      rfl

/-- What has a display form is written. -/
theorem Prints.of_short {v : Value} (h : (Builtin.shown v).tooLong = false) :
    Prints v (Builtin.shown v).display := by
  intro m
  let written : Machine := { m with output := m.output ++ (Builtin.shown v).display ++ "\n" }
  have hwrite : writeValues [Builtin.shown v] m = .ok () written := by
    rw [writeValues, display, h]
    rfl
  refine ⟨written.counted, String.append_assoc, ?_⟩
  show exitOnInterrupt (writeValues [Builtin.shown v] >>= fun _ => outputDone >>= fun _ =>
    pure Value.nothing) m = _
  rw [exitOnInterrupt, bind_of_ok _ hwrite]
  have hdone := outputDone_apply written
  by_cases hlast : m.outputsLeft = some 1
  · rw [if_pos hlast] at hdone ⊢
    rw [bind_of_error _ hdone]
  · rw [if_neg hlast] at hdone ⊢
    rw [bind_of_ok _ hdone]
    rfl

/-- `output` writes one text for a value. -/
theorem Prints.unique {v : Value} {text text' : String} (h : Prints v text) (h' : Prints v text') :
    text = text' := by
  obtain ⟨m, houtput, hcall⟩ := h default
  obtain ⟨m', houtput', hcall'⟩ := h' default
  have hsame : m = m' := by
    have hboth := hcall.symm.trans hcall'
    cases hboth
    rfl
  rw [hsame, houtput'] at houtput
  have hchars := congrArg String.toList houtput
  rw [String.toList_append, String.toList_append, String.toList_append, String.toList_append]
    at hchars
  exact String.toList_inj.mp (List.append_cancel_right (List.append_cancel_left hchars)).symm

theorem isLine_of_not_mem {t : String} (h : '\n' ∉ t.toList) : IsLine t := by
  intro more
  have hchars : (t ++ "\n" ++ more).toList = t.toList ++ '\n' :: more.toList := by
    rw [String.toList_append, String.toList_append, List.append_assoc]
    rfl
  rw [inputLines, hchars, Layout.splitAt_append_mark, Layout.splitAt_of_not_mem h]
  -- what follows has a last piece of its own, so the text itself is never taken for the end
  obtain ⟨piece, pieces, hmore⟩ := List.exists_cons_of_ne_nil
    (Layout.splitAt_ne_nil '\n' more.toList)
  rw [inputLines, hmore, List.singleton_append, List.getLast?_cons_cons, List.dropLast_cons_cons]
  split
  · rw [List.map_cons, String.ofList_toList]
  · rw [List.map_cons, String.ofList_toList]

/-- A machine with a text as its only line of input and as the only message on its only channel. -/
def transferMachine (text : String) : Machine :=
  { Machine.initial (text ++ "\n") false none [] with
    connections := Table.empty.put "c" 0
    network :=
      { script := [], sockets := [⟨false, [text.toByteArray], false, false⟩], closed := [], log := [] } }

theorem readAs_decodeText (t : String) : ReadAs t (decodeText t) := by
  intro m rest hinput
  obtain ⟨scopes, functions, connections, input, interrupts, output, left, network⟩ := m
  cases hinput
  rfl

/-- A line is read as a whole. -/
theorem readAs_iff {t : String} {v : Value} : ReadAs t v ↔ decodeText t = v := by
  constructor
  · intro hread
    have hboth := (readAs_decodeText t { (default : Machine) with input := [t] } [] rfl).symm.trans
      (hread _ [] rfl)
    cases hboth
    rfl
  · rintro rfl
    exact readAs_decodeText t

/-- What one call gets of a text is a text exactly if the cut lies between two characters. -/
theorem firstText_eq_ok_iff {peer : Peer} (h : peer.replays = false) {t p : String} :
    peer.firstText t = .ok p ↔ FirstPiece t p := by
  rw [Peer.firstText, textOfBytes_eq_ok_iff]
  constructor
  · intro hbytes
    obtain ⟨left, hleft, -⟩ := peer.exists_cut t.toByteArray
    refine ⟨List.isPrefix_of_utf8Encode_append_eq_utf8Encode left ?_, ?_⟩
    · rw [String.utf8Encode_toList, String.utf8Encode_toList, hbytes]
      exact hleft.symm
    · rw [← String.size_toByteArray, hbytes, peer.cut_fst h, ByteArray.size_extract,
        String.size_toByteArray]
      omega
  · rintro ⟨⟨left, hleft⟩, hsize⟩
    have hjoined : t.toByteArray = p.toByteArray ++ left.utf8Encode := by
      rw [← String.utf8Encode_toList, ← hleft, List.utf8Encode_append, String.utf8Encode_toList]
    rw [peer.cut_fst h, String.size_toByteArray, ← hsize, hjoined]
    exact (ByteArray.extract_append_eq_left String.size_toByteArray.symm).symm

theorem firstPiece_of_fits {t : String} (h : t.utf8ByteSize ≤ Network.messageSize) :
    FirstPiece t t :=
  ⟨List.prefix_rfl, (Nat.min_eq_left h).symm⟩

section Messages

variable {m : Machine} {name t : String} {socket : Nat} {rest : List ByteArray}

/-- The call of `receive` on an open channel makes what it can of the first piece of the message. -/
theorem call_receive (hname : m.connections.get? name = some socket)
    (hopen : m.network.isShut socket = false)
    (hmessages : (m.network.peer socket).messages = t.toByteArray :: rest) :
    Builtin.call .receive [.text name] m =
      (ofExcept ((m.network.peer socket).firstText t) >>= fun text =>
        pure (decodeText text) : Exec Value) (m.asked socket) := by
  have hchannel : Builtin.channel (.text name) m = .ok (some socket) m := by
    rw [← hname]
    rfl
  have hsingle : Builtin.single "Executor.receive" "conn_name" [.text name] m =
      .ok (.text name) m := rfl
  refine Eq.trans (bind_of_ok _ hsingle) (Eq.trans (bind_of_ok _ hchannel) ?_)
  exact bind_congr_outcome _ (receive_of_message hopen hmessages)

end Messages

/-- **A text is received as its first piece is read**, and not at all when the cut lies within a
character. -/
theorem receivedAs_iff {t : String} {v : Value} :
    ReceivedAs t v ↔ ∃ p, FirstPiece t p ∧ ReadAs p v := by
  constructor
  · intro hreceived
    have hvalue := hreceived (transferMachine t) "c" 0 [] rfl rfl rfl rfl
    rw [call_receive rfl rfl rfl] at hvalue
    cases hfirst : ((transferMachine t).network.peer 0).firstText t with
    | ok p =>
      rw [hfirst] at hvalue
      cases hvalue
      exact ⟨p, (firstText_eq_ok_iff rfl).mp hfirst, readAs_decodeText p⟩
    | error cause =>
      rw [hfirst] at hvalue
      cases hvalue
  · rintro ⟨p, hpiece, hread⟩ m name socket rest hname hopen hreplays hmessages
    rw [call_receive hname hopen hmessages, (firstText_eq_ok_iff hreplays).mpr hpiece,
      ← readAs_iff.mp hread]
    rfl

/-- A text is received as one value at most. -/
theorem ReceivedAs.unique {t : String} {v w : Value} (hv : ReceivedAs t v) (hw : ReceivedAs t w) :
    v = w := by
  have hboth := (hv (transferMachine t) "c" 0 [] rfl rfl rfl rfl).symm.trans
    (hw (transferMachine t) "c" 0 [] rfl rfl rfl rfl)
  cases hboth
  rfl

theorem receivedAs_of_fits {t : String} (h : t.utf8ByteSize ≤ Network.messageSize) :
    ReceivedAs t (decodeText t) :=
  receivedAs_iff.mpr ⟨t, firstPiece_of_fits h, readAs_decodeText t⟩

theorem decodeText_writeInt {n : Int} (h : digitCount n ≤ intDigitLimit) :
    decodeText (writeInt n) = .int n :=
  decodeText_of_intOfText (intOfText_writeInt h)

/-- The bytes of a whole number beyond the first piece are fewer than its digits. -/
theorem excess_lt_digitCount (n : Int) :
    (writeInt n).utf8ByteSize - Network.messageSize < digitCount n := by
  have hlength := length_writeInt n
  have hpos : 0 < digitCount n := Nat.length_toDigits_pos
  rw [utf8ByteSize_writeInt, hlength, Network.messageSize]
  split <;> omega

/-- **A whole number is received as its leading digits**: as many of them as the first piece has. -/
theorem receivedAs_writeInt {n : Int} (h : digitCount n ≤ intDigitLimit) :
    ReceivedAs (writeInt n)
      (.int (n.tdiv (powTen ((writeInt n).utf8ByteSize - Network.messageSize)))) := by
  have hexcess := excess_lt_digitCount n
  obtain ⟨last, hlast, hchars⟩ := exists_writeInt_tdiv hexcess
  refine receivedAs_iff.mpr ⟨_, ⟨⟨last, hchars.symm⟩, ?_⟩, readAs_iff.mpr ?_⟩
  · have hlength := congrArg List.length hchars
    rw [List.length_append, hlast, ← utf8ByteSize_writeInt, ← utf8ByteSize_writeInt] at hlength
    omega
  · exact decodeText_writeInt (Nat.le_trans (digitCount_tdiv_le hexcess) h)

/-- **A whole number is received as itself exactly if its text fits into one piece.** -/
theorem receivedAs_int_iff {n : Int} (h : digitCount n ≤ intDigitLimit) :
    ReceivedAs (writeInt n) (.int n) ↔ (writeInt n).utf8ByteSize ≤ Network.messageSize := by
  constructor
  · intro hreceived
    by_contra hlong
    have hsame : n = n.tdiv (powTen ((writeInt n).utf8ByteSize - Network.messageSize)) :=
      Value.int.inj (hreceived.unique (receivedAs_writeInt h))
    -- Dividing by ten makes every number smaller except zero, whose text is short.
    have hne : n ≠ 0 := by
      rintro rfl
      exact hlong (by decide)
    have hten : 1 < powTen ((writeInt n).utf8ByteSize - Network.messageSize) :=
      Nat.one_lt_pow (by omega) (by decide)
    have habs := congrArg Int.natAbs hsame
    rw [Int.natAbs_tdiv, Int.natAbs_natCast] at habs
    exact Nat.ne_of_gt (Nat.div_lt_self (Int.natAbs_pos.mpr hne) hten) habs
  · intro hfits
    exact decodeText_writeInt h ▸ receivedAs_of_fits hfits

/-- **What a text is converted to is what it is read as**, unless it spells no number. -/
theorem transfer_cases (t : String) :
    (∃ number : Numeric, decodeText t = number.toValue ∧ ConvertsTo t number.toValue) ∨
      decodeText t = .text t ∧ ConvertsNot t := by
  cases hnumber : spelledNumber? t with
  | some number =>
    refine .inl ⟨number, ?_, fun m => ?_⟩
    · rw [decodeText, hnumber]
      cases number <;> rfl
    · show ofExcept (Value.text t).toNumber m = _
      rw [Value.toNumber, hnumber]
      cases number <;> rfl
  | none =>
    refine .inr ⟨?_, .notNumeric t, rfl, fun m => ?_⟩
    · rw [decodeText, hnumber]
    · show ofExcept (Value.text t).toNumber m = _
      rw [Value.toNumber, hnumber]
      rfl

theorem convertsTo_of_decodeText {t : String} {v : Value} (h : decodeText t = v)
    (hv : v ≠ .text t) : ConvertsTo t v := by
  obtain ⟨number, hnumber, hconverts⟩ | ⟨htext, -⟩ := transfer_cases t
  · rwa [← h, hnumber]
  · exact absurd (h.symm.trans htext) hv

theorem convertsTo_writeInt {n : Int} (h : digitCount n ≤ intDigitLimit) :
    ConvertsTo (writeInt n) (.int n) :=
  convertsTo_of_decodeText (decodeText_writeInt h) (by simp)

/-- **Whole numbers survive the transfer as texts, unless they are received and too long.**  Up to the
limit of 4300 digits, the line that `output` writes for a whole number is read and converted as that
number; it is received as that number exactly if it has at most 2048 bytes, and as its leading digits
otherwise.  On every text of one line `input` gives the number that the text converts to, or the text
itself, and then it does not convert; `receive` gives the same exactly if the first 2048 bytes are read
as the whole text is, as they are when there are no more. -/
theorem text_transfer (n : Int) (t : String) :
    (digitCount n ≤ 4300 → ∃ text, Prints (.int n) text ∧ IsLine text ∧
      ReadAs text (.int n) ∧ ConvertsTo text (.int n) ∧
      (ReceivedAs text (.int n) ↔ text.utf8ByteSize ≤ 2048) ∧
      ReceivedAs text (.int (n.tdiv (powTen (text.utf8ByteSize - 2048))))) ∧
    ('\n' ∉ t.toList → IsLine t ∧ ∃ v, ReadAs t v ∧
      ((∃ number : Numeric, v = number.toValue ∧ ConvertsTo t v) ∨
        v = .text t ∧ ConvertsNot t) ∧
      (ReceivedAs t v ↔ ∃ p, FirstPiece t p ∧ ReadAs p v) ∧
      (t.utf8ByteSize ≤ 2048 → ReceivedAs t v)) := by
  refine ⟨fun hn => ?_, fun ht => ?_⟩
  · exact ⟨writeInt n, Prints.of_short (tooLong_of_intOfText (intOfText_writeInt hn)),
      isLine_of_not_mem (lineFeed_not_mem_writeInt n), readAs_iff.mpr (decodeText_writeInt hn),
      convertsTo_writeInt hn, receivedAs_int_iff hn, receivedAs_writeInt hn⟩
  · refine ⟨isLine_of_not_mem ht, decodeText t, readAs_decodeText t, ?_, receivedAs_iff,
      receivedAs_of_fits⟩
    obtain ⟨number, hnumber, hconverts⟩ | htext := transfer_cases t
    · exact .inl ⟨number, hnumber, hnumber ▸ hconverts⟩
    · exact .inr htext

/-- A negative number and a word are handed on. -/
theorem text_transfer_instances :
    (digitCount (-120) ≤ 4300 ∧ ∃ text, Prints (.int (-120)) text ∧
      (∃ m, Builtin.call .input [] (transferMachine text) = .ok (.int (-120)) m) ∧
      ∃ m, Builtin.call .receive [.text "c"] (transferMachine text) = .ok (.int (-120)) m) ∧
    '\n' ∉ "- 120".toList ∧ ∃ v, ReadAs "- 120" v ∧ ReceivedAs "- 120" v := by
  obtain ⟨hnumber, htext⟩ := text_transfer (-120) "- 120"
  obtain ⟨text, hprints, hline, hread, -, hreceived, -⟩ := hnumber (by decide)
  have hinput : (transferMachine text).input = text :: inputLines "" := by
    rw [← hline, String.append_empty]
    rfl
  have hfits : text.utf8ByteSize ≤ 2048 := by
    have hshort := tooLong_of_intOfText (intOfText_writeInt (n := -120) (by decide))
    rw [hprints.unique (Prints.of_short hshort)]
    decide
  refine ⟨⟨by decide, text, hprints, ⟨_, hread _ _ hinput⟩, ?_⟩, by decide, ?_⟩
  · exact ⟨_, hreceived.mpr hfits _ "c" 0 [] rfl rfl rfl rfl⟩
  · obtain ⟨-, v, hread', -, -, hreceived'⟩ := htext (by decide)
    exact ⟨v, hread', hreceived' (by decide)⟩

/-- A one with 2048 zeros is within the limit of digits, and it is written, read and converted; it is
received with one zero less. -/
theorem long_number_received_short :
    digitCount (powTen 2048) ≤ 4300 ∧
      Prints (.int (powTen 2048)) (writeInt (powTen 2048)) ∧
      ReadAs (writeInt (powTen 2048)) (.int (powTen 2048)) ∧
      ConvertsTo (writeInt (powTen 2048)) (.int (powTen 2048)) ∧
      ReceivedAs (writeInt (powTen 2048)) (.int (powTen 2047)) ∧
      ¬ ReceivedAs (writeInt (powTen 2048)) (.int (powTen 2048)) := by
  have hcount : digitCount (powTen 2048) = 2049 := digitCount_powTen 2048
  have hlimit : digitCount (powTen 2048) ≤ intDigitLimit := hcount ▸ by decide
  have hsize : (writeInt (powTen 2048)).utf8ByteSize = 2049 := by
    rw [utf8ByteSize_writeInt, length_writeInt, hcount,
      if_neg (Int.not_lt.mpr (Int.natCast_nonneg _))]
  have hreceived := receivedAs_writeInt hlimit
  rw [hsize] at hreceived
  refine ⟨hlimit, Prints.of_short (tooLong_of_intOfText (intOfText_writeInt hlimit)),
    readAs_iff.mpr (decodeText_writeInt hlimit), convertsTo_writeInt hlimit, ?_, ?_⟩
  · rw [← tdiv_powTen_succ 2047]
    exact hreceived
  · rw [receivedAs_int_iff hlimit, hsize]
    decide

end SeqPar
