import Vsr.Types

/-!
# Journal records

The text of a write in the journal of the kvstore example: a line for each entry,
then a line with the counters.  Text is a list of characters here.
-/

set_option autoImplicit false

namespace Vsr.Journal

/-- The text of a journal record. -/
abbrev Text := List Char

/-- The counters of one write. -/
structure Header where
  viewNumber : Nat
  lastNormalView : Nat
  commitNumber : Nat
  logStart : Nat
  entriesFrom : Nat
  opNumber : Nat
  recovering : Bool
  deriving DecidableEq, Repr

/-- One line of a write, as read back. -/
inductive Record (Op : Type) where
  | entry (opNumber : Nat) (entry : LogEntry Op)
  | header (header : Header)

/-- Writes an entry as one line of text, and decodes it again. -/
structure EntryCodec (Op : Type) where
  write : LogEntry Op → Text
  decode : Text → Except String (LogEntry Op)

/-! ## Numbers -/

/-- The digit of `d`, at most nine. -/
def digit (d : Nat) : Char := Char.ofNat (48 + d)

/-- The loop of `pushNumber`: the digits of `n` go before `digits`. -/
def pushDigits : Nat → Nat → Text → Text
  | 0, _, digits => digits
  | fuel + 1, n, digits =>
      if n / 10 = 0 then digit (n % 10) :: digits
      else pushDigits fuel (n / 10) (digit (n % 10) :: digits)

/-- `n` in decimal. -/
def pushNumber (n : Nat) : Text := pushDigits (n + 1) n []

def digitsValue (value : Nat) : Text → Option Nat
  | [] => some value
  | c :: rest => if c.isDigit then digitsValue (value * 10 + (c.toNat - 48)) rest else none

/-- The number a word spells, as `str::parse` reads it. -/
def parseNumber : Text → Option Nat
  | [] => none
  | ['+'] => none
  | '+' :: digits => digitsValue 0 digits
  | digits => digitsValue 0 digits

def truncated : String := "truncated journal record"

def number : Option Text → Except String Nat
  | none => .error truncated
  | some word =>
      match parseNumber word with
      | none => .error ("bad number " ++ (String.ofList word).quote ++ " in journal")
      | some n => .ok n

/-! ## Lines and words -/

/-- A line without the carriage return its newline may follow. -/
def stripReturn (line : Text) : Text :=
  if line.getLast? = some '\r' then line.dropLast else line

/-- `str::lines`, of the rest of a text whose current line has begun with `line`. -/
def linesFrom (line : Text) : Text → List Text
  | [] => if line.isEmpty then [] else [line]
  | c :: rest =>
      if c = '\n' then stripReturn line :: linesFrom [] rest else linesFrom (line ++ [c]) rest

def lines (text : Text) : List Text := linesFrom [] text

/-- What stands before the first blank and what stands after it. -/
def splitOnce : Text → Option (Text × Text)
  | [] => none
  | c :: rest =>
      if c = ' ' then some ([], rest) else (splitOnce rest).map fun halves => (c :: halves.1, halves.2)

/-- `char::is_whitespace`. -/
def isWhitespace (c : Char) : Bool :=
  let n := c.toNat
  (9 ≤ n && n ≤ 13) || n == 0x20 || n == 0x85 || n == 0xa0 || n == 0x1680 ||
    (0x2000 ≤ n && n ≤ 0x200a) || n == 0x2028 || n == 0x2029 || n == 0x202f || n == 0x205f ||
    n == 0x3000

/-- `str::split_whitespace`, of the rest of a text whose current word is `word`. -/
def wordsFrom (word : Text) : Text → List Text
  | [] => if word.isEmpty then [] else [word]
  | c :: rest =>
      if isWhitespace c then
        if word.isEmpty then wordsFrom [] rest else word :: wordsFrom [] rest
      else wordsFrom (word ++ [c]) rest

def words (text : Text) : List Text := wordsFrom [] text

/-! ## Records -/

section Records
variable {Op : Type}

def decode (codec : EntryCodec Op) (line : Text) : Except String (Record Op) :=
  let (kind, rest) := (splitOnce line).getD (line, [])
  let words := words rest
  if kind = ['E'] then do
    let opNumber ← number words[0]?
    match splitOnce rest with
    | none => .error truncated
    | some (_, text) => return .entry opNumber (← codec.decode text)
  else if kind = ['H'] then do
    let viewNumber ← number words[0]?
    let lastNormalView ← number words[1]?
    let commitNumber ← number words[2]?
    let logStart ← number words[3]?
    let entriesFrom ← number words[4]?
    let opNumber ← number words[5]?
    let recovering ← number words[6]?
    return .header ⟨viewNumber, lastNormalView, commitNumber, logStart, entriesFrom, opNumber,
      recovering != 0⟩
  else .error ("bad journal record " ++ (String.ofList kind).quote)

/-- The lines of entries numbered from `opNumber` on. -/
def entryLines (codec : EntryCodec Op) : Nat → List (LogEntry Op) → Text
  | _, [] => []
  | opNumber, entry :: rest =>
      'E' :: ' ' :: pushNumber opNumber ++ ' ' :: codec.write entry ++
        '\n' :: entryLines codec (opNumber + 1) rest

/-- A blank and a number, for each of `numbers`. -/
def numberWords (numbers : List Nat) : Text := numbers.flatMap fun n => ' ' :: pushNumber n

def header (write : LogWrite Op) : Header where
  viewNumber := write.viewNumber
  lastNormalView := write.lastNormalView
  commitNumber := write.commitNumber
  logStart := write.logStart
  entriesFrom := write.entriesFrom
  opNumber := write.opNumber
  recovering := write.recovering

/-- The record `Journal::submit` makes of a write. -/
def record (codec : EntryCodec Op) (write : LogWrite Op) : Text :=
  entryLines codec write.entriesFrom write.entries ++
    'H' :: numberWords [write.viewNumber, write.lastNormalView, write.commitNumber, write.logStart,
      write.entriesFrom, write.opNumber, write.recovering.toNat]

/-- The entries and the counters in the lines of a record, after `written`. -/
def readLines (codec : EntryCodec Op) (written : List (Nat × LogEntry Op)) (counters : Option Header) :
    List Text → Except String (List (Nat × LogEntry Op) × Option Header)
  | [] => .ok (written, counters)
  | line :: rest =>
      if counters.isSome then .error "journal record continues after its counters"
      else
        match decode codec line with
        | .error err => .error err
        | .ok (.entry opNumber entry) => readLines codec (written ++ [(opNumber, entry)]) counters rest
        | .ok (.header latest) => readLines codec written (some latest) rest

/-- The entries and the counters of a record. -/
def readRecord (codec : EntryCodec Op) (text : Text) :
    Except String (List (Nat × LogEntry Op) × Header) :=
  match readLines codec [] none (lines text) with
  | .error err => .error err
  | .ok (_, none) => .error ("journal record without counters, as an older kvstore wrote them: " ++
      "remove the data directory and start the node with --recover")
  | .ok (written, some counters) => .ok (written, counters)

end Records

/-! ## Reading back what was written -/

theorem digit_isDigit : ∀ {d : Nat}, d < 10 → (digit d).isDigit = true := by
  decide

theorem digit_toNat : ∀ {d : Nat}, d < 10 → (digit d).toNat - 48 = d := by
  decide

theorem digit_plain {c : Char} (isDigit : c.isDigit = true) :
    c ≠ ' ' ∧ c ≠ '\n' ∧ c ≠ '+' ∧ isWhitespace c = false := by
  have bounds : 48 ≤ c.toNat ∧ c.toNat ≤ 57 := by
    simp only [Char.isDigit, Bool.and_eq_true, decide_eq_true_eq] at isDigit
    exact isDigit
  refine ⟨?_, ?_, ?_, ?_⟩
  · rintro rfl
    exact absurd bounds.1 (by decide)
  · rintro rfl
    exact absurd bounds.1 (by decide)
  · rintro rfl
    exact absurd bounds.1 (by decide)
  · simp only [isWhitespace, Bool.or_eq_false_iff, Bool.and_eq_false_iff, beq_eq_false_iff_ne,
      decide_eq_false_iff_not]
    omega

/-- The digits of a number spell it. -/
theorem pushDigits_spells (fuel n : Nat) (tail : Text) (enough : n < fuel) :
    ∃ first digits, pushDigits fuel n tail = first :: digits ++ tail ∧
      (∀ c ∈ first :: digits, c.isDigit = true) ∧
      ∀ rest, digitsValue 0 (first :: digits ++ rest) = digitsValue n rest := by
  induction fuel generalizing n tail with
  | zero => omega
  | succ fuel ih =>
      have small : n % 10 < 10 := Nat.mod_lt _ (by omega)
      unfold pushDigits
      by_cases single : n / 10 = 0
      · rw [if_pos single]
        refine ⟨digit (n % 10), [], rfl, ?_, ?_⟩
        · intro c mem
          rw [List.mem_singleton.mp mem]
          exact digit_isDigit small
        · intro rest
          simp only [List.cons_append, List.nil_append, digitsValue, digit_isDigit small,
            digit_toNat small, if_true]
          congr 1
          omega
      · rw [if_neg single]
        obtain ⟨first, digits, isText, areDigits, spells⟩ :=
          ih (n / 10) (digit (n % 10) :: tail) (by omega)
        refine ⟨first, digits ++ [digit (n % 10)], by simp [isText], ?_, ?_⟩
        · intro c mem
          rw [← List.cons_append, List.mem_append] at mem
          rcases mem with before | isLast
          · exact areDigits c before
          · rw [List.mem_singleton.mp isLast]
            exact digit_isDigit small
        · intro rest
          have step := spells (digit (n % 10) :: rest)
          simp only [digitsValue, digit_isDigit small, digit_toNat small, if_true] at step
          have whole : n / 10 * 10 + n % 10 = n := by omega
          rw [whole] at step
          simpa using step

theorem pushNumber_spells (n : Nat) :
    ∃ first digits, pushNumber n = first :: digits ∧ (∀ c ∈ first :: digits, c.isDigit = true) ∧
      digitsValue 0 (first :: digits) = some n := by
  obtain ⟨first, digits, isText, areDigits, spells⟩ := pushDigits_spells (n + 1) n [] (by omega)
  refine ⟨first, digits, isText.trans (List.append_nil _), areDigits, ?_⟩
  simpa [digitsValue] using spells []

theorem pushNumber_ne_nil (n : Nat) : pushNumber n ≠ [] := by
  obtain ⟨first, digits, isText, _⟩ := pushNumber_spells n
  simp [isText]

theorem pushNumber_isDigit {n : Nat} {c : Char} (mem : c ∈ pushNumber n) : c.isDigit = true := by
  obtain ⟨first, digits, isText, areDigits, _⟩ := pushNumber_spells n
  rw [isText] at mem
  exact areDigits c mem

theorem parseNumber_pushNumber (n : Nat) : parseNumber (pushNumber n) = some n := by
  obtain ⟨first, digits, isText, areDigits, spells⟩ := pushNumber_spells n
  have unsigned : first ≠ '+' := (digit_plain (areDigits first List.mem_cons_self)).2.2.1
  rw [isText, ← spells]
  cases digits with
  | nil =>
      unfold parseNumber
      split <;> simp_all
  | cons second rest =>
      unfold parseNumber
      split <;> simp_all

@[simp] theorem number_pushNumber (n : Nat) : number (some (pushNumber n)) = .ok n := by
  simp [number, parseNumber_pushNumber]

theorem linesFrom_append {text : Text} (oneLine : '\n' ∉ text) (line rest : Text) :
    linesFrom line (text ++ rest) = linesFrom (line ++ text) rest := by
  induction text generalizing line with
  | nil => simp
  | cons c text ih =>
      obtain ⟨notNewline, oneLine⟩ := not_or.mp (fun mem => oneLine (List.mem_cons.mpr mem))
      rw [List.cons_append, linesFrom, if_neg (Ne.symm notNewline), ih oneLine]
      simp

theorem splitOnce_append {text : Text} (noBlank : ' ' ∉ text) (rest : Text) :
    splitOnce (text ++ ' ' :: rest) = some (text, rest) := by
  induction text with
  | nil => simp [splitOnce]
  | cons c text ih =>
      obtain ⟨notBlank, noBlank⟩ := not_or.mp (fun mem => noBlank (List.mem_cons.mpr mem))
      rw [List.cons_append, splitOnce, if_neg (Ne.symm notBlank), ih noBlank]
      rfl

theorem wordsFrom_append {text : Text} (oneWord : ∀ c ∈ text, isWhitespace c = false)
    (word rest : Text) : wordsFrom word (text ++ rest) = wordsFrom (word ++ text) rest := by
  induction text generalizing word with
  | nil => simp
  | cons c text ih =>
      have isPlain := oneWord c List.mem_cons_self
      rw [List.cons_append, wordsFrom, isPlain]
      rw [if_neg (by simp), ih fun other mem => oneWord other (List.mem_cons_of_mem _ mem)]
      simp

theorem pushNumber_plain (n : Nat) : ' ' ∉ pushNumber n ∧ '\n' ∉ pushNumber n ∧
    ∀ c ∈ pushNumber n, isWhitespace c = false := by
  refine ⟨fun mem => ?_, fun mem => ?_, fun c mem => ?_⟩
  · exact absurd rfl (digit_plain (pushNumber_isDigit mem)).1
  · exact absurd rfl (digit_plain (pushNumber_isDigit mem)).2.1
  · exact (digit_plain (pushNumber_isDigit mem)).2.2.2

/-- The words of numbers written after one another. -/
theorem wordsFrom_numberWords (numbers : List Nat) (n : Nat) :
    wordsFrom (pushNumber n) (numberWords numbers) = pushNumber n :: numbers.map pushNumber := by
  induction numbers generalizing n with
  | nil => simp [numberWords, wordsFrom, pushNumber_ne_nil]
  | cons next rest ih =>
      have unfolded : numberWords (next :: rest) = ' ' :: (pushNumber next ++ numberWords rest) := rfl
      have blank : isWhitespace ' ' = true := rfl
      rw [unfolded, wordsFrom, blank, if_pos rfl, if_neg (by simp [pushNumber_ne_nil]),
        wordsFrom_append (pushNumber_plain next).2.2, List.nil_append, ih, List.map_cons]

/-- What a journal needs of the codec it is given: it writes one line, which does
not end like the line before a newline may, and decodes it again. -/
structure EntryCodec.Lawful {Op : Type} (codec : EntryCodec Op) : Prop where
  oneLine : ∀ entry, '\n' ∉ codec.write entry
  noReturn : ∀ entry, (codec.write entry).getLast? ≠ some '\r'
  decodes : ∀ entry, codec.decode (codec.write entry) = .ok entry

section RoundTrip
variable {Op : Type} {codec : EntryCodec Op}

theorem decode_entryLine (lawful : codec.Lawful) (opNumber : Nat) (entry : LogEntry Op) :
    decode codec ('E' :: ' ' :: pushNumber opNumber ++ ' ' :: codec.write entry) =
      .ok (.entry opNumber entry) := by
  have kind : splitOnce ('E' :: ' ' :: pushNumber opNumber ++ ' ' :: codec.write entry) =
      some (['E'], pushNumber opNumber ++ ' ' :: codec.write entry) := by
    simp [splitOnce]
  have first : (words (pushNumber opNumber ++ ' ' :: codec.write entry))[0]? =
      some (pushNumber opNumber) := by
    have blank : isWhitespace ' ' = true := rfl
    rw [words, wordsFrom_append (pushNumber_plain opNumber).2.2, List.nil_append, wordsFrom, blank,
      if_pos rfl, if_neg (by simp [pushNumber_ne_nil])]
    rfl
  unfold decode
  simp only [kind, Option.getD_some, first, number_pushNumber,
    splitOnce_append (pushNumber_plain opNumber).1, lawful.decodes]
  rfl

theorem decode_headerLine (write : LogWrite Op) :
    decode codec ('H' :: numberWords [write.viewNumber, write.lastNormalView, write.commitNumber,
      write.logStart, write.entriesFrom, write.opNumber, write.recovering.toNat]) =
      .ok (.header (header write)) := by
  have kind : ∀ first rest, splitOnce ('H' :: numberWords (first :: rest)) =
      some (['H'], pushNumber first ++ numberWords rest) := by
    intro first rest
    simp [splitOnce, numberWords]
  have read : ∀ first rest, words (pushNumber first ++ numberWords rest) =
      (first :: rest).map pushNumber := by
    intro first rest
    rw [words, wordsFrom_append (pushNumber_plain first).2.2, List.nil_append,
      wordsFrom_numberWords, List.map_cons]
  have flag : (write.recovering.toNat != 0) = write.recovering := by
    cases write.recovering <;> rfl
  unfold decode
  rw [kind]
  simp only [Option.getD_some, read, List.map_cons, List.map_nil, List.getElem?_cons_zero,
    List.getElem?_cons_succ, number_pushNumber]
  show Except.ok (Record.header ⟨_, _, _, _, _, _, write.recovering.toNat != 0⟩) = _
  rw [flag]
  rfl

/-- The entries numbered from `opNumber` on. -/
def numbered : Nat → List (LogEntry Op) → List (Nat × LogEntry Op)
  | _, [] => []
  | opNumber, entry :: rest => (opNumber, entry) :: numbered (opNumber + 1) rest

theorem readLines_entryLines (lawful : codec.Lawful) (opNumber : Nat) (entries : List (LogEntry Op))
    (written : List (Nat × LogEntry Op)) (rest : Text) :
    readLines codec written none (linesFrom [] (entryLines codec opNumber entries ++ rest)) =
      readLines codec (written ++ numbered opNumber entries) none (linesFrom [] rest) := by
  induction entries generalizing opNumber written with
  | nil => simp [entryLines, numbered]
  | cons entry entries ih =>
      have oneLine : '\n' ∉ 'E' :: ' ' :: pushNumber opNumber ++ ' ' :: codec.write entry := by
        simp [(pushNumber_plain opNumber).2.1, lawful.oneLine entry]
      have kept : stripReturn ('E' :: ' ' :: pushNumber opNumber ++ ' ' :: codec.write entry) =
          'E' :: ' ' :: pushNumber opNumber ++ ' ' :: codec.write entry := by
        refine if_neg fun isReturn => ?_
        rw [List.getLast?_append, List.getLast?_cons] at isReturn
        have last := lawful.noReturn entry
        cases isLast : (codec.write entry).getLast? with
        | none => simp [isLast] at isReturn
        | some c =>
            rw [isLast] at isReturn last
            exact last (by simpa using isReturn)
      have split : entryLines codec opNumber (entry :: entries) ++ rest =
          ('E' :: ' ' :: pushNumber opNumber ++ ' ' :: codec.write entry) ++
            '\n' :: (entryLines codec (opNumber + 1) entries ++ rest) := by
        simp [entryLines]
      rw [split, linesFrom_append oneLine, List.nil_append, linesFrom, if_pos rfl, kept, readLines,
        if_neg (by simp), decode_entryLine lawful]
      dsimp only
      rw [ih, numbered, List.append_assoc, List.singleton_append]

/-- A record reads back as the write it was made of. -/
theorem readRecord_record (lawful : codec.Lawful) (write : LogWrite Op) :
    readRecord codec (record codec write) =
      .ok (numbered write.entriesFrom write.entries, header write) := by
  have oneLine : ∀ numbers, '\n' ∉ 'H' :: numberWords numbers := by
    intro numbers
    simp only [numberWords, List.mem_cons, List.mem_flatMap, not_or, not_exists, not_and]
    exact ⟨by decide, fun n _ => ⟨by decide, (pushNumber_plain n).2.1⟩⟩
  have last : ∀ numbers, linesFrom [] ('H' :: numberWords numbers) = ['H' :: numberWords numbers] := by
    intro numbers
    rw [← List.append_nil ('H' :: numberWords numbers), linesFrom_append (oneLine numbers)]
    simp [linesFrom]
  unfold readRecord record lines
  rw [readLines_entryLines lawful, List.nil_append, last, readLines, if_neg (by simp),
    decode_headerLine]
  rfl

end RoundTrip

end Vsr.Journal
